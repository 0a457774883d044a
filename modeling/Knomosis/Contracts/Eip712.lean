import Knomosis.Contracts.Evm

/-!
# Typed data that users and adjudicators sign

The digest of a typed message: a domain that names the chain and the contract, a
struct hash over the fields, and the two together behind a fixed head.  A domain
carries the name of its use, so a signature made for one use has another digest
in the other.
-/

namespace Knomosis.Contracts

open Lib

variable [Keccak]

def asciiBytes (s : String) : List UInt8 := s.toList.map (fun c => UInt8.ofNat c.toNat)

def wordBytes (n : ℕ) : List UInt8 := beBytes 32 n

def addressBytes (a : Address) : List UInt8 := beBytes 20 a.val

/-- The address in the low bytes of a hash. -/
def addressOf (h : Bytes32) : Address := Fin.ofNat (2 ^ 160) h.toNat

namespace KnomosisEip712

def domainTypeHash : Bytes32 :=
  keccak256 (asciiBytes ("EIP712Domain(string name,string version,uint256 chainId," ++
    "uint256 rollupId,bytes verifyingContract)"))

def knomosisActionTypeHash : Bytes32 :=
  keccak256 (asciiBytes ("KnomosisAction(bytes32 actionHash,uint64 signer,uint64 nonce," ++
    "bytes deploymentId)"))

def domainSeparator (name version : String) (chainId rollupId : ℕ)
    (verifyingContract : Address) : Bytes32 :=
  keccak256 (bytes32Bytes domainTypeHash ++ bytes32Bytes (keccak256 (asciiBytes name)) ++
    bytes32Bytes (keccak256 (asciiBytes version)) ++ wordBytes chainId ++ wordBytes rollupId ++
    bytes32Bytes (keccak256 (addressBytes verifyingContract)))

def actionStructHash (actionHash : Bytes32) (signer nonce : ℕ) (deploymentId : Bytes32) : Bytes32 :=
  keccak256 (bytes32Bytes knomosisActionTypeHash ++ bytes32Bytes actionHash ++ wordBytes signer ++
    wordBytes nonce ++ bytes32Bytes (keccak256 (bytes32Bytes deploymentId)))

def digest (domainSeparator structHash : Bytes32) : Bytes32 :=
  keccak256 ([0x19, 0x01] ++ bytes32Bytes domainSeparator ++ bytes32Bytes structHash)

end KnomosisEip712

/-- The chain that actions are signed for, by the chain that the bridge settles to. -/
def l2ChainId (l1ChainId : ℕ) : ℕ := if l1ChainId = 1 then 8357 else 83572

end Knomosis.Contracts
