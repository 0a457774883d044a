import Knomosis.Lib.Bits

/-!
# The machine below the contracts

Addresses, words, the hash function and calldata, as the contracts use them.  A
word read from calldata may reach past the bytes argument it starts in; what
stands there is part of the model, so that a result that does not depend on it
says so.
-/

namespace Knomosis.Contracts

open Lib

abbrev Address := Fin (2 ^ 160)

instance address_neZero : NeZero (2 ^ 160 : ℕ) := inferInstance

/-- 256-bit words that the contracts only compare and hash. -/
abbrev Bytes32 := BitVec 256

class Keccak where
  keccak256 : List UInt8 → Bytes32

export Keccak (keccak256)

/-- A hash function for the runs on fixed inputs. -/
abbrev zeroKeccak : Keccak where
  keccak256 := fun _ => 0

inductive EcdsaError where
  | invalidSignature
  | invalidSignatureLength (length : ℕ)
  | invalidSignatureS (s : Bytes32)
deriving DecidableEq

/-- The signature library: the address that signed a digest, or a revert. -/
class Ecdsa where
  recover : Bytes32 → List UInt8 → Except EcdsaError Address

/-- Signatures that name their signer in the first byte, with zero for a malformed one. -/
abbrev firstByteEcdsa : Ecdsa where
  recover := fun _ sig =>
    match sig with
    | [] => .error (.invalidSignatureLength 0)
    | 0 :: _ => .error .invalidSignature
    | b :: _ => .ok (Fin.ofNat (2 ^ 160) b.toNat)

def bytes32Bytes (b : Bytes32) : List UInt8 :=
  (List.range 32).map (fun i => UInt8.ofNat (b.toNat / 256 ^ (31 - i)))

theorem bytes32Bytes_eq (b : Bytes32) : bytes32Bytes b = beBytes 32 b.toNat := rfl

@[simp] theorem bytes32Bytes_length (b : Bytes32) : (bytes32Bytes b).length = 32 := by
  simp [bytes32Bytes]

theorem beNat_bytes32Bytes (b : Bytes32) : beNat (bytes32Bytes b) = b.toNat := by
  rw [bytes32Bytes_eq, beNat_beBytes]
  exact Nat.mod_eq_of_lt b.isLt

def bytesWord (bs : List UInt8) : Bytes32 := BitVec.ofNat 256 (beNat bs)

theorem bytes32Bytes_bytesWord {bs : List UInt8} (hlen : bs.length = 32) :
    bytes32Bytes (bytesWord bs) = bs := by
  have hlt : beNat bs < 2 ^ 256 := by simpa [hlen] using beNat_lt bs
  rw [bytes32Bytes_eq, bytesWord, BitVec.toNat_ofNat, Nat.mod_eq_of_lt hlt, ← hlen]
  exact beBytes_beNat bs

theorem bytesWord_bytes32Bytes (b : Bytes32) : bytesWord (bytes32Bytes b) = b := by
  rw [bytesWord, beNat_bytes32Bytes, BitVec.ofNat_toNat, BitVec.setWidth_eq]

theorem bytes32Bytes_injective : Function.Injective bytes32Bytes :=
  Function.LeftInverse.injective bytesWord_bytes32Bytes

def hashPair [Keccak] (a b : Bytes32) : Bytes32 := keccak256 (bytes32Bytes a ++ bytes32Bytes b)

/-- A `bytes calldata` argument, with the calldata that follows it. -/
structure Calldata where
  bytes : List UInt8
  beyond : ℕ → UInt8

namespace Calldata

def byteAt (c : Calldata) (i : ℕ) : UInt8 := c.bytes.getD i (c.beyond (i - c.bytes.length))

/-- `calldataload`, at an offset from the argument's start. -/
def load (c : Calldata) (off : ℕ) : Bytes32 :=
  bytesWord ((List.range 32).map (fun p => c.byteAt (off + p)))

end Calldata

end Knomosis.Contracts
