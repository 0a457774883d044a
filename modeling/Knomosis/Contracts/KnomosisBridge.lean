import Knomosis.Contracts.CBEDecode
import Knomosis.Contracts.Eip712
import Knomosis.Contracts.StateRootSubmission
import Knomosis.Smt.SmtVerifier

/-!
# KnomosisBridge

The part of the bridge that keeps state roots and redeems withdrawals.  A root is
recorded under the log index it covers up to; reverted roots are described by one
floor and one ceiling for all reverts so far.  A withdrawal is redeemed against a
root that is finalised: the caller brings the encoded withdrawal and a proof of its
place in the tree of pending withdrawals.
-/

namespace Knomosis.Contracts

open Lib CBEDecode

inductive BridgeError where
  | disputeCooldown
  | tvlCapReached
  | migrationActivated
  | nonMonotonic
  | invalidSignatureLength
  | ecdsa (e : EcdsaError)
  | notAttestor
  | notDisputeVerifier
  | reentrantCall
  | cbe (e : CbeError)
  | invalidRecipient
  | unknownStateRoot
  | stateRootReverted
  | preFinalisation
  | alreadyRedeemed
  | invalidProof
  | smt (e : Smt.SmtError)
  | bridgeAccountingMismatch (totalLockedValue amount : ℕ)
  | unsupportedResource
deriving DecidableEq

structure BridgeConfig where
  chainId : ℕ
  self : Address
  deploymentId : Bytes32
  attestor : Address
  disputeVerifier : Address
  faultProofRollbackAuthority : Address
  disputeWindowBlocks : ℕ
  cooldownBlocks : ℕ
  tvlCap : ℕ
  boldEnabled : Bool
  resourceTokens : ℕ → Address

structure StateRootRecord where
  root : Bytes32
  logIndexHigh : ℕ
  submittedAtBlock : ℕ
deriving DecidableEq

structure Bridge where
  stateRoots : ℕ → Option StateRootRecord
  latestSubmittedLogIndexHigh : ℕ
  latestStateRootSubmittedAtBlock : ℕ
  lastUpheldDisputeBlock : ℕ
  lowestRevertedLogIndexHigh : ℕ
  revertedThroughLogIndexHigh : ℕ
  withdrawalLeafRedeemed : Bytes32 → Bool
  totalLockedValue : ℕ
  boldTotalLockedValue : ℕ
  entered : Bool

def Bridge.deployed : Bridge where
  stateRoots := fun _ => none
  latestSubmittedLogIndexHigh := 0
  latestStateRootSubmittedAtBlock := 0
  lastUpheldDisputeBlock := 0
  lowestRevertedLogIndexHigh := 2 ^ 64 - 1
  revertedThroughLogIndexHigh := 0
  withdrawalLeafRedeemed := fun _ => false
  totalLockedValue := 0
  boldTotalLockedValue := 0
  entered := false

namespace Bridge

section StateRoots

variable (cfg : BridgeConfig) (b : Bridge)

/-- The breakers that apply to every guarded call; `migrated` is what the migration answers. -/
def requireOperationalBreakersOpen (block : Block) (migrated : Bool) : Except BridgeError Unit :=
  if b.lastUpheldDisputeBlock ≠ 0 ∧
      block.number < b.lastUpheldDisputeBlock + cfg.cooldownBlocks then
    .error .disputeCooldown
  else if cfg.tvlCap < b.totalLockedValue then .error .tvlCapReached
  else if migrated then .error .migrationActivated
  else .ok ()

def isStateRootReverted (logIndexHigh : ℕ) : Bool :=
  b.lowestRevertedLogIndexHigh ≤ logIndexHigh && logIndexHigh ≤ b.revertedThroughLogIndexHigh

def isStateRootFinalised (block : Block) (logIndexHigh : ℕ) : Bool :=
  match b.stateRoots logIndexHigh with
  | none => false
  | some rec =>
    !b.isStateRootReverted logIndexHigh &&
      rec.submittedAtBlock + cfg.disputeWindowBlocks ≤ block.number

section Submission

variable [Keccak] [Ecdsa]

/-- The digest that the attestor signs for a root. -/
def stateRootDigest (root : Bytes32) (logIndexHigh : ℕ) : Bytes32 :=
  KnomosisEip712.digest
    (KnomosisEip712.domainSeparator "KnomosisBridge" "1" cfg.chainId 0 cfg.self)
    (keccak256 (
      bytes32Bytes (keccak256 (asciiBytes
        "StateRoot(bytes32 root,uint64 logIndexHigh,bytes32 deploymentId)")) ++
      bytes32Bytes root ++ wordBytes logIndexHigh ++ bytes32Bytes cfg.deploymentId))

def submitStateRoot (block : Block) (migrated : Bool) (root : Bytes32) (logIndexHigh : ℕ)
    (attestorSig : List UInt8) : Except BridgeError Bridge := do
  b.requireOperationalBreakersOpen cfg block migrated
  if logIndexHigh ≤ b.latestSubmittedLogIndexHigh then .error .nonMonotonic
  else if attestorSig.length ≠ 65 then .error .invalidSignatureLength
  else do
    let recovered ← (Ecdsa.recover (stateRootDigest cfg root logIndexHigh) attestorSig).mapError
      .ecdsa
    if recovered ≠ cfg.attestor then .error .notAttestor
    else .ok { b with
      latestSubmittedLogIndexHigh := logIndexHigh
      latestStateRootSubmittedAtBlock := block.number
      stateRoots := Function.update b.stateRoots logIndexHigh
        (some ⟨root, logIndexHigh, block.number⟩) }

end Submission

/-- The floor only falls, the ceiling rises to the last root submitted, and the cooldown starts. -/
def revertToPriorRoot (sender : Address) (block : Block) (disputedLogIndexHigh : ℕ) :
    Except BridgeError Bridge :=
  if sender ≠ cfg.disputeVerifier ∧ sender ≠ cfg.faultProofRollbackAuthority then
    .error .notDisputeVerifier
  else .ok { b with
    lowestRevertedLogIndexHigh :=
      if disputedLogIndexHigh < b.lowestRevertedLogIndexHigh then disputedLogIndexHigh
      else b.lowestRevertedLogIndexHigh
    revertedThroughLogIndexHigh :=
      if b.revertedThroughLogIndexHigh < b.latestSubmittedLogIndexHigh then
        b.latestSubmittedLogIndexHigh
      else b.revertedThroughLogIndexHigh
    lastUpheldDisputeBlock := block.number }

end StateRoots

theorem submitStateRoot_eq_ok [Keccak] [Ecdsa] {cfg : BridgeConfig} {b b' : Bridge}
    {block : Block} {migrated : Bool} {root : Bytes32} {k : ℕ} {sig : List UInt8}
    (h : b.submitStateRoot cfg block migrated root k sig = .ok b') :
    b.latestSubmittedLogIndexHigh < k ∧ b' = { b with
        latestSubmittedLogIndexHigh := k
        latestStateRootSubmittedAtBlock := block.number
        stateRoots := Function.update b.stateRoots k (some ⟨root, k, block.number⟩) } := by
  obtain ⟨-, -, h⟩ := bind_eq_ok.mp h
  obtain ⟨hlt, h⟩ := guard_eq_ok.mp h
  obtain ⟨-, h⟩ := guard_eq_ok.mp h
  obtain ⟨recovered, -, h⟩ := bind_eq_ok.mp h
  obtain ⟨-, h⟩ := guard_eq_ok.mp h
  exact ⟨not_le.mp hlt, (Except.ok.inj h).symm⟩

section Withdrawals

def RESOURCE_ID_NATIVE_ETH : ℕ := 0
def RESOURCE_ID_BOLD : ℕ := 1

structure PendingWithdrawal where
  resourceId : ℕ
  recipientL1 : Address
  amount : ℕ
  l2LogIndex : ℕ
  wdId : ℕ
deriving DecidableEq

structure WithdrawalProof where
  leaf : List UInt8
  index : ℕ
  siblings : List (List UInt8)
deriving DecidableEq

def decodePendingWithdrawal (leafBlob : List UInt8) : Except CbeError PendingWithdrawal := do
  let (resourceId, off) ← readUint leafBlob 0
  let (recipientL1, off) ← readAddressExact leafBlob off
  let (amount, off) ← readAmount leafBlob off
  let (l2LogIndex, off) ← readUint leafBlob off
  let (wdId, off) ← readUint leafBlob off
  assertFullyConsumed leafBlob off
  .ok ⟨resourceId, recipientL1, amount, l2LogIndex, wdId⟩

def readSiblings (proofBlob : List UInt8) : ℕ → ℕ → Except CbeError (List (List UInt8) × ℕ)
  | 0, off => .ok ([], off)
  | count + 1, off => do
    let (sibling, off) ← readBytes proofBlob off
    let (siblings, off) ← readSiblings proofBlob count off
    .ok (sibling :: siblings, off)

def decodeWithdrawalProof (proofBlob : List UInt8) : Except BridgeError WithdrawalProof := do
  let (leaf, off) ← (readBytes proofBlob 0).mapError .cbe
  let (index, off) ← (readUint proofBlob off).mapError .cbe
  let (count, off) ← (readArrayHead proofBlob off).mapError .cbe
  if count ≠ Smt.SMT_HEIGHT then .error .invalidProof
  else do
    let (siblings, off) ← (readSiblings proofBlob Smt.SMT_HEIGHT off).mapError .cbe
    (assertFullyConsumed proofBlob off).mapError .cbe
    .ok ⟨leaf, index, siblings⟩

variable [Keccak] (cfg : BridgeConfig) (b : Bridge)

/-- The finalised root that a withdrawal is redeemed against. -/
def redeemableRoot (block : Block) (atLogIndexHigh : ℕ) : Except BridgeError Bytes32 :=
  match b.stateRoots atLogIndexHigh with
  | none => .error .unknownStateRoot
  | some rec =>
    if !b.isStateRootFinalised cfg block atLogIndexHigh then
      if b.isStateRootReverted atLogIndexHigh then .error .stateRootReverted
      else .error .preFinalisation
    else .ok rec.root

/-- Up to the transfer; what is paid is the withdrawal that is returned. -/
def withdrawWithProof (block : Block) (atLogIndexHigh : ℕ) (proofBlob leafBlob : List UInt8) :
    Except BridgeError (Bridge × PendingWithdrawal) :=
  if b.entered then .error .reentrantCall
  else do
    let wd ← (decodePendingWithdrawal leafBlob).mapError .cbe
    if wd.recipientL1 = 0 then .error .invalidRecipient
    else do
      let root ← b.redeemableRoot cfg block atLogIndexHigh
      let leafHash := keccak256 leafBlob
      if b.withdrawalLeafRedeemed leafHash then .error .alreadyRedeemed
      else do
        let proof ← decodeWithdrawalProof proofBlob
        if keccak256 proof.leaf ≠ leafHash then .error .invalidProof
        else if proof.index ≠ wd.wdId then .error .invalidProof
        else do
          let verified ← (Smt.verifyProof proof.index proof.leaf proof.siblings root).mapError .smt
          if !verified then .error .invalidProof
          else if b.totalLockedValue < wd.amount then
            .error (.bridgeAccountingMismatch b.totalLockedValue wd.amount)
          else if cfg.boldEnabled ∧ wd.resourceId = RESOURCE_ID_BOLD ∧
              b.boldTotalLockedValue < wd.amount then
            .error (.bridgeAccountingMismatch b.boldTotalLockedValue wd.amount)
          else if wd.resourceId ≠ RESOURCE_ID_NATIVE_ETH ∧ cfg.resourceTokens wd.resourceId = 0 then
            .error .unsupportedResource
          else .ok ({ b with
            withdrawalLeafRedeemed := Function.update b.withdrawalLeafRedeemed leafHash true
            totalLockedValue := b.totalLockedValue - wd.amount
            boldTotalLockedValue :=
              if cfg.boldEnabled ∧ wd.resourceId = RESOURCE_ID_BOLD then
                b.boldTotalLockedValue - wd.amount
              else b.boldTotalLockedValue
            entered := true }, wd)

end Withdrawals

end Bridge

end Knomosis.Contracts
