import Knomosis.Kernel.Encoding

/-!
# The encoder of the ingest service

The service that brings the events of the chain below to the kernel signs actions
itself.  It knows all actions but the disputes, the verdicts and the declarations
of policies, has its own type for them and writes them directly.
-/

namespace Knomosis.Signing

open Lib Smt

namespace L1Ingest

/-- Amounts are words of 256 bits. -/
abbrev Amount := BitVec 256

abbrev Nonce := BitVec 128

/-- An address is twenty bytes. -/
structure EthAddress where
  bytes : Bytes
  length_eq : bytes.length = 20

/-- The actions that the service can submit. -/
inductive Action where
  | transfer (r sender receiver : UInt64) (amount : Amount)
  | mint (r recipient : UInt64) (amount : Amount)
  | burn (r fromActor : UInt64) (amount : Amount)
  | freezeResource (r : UInt64)
  | replaceKey (actor : UInt64) (newKey : Bytes)
  | reward (r recipient : UInt64) (amount : Amount)
  | distributeOthers (r excluded : UInt64) (amount : Amount)
  | proportionalDilute (r excluded : UInt64) (totalReward : Amount)
  | disputeWithdraw (idx : UInt64)
  | rollback (targetIdx : UInt64)
  | registerIdentity (actor : UInt64) (pk : Bytes)
  | deposit (r recipient : UInt64) (amount : Amount) (depositId : UInt64)
  | withdraw (r sender : UInt64) (amount : Amount) (recipientL1 : EthAddress)
  | revokeLocalPolicy
  | faultProofChallenge (bindingHash : Bytes) (disputedStartIdx disputedEndIdx : UInt64)
      (challengerCommit : Bytes)
  | faultProofResolution (bindingHash : Bytes) (gameId : BitVec 128) (winner revertFromIdx : UInt64)
  | depositWithFee (r recipient poolActor : UInt64) (userAmount poolAmount : Amount)
      (budgetGrant depositId : UInt64) (seedAmount : Amount)
  | topUpActionBudget (gasResource : UInt64) (gasAmount : Amount)
      (budgetIncrement poolActor : UInt64)
  | topUpActionBudgetFor (recipient gasResource : UInt64) (gasAmount : Amount)
      (budgetIncrement poolActor : UInt64)
  | claimBudgetRefund (gasResource budgetUnits : UInt64) (weiPerBudgetUnit : Amount)
      (poolActor : UInt64)
  | reclaimAmmReserves (r : UInt64) (amount : Amount) (reserveActor poolActor : UInt64)
  | reserveSwap (fromResource toResource user : UInt64) (amountIn minAmountOut : Amount)
      (reserveActor : UInt64)

/-- The index of the kind, as the kernel numbers it. -/
def Action.tag : Action → UInt64
  | transfer .. => 0
  | mint .. => 1
  | burn .. => 2
  | freezeResource .. => 3
  | replaceKey .. => 4
  | reward .. => 5
  | distributeOthers .. => 6
  | proportionalDilute .. => 7
  | disputeWithdraw .. => 9
  | rollback .. => 11
  | registerIdentity .. => 12
  | deposit .. => 13
  | withdraw .. => 14
  | revokeLocalPolicy => 16
  | faultProofChallenge .. => 17
  | faultProofResolution .. => 18
  | depositWithFee .. => 19
  | topUpActionBudget .. => 20
  | topUpActionBudgetFor .. => 21
  | claimBudgetRefund .. => 22
  | reclaimAmmReserves .. => 24
  | reserveSwap .. => 25

/-- A nonce or a byte string that its head of 64 bits cannot hold. -/
inductive EncodeError where
  | fieldExceedsBound (value : BitVec 128)
  | lengthExceedsBound (len : ℕ)
deriving DecidableEq

def CBE_TAG_UINT : UInt8 := 0x00
def CBE_TAG_BYTES : UInt8 := 0x02
def CBE_TAG_AMOUNT : UInt8 := 0x06

/-- The domain in front of what is signed. -/
def SIGNED_ACTION_DOMAIN : String := "legalkernel/v1/signedaction"

/-- The bytes of an ASCII string. -/
def asBytes (s : String) : Bytes := s.toList.map (fun c => UInt8.ofNat c.toNat)

/-- A number, in eight bytes behind its tag. -/
def encodeU64 (value : UInt64) : Bytes := CBE_TAG_UINT :: leBytes 8 value.toNat

/-- An amount, in 32 bytes behind its tag. -/
def encodeAmount (value : Amount) : Bytes := CBE_TAG_AMOUNT :: leBytes 32 value.toNat

/-- A wide number, if eight bytes hold it. -/
def encodeU128Checked (value : BitVec 128) : Option Bytes :=
  if 2 ^ 64 ≤ value.toNat then none else some (encodeU64 (UInt64.ofNat value.toNat))

/-- A byte string behind its length. -/
def encodeBytesChecked (bytes : Bytes) : Option Bytes :=
  if 2 ^ 64 ≤ bytes.length then none
  else some (CBE_TAG_BYTES :: leBytes 8 bytes.length ++ bytes)

/-- A nonce, or the error that it is too large. -/
def encodeNonce (nonce : BitVec 128) : Except EncodeError Bytes :=
  match encodeU128Checked nonce with
  | some bytes => .ok bytes
  | none => .error (.fieldExceedsBound nonce)

/-- A byte string, or the error that it is too long. -/
def encodeByteString (bytes : Bytes) : Except EncodeError Bytes :=
  match encodeBytesChecked bytes with
  | some out => .ok out
  | none => .error (.lengthExceedsBound bytes.length)

/-- The fields of an action, in the order of the kernel. -/
def encodeFields : Action → Except EncodeError Bytes
  | .transfer r sender receiver amount =>
    .ok (encodeU64 r ++ encodeU64 sender ++ encodeU64 receiver ++ encodeAmount amount)
  | .mint r actor amount | .reward r actor amount | .burn r actor amount
  | .distributeOthers r actor amount | .proportionalDilute r actor amount =>
    .ok (encodeU64 r ++ encodeU64 actor ++ encodeAmount amount)
  | .freezeResource r => .ok (encodeU64 r)
  | .replaceKey actor key | .registerIdentity actor key => do
    let key ← encodeByteString key
    .ok (encodeU64 actor ++ key)
  | .disputeWithdraw idx | .rollback idx => .ok (encodeU64 idx)
  | .deposit r recipient amount depositId =>
    .ok (encodeU64 r ++ encodeU64 recipient ++ encodeAmount amount ++ encodeU64 depositId)
  | .withdraw r sender amount recipientL1 => do
    let recipientL1 ← encodeByteString recipientL1.bytes
    .ok (encodeU64 r ++ encodeU64 sender ++ encodeAmount amount ++ recipientL1)
  | .revokeLocalPolicy => .ok []
  | .faultProofChallenge bindingHash disputedStartIdx disputedEndIdx challengerCommit => do
    let bindingHash ← encodeByteString bindingHash
    let challengerCommit ← encodeByteString challengerCommit
    .ok (bindingHash ++ encodeU64 disputedStartIdx ++ encodeU64 disputedEndIdx ++ challengerCommit)
  | .faultProofResolution bindingHash gameId winner revertFromIdx => do
    let bindingHash ← encodeByteString bindingHash
    let gameId ← encodeNonce gameId
    .ok (bindingHash ++ gameId ++ encodeU64 winner ++ encodeU64 revertFromIdx)
  | .depositWithFee r recipient poolActor userAmount poolAmount budgetGrant depositId
      seedAmount =>
      .ok (encodeU64 r ++ encodeU64 recipient ++ encodeU64 poolActor ++
        encodeAmount userAmount ++ encodeAmount poolAmount ++ encodeU64 budgetGrant ++
        encodeU64 depositId ++ encodeAmount seedAmount)
  | .topUpActionBudget gasResource gasAmount budgetIncrement poolActor =>
    .ok (encodeU64 gasResource ++ encodeAmount gasAmount ++ encodeU64 budgetIncrement ++
      encodeU64 poolActor)
  | .topUpActionBudgetFor recipient gasResource gasAmount budgetIncrement poolActor =>
    .ok (encodeU64 recipient ++ encodeU64 gasResource ++ encodeAmount gasAmount ++
      encodeU64 budgetIncrement ++ encodeU64 poolActor)
  | .claimBudgetRefund gasResource budgetUnits weiPerBudgetUnit poolActor =>
    .ok (encodeU64 gasResource ++ encodeU64 budgetUnits ++ encodeAmount weiPerBudgetUnit ++
      encodeU64 poolActor)
  | .reclaimAmmReserves r amount reserveActor poolActor =>
    .ok (encodeU64 r ++ encodeAmount amount ++ encodeU64 reserveActor ++ encodeU64 poolActor)
  | .reserveSwap fromResource toResource user amountIn minAmountOut reserveActor =>
    .ok (encodeU64 fromResource ++ encodeU64 toResource ++ encodeU64 user ++
      encodeAmount amountIn ++ encodeAmount minAmountOut ++ encodeU64 reserveActor)

/-- The tag and the fields. -/
def encodeAction (action : Action) : Except EncodeError Bytes := do
  let fields ← encodeFields action
  .ok (encodeU64 action.tag ++ fields)

/-- The bytes that the service signs. -/
def signingInput (action : Action) (signer : UInt64) (nonce : Nonce) (deploymentId : Bytes) :
    Except EncodeError Bytes := do
  let domain ← encodeByteString (asBytes SIGNED_ACTION_DOMAIN)
  let deployment ← encodeByteString deploymentId
  let action ← encodeAction action
  let nonce ← encodeNonce nonce
  .ok (domain ++ deployment ++ action ++ encodeU64 signer ++ nonce)

/-- The bytes that the service submits. -/
def encodeSignedAction (action : Action) (signer : UInt64) (nonce : Nonce) (sig : Bytes) :
    Except EncodeError Bytes := do
  let action ← encodeAction action
  let nonce ← encodeNonce nonce
  let sig ← encodeByteString sig
  .ok (action ++ encodeU64 signer ++ nonce ++ sig)

/-- The number that the twenty bytes denote. -/
def EthAddress.toKernel (a : EthAddress) : Kernel.EthAddress := Fin.ofNat (2 ^ 160) (beNat a.bytes)

/-- The action of the kernel that the service means. -/
def Action.toKernel : Action → Kernel.Action
  | transfer r sender receiver amount => .transfer r sender receiver amount.toNat
  | mint r recipient amount => .mint r recipient amount.toNat
  | burn r fromActor amount => .burn r fromActor amount.toNat
  | freezeResource r => .freezeResource r
  | replaceKey actor newKey => .replaceKey actor newKey
  | reward r recipient amount => .reward r recipient amount.toNat
  | distributeOthers r excluded amount => .distributeOthers r excluded amount.toNat
  | proportionalDilute r excluded totalReward => .proportionalDilute r excluded totalReward.toNat
  | disputeWithdraw idx => .disputeWithdraw idx.toNat
  | rollback targetIdx => .rollback targetIdx.toNat
  | registerIdentity actor pk => .registerIdentity actor pk
  | deposit r recipient amount depositId => .deposit r recipient amount.toNat depositId.toNat
  | withdraw r sender amount recipientL1 => .withdraw r sender amount.toNat recipientL1.toKernel
  | revokeLocalPolicy => .revokeLocalPolicy
  | faultProofChallenge bindingHash disputedStartIdx disputedEndIdx challengerCommit =>
    .faultProofChallenge bindingHash disputedStartIdx.toNat disputedEndIdx.toNat challengerCommit
  | faultProofResolution bindingHash gameId winner revertFromIdx =>
    .faultProofResolution bindingHash gameId.toNat winner revertFromIdx.toNat
  | depositWithFee r recipient poolActor userAmount poolAmount budgetGrant depositId seedAmount =>
    .depositWithFee r recipient poolActor userAmount.toNat poolAmount.toNat budgetGrant.toNat
      depositId.toNat seedAmount.toNat
  | topUpActionBudget gasResource gasAmount budgetIncrement poolActor =>
    .topUpActionBudget gasResource gasAmount.toNat budgetIncrement.toNat poolActor
  | topUpActionBudgetFor recipient gasResource gasAmount budgetIncrement poolActor =>
    .topUpActionBudgetFor recipient gasResource gasAmount.toNat budgetIncrement.toNat poolActor
  | claimBudgetRefund gasResource budgetUnits weiPerBudgetUnit poolActor =>
    .claimBudgetRefund gasResource budgetUnits.toNat weiPerBudgetUnit.toNat poolActor
  | reclaimAmmReserves r amount reserveActor poolActor =>
    .reclaimAmmReserves r amount.toNat reserveActor poolActor
  | reserveSwap fromResource toResource user amountIn minAmountOut reserveActor =>
    .reserveSwap fromResource toResource user amountIn.toNat minAmountOut.toNat reserveActor

section Agreement

theorem encodeU64_eq (value : UInt64) : encodeU64 value = Kernel.encodeNat value.toNat := by
  rw [Kernel.encodeNat, Kernel.cborHeadEncode, Kernel.headEncode_eq]
  rfl

theorem encodeAmount_eq (value : Amount) :
    encodeAmount value = Kernel.encodeAmount value.toNat := by
  rw [Kernel.encodeAmount, Kernel.headEncode_eq]
  rfl

theorem encodeNonce_of_lt {nonce : BitVec 128} (h : nonce.toNat < 2 ^ 64) :
    encodeNonce nonce = .ok (Kernel.encodeNat nonce.toNat) := by
  have hback : (UInt64.ofNat nonce.toNat).toNat = nonce.toNat := by
    rw [UInt64.toNat_ofNat']
    exact Nat.mod_eq_of_lt h
  rw [encodeNonce, encodeU128Checked, if_neg (by omega), encodeU64_eq, hback]

theorem encodeByteString_of_lt {bytes : Bytes} (h : bytes.length < 2 ^ 64) :
    encodeByteString bytes = .ok (Kernel.encodeBytes bytes) := by
  rw [encodeByteString, encodeBytesChecked, if_neg (by omega), Kernel.encodeBytes,
    Kernel.cborHeadEncode, Kernel.headEncode_eq]
  rfl

theorem EthAddress.encode_eq (a : EthAddress) :
    encodeByteString a.bytes = .ok (Kernel.encodeBytes (Kernel.ethAddressBytes a.toKernel)) := by
  have hlen := a.length_eq
  have hlt : beNat a.bytes < 2 ^ 160 := by simpa [hlen] using beNat_lt a.bytes
  have hback : Kernel.ethAddressBytes a.toKernel = a.bytes := by
    rw [Kernel.ethAddressBytes, EthAddress.toKernel, Fin.val_ofNat, Nat.mod_eq_of_lt hlt, ← hlen]
    exact beBytes_beNat a.bytes
  rw [hback]
  exact encodeByteString_of_lt (by omega)

theorem Action.tag_toKernel (a : Action) : a.tag.toNat = a.toKernel.tag := by cases a <;> rfl

variable {a : Action} {nonce : Nonce}

theorem encodeFields_eq (h : a.toKernel.FieldsBounded) :
    encodeFields a = .ok a.toKernel.encodeFields := by
  cases a with
  | replaceKey | registerIdentity =>
    rw [encodeFields, encodeByteString_of_lt h]
    simp [Action.toKernel, Kernel.Action.encodeFields, encodeU64_eq]
  | withdraw =>
    rw [encodeFields, EthAddress.encode_eq]
    simp [Action.toKernel, Kernel.Action.encodeFields, encodeU64_eq, encodeAmount_eq]
  | faultProofChallenge =>
    rw [encodeFields, encodeByteString_of_lt h.1, encodeByteString_of_lt h.2.2.2]
    simp [Action.toKernel, Kernel.Action.encodeFields, encodeU64_eq]
  | faultProofResolution =>
    rw [encodeFields, encodeByteString_of_lt h.1, encodeNonce_of_lt h.2.1]
    simp [Action.toKernel, Kernel.Action.encodeFields, encodeU64_eq]
  | _ =>
    simp only [encodeFields, Action.toKernel, Kernel.Action.encodeFields, encodeU64_eq,
      encodeAmount_eq]

theorem encodeAction_eq (h : a.toKernel.FieldsBounded) :
    encodeAction a = .ok a.toKernel.encode := by
  rw [encodeAction, encodeFields_eq h, encodeU64_eq, a.tag_toKernel]
  rfl

/-- The service writes signed actions as the kernel does. -/
theorem encodeSignedAction_eq {sig : Bytes} (signer : UInt64) (h : a.toKernel.FieldsBounded)
    (hnonce : nonce.toNat < 2 ^ 64) (hsig : sig.length < 2 ^ 64) :
    encodeSignedAction a signer nonce sig =
      .ok (Kernel.SignedAction.encode ⟨a.toKernel, signer, nonce.toNat, sig⟩) := by
  rw [encodeSignedAction, encodeAction_eq h, encodeNonce_of_lt hnonce, encodeByteString_of_lt hsig,
    encodeU64_eq]
  rfl

/-- The service signs the kernel's bytes. -/
theorem signingInput_eq {deploymentId : Bytes} (signer : UInt64) (h : a.toKernel.FieldsBounded)
    (hnonce : nonce.toNat < 2 ^ 64) (hid : deploymentId.length < 2 ^ 64) :
    signingInput a signer nonce deploymentId =
      .ok (Kernel.signingInput a.toKernel signer nonce.toNat deploymentId) := by
  have hdomain : asBytes SIGNED_ACTION_DOMAIN = Kernel.signedActionDomain := by decide
  rw [signingInput, hdomain, encodeByteString_of_lt (by decide), encodeByteString_of_lt hid,
    encodeAction_eq h, encodeNonce_of_lt hnonce, encodeU64_eq]
  rfl

end Agreement

end L1Ingest

end Knomosis.Signing
