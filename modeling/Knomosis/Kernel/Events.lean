import Knomosis.Kernel.Decoding

/-!
# Events

What indexers are told of an admitted action.  An event is written like an action:
its kind first, then its fields in the order of their declaration.  A local policy
goes as a byte string, so that who does not know policies can still pass over it.
The kind 21 was given up and stays unused.
-/

namespace Knomosis.Kernel

open Lib Smt

inductive Event where
  | balanceChanged (r : ResourceId) (a : ActorId) (oldV newV : Amount)
  | nonceAdvanced (a : ActorId) (oldN newN : Nonce)
  | identityRegistered (a : ActorId) (key : PublicKey)
  | identityRevoked (a : ActorId)
  | timeRecorded (t : ℕ)
  | disputeFiled (challenger : ActorId) (targetIdx : ℕ)
  | disputeWithdrawn (disputeIdx : ℕ)
  | verdictApplied (disputeIdx outcomeTag : ℕ)
  | rewardIssued (resource : ResourceId) (recipient : ActorId) (amount : Amount)
  | withdrawalRequested (resource : ResourceId) (sender : ActorId) (amount : Amount)
      (recipientL1 : EthAddress) (withdrawalId : WithdrawalId)
  | depositCredited (resource : ResourceId) (recipient : ActorId) (amount : Amount)
      (depositId : DepositId)
  | localPolicyDeclared (actor : ActorId) (policy : LocalPolicy)
  | localPolicyRevoked (actor : ActorId)
  | faultProofGameOpened (gameId : ℕ) (challenger : ActorId) (disputedStartIdx disputedEndIdx : ℕ)
      (bindingHash : Bytes)
  | faultProofBisectionStep (gameId round : ℕ) (party : ActorId) (idx : ℕ) (commit : Bytes)
  | faultProofGameSettled (gameId : ℕ) (winner loser : ActorId) (payout : Amount)
  | depositWithFeeCredited (resource : ResourceId) (recipient poolActor : ActorId)
      (userAmount poolAmount : Amount) (budgetGrant : ℕ) (depositId : DepositId)
  | actionBudgetTopUp (signer : ActorId) (gasResource : ResourceId) (gasAmount : Amount)
      (budgetIncrement : ℕ) (poolActor : ActorId)
  | gasPoolClaim (resource : ResourceId) (sequencer : ActorId) (amount : Amount)
  | delegatedActionBudgetTopUp (recipient signer : ActorId) (gasResource : ResourceId)
      (gasAmount : Amount) (budgetIncrement : ℕ) (poolActor : ActorId)
  | budgetConsumed (actor : ActorId) (amount : ℕ)
  | ammReservesReclaimed (resource : ResourceId) (amount : Amount)
      (reserveActor poolActor : ActorId)
  | reserveSwapExecuted (fromResource toResource : ResourceId) (user : ActorId)
      (amountIn amountOut : Amount) (reserveActor : ActorId)
  | reserveSeeded (resource : ResourceId) (amount : Amount) (reserveActor : ActorId)
      (depositId : DepositId)
deriving DecidableEq

namespace Event

def tag : Event → ℕ
  | balanceChanged .. => 0
  | nonceAdvanced .. => 1
  | identityRegistered .. => 2
  | identityRevoked .. => 3
  | timeRecorded .. => 4
  | disputeFiled .. => 5
  | disputeWithdrawn .. => 6
  | verdictApplied .. => 7
  | rewardIssued .. => 8
  | withdrawalRequested .. => 9
  | depositCredited .. => 10
  | localPolicyDeclared .. => 11
  | localPolicyRevoked .. => 12
  | faultProofGameOpened .. => 13
  | faultProofBisectionStep .. => 14
  | faultProofGameSettled .. => 15
  | depositWithFeeCredited .. => 16
  | actionBudgetTopUp .. => 17
  | gasPoolClaim .. => 18
  | delegatedActionBudgetTopUp .. => 19
  | budgetConsumed .. => 20
  | ammReservesReclaimed .. => 22
  | reserveSwapExecuted .. => 23
  | reserveSeeded .. => 24

theorem tag_lt (e : Event) : e.tag < 2 ^ 64 := by cases e <;> simp [tag]

def encodeFields : Event → Bytes
  | balanceChanged r a oldV newV =>
    encodeNat r.toNat ++ encodeNat a.toNat ++ encodeAmount oldV ++ encodeAmount newV
  | nonceAdvanced a oldN newN => encodeNat a.toNat ++ encodeNat oldN ++ encodeNat newN
  | identityRegistered a key => encodeNat a.toNat ++ encodeBytes key
  | identityRevoked a => encodeNat a.toNat
  | timeRecorded t => encodeNat t
  | disputeFiled challenger targetIdx => encodeNat challenger.toNat ++ encodeNat targetIdx
  | disputeWithdrawn disputeIdx => encodeNat disputeIdx
  | verdictApplied disputeIdx outcomeTag => encodeNat disputeIdx ++ encodeNat outcomeTag
  | rewardIssued resource recipient amount =>
    encodeNat resource.toNat ++ encodeNat recipient.toNat ++ encodeAmount amount
  | withdrawalRequested resource sender amount recipientL1 withdrawalId =>
    encodeNat resource.toNat ++ encodeNat sender.toNat ++ encodeAmount amount ++
      encodeBytes (ethAddressBytes recipientL1) ++ encodeNat withdrawalId
  | depositCredited resource recipient amount depositId =>
    encodeNat resource.toNat ++ encodeNat recipient.toNat ++ encodeAmount amount ++
      encodeNat depositId
  | localPolicyDeclared actor policy => encodeNat actor.toNat ++ encodeBytes policy.encode
  | localPolicyRevoked actor => encodeNat actor.toNat
  | faultProofGameOpened gameId challenger startIdx endIdx bindingHash =>
    encodeNat gameId ++ encodeNat challenger.toNat ++ encodeNat startIdx ++ encodeNat endIdx ++
      encodeBytes bindingHash
  | faultProofBisectionStep gameId round party idx commit =>
    encodeNat gameId ++ encodeNat round ++ encodeNat party.toNat ++ encodeNat idx ++
      encodeBytes commit
  | faultProofGameSettled gameId winner loser payout =>
    encodeNat gameId ++ encodeNat winner.toNat ++ encodeNat loser.toNat ++ encodeAmount payout
  | depositWithFeeCredited resource recipient poolActor userAmount poolAmount budgetGrant
      depositId =>
      encodeNat resource.toNat ++ encodeNat recipient.toNat ++ encodeNat poolActor.toNat ++
        encodeAmount userAmount ++ encodeAmount poolAmount ++ encodeNat budgetGrant ++
        encodeNat depositId
  | actionBudgetTopUp signer gasResource gasAmount budgetIncrement poolActor =>
    encodeNat signer.toNat ++ encodeNat gasResource.toNat ++ encodeAmount gasAmount ++
      encodeNat budgetIncrement ++ encodeNat poolActor.toNat
  | gasPoolClaim resource sequencer amount =>
    encodeNat resource.toNat ++ encodeNat sequencer.toNat ++ encodeAmount amount
  | delegatedActionBudgetTopUp recipient signer gasResource gasAmount budgetIncrement poolActor =>
    encodeNat recipient.toNat ++ encodeNat signer.toNat ++ encodeNat gasResource.toNat ++
      encodeAmount gasAmount ++ encodeNat budgetIncrement ++ encodeNat poolActor.toNat
  | budgetConsumed actor amount => encodeNat actor.toNat ++ encodeNat amount
  | ammReservesReclaimed resource amount reserveActor poolActor =>
    encodeNat resource.toNat ++ encodeAmount amount ++ encodeNat reserveActor.toNat ++
      encodeNat poolActor.toNat
  | reserveSwapExecuted fromResource toResource user amountIn amountOut reserveActor =>
    encodeNat fromResource.toNat ++ encodeNat toResource.toNat ++ encodeNat user.toNat ++
      encodeAmount amountIn ++ encodeAmount amountOut ++ encodeNat reserveActor.toNat
  | reserveSeeded resource amount reserveActor depositId =>
    encodeNat resource.toNat ++ encodeAmount amount ++ encodeNat reserveActor.toNat ++
      encodeNat depositId

def encode (e : Event) : Bytes := encodeNat e.tag ++ e.encodeFields

def wholePolicy (policyBytes : Bytes) : Except DecodeError LocalPolicy :=
  match LocalPolicy.decode policyBytes with
  | .ok (policy, []) => .ok policy
  | .ok (_, residue) => .error (.trailingBytes residue.length)
  | .error e => .error e

def readPolicy : CbeDecoder LocalPolicy := do
  let policyBytes ← decodeBytes
  match wholePolicy policyBytes with
  | .ok policy => return policy
  | .error e => throw e

def decodeFields : ℕ → CbeDecoder Event
  | 0 => do
    return .balanceChanged (← readUInt64Field) (← readUInt64Field) (← readAmountField)
        (← readAmountField)
  | 1 => do
    return .nonceAdvanced (← readUInt64Field) (← readNatField) (← readNatField)
  | 2 => do
    return .identityRegistered (← readUInt64Field) (← decodeBytes)
  | 3 => do
    return .identityRevoked (← readUInt64Field)
  | 4 => do
    return .timeRecorded (← readNatField)
  | 5 => do
    return .disputeFiled (← readUInt64Field) (← readNatField)
  | 6 => do
    return .disputeWithdrawn (← readNatField)
  | 7 => do
    return .verdictApplied (← readNatField) (← readNatField)
  | 8 => do
    return .rewardIssued (← readUInt64Field) (← readUInt64Field) (← readAmountField)
  | 9 => do
    return .withdrawalRequested (← readUInt64Field) (← readUInt64Field) (← readAmountField)
        (← decodeEthAddress (fun n =>
          "withdrawalRequested recipientL1 expects 20 bytes; got " ++ toString n))
        (← readNatField)
  | 10 => do
    return .depositCredited (← readUInt64Field) (← readUInt64Field) (← readAmountField)
        (← readNatField)
  | 11 => do
    return .localPolicyDeclared (← readUInt64Field) (← readPolicy)
  | 12 => do
    return .localPolicyRevoked (← readUInt64Field)
  | 13 => do
    return .faultProofGameOpened (← readNatField) (← readUInt64Field) (← readNatField)
        (← readNatField) (← decodeBytes)
  | 14 => do
    return .faultProofBisectionStep (← readNatField) (← readNatField) (← readUInt64Field)
        (← readNatField) (← decodeBytes)
  | 15 => do
    return .faultProofGameSettled (← readNatField) (← readUInt64Field) (← readUInt64Field)
        (← readAmountField)
  | 16 => do
    return .depositWithFeeCredited (← readUInt64Field) (← readUInt64Field) (← readUInt64Field)
        (← readAmountField) (← readAmountField) (← readNatField) (← readNatField)
  | 17 => do
    return .actionBudgetTopUp (← readUInt64Field) (← readUInt64Field) (← readAmountField)
        (← readNatField) (← readUInt64Field)
  | 18 => do
    return .gasPoolClaim (← readUInt64Field) (← readUInt64Field) (← readAmountField)
  | 19 => do
    return .delegatedActionBudgetTopUp (← readUInt64Field) (← readUInt64Field)
        (← readUInt64Field) (← readAmountField) (← readNatField) (← readUInt64Field)
  | 20 => do
    return .budgetConsumed (← readUInt64Field) (← readNatField)
  | 22 => do
    return .ammReservesReclaimed (← readUInt64Field) (← readAmountField) (← readUInt64Field)
        (← readUInt64Field)
  | 23 => do
    return .reserveSwapExecuted (← readUInt64Field) (← readUInt64Field) (← readUInt64Field)
        (← readAmountField) (← readAmountField) (← readUInt64Field)
  | 24 => do
    return .reserveSeeded (← readUInt64Field) (← readAmountField) (← readUInt64Field)
        (← readNatField)
  | other => throw (.invalidConstructorIndex other)

def decode : CbeDecoder Event := do
  decodeFields (← readNatField)

/-- The longest byte string that indexers read. -/
def maxByteString : ℕ := 2 ^ 20

/-- Counters and indices fit eight bytes, amounts thirty-two, and byte strings are not too long. -/
def InRange : Event → Prop
  | balanceChanged _ _ oldV newV => oldV < 2 ^ 256 ∧ newV < 2 ^ 256
  | nonceAdvanced _ oldN newN => oldN < 2 ^ 64 ∧ newN < 2 ^ 64
  | identityRegistered _ key => key.length ≤ maxByteString
  | identityRevoked _ | localPolicyRevoked _ => True
  | timeRecorded n | disputeFiled _ n | disputeWithdrawn n | budgetConsumed _ n => n < 2 ^ 64
  | verdictApplied disputeIdx outcomeTag => disputeIdx < 2 ^ 64 ∧ outcomeTag < 2 ^ 64
  | rewardIssued _ _ amount | gasPoolClaim _ _ amount | ammReservesReclaimed _ amount _ _ =>
    amount < 2 ^ 256
  | withdrawalRequested _ _ amount _ id | depositCredited _ _ amount id
  | reserveSeeded _ amount _ id => amount < 2 ^ 256 ∧ id < 2 ^ 64
  | localPolicyDeclared _ policy => policy.encode.length ≤ maxByteString
  | faultProofGameOpened gameId _ startIdx endIdx bindingHash =>
    gameId < 2 ^ 64 ∧ startIdx < 2 ^ 64 ∧ endIdx < 2 ^ 64 ∧ bindingHash.length ≤ maxByteString
  | faultProofBisectionStep gameId round _ idx commit =>
    gameId < 2 ^ 64 ∧ round < 2 ^ 64 ∧ idx < 2 ^ 64 ∧ commit.length ≤ maxByteString
  | faultProofGameSettled gameId _ _ payout => gameId < 2 ^ 64 ∧ payout < 2 ^ 256
  | depositWithFeeCredited _ _ _ userAmount poolAmount budgetGrant depositId =>
    userAmount < 2 ^ 256 ∧ poolAmount < 2 ^ 256 ∧ budgetGrant < 2 ^ 64 ∧ depositId < 2 ^ 64
  | actionBudgetTopUp _ _ gasAmount budgetIncrement _
  | delegatedActionBudgetTopUp _ _ _ gasAmount budgetIncrement _ =>
    gasAmount < 2 ^ 256 ∧ budgetIncrement < 2 ^ 64
  | reserveSwapExecuted _ _ _ amountIn amountOut _ => amountIn < 2 ^ 256 ∧ amountOut < 2 ^ 256

/-- A policy that is declared keeps to its own limits. -/
def PolicyInLimits : Event → Prop
  | localPolicyDeclared _ policy => policy.FieldsBounded
  | _ => True

theorem lt_of_le_maxByteString {n : ℕ} (h : n ≤ maxByteString) : n < 2 ^ 64 :=
  h.trans_lt (by decide)

theorem decodes_policy {policy : LocalPolicy} (hlen : policy.encode.length ≤ maxByteString)
    (h : policy.FieldsBounded) : Decodes readPolicy (encodeBytes policy.encode) policy := by
  refine (decodes_bytes (lt_of_le_maxByteString hlen)).bind_last ?_
  rw [wholePolicy, (decodes_localPolicy h).run]
  exact Decodes.pure policy

theorem decodes_fields {e : Event} (h : e.InRange) (hpolicy : e.PolicyInLimits) :
    Decodes (decodeFields e.tag) e.encodeFields e := by
  have hid : ∀ v, Decodes readUInt64Field (encodeNat v.toNat) v := decodes_uint64 overWide
  -- every kind is a row of fields, and each field has its decoder
  cases e <;> simp only [encodeFields, decodeFields, tag, InRange, PolicyInLimits,
      List.append_assoc] at h hpolicy ⊢ <;>
    repeat' with_reducible first
      | exact Decodes.pure _
      | exact hid _
      | apply decodes_nat
      | apply decodes_amount
      | apply decodes_bytes
      | apply decodes_ethAddress
      | exact decodes_policy h hpolicy
      | apply Decodes.bind
      | apply Decodes.bind_last
      | simp only [h]
      | apply lt_of_le_maxByteString

theorem decodes_event {e : Event} (h : e.InRange) (hpolicy : e.PolicyInLimits) :
    Decodes decode e.encode e :=
  (decodes_nat e.tag_lt).bind (decodes_fields h hpolicy)

end Event
end Knomosis.Kernel
