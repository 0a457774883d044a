import Knomosis.Kernel.ExtendedState

/-!
# Encodings of actions and states

An action is encoded as the index of its kind and its fields.  The contracts see
the fields in a second form, packed big-endian at fixed offsets; actions that the
contracts never look into are packed as they are encoded.
-/

namespace Knomosis.Kernel

open Lib Smt

def DisputeClaim.encode : DisputeClaim → Bytes
  | preconditionFalse idx => encodeNat 0 ++ encodeNat idx
  | signatureInvalid idx => encodeNat 1 ++ encodeNat idx
  | nonceMismatch idx => encodeNat 2 ++ encodeNat idx
  | oracleMisreported idx evidence => encodeNat 3 ++ encodeNat idx ++ encodeBytes evidence
  | doubleApply idx₁ idx₂ => encodeNat 4 ++ encodeNat idx₁ ++ encodeNat idx₂

def EvidenceVerdict.encode : EvidenceVerdict → Bytes
  | upheld => encodeNat 0
  | rejected => encodeNat 1
  | inconclusive => encodeNat 2

def Dispute.encode (d : Dispute) : Bytes :=
  encodeNat d.challenger.toNat ++ d.claim.encode ++ encodeBytes d.evidence ++
    encodeNat d.nonce ++ encodeBytes d.sig

/-- The signers and the signatures stand in two lists. -/
def Verdict.encode (v : Verdict) : Bytes :=
  encodeNat v.disputeId ++ v.outcome.encode ++ encodeBytes v.rationale ++
    encodeList (fun p => encodeNat p.1.toNat) v.signatures ++
    encodeList (fun p => encodeBytes p.2) v.signatures

def LocalPolicyClause.encode : LocalPolicyClause → Bytes
  | denyTags tags => encodeNat 0 ++ encodeList encodeNat tags
  | requireRecipientIn resource allowed =>
    encodeNat 1 ++ encodeNat resource.toNat ++ encodeList (fun a => encodeNat a.toNat) allowed
  | capAmount resource max => encodeNat 2 ++ encodeNat resource.toNat ++ encodeNat max
  | allowTopUpFrom delegates => encodeNat 3 ++ encodeList (fun a => encodeNat a.toNat) delegates

def LocalPolicy.encode (p : LocalPolicy) : Bytes := encodeList LocalPolicyClause.encode p.clauses

def Action.encodeFields : Action → Bytes
  | transfer r sender receiver amount =>
    encodeNat r.toNat ++ encodeNat sender.toNat ++ encodeNat receiver.toNat ++ encodeAmount amount
  | mint r actor amount | burn r actor amount | reward r actor amount
  | distributeOthers r actor amount | proportionalDilute r actor amount =>
    encodeNat r.toNat ++ encodeNat actor.toNat ++ encodeAmount amount
  | freezeResource r => encodeNat r.toNat
  | replaceKey actor key | registerIdentity actor key => encodeNat actor.toNat ++ encodeBytes key
  | dispute d => d.encode
  | disputeWithdraw idx | rollback idx => encodeNat idx
  | verdict v => v.encode
  | deposit r recipient amount depositId =>
    encodeNat r.toNat ++ encodeNat recipient.toNat ++ encodeAmount amount ++ encodeNat depositId
  | withdraw r sender amount recipientL1 =>
    encodeNat r.toNat ++ encodeNat sender.toNat ++ encodeAmount amount ++
      encodeBytes (ethAddressBytes recipientL1)
  | declareLocalPolicy policy => policy.encode
  | revokeLocalPolicy => []
  | faultProofChallenge bindingHash startIdx endIdx challengerCommit =>
    encodeBytes bindingHash ++ encodeNat startIdx ++ encodeNat endIdx ++
      encodeBytes challengerCommit
  | faultProofResolution bindingHash gameId winner revertFromIdx =>
    encodeBytes bindingHash ++ encodeNat gameId ++ encodeNat winner.toNat ++ encodeNat revertFromIdx
  | depositWithFee r recipient poolActor userAmount poolAmount grant depositId seedAmount =>
    encodeNat r.toNat ++ encodeNat recipient.toNat ++ encodeNat poolActor.toNat ++
      encodeAmount userAmount ++ encodeAmount poolAmount ++ encodeNat grant ++
      encodeNat depositId ++ encodeAmount seedAmount
  | topUpActionBudget gasResource gasAmount increment poolActor =>
    encodeNat gasResource.toNat ++ encodeAmount gasAmount ++ encodeNat increment ++
      encodeNat poolActor.toNat
  | topUpActionBudgetFor recipient gasResource gasAmount increment poolActor =>
    encodeNat recipient.toNat ++ encodeNat gasResource.toNat ++ encodeAmount gasAmount ++
      encodeNat increment ++ encodeNat poolActor.toNat
  | claimBudgetRefund gasResource budgetUnits weiPerBudgetUnit poolActor =>
    encodeNat gasResource.toNat ++ encodeNat budgetUnits ++ encodeAmount weiPerBudgetUnit ++
      encodeNat poolActor.toNat
  | reclaimAmmReserves r amount reserveActor poolActor =>
    encodeNat r.toNat ++ encodeAmount amount ++ encodeNat reserveActor.toNat ++
      encodeNat poolActor.toNat
  | reserveSwap fromResource toResource user amountIn minAmountOut reserveActor =>
    encodeNat fromResource.toNat ++ encodeNat toResource.toNat ++ encodeNat user.toNat ++
      encodeAmount amountIn ++ encodeAmount minAmountOut ++ encodeNat reserveActor.toNat

def Action.encode (a : Action) : Bytes := encodeNat a.tag ++ a.encodeFields

def SignedAction.encode (st : SignedAction) : Bytes :=
  st.action.encode ++ encodeNat st.signer.toNat ++ encodeNat st.nonce ++ encodeBytes st.sig

/-- The bytes of `legalkernel/v1/signedaction`. -/
def signedActionDomain : Bytes :=
  [0x6c, 0x65, 0x67, 0x61, 0x6c, 0x6b, 0x65, 0x72, 0x6e, 0x65, 0x6c, 0x2f, 0x76, 0x31, 0x2f,
    0x73, 0x69, 0x67, 0x6e, 0x65, 0x64, 0x61, 0x63, 0x74, 0x69, 0x6f, 0x6e]

/-- What the signer of an action signs. -/
def signingInput (a : Action) (signer : ActorId) (nonce : Nonce) (deploymentId : Bytes) : Bytes :=
  encodeBytes signedActionDomain ++ encodeBytes deploymentId ++ a.encode ++
    encodeNat signer.toNat ++ encodeNat nonce

def uint64BE (n : ℕ) : Bytes := beBytes 8 n

def uint256BE (n : ℕ) : Bytes := beBytes 32 n

/-- The index of an action's kind, as the contracts take it. -/
def actionKindByte (a : Action) : UInt8 := UInt8.ofNat a.tag

theorem actionKindByte_toNat (a : Action) : (actionKindByte a).toNat = a.tag := by
  have hlt := a.tag_lt
  rw [actionKindByte, UInt8.toNat_ofNat']
  omega

/-- The fields of an action, as the contracts take them. -/
def actionFieldsForL1 : Action → Bytes
  | .transfer r sender receiver amount =>
    uint64BE r.toNat ++ uint64BE sender.toNat ++ uint64BE receiver.toNat ++ uint256BE amount
  | .mint r actor amount | .burn r actor amount | .reward r actor amount
  | .distributeOthers r actor amount | .proportionalDilute r actor amount =>
    uint64BE r.toNat ++ uint64BE actor.toNat ++ uint256BE amount
  | .freezeResource r => uint64BE r.toNat
  | .replaceKey actor key | .registerIdentity actor key => uint64BE actor.toNat ++ key
  | .deposit r recipient amount depositId =>
    uint64BE r.toNat ++ uint64BE recipient.toNat ++ uint256BE amount ++ uint64BE depositId
  | .withdraw r sender amount recipientL1 =>
    uint64BE r.toNat ++ uint64BE sender.toNat ++ uint256BE amount ++ ethAddressBytes recipientL1
  | .depositWithFee r recipient poolActor userAmount poolAmount grant depositId seedAmount =>
    uint64BE r.toNat ++ uint64BE recipient.toNat ++ uint64BE poolActor.toNat ++
      uint256BE userAmount ++ uint256BE poolAmount ++ uint64BE grant ++ uint64BE depositId ++
      uint256BE seedAmount
  | .topUpActionBudget gasResource gasAmount increment poolActor =>
    uint64BE gasResource.toNat ++ uint256BE gasAmount ++ uint64BE increment ++
      uint64BE poolActor.toNat
  | .topUpActionBudgetFor recipient gasResource gasAmount increment poolActor =>
    uint64BE recipient.toNat ++ uint64BE gasResource.toNat ++ uint256BE gasAmount ++
      uint64BE increment ++ uint64BE poolActor.toNat
  | .claimBudgetRefund gasResource budgetUnits weiPerBudgetUnit poolActor =>
    uint64BE gasResource.toNat ++ uint64BE budgetUnits ++ uint256BE weiPerBudgetUnit ++
      uint64BE poolActor.toNat
  | .reclaimAmmReserves r amount reserveActor poolActor =>
    uint64BE r.toNat ++ uint256BE amount ++ uint64BE reserveActor.toNat ++ uint64BE poolActor.toNat
  | .reserveSwap fromResource toResource user amountIn minAmountOut reserveActor =>
    uint64BE fromResource.toNat ++ uint64BE toResource.toNat ++ uint64BE user.toNat ++
      uint256BE amountIn ++ uint256BE minAmountOut ++ uint64BE reserveActor.toNat
  | a => a.encodeFields

/-- The numbers of a claim fit their fields. -/
def DisputeClaim.FieldsBounded : DisputeClaim → Prop
  | preconditionFalse idx | signatureInvalid idx | nonceMismatch idx => idx < 2 ^ 64
  | oracleMisreported idx evidence => idx < 2 ^ 64 ∧ evidence.length < 2 ^ 64
  | doubleApply idx₁ idx₂ => idx₁ < 2 ^ 64 ∧ idx₂ < 2 ^ 64

def Dispute.FieldsBounded (d : Dispute) : Prop :=
  d.claim.FieldsBounded ∧ d.evidence.length < 2 ^ 64 ∧ d.nonce < 2 ^ 64 ∧ d.sig.length < 2 ^ 64

/-- The fields fit, and the signers ascend. -/
def Verdict.FieldsBounded (v : Verdict) : Prop :=
  v.disputeId < 2 ^ 64 ∧ v.rationale.length < 2 ^ 64 ∧ v.signatures.length < 2 ^ 64 ∧
    (∀ p ∈ v.signatures, p.2.length < 2 ^ 64) ∧ v.signatures.Pairwise (fun p q => p.1 < q.1)

def LocalPolicyClause.FieldsBounded : LocalPolicyClause → Prop
  | denyTags tags => tags.length ≤ 64 ∧ ∀ n ∈ tags, n < 2 ^ 64
  | requireRecipientIn _ allowed => allowed.length ≤ 64
  | capAmount _ max => max < 2 ^ 64
  | allowTopUpFrom delegates => delegates.length ≤ 64

def LocalPolicy.FieldsBounded (p : LocalPolicy) : Prop :=
  p.clauses.length ≤ 64 ∧ ∀ c ∈ p.clauses, c.FieldsBounded

/-- Every field of the action fits where it is written.  Actors and resources always do. -/
def Action.FieldsBounded : Action → Prop
  | transfer _ _ _ amount | mint _ _ amount | burn _ _ amount | reward _ _ amount
  | distributeOthers _ _ amount | proportionalDilute _ _ amount | withdraw _ _ amount _
  | reclaimAmmReserves _ amount _ _ => amount < 2 ^ 256
  | freezeResource _ | revokeLocalPolicy => True
  | replaceKey _ key | registerIdentity _ key => key.length < 2 ^ 64
  | dispute d => d.FieldsBounded
  | disputeWithdraw idx | rollback idx => idx < 2 ^ 64
  | verdict v => v.FieldsBounded
  | deposit _ _ amount depositId => amount < 2 ^ 256 ∧ depositId < 2 ^ 64
  | declareLocalPolicy policy => policy.FieldsBounded
  | faultProofChallenge bindingHash startIdx endIdx challengerCommit =>
    bindingHash.length < 2 ^ 64 ∧ startIdx < 2 ^ 64 ∧ endIdx < 2 ^ 64 ∧
      challengerCommit.length < 2 ^ 64
  | faultProofResolution bindingHash gameId _ revertFromIdx =>
    bindingHash.length < 2 ^ 64 ∧ gameId < 2 ^ 64 ∧ revertFromIdx < 2 ^ 64
  | depositWithFee _ _ _ userAmount poolAmount grant depositId seedAmount =>
    userAmount < 2 ^ 256 ∧ poolAmount < 2 ^ 256 ∧ grant < 2 ^ 64 ∧ depositId < 2 ^ 64 ∧
      seedAmount < 2 ^ 256
  | topUpActionBudget _ gasAmount increment _ | topUpActionBudgetFor _ _ gasAmount increment _ =>
    gasAmount < 2 ^ 256 ∧ increment < 2 ^ 64
  | claimBudgetRefund _ budgetUnits weiPerBudgetUnit _ =>
    budgetUnits < 2 ^ 64 ∧ weiPerBudgetUnit < 2 ^ 256
  | reserveSwap _ _ _ amountIn minAmountOut _ => amountIn < 2 ^ 256 ∧ minAmountOut < 2 ^ 256

def DepositRecord.encode (record : DepositRecord) : Bytes :=
  encodeNat record.resource.toNat ++ encodeAmount record.userAmount ++
    encodeAmount record.poolAmount ++ encodeNat record.budgetGrant

def PendingWithdrawal.encode (wd : PendingWithdrawal) : Bytes :=
  encodeNat wd.resource.toNat ++ encodeBytes (ethAddressBytes wd.recipient) ++
    encodeAmount wd.amount ++ encodeNat wd.l2LogIndex ++ encodeNat wd.wdId

def flagNat (b : Bool) : ℕ := if b then 1 else 0

/-- A map whose keys are actors or resources. -/
def encodeByActor {β : Type} (encodeValue : β → Bytes) (pairs : List (UInt64 × β)) : Bytes :=
  encodeSortedPairs (fun a => encodeNat a.toNat) encodeValue pairs

def State.encode (s : State) : Bytes :=
  encodeByActor (fun bm => encodeBytes (encodeByActor encodeAmount bm.toList)) s.balances.toList

def BridgeState.encode (bs : BridgeState) : Bytes :=
  encodeSortedPairs encodeNat (fun record => encodeBytes record.encode) bs.consumed.toList ++
    encodeSortedPairs encodeNat (fun wd => encodeBytes wd.encode) bs.pending.toList ++
    encodeNat bs.nextWdId ++ encodeNat (flagNat bs.boldCircuitClosed) ++
    encodeAmount bs.boldTvlCap ++ encodeAmount bs.boldTotalLockedValue ++
    encodeNat (flagNat bs.ammDisabled)

def ExtendedState.encode (es : ExtendedState) : Bytes :=
  es.base.encode ++ encodeByActor encodeNat es.nonces.toList ++
    encodeByActor encodeBytes es.registry.toList ++ es.bridge.encode ++
    encodeByActor (fun p => encodeBytes p.encode) es.localPolicies.toList ++
    encodeByActor ActorBudget.encode es.epochBudgets.toList ++ es.budgetPolicy.encode

end Knomosis.Kernel
