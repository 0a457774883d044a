import Knomosis.Kernel.Accounts
import Knomosis.Kernel.Admission
import Knomosis.Kernel.Events

/-!
# The events of an admitted action

What indexers are told is worked out from the states before and after an action.  A
balance is reported only where it changed; what an action means is reported whether
it changed anything or not.  The signer of a top-up or a refund is not part of the
action, so its balance is reported apart.  Every action reports its nonce.
-/

namespace Knomosis.Kernel

open List

section Extract

variable (preState postState : State)

/-- The change of one balance, where there is one. -/
def balanceChange (r : ResourceId) (a : ActorId) : List Event :=
  let oldV := getBalance preState r a
  let newV := getBalance postState r a
  if oldV ≠ newV then [.balanceChanged r a oldV newV] else []

def balanceChangeEvents (r : ResourceId) (actors : List ActorId) : List Event :=
  actors.flatMap (balanceChange preState postState r)

/-- Whom a law for all holders credits. -/
def affectedActors (r : ResourceId) (excluded : ActorId) : List ActorId :=
  (bulkRecipients preState r excluded).map Prod.fst

/-- The log index that a claim is about. -/
def DisputeClaim.targetIdx : DisputeClaim → ℕ
  | preconditionFalse idx | signatureInvalid idx | nonceMismatch idx | oracleMisreported idx _
  | doubleApply idx _ => idx

def EvidenceVerdict.outcomeTag : EvidenceVerdict → ℕ
  | upheld => 0
  | rejected => 1
  | inconclusive => 2

/-- The events of an action, without regard to its signer. -/
def actionEvents : Action → List Event
  | .transfer r sender receiver _ =>
    balanceChange preState postState r sender ++ balanceChange preState postState r receiver
  | .mint r recipient _ => balanceChange preState postState r recipient
  | .burn r holder _ => balanceChange preState postState r holder
  | .freezeResource _ => []
  | .replaceKey actor newKey => [.identityRegistered actor newKey]
  | .reward r recipient amount =>
    balanceChange preState postState r recipient ++ [.rewardIssued r recipient amount]
  | .distributeOthers r excluded _ =>
    balanceChangeEvents preState postState r (affectedActors preState r excluded)
  | .proportionalDilute r excluded _ =>
    balanceChangeEvents preState postState r (affectedActors preState r excluded)
  | .dispute d => [.disputeFiled d.challenger d.claim.targetIdx]
  | .disputeWithdraw idx => [.disputeWithdrawn idx]
  | .verdict v => [.verdictApplied v.disputeId v.outcome.outcomeTag]
  | .rollback _ => []
  | .registerIdentity actor pk => [.identityRegistered actor pk]
  | .deposit r recipient _ _ => balanceChange preState postState r recipient
  | .withdraw r sender _ _ => balanceChange preState postState r sender
  | .declareLocalPolicy _ => []
  | .revokeLocalPolicy => []
  | .faultProofChallenge .. => []
  | .faultProofResolution .. => []
  | .depositWithFee r recipient poolActor _ _ _ _ _ =>
    balanceChange preState postState r recipient ++
      balanceChange preState postState r poolActor ++
      balanceChange preState postState r ammReserveActor
  | .topUpActionBudget gasResource _ _ poolActor =>
    balanceChange preState postState gasResource poolActor
  | .topUpActionBudgetFor _ gasResource _ _ poolActor =>
    balanceChange preState postState gasResource poolActor
  | .claimBudgetRefund gasResource _ _ poolActor =>
    balanceChange preState postState gasResource poolActor
  | .reclaimAmmReserves r _ reserveActor poolActor =>
    balanceChange preState postState r reserveActor ++ balanceChange preState postState r poolActor
  | .reserveSwap fromResource toResource user _ _ reserveActor =>
    balanceChange preState postState fromResource user ++
      balanceChange preState postState fromResource reserveActor ++
      balanceChange preState postState toResource reserveActor ++
      balanceChange preState postState toResource user

/-- The balance of a signer that the action does not name. -/
def signerBalanceEvents (signer : ActorId) : Action → List Event
  | .topUpActionBudget gasResource _ _ _ => balanceChange preState postState gasResource signer
  | .topUpActionBudgetFor _ gasResource _ _ _ => balanceChange preState postState gasResource signer
  | .claimBudgetRefund gasResource _ _ _ => balanceChange preState postState gasResource signer
  | _ => []

end Extract

section Semantic

variable (preState : ExtendedState) (signer : ActorId)

/-- A withdrawal is reported under the identifier that it is filed under. -/
def bridgeEvents : Action → List Event
  | .deposit r recipient amount depositId => [.depositCredited r recipient amount depositId]
  | .withdraw r sender amount recipientL1 =>
    [.withdrawalRequested r sender amount recipientL1 preState.bridge.nextWdId]
  | _ => []

def localPolicyEvents : Action → List Event
  | .declareLocalPolicy policy => [.localPolicyDeclared signer policy]
  | .revokeLocalPolicy => [.localPolicyRevoked signer]
  | _ => []

/-- The chain below gives a game its number, so a challenge reports none. -/
def faultProofEvents : Action → List Event
  | .faultProofChallenge bindingHash startIdx endIdx _ =>
    [.faultProofGameOpened 0 signer startIdx endIdx bindingHash]
  | .faultProofResolution _ gameId winner _ => [.faultProofGameSettled gameId winner signer 0]
  | _ => []

/-- A deposit reports what the pool gets without the seed. -/
def gasPoolEvents : Action → List Event
  | .depositWithFee r recipient poolActor userAmount poolAmount grant depositId seedAmount =>
    [.depositWithFeeCredited r recipient poolActor userAmount (poolAmount - seedAmount) grant
        depositId,
      .reserveSeeded r seedAmount ammReserveActor depositId]
  | .topUpActionBudget gasResource gasAmount increment poolActor =>
    [.actionBudgetTopUp signer gasResource gasAmount increment poolActor]
  | .topUpActionBudgetFor recipient gasResource gasAmount increment poolActor =>
    [.delegatedActionBudgetTopUp recipient signer gasResource gasAmount increment poolActor]
  | .reclaimAmmReserves r amount reserveActor poolActor =>
    [.ammReservesReclaimed r amount reserveActor poolActor]
  | .reserveSwap fromResource toResource user amountIn _ reserveActor =>
    [.reserveSwapExecuted fromResource toResource user amountIn
      (Laws.reserveQuote amountIn preState.base fromResource toResource reserveActor)
      reserveActor]
  | _ => []

/-- The charge for the action, unless the bridge signed it or it was free. -/
def budgetConsumedEvents (action : Action) : List Event :=
  if signer = bridgeActor then []
  else
    match preState.budgetPolicy with
    | .bounded _ actionCost _ =>
      let consumed := actionCost + refundConsumeExtra action
      if 0 < consumed then [.budgetConsumed signer consumed] else []

end Semantic

def extractEvents (preState postState : ExtendedState) (st : SignedAction) : List Event :=
  actionEvents preState.base postState.base st.action ++
    signerBalanceEvents preState.base postState.base st.signer st.action ++
    bridgeEvents preState st.action ++ localPolicyEvents st.signer st.action ++
    faultProofEvents st.signer st.action ++ gasPoolEvents preState st.signer st.action ++
    budgetConsumedEvents preState st.signer st.action ++
    [.nonceAdvanced st.signer (expectsNonce preState st.signer) (expectsNonce postState st.signer)]

section Parts

variable {pre post : ExtendedState} {st : SignedAction}

/-- What an action says of itself. -/
def statedEvents : Action → List Event
  | .replaceKey actor key | .registerIdentity actor key => [.identityRegistered actor key]
  | .reward r recipient amount => [.rewardIssued r recipient amount]
  | .dispute d => [.disputeFiled d.challenger d.claim.targetIdx]
  | .disputeWithdraw idx => [.disputeWithdrawn idx]
  | .verdict v => [.verdictApplied v.disputeId v.outcome.outcomeTag]
  | _ => []

/-- The reports of the balances among the events. -/
def balanceEvents (pre post : ExtendedState) (st : SignedAction) : List Event :=
  (st.action.accounts st.signer pre.base).flatMap fun account =>
    balanceChange pre.base post.base account.1 account.2

/-- The other events, which report what an action means. -/
def meaningEvents (pre post : ExtendedState) (st : SignedAction) : List Event :=
  statedEvents st.action ++ bridgeEvents pre st.action ++ localPolicyEvents st.signer st.action ++
    faultProofEvents st.signer st.action ++ gasPoolEvents pre st.signer st.action ++
    budgetConsumedEvents pre st.signer st.action ++
    [.nonceAdvanced st.signer (expectsNonce pre st.signer) (expectsNonce post st.signer)]

attribute [local simp] actionEvents signerBalanceEvents Action.accounts statedEvents

theorem actionEvents_perm (s s' : State) (action : Action) (signer : ActorId) :
    (actionEvents s s' action ++ signerBalanceEvents s s' signer action).Perm
      ((action.accounts signer s).flatMap (fun account => balanceChange s s' account.1 account.2) ++
        statedEvents action) := by
  cases action with
  | topUpActionBudget | topUpActionBudgetFor => simpa using perm_append_comm
  | distributeOthers | proportionalDilute => simp [balanceChangeEvents, affectedActors, flatMap_map]
  | _ => simp

/-- The events of an action are the reports of its accounts and of its meaning. -/
theorem extractEvents_perm :
    (extractEvents pre post st).Perm (balanceEvents pre post st ++ meaningEvents pre post st) := by
  have haction := actionEvents_perm pre.base post.base st.action st.signer
  refine ((((((haction.append_right _).append_right _).append_right _).append_right _).append_right
    _).append_right _).trans (List.Perm.of_eq ?_)
  simp only [balanceEvents, meaningEvents, append_assoc]

theorem extractEvents_ne_nil (pre post : ExtendedState) (st : SignedAction) :
    extractEvents pre post st ≠ [] := by
  simp [extractEvents]

theorem mem_balanceChange {s s' : State} {r : ResourceId} {a : ActorId} {e : Event} :
    e ∈ balanceChange s s' r a ↔ getBalance s r a ≠ getBalance s' r a ∧
        e = .balanceChanged r a (getBalance s r a) (getBalance s' r a) := by
  unfold balanceChange
  dsimp only
  split
  next h => simp [h]
  next h => simp [h]

theorem length_balanceChange_le (s s' : State) (r : ResourceId) (a : ActorId) :
    (balanceChange s s' r a).length ≤ 1 := by
  unfold balanceChange
  dsimp only
  split
  · exact le_rfl
  · exact Nat.zero_le 1

theorem mem_balanceEvents {e : Event} :
    e ∈ balanceEvents pre post st ↔
      ∃ r a, (r, a) ∈ st.action.accounts st.signer pre.base ∧
        getBalance pre.base r a ≠ getBalance post.base r a ∧
          e = .balanceChanged r a (getBalance pre.base r a) (getBalance post.base r a) := by
  simp only [balanceEvents, mem_flatMap, mem_balanceChange, Prod.exists]

theorem budgetConsumedEvents_eq {freeTier actionCost currentEpoch : ℕ}
    (hpolicy : pre.budgetPolicy = .bounded freeTier actionCost currentEpoch)
    (signer : ActorId) (action : Action) :
    budgetConsumedEvents pre signer action =
      if signer ≠ bridgeActor ∧ 0 < actionCost + refundConsumeExtra action then
        [.budgetConsumed signer (actionCost + refundConsumeExtra action)] else [] := by
  unfold budgetConsumedEvents
  rw [hpolicy]
  by_cases hbridge : signer = bridgeActor <;> simp [hbridge]

/-- The kinds of events that no action states. -/
def Event.unstated : Event → Bool
  | balanceChanged _ _ _ _ => true
  | gasPoolClaim _ _ _ => true
  | _ => false

theorem unstated_of_mem_meaningEvents : ∀ e ∈ meaningEvents pre post st, e.unstated = false := by
  rcases hpolicy : pre.budgetPolicy with ⟨freeTier, actionCost, currentEpoch⟩
  simp only [meaningEvents, budgetConsumedEvents_eq hpolicy, forall_mem_append]
  refine ⟨⟨⟨⟨⟨⟨?_, ?_⟩, ?_⟩, ?_⟩, ?_⟩, ?_⟩, ?_⟩
  · cases st.action <;> simp [Event.unstated]
  · cases st.action <;> simp [bridgeEvents, Event.unstated]
  · cases st.action <;> simp [localPolicyEvents, Event.unstated]
  · cases st.action <;> simp [faultProofEvents, Event.unstated]
  · cases st.action <;> simp [gasPoolEvents, Event.unstated]
  · split <;> simp [Event.unstated]
  · simp [Event.unstated]

theorem not_mem_meaningEvents {e : Event} (he : e.unstated = true) :
    e ∉ meaningEvents pre post st := by
  intro hmem
  rw [unstated_of_mem_meaningEvents e hmem] at he
  cases he

/-- The events that report a balance are those of the accounts that changed. -/
theorem balanceChanged_mem_extractEvents {r : ResourceId} {a : ActorId} {oldV newV : Amount} :
    .balanceChanged r a oldV newV ∈ extractEvents pre post st ↔
      (r, a) ∈ st.action.accounts st.signer pre.base ∧
        getBalance pre.base r a ≠ getBalance post.base r a ∧
          oldV = getBalance pre.base r a ∧ newV = getBalance post.base r a := by
  rw [extractEvents_perm.mem_iff, mem_append, or_iff_left (not_mem_meaningEvents rfl),
    mem_balanceEvents]
  constructor
  · rintro ⟨r', a', hmem, hne, hevent⟩
    obtain ⟨rfl, rfl, rfl, rfl⟩ := Event.balanceChanged.inj hevent
    exact ⟨hmem, hne, rfl, rfl⟩
  · rintro ⟨hmem, hne, rfl, rfl⟩
    exact ⟨r, a, hmem, hne, rfl⟩

theorem length_balanceEvents_le :
    (balanceEvents pre post st).length ≤ (st.action.accounts st.signer pre.base).length := by
  unfold balanceEvents
  rw [length_flatMap]
  calc ((st.action.accounts st.signer pre.base).map fun account =>
          (balanceChange pre.base post.base account.1 account.2).length).sum
      ≤ ((st.action.accounts st.signer pre.base).map fun _ => 1).sum :=
        sum_le_sum fun account _ => length_balanceChange_le _ _ _ _
    _ = (st.action.accounts st.signer pre.base).length := by simp

theorem length_meaningEvents_le : (meaningEvents pre post st).length ≤ 8 := by
  have hstated : (statedEvents st.action).length ≤ 1 := by cases st.action <;> simp
  have hbridge : (bridgeEvents pre st.action).length ≤ 1 := by
    cases st.action <;> simp [bridgeEvents]
  have hpolicy : (localPolicyEvents st.signer st.action).length ≤ 1 := by
    cases st.action <;> simp [localPolicyEvents]
  have hproof : (faultProofEvents st.signer st.action).length ≤ 1 := by
    cases st.action <;> simp [faultProofEvents]
  have hpool : (gasPoolEvents pre st.signer st.action).length ≤ 2 := by
    cases st.action <;> simp [gasPoolEvents]
  have hbudget : (budgetConsumedEvents pre st.signer st.action).length ≤ 1 := by
    rcases hpolicy : pre.budgetPolicy with ⟨freeTier, actionCost, currentEpoch⟩
    rw [budgetConsumedEvents_eq hpolicy]
    split <;> simp
  simp only [meaningEvents, length_append, length_singleton]
  omega

theorem length_extractEvents_le (hpre : st.action.compileTransition.pre pre.base) :
    (extractEvents pre post st).length ≤ Laws.maxRecipientsPerBulkAction + 8 := by
  rw [extractEvents_perm.length_eq, length_append]
  exact Nat.add_le_add (length_balanceEvents_le.trans (length_accounts_le st.signer hpre))
    length_meaningEvents_le

end Parts

section Movements

variable {pre post : ExtendedState} {st : SignedAction}

/-- The account that an event says was credited or debited, and by how much. -/
def Event.movement : Event → Option (Account × Amount)
  | rewardIssued r recipient amount => some ((r, recipient), amount)
  | depositCredited r recipient amount _ => some ((r, recipient), amount)
  | withdrawalRequested r sender amount _ _ => some ((r, sender), amount)
  | _ => none

/-- The account that an action credits or debits under a name of its own. -/
def Action.movement : Action → Option (Account × Amount)
  | reward r recipient amount => some ((r, recipient), amount)
  | deposit r recipient amount _ => some ((r, recipient), amount)
  | withdraw r sender amount _ => some ((r, sender), amount)
  | _ => none

variable {e : Event} {r : ResourceId} {a : ActorId} {amount : Amount}

theorem movement_meaningEvents (he : e ∈ meaningEvents pre post st) :
    e.movement = none ∨ e.movement = st.action.movement := by
  rcases hpolicy : pre.budgetPolicy with ⟨freeTier, actionCost, currentEpoch⟩
  simp only [meaningEvents, budgetConsumedEvents_eq hpolicy, mem_append] at he
  rcases he with (((((he | he) | he) | he) | he) | he) | he
  · revert he
    cases st.action <;> simp +contextual [statedEvents, Event.movement, Action.movement]
  · revert he
    cases st.action <;> simp +contextual [bridgeEvents, Event.movement, Action.movement]
  · revert he
    cases st.action <;> simp +contextual [localPolicyEvents, Event.movement, Action.movement]
  · revert he
    cases st.action <;> simp +contextual [faultProofEvents, Event.movement, Action.movement]
  · left
    revert he
    cases st.action <;> simp +contextual [gasPoolEvents] <;> rintro (rfl | rfl) <;> rfl
  · left
    split at he
    · rw [mem_singleton.mp he]
      rfl
    · cases he
  · left
    rw [mem_singleton.mp he]
    rfl

/-- Whatever moves under such a name changes the balance, unless it is nothing. -/
theorem balance_ne_of_movement {s : State} {action : Action} {signer : ActorId}
    (hpre : action.compileTransition.pre s) (hmovement : action.movement = some ((r, a), amount))
    (hamount : amount ≠ 0) :
    getBalance s r a ≠ getBalance (stepImpl s (action.toTransition signer)) r a := by
  have hpos : 0 < amount := Nat.pos_of_ne_zero hamount
  cases action with
  | reward r _ amount =>
    cases hmovement
    have hstep : stepImpl s ((Action.reward r a amount).toTransition signer) =
        credit s r a amount := if_pos hpre
    rw [hstep, getBalance_credit, if_pos ⟨rfl, rfl⟩]
    exact (Nat.lt_add_of_pos_right hpos).ne
  | deposit r _ amount depositId =>
    cases hmovement
    have hstep : stepImpl s ((Action.deposit r a amount depositId).toTransition signer) =
        credit s r a amount := if_pos hpre
    rw [hstep, getBalance_credit, if_pos ⟨rfl, rfl⟩]
    exact (Nat.lt_add_of_pos_right hpos).ne
  | withdraw r _ amount recipientL1 =>
    cases hmovement
    have hcovered : amount ≤ getBalance s r a := hpre.2
    have hstep : stepImpl s ((Action.withdraw r a amount recipientL1).toTransition signer) =
        debit s r a amount := if_pos hpre
    rw [hstep, getBalance_debit, if_pos ⟨rfl, rfl⟩]
    exact (Nat.sub_lt (hpos.trans_le hcovered) hpos).ne'
  | _ => cases hmovement

theorem movement_extractEvents (hpre : st.action.compileTransition.pre pre.base)
    (hpost : post.base = stepImpl pre.base (st.action.toTransition st.signer))
    (he : e ∈ extractEvents pre post st) (hmovement : e.movement = some ((r, a), amount)) :
    amount = 0 ∨ getBalance pre.base r a ≠ getBalance post.base r a := by
  rw [extractEvents_perm.mem_iff, mem_append] at he
  rcases he with he | he
  · obtain ⟨r', a', -, -, rfl⟩ := mem_balanceEvents.mp he
    cases hmovement
  have haction : st.action.movement = some ((r, a), amount) := by
    rcases movement_meaningEvents he with hnone | hsome
    · rw [hnone] at hmovement
      cases hmovement
    · rw [← hsome, hmovement]
  rw [hpost]
  exact or_iff_not_imp_left.mpr (balance_ne_of_movement hpre haction)

theorem gasPoolClaim_not_mem_extractEvents
    {r : ResourceId} {sequencer : ActorId} {amount : Amount} :
    .gasPoolClaim r sequencer amount ∉ extractEvents pre post st := by
  rw [extractEvents_perm.mem_iff, mem_append, mem_balanceEvents]
  exact not_or.mpr ⟨by simp, not_mem_meaningEvents rfl⟩

end Movements

end Knomosis.Kernel
