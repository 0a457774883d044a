import Knomosis.Indexer.BalanceMirror
import Knomosis.Runtime.Budgets

/-!
# The remaining budget

The indexer counts what each actor was granted and charged in the current epoch, and
forgets both at the first event of the next one.  The kernel moves each budget on its
own, when the actor is next seen.  Their epochs begin with the same actions, so the
counts are those of the kernel's epoch.

What the indexer cannot count is what an actor began the epoch with.  It takes the free
tier for it.  That is too little for an actor who carried over more, and in epoch zero
it is too much, since the kernel gives no free tier there.
-/

namespace Knomosis.Indexer

open Lib Knomosis.Runtime List Nat
open Kernel (ActorId granted)

section Counting

/-- The amount of a budget event. -/
def budgetAmount : Kernel.Event → ℕ
  | .depositWithFeeCredited _ _ _ _ _ grant _ => grant
  | .actionBudgetTopUp _ _ _ increment _ | .delegatedActionBudgetTopUp _ _ _ _ increment _ =>
    increment
  | .budgetConsumed _ amount => amount
  | _ => 0

/-- What an event grants to an actor. -/
def grantIn (a : ActorId) : Kernel.Event → ℕ
  | .depositWithFeeCredited _ recipient _ _ _ grant _ => if a = recipient then grant else 0
  | .actionBudgetTopUp signer _ _ increment _ => if a = signer then increment else 0
  | .delegatedActionBudgetTopUp recipient _ _ _ increment _ =>
    if a = recipient then increment else 0
  | _ => 0

/-- What an event charges an actor. -/
def chargeIn (a : ActorId) : Kernel.Event → ℕ
  | .budgetConsumed actor amount => if a = actor then amount else 0
  | _ => 0

/-- The event grants or charges a budget. -/
def carriesBudget : Kernel.Event → Bool
  | .depositWithFeeCredited .. | .actionBudgetTopUp .. | .delegatedActionBudgetTopUp ..
  | .budgetConsumed .. => true
  | _ => false

theorem single_same (table : Table) (actor actor' : UInt64) (amount : ℕ) :
    single table actor amount table actor' = if actor' = actor then amount else 0 := by
  by_cases h : actor' = actor
  · simp [single, h]
  · simp [single, h]

theorem grantCounts_currentEpochGrants
    (actor resource poolActor actor' : UInt64) (grant amount : ℕ) :
    grantCounts actor grant resource poolActor amount .currentEpochGrants actor' =
      if actor' = actor then grant else 0 := by
  have hother : Table.currentEpochGrants ≠ .actorBudgets := by decide
  simp only [grantCounts, Pi.add_apply, single_of_ne hother, single_same,
    poolCounts_of_isBudget (show Table.currentEpochGrants.isBudget = true from rfl),
    zero_add, add_zero]

theorem grantCounts_currentEpochConsumed
    (actor resource poolActor actor' : UInt64) (grant amount : ℕ) :
    grantCounts actor grant resource poolActor amount .currentEpochConsumed actor' = 0 := by
  have hbudgets : Table.currentEpochConsumed ≠ .actorBudgets := by decide
  have hgrants : Table.currentEpochConsumed ≠ .currentEpochGrants := by decide
  simp only [grantCounts, Pi.add_apply, single_of_ne hbudgets, single_of_ne hgrants,
    poolCounts_of_isBudget (show Table.currentEpochConsumed.isBudget = true from rfl),
    add_zero]

theorem toNat_budget {n : ℕ} (h : n < 2 ^ 128) : (BitVec.ofNat 128 n).toNat = n := by
  rw [BitVec.toNat_ofNat, mod_eq_of_lt h]

variable {e : Kernel.Event} {events : List Kernel.Event} {amount : Kernel.Event → ℕ}
variable {pre post : Kernel.ExtendedState} {st : Kernel.SignedAction}

theorem counts_currentEpochGrants (hfits : budgetAmount e < 2 ^ 128) (a : ActorId) :
    (ofKernel e).counts .currentEpochGrants a = grantIn a e := by
  cases e with
  | depositWithFeeCredited _ _ _ _ _ grant =>
    have hgrant : grant < 2 ^ 128 := hfits
    refine (grantCounts_currentEpochGrants _ _ _ _ _ _).trans ?_
    rw [toNat_budget hgrant]
    rfl
  | actionBudgetTopUp _ _ _ increment | delegatedActionBudgetTopUp _ _ _ _ increment =>
    have hgrant : increment < 2 ^ 128 := hfits
    refine (grantCounts_currentEpochGrants _ _ _ _ _ _).trans ?_
    rw [toNat_budget hgrant]
    rfl
  | budgetConsumed => exact single_of_ne (by decide) _ _ _
  | _ => rfl

theorem counts_currentEpochConsumed (hfits : budgetAmount e < 2 ^ 128) (a : ActorId) :
    (ofKernel e).counts .currentEpochConsumed a = chargeIn a e := by
  cases e with
  | depositWithFeeCredited | actionBudgetTopUp | delegatedActionBudgetTopUp =>
    exact grantCounts_currentEpochConsumed _ _ _ _ _ _
  | budgetConsumed _ amount =>
    have hcharge : amount < 2 ^ 128 := hfits
    refine (single_same _ _ _ _).trans ?_
    rw [toNat_budget hcharge]
    rfl
  | _ => rfl

theorem batchCounts_eq_sum {table : Table} {actor : UInt64}
    (hamount : ∀ e ∈ events, (ofKernel e).counts table actor = amount e) :
    batchCounts events table actor = (events.map amount).sum := by
  induction events with
  | nil => rfl
  | cons e _ ih =>
    have hrest := ih (fun e' he' => hamount e' (mem_cons_of_mem _ he'))
    simp only [batchCounts, map_cons, sum_cons, Pi.add_apply] at hrest ⊢
    rw [hamount e mem_cons_self, hrest]

theorem sum_of_quiet (hamount : ∀ e, carriesBudget e = false → amount e = 0)
    (hquiet : ∀ e ∈ events, carriesBudget e = false) : (events.map amount).sum = 0 := by
  refine sum_eq_zero fun n hn => ?_
  obtain ⟨e, he, rfl⟩ := mem_map.mp hn
  exact hamount e (hquiet e he)

/-- Only the events of the gas pool and of the charge carry a budget. -/
theorem sum_extractEvents (hamount : ∀ e, carriesBudget e = false → amount e = 0) :
    ((Kernel.extractEvents pre post st).map amount).sum =
      ((Kernel.gasPoolEvents pre st.signer st.action).map amount).sum +
        ((Kernel.budgetConsumedEvents pre st.signer st.action).map amount).sum := by
  have hbalance : ((Kernel.balanceEvents pre post st).map amount).sum = 0 := by
    refine sum_of_quiet hamount fun e he => ?_
    obtain ⟨r, a, -, -, rfl⟩ := Kernel.mem_balanceEvents.mp he
    rfl
  have hstated : ((Kernel.statedEvents st.action).map amount).sum = 0 := by
    refine sum_of_quiet hamount ?_
    cases st.action <;> simp [Kernel.statedEvents, carriesBudget]
  have hbridge : ((Kernel.bridgeEvents pre st.action).map amount).sum = 0 := by
    refine sum_of_quiet hamount ?_
    cases st.action <;> simp [Kernel.bridgeEvents, carriesBudget]
  have hlocal : ((Kernel.localPolicyEvents st.signer st.action).map amount).sum = 0 := by
    refine sum_of_quiet hamount ?_
    cases st.action <;> simp [Kernel.localPolicyEvents, carriesBudget]
  have hproof : ((Kernel.faultProofEvents st.signer st.action).map amount).sum = 0 := by
    refine sum_of_quiet hamount ?_
    cases st.action <;> simp [Kernel.faultProofEvents, carriesBudget]
  have hnonce : ∀ a oldN newN, amount (.nonceAdvanced a oldN newN) = 0 :=
    fun a oldN newN => hamount _ rfl
  rw [(Kernel.extractEvents_perm.map amount).sum_eq, Kernel.meaningEvents]
  simp only [map_append, List.sum_append, hbalance, hstated, hbridge, hlocal, hproof, hnonce,
    map_singleton, sum_singleton, zero_add, add_zero]

theorem sum_grantIn (a : ActorId) :
    ((Kernel.extractEvents pre post st).map (grantIn a)).sum = granted st.signer st.action a := by
  have hquiet : ∀ e, carriesBudget e = false → grantIn a e = 0 := by
    intro e he
    cases e <;> first | rfl | cases he
  have hcharge : ((Kernel.budgetConsumedEvents pre st.signer st.action).map (grantIn a)).sum =
      0 := by
    rcases hpolicy : pre.budgetPolicy with ⟨freeTier, actionCost, currentEpoch⟩
    rw [Kernel.budgetConsumedEvents_eq hpolicy]
    split <;> rfl
  rw [sum_extractEvents hquiet, hcharge, add_zero]
  cases st.action <;> simp [Kernel.gasPoolEvents, grantIn, granted, Kernel.grantOf]

theorem sum_chargeIn {freeTier actionCost currentEpoch : ℕ}
    (hpolicy : pre.budgetPolicy = .bounded freeTier actionCost currentEpoch) (a : ActorId) :
    ((Kernel.extractEvents pre post st).map (chargeIn a)).sum = charged actionCost st a := by
  have hquiet : ∀ e, carriesBudget e = false → chargeIn a e = 0 := by
    intro e he
    cases e <;> first | rfl | cases he
  have hpool : ((Kernel.gasPoolEvents pre st.signer st.action).map (chargeIn a)).sum = 0 := by
    cases st.action <;> rfl
  rw [sum_extractEvents hquiet, hpool, zero_add, Kernel.budgetConsumedEvents_eq hpolicy, charged]
  by_cases hbridge : st.signer = Kernel.bridgeActor
  · simp [hbridge]
  · by_cases hcost : actionCost + Kernel.refundConsumeExtra st.action = 0
    · simp [hbridge, hcost]
    · simp [hbridge, pos_of_ne_zero hcost, chargeIn]

end Counting

section Epochs

theorem epochForSeq_succ {epochLength i : ℕ} (hi : i ≠ 0) :
    epochForSeq (i + 1) epochLength = epochForSeq i epochLength ↔
      ¬ (epochLength ≠ 0 ∧ i % epochLength = 0) := by
  unfold epochForSeq
  by_cases hlength : epochLength = 0
  · simp [hlength]
  obtain ⟨j, rfl⟩ := Nat.exists_eq_succ_of_ne_zero hi
  rw [if_neg hlength, if_neg hlength, Nat.add_sub_cancel, Nat.succ_sub_one, Nat.succ_div,
    ← Nat.dvd_iff_mod_eq_zero]
  by_cases hdvd : epochLength ∣ j + 1
  · simp [hdvd, hlength]
  · simp [hdvd]

/-- The indexer forgets the counts of an epoch where the runtime begins the next. -/
theorem cells_dispatchEpochIfCrossed
    {rs : RuntimeState} {s : Storage} {table : Table} {actor : UInt64} {start n : ℕ}
    (htable : table = .currentEpochGrants ∨ table = .currentEpochConsumed)
    (hindex : rs.logIndex = start + n) (hepoch : s.cells table actor = 0 ∨
      (n ≠ 0 ∧ s.currentEpoch = epochForSeq (start + n) rs.epochLength)) :
    (dispatchEpochIfCrossed (start + n + 1) rs.epochLength s).cells table actor =
      if rs.AtBoundary then 0 else s.cells table actor := by
  have hreset : (resetCurrentEpoch s).cells table actor = 0 := by
    rcases htable with rfl | rfl <;> rfl
  unfold dispatchEpochIfCrossed
  rcases hepoch with hzero | ⟨hn, hepoch⟩
  · rw [hzero, ite_self]
    split
    · exact hzero
    · exact hreset
  · have hi : start + n ≠ 0 := by omega
    have hboundary : rs.AtBoundary ↔ rs.epochLength ≠ 0 ∧ (start + n) % rs.epochLength = 0 := by
      rw [RuntimeState.AtBoundary, hindex]
      exact ⟨fun h => ⟨h.1, h.2.2⟩, fun h => ⟨h.1, hi, h.2⟩⟩
    rw [hepoch]
    by_cases hcross : rs.AtBoundary
    · rw [if_pos hcross, if_neg (fun h => (epochForSeq_succ hi).mp h (hboundary.mp hcross))]
      exact hreset
    · rw [if_neg hcross, if_pos ((epochForSeq_succ hi).mpr (fun h => hcross (hboundary.mpr h)))]

variable {verify : Kernel.Verifier} {hashStream : Hash} {rs₀ rs rs' : RuntimeState}
variable {h : List Processed} {ix ix' : IndexerState} {start actionCost : ℕ}

/-- The counts of the indexer after the events of a history. -/
structure Counted (start actionCost : ℕ) (h : List Processed) (rs : RuntimeState)
    (ix : IndexerState) : Prop where
  epochLength : ix.epochLength = rs.epochLength
  epoch : h = [] ∨ ix.storage.currentEpoch = epochForSeq (start + h.length) rs.epochLength
  grants : ∀ a, ix.storage.cells .currentEpochGrants a =
    sinceBoundary (fun e => granted e.call.signer e.call.action a) h
  consumed : ∀ a, ix.storage.cells .currentEpochConsumed a =
    sinceBoundary (fun e => charged actionCost e.call a) h
  width : ∀ a, ix.storage.cells .currentEpochGrants a ≤ h.length * (264 * 2 ^ 128)

/-- The counts of an epoch as the next batch finds them. -/
theorem Counted.dispatched {table : Table} {amount : Processed → ℕ} {actor : UInt64}
    (hcounted : Counted start actionCost h rs ix)
    (htable : table = .currentEpochGrants ∨ table = .currentEpochConsumed)
    (hamount : ix.storage.cells table actor = sinceBoundary amount h)
    (hindex : rs.logIndex = start + h.length) :
    (dispatchEpochIfCrossed (start + h.length + 1) ix.epochLength ix.storage).cells table actor =
      if rs.AtBoundary then 0 else sinceBoundary amount h := by
  rw [hcounted.epochLength, ← hamount]
  refine cells_dispatchEpochIfCrossed htable hindex ?_
  rcases hcounted.epoch with rfl | hepoch
  · exact .inl hamount
  · cases h with
    | nil => exact .inl hamount
    | cons => exact .inr ⟨succ_ne_zero _, hepoch⟩

theorem Counted.step {st : Kernel.SignedAction} {out : Kernel.LogEntry × List Kernel.Event}
    {freeTier currentEpoch : ℕ} (hcounted : Counted start actionCost h rs ix)
    (hadmitted : Admitted verify rs st rs' out.2) (hindex : rs.logIndex = start + h.length)
    (hpolicy : rs.effective.budgetPolicy = .bounded freeTier actionCost currentEpoch)
    (hfits : ∀ e ∈ out.2, budgetAmount e < 2 ^ 128)
    (happly : ix.applyBatch (start + h.length + 1) (out.2.map ofKernel) = .ok ix') :
    Counted start actionCost (⟨rs, st, out⟩ :: h) rs' ix' := by
  obtain ⟨hcells, hepoch, hlength⟩ :=
    counters_of_applyBatch (fun e he => noClaim_of_admitted hadmitted he) happly
  have hcell : ∀ table a, ix'.storage.cells table a =
      (dispatchEpochIfCrossed (start + h.length + 1) ix.epochLength ix.storage).cells table a +
        batchCounts out.2 table a := by
    intro table a
    rw [hcells]
    rfl
  refine ⟨?_, .inr ?_, fun a => ?_, fun a => ?_, fun a => ?_⟩
  · rw [hlength, hcounted.epochLength, hadmitted.epochLength]
  · rw [hepoch, hcounted.epochLength, hadmitted.epochLength]
    unfold dispatchEpochIfCrossed
    split
    next hsame => exact hsame.symm
    · rfl
  · rw [hcell, hcounted.dispatched (.inl rfl) (hcounted.grants a) hindex,
      batchCounts_eq_sum (fun e he => counts_currentEpochGrants (hfits e he) a),
      hadmitted.events, sum_grantIn, sinceBoundary]
  · rw [hcell, hcounted.dispatched (.inr rfl) (hcounted.consumed a) hindex,
      batchCounts_eq_sum (fun e he => counts_currentEpochConsumed (hfits e he) a),
      hadmitted.events, sum_chargeIn hpolicy, sinceBoundary]
  have hfew : out.2.length ≤ 264 := hadmitted.length_events_le
  have hbefore := (cells_dispatchEpochIfCrossed_le (start + h.length + 1) ix.epochLength
    ix.storage .currentEpochGrants a).trans (hcounted.width a)
  have hbatch := batchCounts_le (show Table.currentEpochGrants.isBudget = true from rfl) out.2 a
  rw [hcell, length_cons]
  omega

theorem counted_of_run {freeTier baseEpoch : ℕ} {gasPoolActor : Option UInt64}
    (hrun : Run (runtime verify hashStream) rs₀ h rs)
    (hpolicy : rs₀.state.budgetPolicy = .bounded freeTier actionCost baseEpoch)
    (hempty : rs₀.state.epochBudgets = ∅)
    (hfits : ∀ e ∈ h, ∀ event ∈ e.out.2, budgetAmount event < 2 ^ 128)
    (hfeed : feed (.fresh gasPoolActor rs₀.epochLength) rs₀.logIndex h = .ok ix) :
    Counted rs₀.logIndex actionCost h rs ix := by
  induction hrun generalizing ix with
  | nil =>
    cases hfeed
    exact ⟨rfl, .inl rfl, fun _ => rfl, fun _ => rfl, fun _ => zero_le _⟩
  | @snoc _ _ _ st out prev hstep ih =>
    obtain ⟨before, hbefore, happly⟩ := bind_eq_ok.mp hfeed
    have hcounted := ih (fun e he => hfits e (mem_cons_of_mem _ he)) hbefore
    have hbalanced := balanced_of_run prev hpolicy hempty
    exact hcounted.step (admitted_of_step hstep) (indices_of_run prev).1
      (hbalanced.effective st out).1 (hfits _ mem_cons_self) happly

/-- What the indexer says is left is no more than what is, and just that where no more than the
free tier was carried over. -/
def LowerBound (freeTier : BudgetUnits) (h : List Processed) (rs : RuntimeState)
    (ix : IndexerState) (a : ActorId) : Prop :=
  remainingThisEpoch ix.storage a freeTier ≤ currentBudget rs.state a ∧
    (carried a h ≤ freeTier.toNat →
      remainingThisEpoch ix.storage a freeTier = currentBudget rs.state a)

/-- As long as the pools' counters hold what is paid in, the indexer takes every batch, and the
remaining budget is a lower bound but for a free tier in epoch zero. -/
theorem remaining_budget_iff
    {freeTier : BudgetUnits}
    {baseEpoch : ℕ}
    {gasPoolActor : Option UInt64}
    (hrun : Run (runtime verify hashStream) rs₀ h rs)
    (hpolicy : rs₀.state.budgetPolicy = .bounded freeTier.toNat actionCost baseEpoch)
    (hempty : rs₀.state.epochBudgets = ∅)
    (hfits : ∀ e ∈ h, ∀ event ∈ e.out.2, budgetAmount event < 2 ^ 128)
    (hlen : h.length < 2 ^ 64)
    (hpools : PoolsHold h) :
    ∃ ix,
      feed (.fresh gasPoolActor rs₀.epochLength) rs₀.logIndex h = .ok ix ∧
      ∀ a,
        LowerBound freeTier h rs ix a ↔
          freeTier.toNat = 0 ∨ baseEpoch ≠ 0 ∨ ∃ e ∈ h, e.pre.AtBoundary := by
  obtain ⟨ix, hfeed, -, -⟩ := fed_of_run hrun hlen hpools
  refine ⟨ix, hfeed, fun a => ?_⟩
  have hcounted := counted_of_run hrun hpolicy hempty hfits hfeed
  have hbalance := (balanced_of_run hrun hpolicy hempty).balance a
  rw [← hcounted.grants, ← hcounted.consumed] at hbalance
  have hwidth := hcounted.width a
  have hfree := freeTier.isLt
  have hremaining : remainingThisEpoch ix.storage a freeTier =
      freeTier.toNat + ix.storage.cells .currentEpochGrants a -
        ix.storage.cells .currentEpochConsumed a := by
    unfold remainingThisEpoch
    rw [min_eq_left (by omega)]
  have hcrossed : (∃ e ∈ h, e.pre.AtBoundary) ↔ crossings h ≠ 0 := by
    rw [Ne, crossings_eq_zero, not_not]
  unfold LowerBound
  rw [hremaining, hcrossed]
  split at hbalance
  · -- epoch zero: the kernel began with nothing
    omega
  · -- any later epoch: the kernel began with at least the free tier
    omega

/-- A deployment with a free tier of five, the bridge and one actor, and epochs of two actions. -/
def tieredRuntime : RuntimeState :=
  { emptyRuntime with
    state := { Kernel.ExtendedState.empty (.bounded 5 1 0) with
      registry := ((∅ : Kernel.KeyRegistry).insert Kernel.bridgeActor []).insert 7 [] }
    epochLength := 2 }

/-- The bridge mints twice, and then the actor pays out of the free tier. -/
def spendFreeTier : List Kernel.SignedAction :=
  [⟨.mint 0 7 9, Kernel.bridgeActor, 0, []⟩, ⟨.mint 0 7 9, Kernel.bridgeActor, 1, []⟩,
    ⟨.transfer 0 7 8 1, 7, 0, []⟩]

theorem remaining_budget_after_transfer :
    ∃ h rs ix,
      Run (runtime (fun _ _ _ => true) (fun _ => [])) tieredRuntime h rs ∧
      feed (.fresh none 2) 0 h = .ok ix ∧
      remainingThisEpoch ix.storage 7 5 = 4 ∧
      LowerBound 5 h rs ix 7 := by
  obtain ⟨h, rs, hrun, hlen, hboundary, hfits, hinflow, hfour⟩ :=
    Run.exists_of_decide (runtime (fun _ _ _ => true) (fun _ => [])) tieredRuntime spendFreeTier
      (fun h _ => h.length = 3 ∧ (∃ e ∈ h, e.pre.AtBoundary) ∧
        (∀ e ∈ h, ∀ event ∈ e.out.2, budgetAmount event < 2 ^ 128) ∧ fedInflow h = 0 ∧
        ∀ ix ∈ (feed (.fresh none 2) 0 h).toOption, remainingThisEpoch ix.storage 7 5 = 4)
      (by decide +kernel)
  have hshort : h.length < 2 ^ 64 := hlen ▸ by norm_num
  have hpools : PoolsHold h := poolsHold_of_fedInflow (hinflow ▸ by norm_num)
  have hpolicy : tieredRuntime.state.budgetPolicy = .bounded (5 : BudgetUnits).toNat 1 0 := rfl
  obtain ⟨ix, hfeed, hiff⟩ := remaining_budget_iff hrun hpolicy rfl hfits hshort hpools
  exact ⟨h, rs, ix, hrun, hfeed, hfour ix (toOption_eq_some.mpr hfeed),
    (hiff 7).mpr (.inr (.inr hboundary))⟩

/-- In epoch zero the indexer shows a free tier that the kernel does not give. -/
theorem free_tier_shown_in_epoch_zero :
    ∃ h rs ix,
      Run (runtime (fun _ _ _ => true) (fun _ => [])) tieredRuntime h rs ∧
      h.length = 1 ∧
      feed (.fresh none 2) 0 h = .ok ix ∧
      remainingThisEpoch ix.storage 7 5 = 5 ∧
      currentBudget rs.state 7 = 0 := by
  obtain ⟨h, rs, hrun, hlen, hzero, ix, hfeed, hfive⟩ :=
    Run.exists_of_decide (runtime (fun _ _ _ => true) (fun _ => [])) tieredRuntime
      (spendFreeTier.take 1)
      (fun h rs => h.length = 1 ∧ currentBudget rs.state 7 = 0 ∧
        ∃ ix ∈ (feed (.fresh none 2) 0 h).toOption, remainingThisEpoch ix.storage 7 5 = 5)
      (by decide +kernel)
  exact ⟨h, rs, ix, hrun, hlen, toOption_eq_some.mp hfeed, hfive, hzero⟩

end Epochs

end Knomosis.Indexer
