import Knomosis.Indexer.Batch
import Knomosis.Indexer.EventAgreement
import Knomosis.Runtime.Loop

/-!
# The balances of the indexer

The indexer is fed the events of the runtime, one batch for each admitted action, under
consecutive numbers.  A batch states every balance that its action changed, and the
events that stand for a credit or a debit move nothing beside that.

The counters of the pools take in what the pools were paid and give nothing back, since
the kernel reports no claim on a pool.  Once they are full the indexer stops.
-/

namespace Knomosis.Indexer

open Lib Knomosis.Runtime List Nat
open Signing.L1Ingest (Amount)

/-- Feed the events of a history, the oldest first. -/
def feed (ix : IndexerState) (start : ℕ) : List Processed → Except IndexerError IndexerState
  | [] => .ok ix
  | e :: h => do
    let ix ← feed ix start h
    ix.applyBatch (start + h.length + 1) (e.out.2.map ofKernel)

/-- What the events of a batch add to the counters. -/
def batchCounts (events : List Kernel.Event) : Counts :=
  ((events.map ofKernel).map Event.counts).sum

/-- What all batches of a run add. -/
def fedCounts (h : List Processed) : Counts := (h.map fun e => batchCounts e.out.2).sum

theorem fedCounts_cons (e : Processed) (h : List Processed) (table : Table) (actor : UInt64) :
    fedCounts (e :: h) table actor = batchCounts e.out.2 table actor + fedCounts h table actor := by
  simp [fedCounts]

section Widths

/-- The counters of the budgets, which are not those of the pools. -/
def Table.isBudget : Table → Bool
  | actorBudgets | currentEpochGrants | currentEpochConsumed => true
  | poolBalancesEth | poolBalancesBold => false

theorem single_le (table table' : Table) (actor actor' : UInt64) (amount : ℕ) :
    single table actor amount table' actor' ≤ amount := by
  unfold single
  by_cases htable : table' = table
  · subst htable
    by_cases hactor : actor' = actor
    · subst hactor
      simp
    · simp [hactor]
  · simp [htable]

variable {table : Table}

theorem single_of_ne {table' : Table} (hne : table' ≠ table) (actor actor' : UInt64) (amount : ℕ) :
    single table actor amount table' actor' = 0 := by
  simp [single, hne]

theorem poolCounts_of_isBudget (hbudget : table.isBudget = true)
    (resource poolActor actor : UInt64) (amount : ℕ) :
    poolCounts resource poolActor amount table actor = 0 := by
  unfold poolCounts poolTable
  split_ifs
  · exact single_of_ne (by rintro rfl; cases hbudget) _ _ _
  · exact single_of_ne (by rintro rfl; cases hbudget) _ _ _
  · rfl

theorem grantCounts_le (hbudget : table.isBudget = true)
    (actor resource poolActor actor' : UInt64) (grant amount : ℕ) :
    grantCounts actor grant resource poolActor amount table actor' ≤ grant := by
  unfold grantCounts
  simp only [Pi.add_apply, poolCounts_of_isBudget hbudget, add_zero]
  by_cases htable : table = .actorBudgets
  · have hother : table ≠ .currentEpochGrants := by
      rw [htable]
      decide
    rw [single_of_ne hother]
    exact single_le _ _ _ _ _
  · rw [single_of_ne htable, zero_add]
    exact single_le _ _ _ _ _

theorem counts_le_of_isBudget (hbudget : table.isBudget = true) (e : Event) (actor : UInt64) :
    e.counts table actor ≤ 2 ^ 128 := by
  cases e with
  | depositWithFeeCredited _ _ _ _ _ grant =>
    exact (grantCounts_le hbudget _ _ _ _ _ _).trans grant.isLt.le
  | actionBudgetTopUp _ _ _ increment | delegatedActionBudgetTopUp _ _ _ _ increment =>
    exact (grantCounts_le hbudget _ _ _ _ _ _).trans increment.isLt.le
  | budgetConsumed _ amount => exact (single_le _ _ _ _ _).trans amount.isLt.le
  | _ => exact zero_le _

/-- What an event says was paid to a pool. -/
def Event.inflow : Event → ℕ
  | depositWithFeeCredited _ _ _ _ poolAmount _ _ => poolAmount.toNat
  | actionBudgetTopUp _ _ gasAmount _ _ | delegatedActionBudgetTopUp _ _ _ gasAmount _ _ =>
    gasAmount.toNat
  | _ => 0

theorem poolCounts_le (resource poolActor actor : UInt64) (table : Table) (amount : ℕ) :
    poolCounts resource poolActor amount table actor ≤ amount := by
  unfold poolCounts
  cases poolTable resource with
  | none => exact zero_le _
  | some => exact single_le _ _ _ _ _

theorem grantCounts_le_of_pool (hpool : table.isBudget = false)
    (actor resource poolActor actor' : UInt64) (grant amount : ℕ) :
    grantCounts actor grant resource poolActor amount table actor' ≤ amount := by
  have hbudgets : table ≠ .actorBudgets := by
    rintro rfl
    cases hpool
  have hgrants : table ≠ .currentEpochGrants := by
    rintro rfl
    cases hpool
  unfold grantCounts
  simp only [Pi.add_apply, single_of_ne hbudgets, single_of_ne hgrants, zero_add]
  exact poolCounts_le _ _ _ _ _

theorem counts_le_inflow (hpool : table.isBudget = false) (e : Event) (actor : UInt64) :
    e.counts table actor ≤ e.inflow := by
  cases e with
  | depositWithFeeCredited | actionBudgetTopUp | delegatedActionBudgetTopUp =>
    exact grantCounts_le_of_pool hpool _ _ _ _ _ _
  | budgetConsumed =>
    have hconsumed : table ≠ .currentEpochConsumed := by
      rintro rfl
      cases hpool
    exact (single_of_ne hconsumed _ _ _).le
  | _ => exact zero_le _

/-- A bound on what single events add bounds what a batch adds. -/
theorem batchCounts_le_sum {actor : UInt64} {bound : Event → ℕ}
    (hbound : ∀ e : Event, e.counts table actor ≤ bound e) (events : List Kernel.Event) :
    batchCounts events table actor ≤ ((events.map ofKernel).map bound).sum := by
  induction events with
  | nil => exact Nat.zero_le _
  | cons e _ ih =>
    simp only [batchCounts, map_cons, sum_cons, Pi.add_apply] at ih ⊢
    exact Nat.add_le_add (hbound (ofKernel e)) ih

theorem batchCounts_le (hbudget : table.isBudget = true)
    (events : List Kernel.Event) (actor : UInt64) :
    batchCounts events table actor ≤ events.length * 2 ^ 128 := by
  have hsum := batchCounts_le_sum (fun e => counts_le_of_isBudget hbudget e actor) events
  rwa [map_const', sum_replicate, length_map, smul_eq_mul] at hsum

/-- What a run pays into the pools. -/
def fedInflow (h : List Processed) : ℕ :=
  (h.map fun e => ((e.out.2.map ofKernel).map Event.inflow).sum).sum

theorem fedCounts_le_fedInflow (hpool : table.isBudget = false)
    (h : List Processed) (actor : UInt64) : fedCounts h table actor ≤ fedInflow h := by
  induction h with
  | nil => exact Nat.zero_le _
  | cons e h ih =>
    have hbatch := batchCounts_le_sum (fun e => counts_le_inflow hpool e actor) e.out.2
    rw [fedCounts_cons, fedInflow, map_cons, sum_cons]
    exact Nat.add_le_add hbatch ih

end Widths

section Batches

variable {verify : Kernel.Verifier} {rs rs' : RuntimeState} {st : Kernel.SignedAction}
variable {events : List Kernel.Event}

theorem maxAmount_eq : Kernel.maxAmount = 2 ^ 256 := by norm_num [Kernel.maxAmount]

theorem ofKernel_eq_balanceChanged
    {e : Kernel.Event} {resource actor : UInt64} {oldValue newValue : Amount} :
    ofKernel e = .balanceChanged resource actor oldValue newValue ↔
      ∃ oldV newV, e = .balanceChanged resource actor oldV newV ∧
        BitVec.ofNat 256 oldV = oldValue ∧ BitVec.ofNat 256 newV = newValue := by
  cases e <;> simp [ofKernel, and_assoc]

/-- A batch states the balances that its action changed. -/
theorem mem_stated_of_admitted (hadmitted : Admitted verify rs st rs' events)
    {resource actor : UInt64} :
    (actor, resource) ∈ statedBalances (events.map ofKernel) ↔
      Kernel.getBalance rs.state.base resource actor ≠
        Kernel.getBalance rs'.state.base resource actor := by
  simp only [mem_statedBalances, mem_map, ofKernel_eq_balanceChanged]
  constructor
  · rintro ⟨oldValue, newValue, e, he, oldV, newV, rfl, -, -⟩
    exact (hadmitted.balanceChanged_mem.mp he).1
  · intro hchange
    exact ⟨_, _, _, hadmitted.balanceChanged_mem.mpr ⟨hchange, rfl, rfl⟩, _, _, rfl, rfl, rfl⟩

/-- The balance that the batch of an action leaves behind in the indexer. -/
def balanceAfter (rs rs' : RuntimeState) (ix : IndexerState) (actor resource : UInt64) : ℕ :=
  if Kernel.getBalance rs.state.base resource actor =
      Kernel.getBalance rs'.state.base resource actor then
    ix.storage.balances actor resource
  else
    Kernel.getBalance rs'.state.base resource actor % 2 ^ 256

/-- A batch states a balance as the action left it, in a word. -/
theorem stated_value_of_admitted (hadmitted : Admitted verify rs st rs' events)
    {resource actor : UInt64} {oldValue newValue : Amount} (ix : IndexerState)
    (hmem : .balanceChanged resource actor oldValue newValue ∈ events.map ofKernel) :
    newValue.toNat = balanceAfter rs rs' ix actor resource := by
  obtain ⟨e, he, heq⟩ := mem_map.mp hmem
  obtain ⟨oldV, newV, rfl, -, rfl⟩ := ofKernel_eq_balanceChanged.mp heq
  obtain ⟨hchange, -, rfl⟩ := hadmitted.balanceChanged_mem.mp he
  rw [BitVec.toNat_ofNat, balanceAfter, if_neg hchange]

theorem movement_ofKernel {e : Kernel.Event} {movement : (UInt64 × UInt64) × ℕ}
    (hmovement : (ofKernel e).movement = some movement) :
    ∃ amount, e.movement = some ((movement.1.2, movement.1.1), amount) ∧
      movement.2 = amount % 2 ^ 256 := by
  cases e with
  | rewardIssued _ _ amount | depositCredited _ _ amount | withdrawalRequested _ _ amount =>
    cases hmovement
    exact ⟨amount, rfl, BitVec.toNat_ofNat _ _⟩
  | _ => cases hmovement

theorem silent_of_admitted (hadmitted : Admitted verify rs st rs' events) {e : Event}
    (he : e ∈ events.map ofKernel) : e.Silent (statedBalances (events.map ofKernel)) := by
  obtain ⟨e, hmem, rfl⟩ := mem_map.mp he
  rintro ⟨⟨actor, resource⟩, moved⟩ hmovement
  obtain ⟨amount, hkernel, hmoved⟩ := movement_ofKernel hmovement
  rcases hadmitted.movement hmem hkernel with rfl | hchange
  · exact .inr hmoved
  · exact .inl ((mem_stated_of_admitted hadmitted).mpr hchange)

theorem noClaim_of_admitted (hadmitted : Admitted verify rs st rs' events) {e : Event}
    (he : e ∈ events.map ofKernel) : e.isClaim = false := by
  obtain ⟨e, hmem, rfl⟩ := mem_map.mp he
  cases e with
  | gasPoolClaim =>
    rw [hadmitted.events] at hmem
    exact absurd hmem Kernel.gasPoolClaim_not_mem_extractEvents
  | _ => rfl

end Batches

section Runs

variable {verify : Kernel.Verifier} {hashStream : Hash} {rs₀ rs : RuntimeState}
variable {h : List Processed} {ix : IndexerState} {start : ℕ}

/-- The indexer has taken the events of a history. -/
structure Fed (start : ℕ) (h : List Processed) (ix : IndexerState) : Prop where
  healthy : ix.poisoned = false
  saved : ix.storage.cursor = ix.cursor
  cursor : ix.cursor ≤ start + h.length
  width : ∀ actor resource, ix.storage.balances actor resource < 2 ^ 256
  counters : ∀ table actor, ix.storage.cells table actor ≤ fedCounts h table actor
  budgets : ∀ table actor, table.isBudget = true →
    fedCounts h table actor ≤ h.length * (264 * 2 ^ 128)

/-- The pools' counters can hold all that a history pays in. -/
def PoolsHold (h : List Processed) : Prop :=
  ∀ actor, fedCounts h .poolBalancesEth actor < 2 ^ 256 ∧
    fedCounts h .poolBalancesBold actor < 2 ^ 256

theorem poolsHold_of_fedInflow (hinflow : fedInflow h < 2 ^ 256) : PoolsHold h :=
  fun actor => ⟨(fedCounts_le_fedInflow rfl h actor).trans_lt hinflow,
    (fedCounts_le_fedInflow rfl h actor).trans_lt hinflow⟩

theorem cells_dispatchEpochIfCrossed_le
    (seq epochLength : ℕ) (s : Storage) (table : Table) (actor : UInt64) :
    (dispatchEpochIfCrossed seq epochLength s).cells table actor ≤ s.cells table actor := by
  unfold dispatchEpochIfCrossed resetCurrentEpoch
  split
  · exact le_rfl
  · cases table <;> simp

theorem PoolsHold.tail {e : Processed} (hpools : PoolsHold (e :: h)) : PoolsHold h := by
  intro actor
  have hall := hpools actor
  simp only [fedCounts_cons] at hall
  omega

section Step

variable {st : Kernel.SignedAction} {rs' : RuntimeState}
variable {out : Kernel.LogEntry × List Kernel.Event}

theorem Fed.budgets_step (hfed : Fed start h ix) {events : List Kernel.Event}
    (hfew : events.length ≤ 264) (table : Table) (actor : UInt64)
    (hbudget : table.isBudget = true) :
    batchCounts events table actor + fedCounts h table actor ≤
      (h.length + 1) * (264 * 2 ^ 128) := by
  have hbatch := batchCounts_le hbudget events actor
  have hbefore := hfed.budgets table actor hbudget
  have hwidth := Nat.mul_le_mul_right (2 ^ 128) hfew
  omega

/-- The counters have room for the next batch. -/
theorem Fed.room (hfed : Fed start h ix) (hfew : out.2.length ≤ 264) (hlen : h.length < 2 ^ 64)
    (hpools : PoolsHold (⟨rs, st, out⟩ :: h)) :
    (dispatchEpochIfCrossed (start + h.length + 1) ix.epochLength ix.storage).Room
      ((out.2.map ofKernel).map Event.counts).sum := by
  intro table actor
  have hcells := (cells_dispatchEpochIfCrossed_le (start + h.length + 1) ix.epochLength
    ix.storage table actor).trans (hfed.counters table actor)
  have hcounts : batchCounts out.2 table actor + fedCounts h table actor < 2 ^ 256 := by
    have hpool := hpools actor
    simp only [fedCounts_cons] at hpool
    cases htable : table with
    | poolBalancesEth => exact hpool.1
    | poolBalancesBold => exact hpool.2
    | _ =>
      have hbudget := hfed.budgets_step hfew table actor (by rw [htable]; rfl)
      rw [← htable]
      omega
  change _ + batchCounts out.2 table actor < _
  omega

/-- The batch of an admitted action is applied. -/
theorem Fed.step
    (hfed : Fed start h ix)
    (hadmitted : Admitted verify rs st rs' out.2)
    (hlen : h.length < 2 ^ 64)
    (hpools : PoolsHold (⟨rs, st, out⟩ :: h)) :
    ∃ ix',
      ix.applyBatch (start + h.length + 1) (out.2.map ofKernel) = .ok ix' ∧
      Fed start (⟨rs, st, out⟩ :: h) ix' ∧
      ix'.storage.balances = balanceAfter rs rs' ix := by
  have hclaim : ∀ e ∈ out.2.map ofKernel, e.isClaim = false :=
    fun e he => noClaim_of_admitted hadmitted he
  have hfew : out.2.length ≤ 264 := hadmitted.length_events_le
  have hrest : ∀ actor resource, (actor, resource) ∉ statedBalances (out.2.map ofKernel) →
      ix.storage.balances actor resource = balanceAfter rs rs' ix actor resource := by
    intro actor resource hnot
    rw [mem_stated_of_admitted hadmitted, not_not] at hnot
    rw [balanceAfter, if_pos hnot]
  have hsize : (out.2.map ofKernel).length ≤ INDEXER_MAX_BATCH_EVENTS := by
    rw [length_map]
    exact hfew.trans (by decide)
  obtain ⟨ix', happly, hbalances, hsaved, hcursor, hhealthy⟩ :=
    applyBatch_of_stated hfed.healthy hfed.saved (Nat.lt_succ_of_le hfed.cursor)
      (by simpa using hadmitted.events_ne_nil) hsize hfed.width
      (fun e he => silent_of_admitted hadmitted he)
      (fun _ _ _ _ hmem => stated_value_of_admitted hadmitted ix hmem)
      hrest hclaim (hfed.room hfew hlen hpools)
  obtain ⟨hcells, -, -⟩ := counters_of_applyBatch hclaim happly
  refine ⟨ix', happly, ⟨hhealthy, hsaved.trans hcursor.symm, hcursor.le, ?_, ?_,
    ?_⟩, hbalances⟩
  · intro actor resource
    rw [hbalances]
    dsimp only [balanceAfter]
    split
    · exact hfed.width actor resource
    · exact Nat.mod_lt _ (by norm_num)
  · intro table actor
    rw [hcells, fedCounts_cons, Nat.add_comm (batchCounts _ _ _)]
    exact Nat.add_le_add_right ((cells_dispatchEpochIfCrossed_le _ _ _ _ _).trans
      (hfed.counters table actor)) _
  · intro table actor hbudget
    rw [fedCounts_cons]
    exact hfed.budgets_step hfew table actor hbudget

end Step

/-- The indexer mirrors balances that fit their words. -/
def Mirrors (rs : RuntimeState) (ix : IndexerState) : Prop :=
  rs.state.base.Bounded ∧ ∀ actor resource,
    ix.storage.balances actor resource = Kernel.getBalance rs.state.base resource actor

/-- The indexer takes every batch, and mirrors the kernel if it did at the start. -/
theorem fed_of_run {gasPoolActor : Option UInt64} {epochLength : ℕ}
    (hrun : Run (runtime verify hashStream) rs₀ h rs) (hlen : h.length < 2 ^ 64)
    (hpools : PoolsHold h) :
    ∃ ix, feed (.fresh gasPoolActor epochLength) start h = .ok ix ∧ Fed start h ix ∧
      (Mirrors rs₀ (.fresh gasPoolActor epochLength) → Mirrors rs ix) := by
  induction hrun with
  | nil =>
    exact ⟨_, rfl, ⟨rfl, rfl, zero_le _, fun _ _ => Nat.two_pow_pos 256,
      fun _ _ => zero_le _, fun _ _ _ => zero_le _⟩, id⟩
  | @snoc h rs rs' st out _ hstep ih =>
    rw [length_cons] at hlen
    have hadmitted := admitted_of_step hstep
    obtain ⟨ix, hfeed, hfed, hmirror⟩ := ih (by omega) hpools.tail
    obtain ⟨ix', happly, hfed', hbalances⟩ := hfed.step hadmitted (by omega) hpools
    refine ⟨ix', ?_, hfed', ?_⟩
    · rw [feed, hfeed, ok_bind]
      exact happly
    · intro hstart
      obtain ⟨hbounded, hsame⟩ := hmirror hstart
      have hbounded' := hadmitted.bounded hbounded
      refine ⟨hbounded', fun actor resource => ?_⟩
      rw [hbalances]
      unfold balanceAfter
      rw [hsame]
      split
      next hkept => exact hkept
      · exact mod_eq_of_lt ((hbounded' resource actor).trans_eq maxAmount_eq)

/-- Without balances at the start, the indexer takes every batch and mirrors the kernel. -/
theorem indexer_mirrors_balances
    {gasPoolActor : Option UInt64}
    {epochLength : ℕ}
    (hrun : Run (runtime verify hashStream) rs₀ h rs)
    (hzero : ∀ resource actor, Kernel.getBalance rs₀.state.base resource actor = 0)
    (hseq : start + h.length < 2 ^ 64)
    (hpools : PoolsHold h) :
    ∃ ix,
      feed (.fresh gasPoolActor epochLength) start h = .ok ix ∧
      ∀ actor resource,
        ix.storage.balances actor resource = Kernel.getBalance rs.state.base resource actor := by
  obtain ⟨ix, hfeed, -, hmirror⟩ := fed_of_run hrun (by omega) hpools
  refine ⟨ix, hfeed, (hmirror ⟨?_, fun actor resource => (hzero resource actor).symm⟩).2⟩
  intro resource actor
  rw [hzero]
  norm_num [Kernel.maxAmount]

/-- A deployment without balances whose bridge may do anything. -/
def emptyRuntime : RuntimeState where
  policy := .unrestricted
  state := { Kernel.ExtendedState.empty (.bounded 0 1 0) with
    registry := (∅ : Kernel.KeyRegistry).insert Kernel.bridgeActor [] }
  prevHash := []
  logIndex := 0
  deploymentId := []
  epochLength := 0
  refundRate _ := 0

theorem emptyRuntime_balances (resource actor : UInt64) :
    Kernel.getBalance emptyRuntime.state.base resource actor = 0 := by
  simp [emptyRuntime, Kernel.ExtendedState.empty, Kernel.getBalance]

/-- Pay into the pool, burn what it holds, and pay into it again. -/
def refillPool (amount : ℕ) : List Kernel.SignedAction :=
  [⟨.depositWithFee 0 5 Kernel.gasPoolActor 0 amount 0 0 0, Kernel.bridgeActor, 0, []⟩,
    ⟨.burn 0 Kernel.gasPoolActor amount, Kernel.bridgeActor, 1, []⟩,
    ⟨.depositWithFee 0 5 Kernel.gasPoolActor 0 amount 0 1 0, Kernel.bridgeActor, 2, []⟩]

theorem indexer_mirrors_refilled_pool :
    ∃ h rs,
      Run (runtime (fun _ _ _ => true) (fun _ => [])) emptyRuntime h rs ∧
      h.length = 3 ∧
      ∃ ix,
        feed (.fresh none 0) 0 h = .ok ix ∧
        ∀ actor resource,
          ix.storage.balances actor resource = Kernel.getBalance rs.state.base resource actor := by
  obtain ⟨h, rs, hrun, hlen, hinflow⟩ :=
    Run.exists_of_decide (runtime (fun _ _ _ => true) (fun _ => [])) emptyRuntime (refillPool 7)
      (fun h _ => h.length = 3 ∧ fedInflow h = 14) (by decide +kernel)
  refine ⟨h, rs, hrun, hlen, indexer_mirrors_balances hrun emptyRuntime_balances ?_ ?_⟩
  · rw [hlen]
    norm_num
  · refine poolsHold_of_fedInflow ?_
    rw [hinflow]
    norm_num

/-- The error that a list of actions ends an empty indexer with. -/
def feedError (h : List Processed) : Option IndexerError :=
  match feed (.fresh none 0) 0 h with
  | .ok _ => none
  | .error error => some error

/-- A pool that was filled twice stops the indexer, though it holds no more than a word. -/
theorem indexer_stops_at_refilled_pool :
    ∃ h rs,
      Run (runtime (fun _ _ _ => true) (fun _ => [])) emptyRuntime h rs ∧
      (∀ resource actor, Kernel.getBalance emptyRuntime.state.base resource actor = 0) ∧
      feed (.fresh none 0) 0 h =
        .error (.budgetView (.creditOverflow .poolBalancesEth 1 (2 ^ 255) (2 ^ 255))) := by
  obtain ⟨h, rs, hrun, herror⟩ :=
    Run.exists_of_decide (runtime (fun _ _ _ => true) (fun _ => [])) emptyRuntime
      (refillPool (2 ^ 255))
      (fun h _ => feedError h =
        some (.budgetView (.creditOverflow .poolBalancesEth 1 (2 ^ 255) (2 ^ 255))))
      (by decide +kernel)
  refine ⟨h, rs, hrun, emptyRuntime_balances, ?_⟩
  unfold feedError at herror
  split at herror
  · cases herror
  next hfeed => rw [hfeed, Option.some.inj herror]

end Runs

end Knomosis.Indexer
