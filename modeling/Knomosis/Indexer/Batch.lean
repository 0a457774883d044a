import Knomosis.Indexer.Storage

/-!
# What a batch does

The counters only grow: a pass over events without a claim on the pool adds to each
counter what the events credit to it, and it succeeds if no sum leaves the width of a
counter.  The balances end as the batch states them, if each event that stands for a
credit or a debit either has its balance stated or moves nothing.
-/

namespace Knomosis.Indexer

open Lib List

section Counters

/-- An amount for every counter. -/
abbrev Counts := Table → UInt64 → ℕ

/-- A storage with more on its counters. -/
def Storage.plus (s : Storage) (c : Counts) : Storage := { s with cells := s.cells + c }

/-- Every counter can take its amount. -/
def Storage.Room (s : Storage) (c : Counts) : Prop :=
  ∀ table actor, s.cells table actor + c table actor < 2 ^ 256

/-- One amount on one counter. -/
def single (table : Table) (actor : UInt64) (amount : ℕ) : Counts :=
  Pi.single table (Pi.single actor amount)

variable {s s' : Storage} {c c' : Counts}

theorem Storage.plus_zero (s : Storage) : s.plus 0 = s := by simp [Storage.plus]

theorem Storage.plus_plus (s : Storage) (c c' : Counts) : (s.plus c).plus c' = s.plus (c + c') := by
  simp [Storage.plus, add_assoc]

theorem Storage.Room.left (h : s.Room (c + c')) : s.Room c := by
  intro table actor
  have hroom := h table actor
  simp only [Pi.add_apply] at hroom
  omega

theorem Storage.Room.right (h : s.Room (c + c')) : (s.plus c).Room c' := by
  intro table actor
  have hroom := h table actor
  simp only [Pi.add_apply, Storage.plus] at hroom ⊢
  omega

/-- A pass that adds to the counters, if they have room. -/
structure Credits (pass : Storage → Except IndexerError Storage) (c : Counts) : Prop where
  sound : ∀ s s', pass s = .ok s' → s' = s.plus c
  complete : ∀ s : Storage, s.Room c → pass s = .ok (s.plus c)

theorem Credits.done : Credits .ok 0 where
  sound s s' h := by
    rw [s.plus_zero]
    exact (Except.ok.inj h).symm
  complete s _ := by rw [s.plus_zero]

theorem Credits.bind {pass pass' : Storage → Except IndexerError Storage} (h : Credits pass c)
    (h' : Credits pass' c') : Credits (fun s => pass s >>= pass') (c + c') where
  sound s s' hok := by
    obtain ⟨mid, hmid, hrest⟩ := bind_eq_ok.mp hok
    rw [h'.sound mid s' hrest, h.sound s mid hmid, Storage.plus_plus]
  complete s hroom := by
    rw [h.complete s hroom.left, ok_bind, h'.complete _ hroom.right, Storage.plus_plus]

theorem credits_checkedCredit (table : Table) (actor : UInt64) (delta : ℕ) :
    Credits (checkedCredit table actor delta) (single table actor delta) := by
  have hplus : ∀ s : Storage,
      cellSet table actor (s.cells table actor + delta) s = s.plus (single table actor delta) := by
    intro s
    unfold cellSet Storage.plus single
    congr 1
    funext table' actor'
    by_cases htable : table' = table
    · subst htable
      by_cases hactor : actor' = actor
      · subst hactor
        simp
      · simp [hactor]
    · simp [htable]
  refine ⟨fun s s' hok => ?_, fun s hroom => ?_⟩
  · obtain ⟨sum, hsum, hset⟩ := checked_eq_ok.mp hok
    obtain ⟨-, rfl⟩ := checkedAdd_eq_some.mp hsum
    rw [← hplus]
    exact (Except.ok.inj hset).symm
  · have hcell := hroom table actor
    simp only [single, Pi.single_eq_same] at hcell
    rw [checkedCredit, checkedAdd_eq_some.mpr ⟨hcell, rfl⟩, ← hplus]
    rfl

/-- What an inflow adds. -/
def poolCounts (resource poolActor : UInt64) (amount : ℕ) : Counts :=
  match poolTable resource with
  | some table => single table poolActor amount
  | none => 0

theorem credits_creditPoolInflow (resource poolActor : UInt64) (amount : ℕ) :
    Credits (creditPoolInflow resource poolActor amount)
      (poolCounts resource poolActor amount) := by
  unfold creditPoolInflow poolCounts
  cases poolTable resource with
  | none => exact Credits.done
  | some table => exact credits_checkedCredit table poolActor amount

/-- What a grant adds. -/
def grantCounts (actor : UInt64) (grant : ℕ) (resource poolActor : UInt64) (amount : ℕ) : Counts :=
  single .actorBudgets actor grant +
    (single .currentEpochGrants actor grant + poolCounts resource poolActor amount)

theorem credits_creditGrant
    (actor : UInt64) (grant : ℕ) (resource poolActor : UInt64) (amount : ℕ) :
    Credits (creditGrant actor grant resource poolActor amount)
      (grantCounts actor grant resource poolActor amount) :=
  (credits_checkedCredit _ _ _).bind
    ((credits_checkedCredit _ _ _).bind (credits_creditPoolInflow _ _ _))

/-- What an event adds. -/
def Event.counts : Event → Counts
  | depositWithFeeCredited resource recipient poolActor _ poolAmount grant _ =>
    grantCounts recipient grant.toNat resource poolActor poolAmount.toNat
  | actionBudgetTopUp signer gasResource gasAmount increment poolActor =>
    grantCounts signer increment.toNat gasResource poolActor gasAmount.toNat
  | delegatedActionBudgetTopUp recipient _ gasResource gasAmount increment poolActor =>
    grantCounts recipient increment.toNat gasResource poolActor gasAmount.toNat
  | budgetConsumed actor amount => single .currentEpochConsumed actor amount.toNat
  | _ => 0

/-- A claim on the pool is the only event that takes from a counter. -/
def Event.isClaim : Event → Bool
  | gasPoolClaim .. => true
  | _ => false

theorem credits_dispatchEvent {gasPoolActor : Option UInt64} {e : Event}
    (hclaim : e.isClaim = false) : Credits (fun s => dispatchEvent gasPoolActor s e) e.counts := by
  cases e with
  | depositWithFeeCredited | actionBudgetTopUp | delegatedActionBudgetTopUp =>
    exact credits_creditGrant _ _ _ _ _
  | budgetConsumed => exact credits_checkedCredit _ _ _
  | gasPoolClaim => cases hclaim
  | _ => exact Credits.done

/-- The pass over the budgets and pools. -/
theorem credits_dispatch {gasPoolActor : Option UInt64} {events : List Event}
    (hclaim : ∀ e ∈ events, e.isClaim = false) :
    Credits (fun s => events.foldlM (dispatchEvent gasPoolActor) s)
      (events.map Event.counts).sum := by
  induction events with
  | nil => exact Credits.done
  | cons e _ ih =>
    have hfirst := @credits_dispatchEvent gasPoolActor e (hclaim e mem_cons_self)
    have hrest := ih (fun e' he' => hclaim e' (mem_cons_of_mem _ he'))
    have hboth := hfirst.bind hrest
    simpa only [foldlM_cons, map_cons, sum_cons] using hboth

end Counters

section Balances

variable {s s' : Storage} {events : List Event}

theorem balances_balanceSet (actor resource actor' resource' : UInt64) (value : ℕ) :
    (balanceSet actor resource value s).balances actor' resource' =
      if (actor', resource') = (actor, resource) then value else s.balances actor' resource' := by
  unfold balanceSet
  by_cases hactor : actor' = actor
  · subst hactor
    by_cases hresource : resource' = resource
    · subst hresource
      simp
    · simp [hresource]
  · simp [hactor]

theorem balanceSet_same (actor resource : UInt64) :
    balanceSet actor resource (s.balances actor resource) s = s := by
  simp [balanceSet]

/-- The balance that an event credits or debits, and by how much. -/
def Event.movement : Event → Option ((UInt64 × UInt64) × ℕ)
  | withdrawalRequested resource sender amount _ _ => some ((sender, resource), amount.toNat)
  | rewardIssued resource recipient amount => some ((recipient, resource), amount.toNat)
  | depositCredited resource recipient amount _ => some ((recipient, resource), amount.toNat)
  | _ => none

/-- Nothing moves for which the batch does not state the balance. -/
def Event.Silent (stated : List (UInt64 × UInt64)) (e : Event) : Prop :=
  ∀ movement ∈ e.movement, movement.1 ∈ stated ∨ movement.2 = 0

variable {stated : List (UInt64 × UInt64)} {e : Event} {actor resource : UInt64} {delta : ℕ}

theorem applyBalanceSemanticEvent_of_silent
    (hwidth : ∀ actor resource, s.balances actor resource < 2 ^ 256) (hsilent : e.Silent stated) :
    applyBalanceSemanticEvent stated s e = .ok s := by
  have hcredit : ∀ (actor resource : UInt64) (amount : ℕ), amount = 0 →
      balanceCredit actor resource amount s = .ok s := by
    rintro actor resource _ rfl
    have hsum : checkedAdd 256 (s.balances actor resource) 0 = some (s.balances actor resource) :=
      checkedAdd_eq_some.mpr ⟨hwidth actor resource, rfl⟩
    rw [balanceCredit, hsum, checked, balanceSet_same]
  cases e with
  | withdrawalRequested _ _ amount =>
    rw [applyBalanceSemanticEvent]
    split
    · rfl
    next hnot =>
      have hzero : amount.toNat = 0 := (hsilent _ rfl).resolve_left hnot
      rw [balanceDebit, hzero, if_neg (Nat.not_lt_zero _), Nat.sub_zero, balanceSet_same]
  | rewardIssued | depositCredited =>
    rw [applyBalanceSemanticEvent]
    split
    · rfl
    next hnot => exact hcredit _ _ _ ((hsilent _ rfl).resolve_left hnot)
  | _ => rfl

theorem semantic_pass (hwidth : ∀ actor resource, s.balances actor resource < 2 ^ 256)
    (hsilent : ∀ e ∈ events, e.Silent stated) :
    events.foldlM (applyBalanceSemanticEvent stated) s = .ok s := by
  induction events with
  | nil => rfl
  | cons e _ ih =>
    rw [foldlM_cons, applyBalanceSemanticEvent_of_silent hwidth (hsilent e mem_cons_self), ok_bind]
    exact ih (fun e' he' => hsilent e' (mem_cons_of_mem _ he'))

/-- The pass over the stated balances, where each is stated as `target`. -/
theorem balances_stated_pass {target : UInt64 → UInt64 → ℕ}
    (htarget : ∀ resource actor oldValue newValue,
      .balanceChanged resource actor oldValue newValue ∈ events →
        newValue.toNat = target actor resource) (actor resource : UInt64) :
    (events.foldl applyBalanceChanged s).balances actor resource =
      if (actor, resource) ∈ statedBalances events then target actor resource
      else s.balances actor resource := by
  induction events generalizing s with
  | nil => rfl
  | cons e events ih =>
    have hrest := @ih (applyBalanceChanged s e)
      (fun r a o n hmem => htarget r a o n (mem_cons_of_mem _ hmem))
    rw [foldl_cons, hrest]
    cases e with
    | balanceChanged r a oldValue newValue =>
      have hnew := htarget r a oldValue newValue mem_cons_self
      have hstated : statedBalances (.balanceChanged r a oldValue newValue :: events) =
          (a, r) :: statedBalances events := rfl
      rw [applyBalanceChanged, balances_balanceSet, hstated, hnew]
      by_cases hlater : (actor, resource) ∈ statedBalances events
      · rw [if_pos hlater, if_pos (mem_cons_of_mem _ hlater)]
      rw [if_neg hlater]
      by_cases hhere : (actor, resource) = (a, r)
      · obtain ⟨rfl, rfl⟩ := Prod.mk.inj hhere
        rw [if_pos rfl, if_pos mem_cons_self]
      · rw [if_neg hhere, if_neg (by simp [hlater, hhere])]
    | _ => rfl

/-- Two storages that differ only in their balances. -/
def Storage.SameCounters (s s' : Storage) : Prop :=
  s'.cells = s.cells ∧ s'.currentEpoch = s.currentEpoch ∧ s'.cursor = s.cursor

theorem sameCounters_stated_pass : s.SameCounters (events.foldl applyBalanceChanged s) := by
  induction events generalizing s with
  | nil => exact ⟨rfl, rfl, rfl⟩
  | cons e _ ih =>
    rw [foldl_cons]
    obtain ⟨hcells, hepoch, hcursor⟩ := @ih (applyBalanceChanged s e)
    refine ⟨hcells.trans ?_, hepoch.trans ?_, hcursor.trans ?_⟩ <;> cases e <;> rfl

theorem sameCounters_balanceCredit (hok : balanceCredit actor resource delta s = .ok s') :
    s.SameCounters s' := by
  obtain ⟨sum, -, hset⟩ := checked_eq_ok.mp hok
  cases hset
  exact ⟨rfl, rfl, rfl⟩

theorem sameCounters_balanceDebit (hok : balanceDebit actor resource delta s = .ok s') :
    s.SameCounters s' := by
  obtain ⟨-, hset⟩ := guard_eq_ok.mp hok
  cases hset
  exact ⟨rfl, rfl, rfl⟩

theorem sameCounters_semantic (hok : applyBalanceSemanticEvent stated s e = .ok s') :
    s.SameCounters s' := by
  cases e with
  | withdrawalRequested =>
    rw [applyBalanceSemanticEvent] at hok
    split at hok
    · cases hok
      exact ⟨rfl, rfl, rfl⟩
    · exact sameCounters_balanceDebit hok
  | rewardIssued | depositCredited =>
    rw [applyBalanceSemanticEvent] at hok
    split at hok
    · cases hok
      exact ⟨rfl, rfl, rfl⟩
    · exact sameCounters_balanceCredit hok
  | _ =>
    cases hok
    exact ⟨rfl, rfl, rfl⟩

theorem sameCounters_semantic_pass
    (hok : events.foldlM (applyBalanceSemanticEvent stated) s = .ok s') : s.SameCounters s' := by
  induction events generalizing s with
  | nil =>
    cases hok
    exact ⟨rfl, rfl, rfl⟩
  | cons _ _ ih =>
    rw [foldlM_cons] at hok
    obtain ⟨mid, hmid, hrest⟩ := bind_eq_ok.mp hok
    obtain ⟨hcells, hepoch, hcursor⟩ := sameCounters_semantic hmid
    obtain ⟨hcells', hepoch', hcursor'⟩ := ih hrest
    exact ⟨hcells'.trans hcells, hepoch'.trans hepoch, hcursor'.trans hcursor⟩

theorem mem_statedBalances {actor resource : UInt64} :
    (actor, resource) ∈ statedBalances events ↔
      ∃ oldValue newValue, .balanceChanged resource actor oldValue newValue ∈ events := by
  unfold statedBalances
  rw [mem_filterMap]
  constructor
  · rintro ⟨e, he, hstated⟩
    cases e with
    | balanceChanged r a oldValue newValue =>
      cases hstated
      exact ⟨oldValue, newValue, he⟩
    | _ => cases hstated
  · rintro ⟨oldValue, newValue, he⟩
    exact ⟨_, he, rfl⟩

end Balances

section Batches

variable {ix ix' : IndexerState} {seq : ℕ} {events : List Event}

/-- The counters after a batch that was applied. -/
theorem counters_of_applyBatch (hclaim : ∀ e ∈ events, e.isClaim = false)
    (happly : ix.applyBatch seq events = .ok ix') :
    ix'.storage.cells =
        (dispatchEpochIfCrossed seq ix.epochLength ix.storage).cells +
          (events.map Event.counts).sum ∧ ix'.storage.currentEpoch =
        (dispatchEpochIfCrossed seq ix.epochLength ix.storage).currentEpoch ∧
      ix'.epochLength = ix.epochLength := by
  unfold IndexerState.applyBatch at happly
  simp only [guard_eq_ok] at happly
  obtain ⟨-, -, -, -, happly⟩ := happly
  obtain ⟨staged, hstage, hdone⟩ := bind_eq_ok.mp happly
  cases hdone
  unfold IndexerState.stage at hstage
  obtain ⟨s₁, hsemantic, hstage⟩ := bind_eq_ok.mp hstage
  obtain ⟨s₂, hdispatch, hstage⟩ := bind_eq_ok.mp hstage
  obtain ⟨hcells₁, hepoch₁, -⟩ := sameCounters_semantic_pass hsemantic
  obtain ⟨hcells, hepoch, -⟩ := @sameCounters_stated_pass s₁ events
  obtain rfl := (credits_dispatch hclaim).sound _ _ hdispatch
  obtain ⟨-, hcursor⟩ := guard_eq_ok.mp hstage
  cases hcursor
  refine ⟨?_, hepoch.trans hepoch₁, rfl⟩
  change (events.foldl applyBalanceChanged s₁).cells + (events.map Event.counts).sum = _
  rw [hcells, hcells₁]

/-- A batch that states every balance it moves, and for which the counters have room. -/
theorem applyBatch_of_stated {target : UInt64 → UInt64 → ℕ} (hpoisoned : ix.poisoned = false)
    (hcursor : ix.storage.cursor = ix.cursor) (hseq : ix.cursor < seq) (hne : events ≠ [])
    (hlen : events.length ≤ INDEXER_MAX_BATCH_EVENTS)
    (hwidth : ∀ actor resource, ix.storage.balances actor resource < 2 ^ 256)
    (hsilent : ∀ e ∈ events, e.Silent (statedBalances events))
    (htarget : ∀ resource actor oldValue newValue,
      .balanceChanged resource actor oldValue newValue ∈ events →
        newValue.toNat = target actor resource)
    (hrest : ∀ actor resource, (actor, resource) ∉ statedBalances events →
      ix.storage.balances actor resource = target actor resource)
    (hclaim : ∀ e ∈ events, e.isClaim = false)
    (hroom : (dispatchEpochIfCrossed seq ix.epochLength ix.storage).Room
      (events.map Event.counts).sum) :
    ∃ ix', ix.applyBatch seq events = .ok ix' ∧ ix'.storage.balances = target ∧
      ix'.storage.cursor = seq ∧ ix'.cursor = seq ∧ ix'.poisoned = false := by
  have hbalances : (dispatchEpochIfCrossed seq ix.epochLength ix.storage).balances =
      ix.storage.balances := by
    unfold dispatchEpochIfCrossed
    split <;> rfl
  have hcursor₀ : (dispatchEpochIfCrossed seq ix.epochLength ix.storage).cursor = ix.cursor := by
    rw [← hcursor]
    unfold dispatchEpochIfCrossed
    split <;> rfl
  generalize hs₀ : dispatchEpochIfCrossed seq ix.epochLength ix.storage = s₀ at *
  obtain ⟨hcells, -, hcursor₁⟩ := @sameCounters_stated_pass s₀ events
  generalize hs₁ : events.foldl applyBalanceChanged s₀ = s₁ at *
  have hroom₁ : s₁.Room (events.map Event.counts).sum := by
    unfold Storage.Room
    rw [hcells]
    exact hroom
  have hstage : ix.stage seq events =
      .ok { s₁.plus (events.map Event.counts).sum with cursor := seq } := by
    have hdispatch := (@credits_dispatch ix.gasPoolActor events hclaim).complete s₁ hroom₁
    unfold IndexerState.stage
    dsimp only at hdispatch ⊢
    rw [hs₀, semantic_pass (hbalances ▸ hwidth) hsilent, ok_bind, hs₁, hdispatch, ok_bind]
    have hcurrent : ¬ seq ≤ max s₁.cursor ix.cursor := by
      rw [hcursor₁, hcursor₀, max_self]
      exact Nat.not_le.mpr hseq
    exact if_neg hcurrent
  refine ⟨{ ix with
    storage := { s₁.plus (events.map Event.counts).sum with cursor := seq }
    cursor := seq }, ?_, ?_, rfl, rfl, hpoisoned⟩
  · have hsome : events.isEmpty = false := by simpa using hne
    rw [IndexerState.applyBatch, hpoisoned, hsome, hstage]
    simp only [Bool.false_eq_true, if_false, Nat.not_lt.mpr hlen, Nat.not_le.mpr hseq]
    rfl
  · funext actor resource
    change s₁.balances actor resource = target actor resource
    rw [← hs₁, balances_stated_pass htarget, hbalances]
    split
    · rfl
    next hnot => exact hrest actor resource hnot

end Batches

end Knomosis.Indexer
