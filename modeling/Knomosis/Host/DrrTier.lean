import Knomosis.Host.Drr
import Knomosis.Lib.Rotation

/-!
# What a tier does

A tier is sound when its order lists the keys of its flows once each, no flow is
empty or has unspent credit, and the cached count is what the flows hold.  A sound
tier is known from its order and from what stands at each key, where an absent key
stands for an empty flow.

The two operations are each given by one equation on sound tiers: a turn takes one
request out of what stands at the front key, and a request that is not refused is
added to what stands at its key.
-/

namespace Knomosis.Host

open Lib List

section Lawful

variable {S R : Type}

/-- A content of flows that serves what it holds, as long as it holds something. -/
class LawfulFlowStore (S : Type) (R : outParam Type) [FlowStore S R] where
  Sound : S → Prop
  buffered : S → Multiset R
  empty : S
  sound_empty : Sound empty
  buffered_empty : buffered empty = 0
  depth_eq : ∀ {store : S}, Sound store → FlowStore.depth store = (buffered store).card
  eq_empty : ∀ {store : S}, Sound store → FlowStore.depth store = 0 → store = empty
  serve : ∀ {store : S}, Sound store → FlowStore.depth store ≠ 0 →
    ∃ req store', FlowStore.serve store = .ok (some req, store') ∧ Sound store' ∧
      buffered store = req ::ₘ buffered store'

open LawfulFlowStore

instance : LawfulFlowStore (RequestFifo R) R where
  Sound _ := True
  buffered fifo := fifo.deque
  empty := RequestFifo.new
  sound_empty := trivial
  buffered_empty := rfl
  depth_eq _ := rfl
  eq_empty := by
    rintro ⟨deque⟩ - hdepth
    have hnil : deque = [] := List.eq_nil_of_length_eq_zero hdepth
    subst hnil
    rfl
  serve := by
    rintro ⟨_ | ⟨req, deque⟩⟩ - hdepth
    · exact absurd rfl hdepth
    · exact ⟨req, ⟨deque⟩, rfl, trivial, rfl⟩

variable [FlowStore S R] [LawfulFlowStore S R]

theorem depth_empty : FlowStore.depth (empty : S) = 0 := by
  rw [depth_eq sound_empty, buffered_empty, Multiset.card_zero]

theorem depth_of_buffered {store store' : S} {req : R} (hsound : Sound store)
    (hsound' : Sound store') (hbuffered : buffered store = req ::ₘ buffered store') :
    FlowStore.depth store = FlowStore.depth store' + 1 := by
  rw [depth_eq hsound, depth_eq hsound', hbuffered, Multiset.card_cons]

end Lawful

namespace Tier

variable {K S R : Type} [DecidableEq K] [FlowStore S R] [LawfulFlowStore S R]

open LawfulFlowStore

section Soundness

/-- What stands at a key; nothing stands at a key without a flow. -/
def storeAt (t : Tier K S) (key : K) : S := (t.flows.lookup key).elim empty FlowEntry.store

def requests (t : Tier K S) : Multiset R := Keyed.total (fun entry => buffered entry.store) t.flows

/-- The order, the flows and the cached count fit together, and no flow is empty. -/
structure Sound (t : Tier K S) : Prop where
  nodup : t.active.Nodup
  mem_active : ∀ key, key ∈ t.active ↔ key ∈ t.flows
  flow : ∀ key entry, t.flows.lookup key = some entry →
    entry = FlowEntry.new entry.store ∧ LawfulFlowStore.Sound entry.store ∧
      FlowStore.depth entry.store ≠ 0
  depth : t.totalDepth = Keyed.total (fun entry => FlowStore.depth entry.store) t.flows

theorem sound_new : (new : Tier K S).Sound where
  nodup := nodup_nil
  mem_active key := by simp [new, Finmap.notMem_empty]
  flow key entry h := by simp [new] at h
  depth := rfl

variable {t : Tier K S}

namespace Sound

section

variable (hsound : t.Sound)
include hsound

theorem totalDepth_eq : t.totalDepth = t.requests.card := by
  rw [hsound.depth, requests, Keyed.total_card]
  exact Keyed.total_congr fun key entry h => depth_eq (hsound.flow key entry h).2.1

theorem sound_storeAt (key : K) : LawfulFlowStore.Sound (t.storeAt key) := by
  rw [storeAt]
  cases hentry : t.flows.lookup key with
  | none => exact sound_empty
  | some entry => exact (hsound.flow key entry hentry).2.1

theorem mem_flows_iff (key : K) : key ∈ t.flows ↔ FlowStore.depth (t.storeAt key) ≠ 0 := by
  rw [storeAt]
  cases hentry : t.flows.lookup key with
  | none =>
    have hnot := Finmap.lookup_eq_none.mp hentry
    simp [hnot, depth_empty]
  | some entry =>
    have hmem := Finmap.mem_of_lookup_eq_some hentry
    exact iff_of_true hmem (hsound.flow key entry hentry).2.2

theorem lookup_eq (key : K) :
    t.flows.lookup key =
      if key ∈ t.flows then some (FlowEntry.new (t.storeAt key)) else none := by
  rw [storeAt]
  cases hentry : t.flows.lookup key with
  | none => rw [if_neg (Finmap.lookup_eq_none.mp hentry)]
  | some entry =>
    rw [if_pos (Finmap.mem_of_lookup_eq_some hentry)]
    exact congrArg some (hsound.flow key entry hentry).1

theorem card_keys : t.flows.keys.card = t.active.length := by
  have hkeys : t.flows.keys = t.active.toFinset := by
    ext key
    rw [Finmap.mem_keys, mem_toFinset, hsound.mem_active]
  rw [hkeys, toFinset_card_of_nodup hsound.nodup]

theorem card_keys_le : t.flows.keys.card ≤ t.totalDepth := by
  rw [hsound.depth]
  exact Keyed.card_keys_le_total fun key entry h => Nat.pos_of_ne_zero (hsound.flow key entry h).2.2

theorem totalDepth_eq_zero_iff : t.totalDepth = 0 ↔ t.active = [] := by
  rw [hsound.depth, Keyed.total_eq_zero_iff fun key entry h =>
    Nat.pos_of_ne_zero (hsound.flow key entry h).2.2, ← Finset.card_eq_zero, hsound.card_keys,
    length_eq_zero_iff]

theorem eq_new (hdepth : t.totalDepth = 0) : t = new := by
  have hactive := hsound.totalDepth_eq_zero_iff.mp hdepth
  have hflows : t.flows = ∅ := by
    refine Finmap.ext_lookup fun key => ?_
    rw [Finmap.lookup_empty, Finmap.lookup_eq_none, ← hsound.mem_active, hactive]
    exact not_mem_nil
  rcases t with ⟨flows, active, totalDepth⟩
  subst hactive hflows hdepth
  rfl

end

end Sound

end Soundness

section Turns

/-- The tier after the turn of `key`, which leaves `store` at it. -/
def turned (t : Tier K S) (key : K) (rest : List K) (store : S) : Tier K S :=
  if FlowStore.depth store = 0 then
    { flows := t.flows.erase key, active := rest, totalDepth := t.totalDepth - 1 }
  else
    { flows := t.flows.insert key (FlowEntry.new store)
      active := rest ++ [key]
      totalDepth := t.totalDepth - 1 }

variable {t : Tier K S} {key : K} {rest : List K} {req : R} {store : S}

omit [LawfulFlowStore S R] in
theorem pick_nil (hactive : t.active = []) : t.pick = .ok ((none : Option R), t) := by
  rw [pick, hactive]

/-- The turn of a sound tier: the front flow serves one of its requests. -/
theorem Sound.pick_cons (hsound : t.Sound) (hactive : t.active = key :: rest) :
    ∃ req store, FlowStore.serve (t.storeAt key) = .ok (some req, store) ∧
      LawfulFlowStore.Sound store ∧ buffered (t.storeAt key) = req ::ₘ buffered store ∧
      t.pick = .ok (some req, t.turned key rest store) := by
  have hmem : key ∈ t.flows := (hsound.mem_active key).mp (hactive ▸ .head _)
  obtain ⟨req, store, hserve, hstore, hbuffered⟩ :=
    LawfulFlowStore.serve (hsound.sound_storeAt key) ((hsound.mem_flows_iff key).mp hmem)
  refine ⟨req, store, hserve, hstore, hbuffered, ?_⟩
  have hlookup := hsound.lookup_eq key
  rw [if_pos hmem] at hlookup
  -- the credit of the turn pays for the request, and nothing of it is left
  have hcredit : saturatingAdd (FlowEntry.new (t.storeAt key)).deficit
      (FlowEntry.new (t.storeAt key)).quantum = cost := rfl
  simp only [pick, hactive, hlookup, hcredit, lt_irrefl, if_false]
  rw [show FlowStore.serve (FlowEntry.new (t.storeAt key)).store = .ok (some req, store) from
    hserve, turned]
  by_cases hdepth : FlowStore.depth store = 0
  · simp only [hdepth, if_true]
  · simp only [hdepth, if_false]
    rfl

theorem storeAt_turned (hstore : LawfulFlowStore.Sound store) (k : K) :
    (t.turned key rest store).storeAt k = if k = key then store else t.storeAt k := by
  by_cases hdepth : FlowStore.depth store = 0
  · rw [turned, if_pos hdepth, storeAt, Keyed.lookup_erase_eq, eq_empty hstore hdepth]
    split <;> rfl
  · rw [turned, if_neg hdepth, storeAt, Keyed.lookup_insert_eq]
    split <;> rfl

omit [LawfulFlowStore S R] in
theorem active_turned :
    (t.turned key rest store).active =
      if FlowStore.depth store = 0 then rest else rest ++ [key] := by
  rw [turned]
  split <;> rfl

omit [LawfulFlowStore S R] in
theorem totalDepth_turned : (t.turned key rest store).totalDepth = t.totalDepth - 1 := by
  rw [turned]
  split <;> rfl

omit [LawfulFlowStore S R] in
theorem advance_turned (hactive : t.active = key :: rest) :
    Advance t.active (some key) (t.turned key rest store).active := by
  rw [hactive, active_turned]
  split
  · exact .leave key rest
  · exact .turn key rest

/-- What the flows hold in all after a turn. -/
theorem total_turned {M : Type} [AddCommMonoid M] {f : S → M}
    (hmem : t.flows.lookup key = some (FlowEntry.new (t.storeAt key)))
    (hf : FlowStore.depth store = 0 → f store = 0) {m : M}
    (hserved : f (t.storeAt key) = m + f store) :
    Keyed.total (fun entry => f entry.store) t.flows =
      m + Keyed.total (fun entry => f entry.store) (t.turned key rest store).flows := by
  rw [Keyed.total_eq_add_erase _ hmem, turned]
  simp only [FlowEntry.new]
  by_cases hdepth : FlowStore.depth store = 0
  · rw [if_pos hdepth, hserved, hf hdepth, add_zero]
  · rw [if_neg hdepth, hserved, Keyed.total_insert, add_assoc]

theorem Sound.lookup_front (hsound : t.Sound) (hactive : t.active = key :: rest) :
    t.flows.lookup key = some (FlowEntry.new (t.storeAt key)) := by
  rw [hsound.lookup_eq key, if_pos ((hsound.mem_active key).mp (hactive ▸ .head _))]

theorem Sound.requests_turned (hsound : t.Sound) (hactive : t.active = key :: rest)
    (hstore : LawfulFlowStore.Sound store)
    (hserved : buffered (t.storeAt key) = req ::ₘ buffered store) :
    t.requests = req ::ₘ (t.turned key rest store).requests := by
  have hempty : FlowStore.depth store = 0 → buffered store = 0 := by
    intro hdepth
    rw [eq_empty hstore hdepth, buffered_empty]
  rw [← Multiset.singleton_add] at hserved ⊢
  exact total_turned (hsound.lookup_front hactive) hempty hserved

theorem Sound.turned (hsound : t.Sound) (hactive : t.active = key :: rest)
    (hstore : LawfulFlowStore.Sound store)
    (hserved : buffered (t.storeAt key) = req ::ₘ buffered store) :
    (t.turned key rest store).Sound where
  nodup := (advance_turned hactive).nodup hsound.nodup
  mem_active k := by
    have hk := hsound.mem_active k
    have hnodup := hsound.nodup
    rw [hactive, mem_cons] at hk
    rw [hactive, nodup_cons] at hnodup
    rw [Tier.turned]
    split
    · rw [Finmap.mem_erase, ← hk]
      constructor
      · intro hmem
        exact ⟨fun heq => hnodup.1 (heq ▸ hmem), .inr hmem⟩
      · rintro ⟨hne, heq | hmem⟩
        · exact absurd heq hne
        · exact hmem
    · rw [Finmap.mem_insert, ← hk, mem_append, mem_singleton]
      tauto
  flow k entry hentry := by
    rw [Tier.turned] at hentry
    split at hentry
    case isTrue hdepth =>
      rw [Keyed.lookup_erase_eq] at hentry
      split at hentry
      · cases hentry
      · exact hsound.flow k entry hentry
    case isFalse hdepth =>
      rw [Keyed.lookup_insert_eq] at hentry
      split at hentry
      · cases hentry
        exact ⟨rfl, hstore, hdepth⟩
      · exact hsound.flow k entry hentry
  depth := by
    have hdepth : FlowStore.depth (t.storeAt key) = 1 + FlowStore.depth store := by
      rw [depth_of_buffered (hsound.sound_storeAt key) hstore hserved, Nat.add_comm]
    rw [totalDepth_turned, hsound.depth,
      total_turned (f := FlowStore.depth) (hsound.lookup_front hactive) id hdepth,
      Nat.add_sub_cancel_left]

end Turns

section Joining

def joined (t : Tier K S) (key : K) (store : S) : Tier K S where
  flows := t.flows.insert key (FlowEntry.new store)
  active := if key ∈ t.flows then t.active else t.active ++ [key]
  totalDepth := t.totalDepth + 1

variable {t : Tier K S} {key : K} {store : S}

/-- A request is refused by the bound on the number of keys or by the content of its flow, and
then nothing changes; otherwise it joins what stands at its key. -/
theorem Sound.enqueueRouted_eq (hsound : t.Sound)
    (key : K) (maxKeys : ℕ) (reason : RejectReason) (req : R)
    (push : S → R → S × Except (Rejected R) Unit)
    (hpush : ∀ store rejected, LawfulFlowStore.Sound store →
      (push store req).2 = .error rejected → (push store req).1 = store) :
    t.enqueueRouted key maxKeys reason req empty push =
      if key ∉ t.flows ∧ t.flows.keys.card ≥ maxKeys then (t, .error { reason, req }) else
        match (push (t.storeAt key) req).2 with
        | .error rejected => (t, .error rejected)
        | .ok () => (t.joined key (push (t.storeAt key) req).1, .ok ()) := by
  have hlookup := hsound.lookup_eq key
  by_cases hmem : key ∈ t.flows
  · rw [if_pos hmem] at hlookup
    have hstore : (FlowEntry.new (t.storeAt key)).store = t.storeAt key := rfl
    simp only [enqueueRouted, hlookup, hmem, not_true_eq_false, false_and, if_false, hstore]
    have hunchanged := fun rejected => hpush _ rejected (hsound.sound_storeAt key)
    rcases hresult : push (t.storeAt key) req with ⟨store, rejected | ⟨⟨⟩⟩⟩
    · rw [hresult] at hunchanged
      obtain rfl := hunchanged rejected rfl
      have hsame : t.flows.insert key (FlowEntry.new (t.storeAt key)) = t.flows :=
        Keyed.insert_lookup hlookup
      simp only
      exact congrArg (fun flows => ({ t with flows }, _)) hsame
    · simp only [joined, hmem, if_true]
      rfl
  · rw [if_neg hmem] at hlookup
    have hempty : t.storeAt key = empty := by
      rw [storeAt, hlookup]
      rfl
    simp only [enqueueRouted, hlookup, hmem, not_false_eq_true, true_and, hempty]
    split
    · rfl
    · rcases push empty req with ⟨store, rejected | ⟨⟨⟩⟩⟩
      · rfl
      · simp only [joined, hmem, if_false]

theorem storeAt_joined (k : K) :
    (t.joined key store).storeAt k = if k = key then store else t.storeAt k := by
  rw [joined, storeAt, Keyed.lookup_insert_eq]
  split <;> rfl

theorem advance_joined (hsound : t.Sound) : Advance t.active none (t.joined key store).active := by
  rw [joined]
  split
  · exact .stay _
  case isFalse hmem => exact .join _ _ fun h => hmem ((hsound.mem_active key).mp h)

/-- What the flows hold in all after a request has joined. -/
theorem Sound.total_joined (hsound : t.Sound) {M : Type} [AddCommMonoid M] {f : S → M}
    (hempty : f empty = 0) {m : M} (hjoined : f store = m + f (t.storeAt key)) :
    Keyed.total (fun entry => f entry.store) (t.joined key store).flows =
      m + Keyed.total (fun entry => f entry.store) t.flows := by
  rw [joined, Keyed.total_insert]
  simp only [FlowEntry.new]
  rw [hjoined, add_assoc]
  have hlookup := hsound.lookup_eq key
  by_cases hmem : key ∈ t.flows
  · rw [if_pos hmem] at hlookup
    rw [Keyed.total_eq_add_erase _ hlookup]
    rfl
  · rw [if_neg hmem] at hlookup
    rw [storeAt, hlookup, Option.elim_none, hempty, zero_add, Keyed.erase_of_notMem hmem]

theorem Sound.requests_joined (hsound : t.Sound) {req : R}
    (hjoined : buffered store = req ::ₘ buffered (t.storeAt key)) :
    (t.joined key store).requests = req ::ₘ t.requests := by
  rw [← Multiset.singleton_add] at hjoined ⊢
  exact hsound.total_joined buffered_empty hjoined

theorem Sound.joined (hsound : t.Sound) (hstore : LawfulFlowStore.Sound store) {req : R}
    (hjoined : buffered store = req ::ₘ buffered (t.storeAt key)) : (t.joined key store).Sound where
  nodup := (advance_joined hsound).nodup hsound.nodup
  mem_active k := by
    rw [Tier.joined, Finmap.mem_insert]
    split
    case isTrue hmem =>
      rw [hsound.mem_active]
      constructor
      · exact .inr
      · rintro (rfl | h)
        · exact hmem
        · exact h
    · rw [mem_append, mem_singleton, hsound.mem_active, or_comm]
  flow k entry hentry := by
    rw [Tier.joined, Keyed.lookup_insert_eq] at hentry
    split at hentry
    · cases hentry
      refine ⟨rfl, hstore, ?_⟩
      have hdepth := depth_of_buffered hstore (hsound.sound_storeAt key) hjoined
      simp only [FlowEntry.new]
      omega
    · exact hsound.flow k entry hentry
  depth := by
    have hdepth : FlowStore.depth store = 1 + FlowStore.depth (t.storeAt key) := by
      rw [depth_of_buffered hstore (hsound.sound_storeAt key) hjoined, Nat.add_comm]
    rw [hsound.total_joined (f := FlowStore.depth) depth_empty hdepth, Tier.joined, hsound.depth,
      Nat.add_comm]

end Joining

/-- A sound tier is itself a content of flows that serves what it holds. -/
instance : LawfulFlowStore (Tier K S) R where
  Sound := Tier.Sound
  buffered := requests
  empty := new
  sound_empty := sound_new
  buffered_empty := rfl
  depth_eq := Sound.totalDepth_eq
  eq_empty := Sound.eq_new
  serve := by
    intro t hsound hdepth
    rcases hactive : t.active with - | ⟨key, rest⟩
    · exact absurd (hsound.totalDepth_eq_zero_iff.mpr hactive) hdepth
    · obtain ⟨req, store, -, hstore, hserved, hpick⟩ := hsound.pick_cons hactive
      exact ⟨req, t.turned key rest store, hpick, hsound.turned hactive hstore hserved,
        hsound.requests_turned hactive hstore hserved⟩

end Tier

end Knomosis.Host
