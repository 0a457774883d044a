import Knomosis.Host.DrrState

/-!
# Connections without hints

Frames of the old protocol carry no hint, and all requests of a connection go to
one leaf.  The nested scheduler is then a single tier with a flow for each
connection: the bounds on a leaf and on the backlog of a connection become one
bound on the flow, and the bound on the hints never refuses anything.
-/

namespace Knomosis.Host

open Lib DrrState

variable {R : Type}

/-- One tier of connections under a bound on what waits in all. -/
def singleTier (R : Type) (perFlow maxFlows global : ℕ) :
    Machine (Tier ConnId (RequestFifo R)) (DrrOp R) (DrrOut R) where
  step t
    | .enqueue conn _ req =>
      if t.totalDepth ≥ global then some (t, .enqueued (.error req))
      else
        match t.enqueueLeaf conn req perFlow maxFlows .maxFlows with
        | (t, .ok ()) => some (t, .enqueued (.ok ()))
        | (t, .error rejected) => some (t, .enqueued (.error rejected.req))
    | .pick =>
      match t.pick with
      | .error _ => none
      | .ok (req, t) => some (t, .picked req)

/-- A request is refused by one of the three bounds, or joins its flow. -/
theorem singleTier_enqueue {t : Tier ConnId (RequestFifo R)} (hsound : t.Sound)
    (perFlow maxFlows global : ℕ) (conn : ConnId) (signer : SignerHint) (req : R) :
    (singleTier R perFlow maxFlows global).step t (.enqueue conn signer req) =
      if t.totalDepth ≥ global ∨ (conn ∉ t.flows ∧ t.flows.keys.card ≥ maxFlows) ∨
          (t.storeAt conn).deque.length ≥ perFlow then some (t, .enqueued (.error req)) else
        some (t.joined conn ⟨(t.storeAt conn).deque ++ [req]⟩, .enqueued (.ok ())) := by
  have hroute := hsound.enqueueLeaf_eq conn req perFlow maxFlows .maxFlows
  simp only [singleTier, hroute]
  by_cases hglobal : t.totalDepth ≥ global
  · simp [hglobal]
  by_cases hflows : conn ∉ t.flows ∧ t.flows.keys.card ≥ maxFlows
  · simp [hglobal, hflows]
  by_cases hfull : (t.storeAt conn).deque.length ≥ perFlow
  · simp only [hglobal, hflows, hfull, if_true, if_false, or_true]
  · simp only [hglobal, hflows, hfull, if_false, or_false]

/-- The bucket of a connection without hints. -/
def oneLeaf : List R → ConnBucket R
  | [] => Tier.new
  | req :: deque =>
    { flows := Finmap.insert legacySignerHint (FlowEntry.new ⟨req :: deque⟩) ∅
      active := [legacySignerHint]
      totalDepth := deque.length + 1 }

theorem oneLeaf_storeAt (deque : List R) : (oneLeaf deque).storeAt legacySignerHint = ⟨deque⟩ := by
  cases deque with
  | nil => rfl
  | cons =>
    rw [oneLeaf, Tier.storeAt, Finmap.lookup_insert]
    rfl

theorem oneLeaf_totalDepth (deque : List R) : (oneLeaf deque).totalDepth = deque.length := by
  cases deque <;> rfl

theorem mem_oneLeaf (deque : List R) : legacySignerHint ∈ (oneLeaf deque).flows ↔ deque ≠ [] := by
  cases deque with
  | nil => exact iff_of_false Finmap.notMem_empty (by simp)
  | cons => exact iff_of_true (Finmap.mem_insert.mpr (.inl rfl)) (List.cons_ne_nil _ _)

theorem oneLeaf_accept (deque : List R) (req : R) :
    (oneLeaf deque).accept legacySignerHint req = oneLeaf (deque ++ [req]) := by
  rw [ConnBucket.accept, ConnBucket.leaf, oneLeaf_storeAt, Tier.joined]
  cases deque with
  | nil => rfl
  | cons head deque =>
    have hmem := (mem_oneLeaf (head :: deque)).mpr (List.cons_ne_nil _ _)
    rw [if_pos hmem]
    simp only [oneLeaf, Finmap.insert_insert, List.cons_append, List.length_append,
      List.length_singleton]

theorem oneLeaf_turned (req : R) (deque : List R) :
    (oneLeaf (req :: deque)).turned legacySignerHint [] ⟨deque⟩ = oneLeaf deque := by
  cases deque with
  | nil =>
    have hflows : (oneLeaf [req]).flows.erase legacySignerHint = ∅ := by
      refine Finmap.ext_lookup fun hint => ?_
      rw [Keyed.lookup_erase_eq, oneLeaf, Keyed.lookup_insert_eq]
      split <;> rfl
    rw [Tier.turned, if_pos (by rfl), hflows]
    rfl
  | cons =>
    rw [Tier.turned, if_neg (by simp)]
    simp only [oneLeaf, Finmap.insert_insert]
    rfl

/-- The bounds of a connection are one bound on its leaf. -/
theorem oneLeaf_breach (deque : List R) {perFlow maxSigners maxConnBacklog : ℕ}
    (hsigners : 1 ≤ maxSigners) :
    (oneLeaf deque).breach legacySignerHint perFlow maxSigners maxConnBacklog = none ↔
      deque.length < min perFlow maxConnBacklog := by
  have hleaf : (oneLeaf deque).leaf legacySignerHint = deque := by
    rw [ConnBucket.leaf, oneLeaf_storeAt]
  have hhints : legacySignerHint ∈ (oneLeaf deque).flows ∨
      (oneLeaf deque).flows.keys.card < maxSigners := by
    cases deque with
    | nil => exact .inr hsigners
    | cons => exact .inl ((mem_oneLeaf _).mpr (List.cons_ne_nil _ _))
  rw [ConnBucket.breach_eq_none, hleaf, oneLeaf_totalDepth, lt_min_iff]
  exact ⟨fun h => ⟨h.1, h.2.1⟩, fun h => ⟨h.1, h.2, hhints⟩⟩

section Simulation

/-- The nested scheduler and the single tier hold the same requests in the same order. -/
structure Flattens (caps : Caps) (s : DrrState R) (t : Tier ConnId (RequestFifo R)) : Prop where
  sound : s.Sound
  sound' : t.Sound
  caps_eq : s.caps = clampedCaps caps
  active : s.outer.active = t.active
  depth : s.outer.totalDepth = t.totalDepth
  bucket : ∀ conn, s.bucket conn = oneLeaf (t.storeAt conn).deque

variable {caps : Caps} {s : DrrState R} {t : Tier ConnId (RequestFifo R)}

theorem flattens_new (caps : Caps) : Flattens caps (new caps : DrrState R) Tier.new where
  sound := sound_new caps
  sound' := Tier.sound_new
  caps_eq := rfl
  active := rfl
  depth := rfl
  bucket _ := rfl

theorem Flattens.length_le (hflat : Flattens caps s t) (conn : ConnId) :
    (t.storeAt conn).deque.length ≤ t.totalDepth := by
  by_cases hmem : conn ∈ t.flows
  · have hlookup := hflat.sound'.lookup_eq conn
    rw [if_pos hmem] at hlookup
    rw [hflat.sound'.depth, Keyed.total_eq_add_erase _ hlookup]
    exact Nat.le_add_right _ _
  · have hempty := (hflat.sound'.mem_flows_iff conn).not.mp hmem
    rw [not_not, depth_fifo] at hempty
    rw [hempty]
    exact Nat.zero_le _

/-- The same requests are refused. -/
theorem Flattens.breach_iff (hflat : Flattens caps s t) (hsigners : 1 ≤ caps.maxSigners)
    (conn : ConnId) :
    s.breach conn legacySignerHint = none ↔
      ¬ (t.totalDepth ≥ min caps.global hardMaxQueueDepth ∨
        (conn ∉ t.flows ∧ t.flows.keys.card ≥ caps.maxFlows) ∨
        (t.storeAt conn).deque.length ≥ min caps.perFlow caps.maxConnBacklog) := by
  have hmem : conn ∈ s.outer.flows ↔ conn ∈ t.flows := by
    rw [← hflat.sound.mem_active, ← hflat.sound'.mem_active, hflat.active]
  have hcard : s.outer.flows.keys.card = t.flows.keys.card := by
    rw [hflat.sound.card_keys, hflat.sound'.card_keys, hflat.active]
  have hlimit : 1 ≤ min caps.maxSigners hardMaxSignersPerConn := le_min hsigners (by decide)
  have hleaf : (s.bucket conn).breach legacySignerHint s.caps.perFlow s.caps.maxSigners
      s.caps.maxConnBacklog = none ↔ (t.storeAt conn).deque.length <
        min caps.perFlow (min caps.maxConnBacklog hardMaxQueueDepth) := by
    rw [hflat.bucket, hflat.caps_eq]
    exact oneLeaf_breach _ hlimit
  have hglobal : s.caps.global = min caps.global hardMaxQueueDepth := by
    rw [hflat.caps_eq]
    rfl
  have hflows : s.caps.maxFlows = min caps.maxFlows hardMaxQueueDepth := by
    rw [hflat.caps_eq]
    rfl
  -- what waits in all is below the hard limits of the flows and of their number
  have hlength := hflat.length_le conn
  have hkeys := hflat.sound'.card_keys_le
  rw [breach_eq_none, leaf, ← ConnBucket.breach_eq_none, hleaf, hflat.depth, hmem,
    hcard, hglobal, hflows]
  by_cases hnew : conn ∈ t.flows
  · simp only [hnew, true_or, true_and, not_true_eq_false, false_and, false_or]
    omega
  · simp only [hnew, false_or, not_false_eq_true, true_and]
    omega

theorem Flattens.accept (hflat : Flattens caps s t) (conn : ConnId) (req : R) :
    Flattens caps (s.accept conn legacySignerHint req)
      (t.joined conn ⟨(t.storeAt conn).deque ++ [req]⟩) where
  sound := (hflat.sound.accept conn legacySignerHint req).1
  sound' := hflat.sound'.joined trivial (buffered_push _ _)
  caps_eq := hflat.caps_eq
  active := by
    have hmem : conn ∈ s.outer.flows ↔ conn ∈ t.flows := by
      rw [← hflat.sound.mem_active, ← hflat.sound'.mem_active, hflat.active]
    simp only [DrrState.accept, Tier.joined, hmem, hflat.active]
  depth := congrArg Nat.succ hflat.depth
  bucket c := by
    rw [DrrState.bucket_accept, Tier.storeAt_joined]
    split
    · rw [hflat.bucket, oneLeaf_accept]
    · exact hflat.bucket c

theorem Flattens.pick (hflat : Flattens caps s t) :
    ∃ s' t' req, s.pick = .ok (req, s') ∧ t.pick = .ok (req, t') ∧ Flattens caps s' t' := by
  rcases hflat.sound.pick_cases with ⟨hactive, hpick⟩ |
    ⟨conn, rest, signer, hints, req, deque, hfront, hpick⟩
  · exact ⟨s, t, none, hpick, Tier.pick_nil (hflat.active ▸ hactive), hflat⟩
  have hactive : t.active = conn :: rest := hflat.active ▸ hfront.outer
  -- the bucket of the front connection has one leaf, and this is where the request waits
  have hinner := hfront.inner
  have hleaf := hfront.leaf
  rw [leaf] at hleaf
  rw [hflat.bucket] at hinner hleaf
  rcases hdeque : (t.storeAt conn).deque with - | ⟨head, tail⟩
  · rw [hdeque] at hinner
    cases hinner
  rw [hdeque] at hinner hleaf
  obtain ⟨rfl, rfl⟩ : legacySignerHint = signer ∧ [] = hints := by simpa [oneLeaf] using hinner
  rw [ConnBucket.leaf, oneLeaf_storeAt] at hleaf
  obtain ⟨rfl, rfl⟩ := List.cons.inj hleaf
  obtain ⟨req', ⟨tail'⟩, hserve, -, hbuffered, hpick'⟩ := hflat.sound'.pick_cons hactive
  obtain ⟨rfl, rfl⟩ := List.cons.inj (hdeque.symm.trans (deque_of_serve hserve))
  refine ⟨_, _, some head, hpick, hpick', ?_⟩
  have hturned : (s.bucket conn).turned legacySignerHint [] ⟨tail⟩ = oneLeaf tail := by
    rw [hflat.bucket, hdeque, oneLeaf_turned]
  exact
    { sound := (hfront.sound_served hflat.sound).1
      sound' := hflat.sound'.turned hactive trivial hbuffered
      caps_eq := hflat.caps_eq
      active := by
        rw [served, Tier.active_turned, Tier.active_turned, hturned, depth_tier,
          oneLeaf_totalDepth, depth_fifo]
      depth := by rw [served, Tier.totalDepth_turned, Tier.totalDepth_turned, hflat.depth]
      bucket := by
        intro c
        rw [hfront.bucket_served hflat.sound, Tier.storeAt_turned trivial]
        split
        · exact hturned
        · exact hflat.bucket c }

def Hintless (op : DrrOp R) : Prop :=
  ∀ conn signer req, op = .enqueue conn signer req → signer = legacySignerHint

theorem Flattens.step (hsigners : 1 ≤ caps.maxSigners) (hflat : Flattens caps s t) {op : DrrOp R}
    (hop : Hintless op) :
    ∃ s' t' out, (drr R).step s op = some (s', out) ∧
    (singleTier R (min caps.perFlow caps.maxConnBacklog) caps.maxFlows
      (min caps.global hardMaxQueueDepth)).step t op = some (t', out) ∧ Flattens caps s' t' := by
  cases op with
  | enqueue conn signer req =>
    obtain rfl := hop conn signer req rfl
    have hbreach := hflat.breach_iff hsigners conn
    simp only [drr, hflat.sound.enqueue_eq, singleTier_enqueue hflat.sound']
    cases hcap : s.breach conn legacySignerHint with
    | some cap =>
      rw [hcap] at hbreach
      rw [if_pos (not_not.mp (hbreach.not.mp (by simp)))]
      refine ⟨s.refuse cap, t, _, rfl, rfl, ?_⟩
      refine ⟨?_, hflat.sound', ?_, ?_, ?_, ?_⟩
      · rw [DrrState.Sound, DrrState.outer_refuse]
        exact hflat.sound
      · rw [DrrState.caps_refuse]
        exact hflat.caps_eq
      · rw [DrrState.outer_refuse]
        exact hflat.active
      · rw [DrrState.outer_refuse]
        exact hflat.depth
      · intro c
        rw [DrrState.bucket, DrrState.outer_refuse]
        exact hflat.bucket c
    | none =>
      rw [if_neg (hbreach.mp hcap)]
      exact ⟨_, _, _, rfl, rfl, hflat.accept conn req⟩
  | pick =>
    obtain ⟨s', t', req, hpick, hpick', hflat'⟩ := hflat.pick
    simp only [drr, singleTier, hpick, hpick']
    exact ⟨s', t', _, rfl, rfl, hflat'⟩

/--
On traffic without hints the nested scheduler is a single tier.  Both take every
list of operations and give the same answers: they accept and refuse the same
requests and return the same requests in the same turns.
-/
theorem drr_flattens (caps : Caps) (hsigners : 1 ≤ caps.maxSigners) (ops : List (DrrOp R))
    (hops : ∀ op ∈ ops, Hintless op) :
    ∃ h s h' t, (drr R).exec (new caps) ops = some (h, s) ∧
      (singleTier R (min caps.perFlow caps.maxConnBacklog) caps.maxFlows
        (new caps : DrrState R).caps.global).exec Tier.new ops = some (h', t) ∧
      h.map Entry.out = h'.map Entry.out := by
  obtain ⟨h, s, h', t, hexec, hexec', houts, -⟩ :=
    Machine.exec_alike (Flattens caps) Hintless
      (fun s t op hflat hop => hflat.step hsigners hop) (flattens_new caps) ops hops
  exact ⟨h, s, h', t, hexec, hexec', houts⟩

/-- Four requests of two connections under a bound of one for each. -/
theorem drr_flattens_two :
    ∃ h s h' t, (drr ℕ).exec (new ⟨1, 4, 1, 2, 8⟩)
        [.enqueue 1 0 7, .enqueue 1 0 8, .enqueue 2 0 9, .pick] = some (h, s) ∧
      (singleTier ℕ 1 4 8).exec Tier.new
        [.enqueue 1 0 7, .enqueue 1 0 8, .enqueue 2 0 9, .pick] = some (h', t) ∧
      h.map Entry.out = h'.map Entry.out := by
  refine drr_flattens ⟨1, 4, 1, 2, 8⟩ (by decide) _ ?_
  simp [Hintless, legacySignerHint]

end Simulation

end Knomosis.Host
