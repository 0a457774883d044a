import Knomosis.Host.DrrState

/-!
# Runs of the scheduler

Two laws of every run: nothing is lost, made up or reordered, and all five bounds
are kept, with every refusal counted under the bound that it is owed to.  The counters
have 64 bits and stop at their largest value.
-/

namespace Knomosis.Host
namespace DrrState

open Lib List Nat

variable {R : Type}

/-- One operation in a run, with the state it found and its answer. -/
abbrev DrrEntry (R : Type) := Entry (DrrState R) (DrrOp R) (DrrOut R)

variable {caps : Caps} {h : List (DrrEntry R)} {s : DrrState R}

theorem run_sound (hrun : Run (drr R) (new caps) h s) : s.Sound :=
  hrun.invariant (sound_new caps)
    (fun _ _ _ _ _ _ hsound hstep => (hsound.effect hstep).sound hsound)

theorem run_caps (hrun : Run (drr R) (new caps) h s) : s.caps = clampedCaps caps :=
  hrun.invariant rfl
    (fun _ _ _ _ _ hprev hcaps hstep => ((run_sound hprev).effect hstep).caps_eq.trans hcaps)

section Conservation

/-- The request that an operation accepted, with its leaf. -/
def acceptedOf (e : DrrEntry R) : List ((ConnId × SignerHint) × R) :=
  match e.call, e.out with
  | .enqueue conn signer req, .enqueued (.ok ()) => [((conn, signer), req)]
  | _, _ => []

def pickedOf (e : DrrEntry R) : List R :=
  match e.out with
  | .picked (some req) => [req]
  | _ => []

/-- The request that an operation returned, with the leaf whose turn it was. -/
def servedOf (e : DrrEntry R) : List ((ConnId × SignerHint) × R) :=
  match e.pre.turn with
  | some leaf => (pickedOf e).map (Prod.mk leaf)
  | none => []

/-- What the operations of a history contribute, in their order. -/
def collect {α : Type} (f : DrrEntry R → List α) : List (DrrEntry R) → List α
  | [] => []
  | e :: h => collect f h ++ f e

def requestsAt (leaf : ConnId × SignerHint) (xs : List ((ConnId × SignerHint) × R)) : List R :=
  xs.filterMap fun x => if x.1 = leaf then some x.2 else none

theorem requestsAt_append (leaf : ConnId × SignerHint) (xs ys : List ((ConnId × SignerHint) × R)) :
    requestsAt leaf (xs ++ ys) = requestsAt leaf xs ++ requestsAt leaf ys :=
  filterMap_append

attribute [local simp] pickedOf acceptedOf

@[simp] theorem servedOf_enqueue (s : DrrState R) (op : DrrOp R) (result : Except R Unit) :
    servedOf ⟨s, op, .enqueued result⟩ = [] := by
  cases hturn : s.turn <;> simp [servedOf, hturn]

@[simp] theorem servedOf_idle (s : DrrState R) (op : DrrOp R) :
    servedOf ⟨s, op, .picked none⟩ = [] := by
  cases hturn : s.turn <;> simp [servedOf, hturn]

variable {s s' : DrrState R} {op : DrrOp R} {out : DrrOut R} {caps : Caps} {h : List (DrrEntry R)}

theorem Front.servedOf_eq {conn : ConnId} {rest : List ConnId} {signer : SignerHint}
    {hints : List SignerHint} {req : R} {deque : List R}
    (hfront : s.Front conn rest signer hints req deque) :
    servedOf ⟨s, .pick, .picked (some req)⟩ = [((conn, signer), req)] := by
  simp [servedOf, hfront.turn_eq]

theorem Effect.requests_eq (heffect : s.Effect op s' out) (hsound : s.Sound) :
    s.requests + ((acceptedOf ⟨s, op, out⟩).map Prod.snd : List R) =
      (pickedOf ⟨s, op, out⟩ : Multiset R) + s'.requests := by
  cases heffect with
  | refused _ _ _ cap =>
    have hsame : (s.refuse cap).requests = s.requests := by rw [requests, outer_refuse, requests]
    rw [hsame]
    simp
  | accepted conn signer req =>
    rw [(hsound.accept conn signer req).2]
    simp [← Multiset.singleton_add, Multiset.add_comm]
  | idle => simp
  | served _ _ _ _ _ _ hfront =>
    rw [(hfront.sound_served hsound).2]
    simp

/-- What one operation does to the requests of a leaf. -/
theorem Effect.leaf_eq (heffect : s.Effect op s' out) (hsound : s.Sound)
    (conn : ConnId) (signer : SignerHint) :
    s.leaf conn signer ++ requestsAt (conn, signer) (acceptedOf ⟨s, op, out⟩) =
      requestsAt (conn, signer) (servedOf ⟨s, op, out⟩) ++ s'.leaf conn signer := by
  cases heffect with
  | refused _ _ _ cap =>
    have hsame : (s.refuse cap).leaf conn signer = s.leaf conn signer := by
      rw [leaf, bucket, outer_refuse, leaf, bucket]
    rw [hsame]
    simp [requestsAt]
  | accepted c hint =>
    rw [servedOf_enqueue, leaf_accept]
    by_cases hleaf : (conn, signer) = (c, hint)
    · simp [requestsAt, hleaf]
    · simp [requestsAt, hleaf, Ne.symm hleaf]
  | idle => simp [requestsAt]
  | served c _ hint _ _ _ hfront =>
    rw [hfront.leaf_served hsound, hfront.servedOf_eq]
    by_cases hleaf : (conn, signer) = (c, hint)
    · obtain ⟨rfl, rfl⟩ := Prod.mk.inj hleaf
      simp [requestsAt, hfront.leaf]
    · simp [requestsAt, hleaf, Ne.symm hleaf]

theorem run_requests (hrun : Run (drr R) (new caps) h s) :
    (((collect acceptedOf h).map Prod.snd : List R) : Multiset R) =
      (collect pickedOf h : Multiset R) + s.requests := by
  refine hrun.invariant ?_ ?_
  · rfl
  intro h s op s' out hprev ih hstep
  have hsound := run_sound hprev
  have hone := (hsound.effect hstep).requests_eq hsound
  simp only [collect, map_append, ← Multiset.coe_add] at ih ⊢
  rw [ih, add_assoc, hone, add_assoc]

theorem run_leaf (hrun : Run (drr R) (new caps) h s) (conn : ConnId) (signer : SignerHint) :
    requestsAt (conn, signer) (collect acceptedOf h) =
      requestsAt (conn, signer) (collect servedOf h) ++ s.leaf conn signer := by
  refine hrun.invariant ?_ ?_
  · rfl
  intro h s op s' out hprev ih hstep
  have hsound := run_sound hprev
  have hone := (hsound.effect hstep).leaf_eq hsound conn signer
  simp only [collect, requestsAt_append] at ih ⊢
  rw [ih, append_assoc, hone, append_assoc]

theorem run_served (hrun : Run (drr R) (new caps) h s) :
    (collect servedOf h).map Prod.snd = collect pickedOf h := by
  refine hrun.invariant rfl ?_
  intro h s op s' out hprev ih hstep
  simp only [collect, map_append, ih, append_cancel_left_eq]
  cases (run_sound hprev).effect hstep with
  | refused | accepted | idle => simp
  | served _ _ _ _ _ _ hfront => simp [hfront.servedOf_eq]

/--
The scheduler conserves requests.  In every run what was accepted is what was
returned and what still waits, and at every leaf in this order; a refusal hands
back its own request and leaves both tiers as they are; a turn never panics, and
it finds nothing exactly where nothing waits.
-/
theorem drr_conserves_requests (caps : Caps) {h : List (DrrEntry R)} {s : DrrState R}
    (hrun : Run (drr R) (new caps) h s) :
    (((collect acceptedOf h).map Prod.snd : List R) : Multiset R) =
        (collect pickedOf h : Multiset R) + s.requests ∧
      (collect servedOf h).map Prod.snd = collect pickedOf h ∧
      (∀ conn signer, requestsAt (conn, signer) (collect acceptedOf h) =
        requestsAt (conn, signer) (collect servedOf h) ++ s.leaf conn signer) ∧
      (∀ conn signer req s' req', s.enqueue conn signer req = (s', .error req') →
        req' = req ∧ s'.outer = s.outer) ∧
      (∃ req s', s.pick = .ok (req, s') ∧ (req = none ↔ s.requests = 0)) := by
  have hsound := run_sound hrun
  refine ⟨run_requests hrun, run_served hrun, run_leaf hrun, ?_, ?_⟩
  · intro conn signer req s' req' henqueue
    rw [hsound.enqueue_eq] at henqueue
    cases hbreach : s.breach conn signer with
    | none =>
      rw [hbreach] at henqueue
      cases henqueue
    | some cap =>
      rw [hbreach] at henqueue
      cases henqueue
      exact ⟨rfl, outer_refuse s cap⟩
  · have hempty : s.requests = 0 ↔ s.outer.active = [] := by
      rw [← Multiset.card_eq_zero, requests, ← Tier.Sound.totalDepth_eq hsound,
        Tier.Sound.totalDepth_eq_zero_iff hsound]
    rcases hsound.pick_cases with ⟨hactive, hpick⟩ |
      ⟨conn, rest, signer, hints, req, deque, hfront, hpick⟩
    · exact ⟨none, s, hpick, iff_of_true rfl (hempty.mpr hactive)⟩
    · refine ⟨some req, _, hpick, iff_of_false (by simp) ?_⟩
      rw [hempty, hfront.outer]
      exact cons_ne_nil _ _

/-- Two connections, two requests, one turn. -/
theorem drr_conserves_requests_two :
    ∃ (h : List (DrrEntry ℕ)) (s : DrrState ℕ),
      Run (drr ℕ) (new ⟨2, 2, 2, 2, 4⟩) h s ∧ h.length = 3 ∧
        (((collect acceptedOf h).map Prod.snd : List ℕ) : Multiset ℕ) =
          (collect pickedOf h : Multiset ℕ) + s.requests := by
  have hrun : Run (drr ℕ) (new ⟨2, 2, 2, 2, 4⟩) _ _ :=
    .snoc (.snoc (.snoc .nil
      (show (drr ℕ).step _ (.enqueue 1 0 7) = some (_, _) from rfl))
      (show (drr ℕ).step _ (.enqueue 2 5 8) = some (_, _) from rfl))
      (show (drr ℕ).step _ .pick = some (_, _) from rfl)
  exact ⟨_, _, hrun, rfl, (drr_conserves_requests ⟨2, 2, 2, 2, 4⟩ hrun).1⟩

end Conservation

section Bounds

def Within (s : DrrState R) : Cap → Prop
  | .global => s.requests.card ≤ s.caps.global
  | .tier .maxFlows => s.outer.active.length ≤ s.caps.maxFlows
  | .tier .maxSigners => ∀ conn, (s.bucket conn).flows.keys.card ≤ s.caps.maxSigners
  | .tier .connBacklog => ∀ conn, (s.bucket conn).requests.card ≤ s.caps.maxConnBacklog
  | .tier .perFlow => ∀ conn signer, (s.leaf conn signer).length ≤ s.caps.perFlow

theorem keys_bucket_accept (bucket : ConnBucket R) (signer : SignerHint) (req : R) :
    (bucket.accept signer req).flows.keys = insert signer bucket.flows.keys :=
  Keyed.keys_insert _ _ _

theorem active_accept (s : DrrState R) (conn : ConnId) (signer : SignerHint) (req : R) :
    (s.accept conn signer req).outer.active =
      if conn ∈ s.outer.flows then s.outer.active else s.outer.active ++ [conn] :=
  rfl

variable {s : DrrState R} {conn : ConnId} {signer : SignerHint}

theorem Sound.within_accept (hsound : s.Sound) (hwithin : ∀ cap, s.Within cap)
    (hbreach : s.breach conn signer = none) (req : R) (cap : Cap) :
    (s.accept conn signer req).Within cap := by
  obtain ⟨hglobal, hflows, hleaf, hbacklog, hsigners⟩ := (s.breach_eq_none conn signer).mp hbreach
  have hw := hwithin cap
  rcases cap with - | (_ | _ | _ | _)
  · have hdepth := Tier.Sound.totalDepth_eq hsound
    simp only [Within, (hsound.accept conn signer req).2, Multiset.card_cons]
    rw [requests, ← hdepth]
    exact hglobal
  · simp only [Within, active_accept] at hw ⊢
    split
    · exact hw
    case isFalse hmem =>
      rw [Tier.Sound.card_keys hsound] at hflows
      rw [length_append, length_singleton]
      exact hflows.resolve_left hmem
  · intro c
    have hc := hw c
    simp only [bucket_accept]
    split
    case isTrue heq =>
      subst heq
      rw [keys_bucket_accept]
      by_cases hmem : signer ∈ (s.bucket c).flows
      · rw [Finset.insert_eq_of_mem (Finmap.mem_keys.mpr hmem)]
        exact hc
      · rw [Finset.card_insert_of_notMem (fun h => hmem (Finmap.mem_keys.mp h))]
        exact hsigners.resolve_left hmem
    · exact hc
  · intro c
    have hc := hw c
    simp only [bucket_accept]
    split
    case isTrue heq =>
      subst heq
      rw [(ConnBucket.sound_accept (hsound.bucket c) signer req).2, Multiset.card_cons,
        ← (hsound.bucket c).totalDepth_eq]
      exact hbacklog
    · exact hc
  · intro c hint
    have hc := hw c hint
    rw [leaf_accept]
    split
    case isTrue heq =>
      obtain ⟨rfl, rfl⟩ := Prod.mk.inj heq
      rw [length_append, length_singleton]
      exact hleaf
    · exact hc

theorem Sound.not_within_accept {cap : Cap} (hsound : s.Sound)
    (hbreach : s.breach conn signer = some cap) (req : R) :
    ¬ (s.accept conn signer req).Within cap := by
  have hleafAt : (s.leaf conn signer).length ≥ s.caps.perFlow →
      ¬ (s.accept conn signer req).Within (.tier .perFlow) := by
    intro hfull hwithin
    have hleaf := hwithin conn signer
    rw [leaf_accept, if_pos rfl, length_append, length_singleton] at hleaf
    exact absurd hleaf (Nat.not_le_of_lt (Nat.lt_succ_of_le hfull))
  rw [breach] at hbreach
  split at hbreach
  case isTrue hglobal =>
    cases hbreach
    have hdepth := Tier.Sound.totalDepth_eq hsound
    simp only [Within, (hsound.accept conn signer req).2, Multiset.card_cons]
    rw [requests, ← hdepth]
    exact Nat.not_le_of_lt (Nat.lt_succ_of_le hglobal)
  split at hbreach
  case isTrue hflows =>
    cases hbreach
    obtain ⟨hmem, hcard⟩ := hflows
    rw [Tier.Sound.card_keys hsound] at hcard
    simp only [Within, active_accept, if_neg hmem, length_append, length_singleton]
    exact Nat.not_le_of_lt (Nat.lt_succ_of_le hcard)
  obtain ⟨reason, hreason, rfl⟩ := Option.map_eq_some_iff.mp hbreach
  rw [ConnBucket.breach] at hreason
  split at hreason
  case isTrue hfull =>
    cases hreason
    exact hleafAt hfull.2
  split at hreason
  case isTrue hbacklog =>
    cases hreason
    intro hwithin
    have hbucket := hwithin conn
    rw [bucket_accept, if_pos rfl, (ConnBucket.sound_accept (hsound.bucket conn) signer req).2,
      Multiset.card_cons, ← (hsound.bucket conn).totalDepth_eq] at hbucket
    exact absurd hbucket (Nat.not_le_of_lt (Nat.lt_succ_of_le hbacklog))
  split at hreason
  case isTrue hsigners =>
    cases hreason
    intro hwithin
    have hbucket := hwithin conn
    rw [bucket_accept, if_pos rfl, keys_bucket_accept,
      Finset.card_insert_of_notMem (fun h => hsigners.1 (Finmap.mem_keys.mp h))] at hbucket
    exact absurd hbucket (Nat.not_le_of_lt (Nat.lt_succ_of_le hsigners.2))
  split at hreason
  case isTrue hfull =>
    cases hreason
    exact hleafAt hfull
  cases hreason

/-- A turn only takes away. -/
theorem Front.within_served {rest : List ConnId}
    {hints : List SignerHint} {req : R} {deque : List R}
    (hfront : s.Front conn rest signer hints req deque) (hsound : s.Sound)
    (hwithin : ∀ cap, s.Within cap) (cap : Cap) :
    (s.served conn rest signer hints deque).Within cap := by
  have hw := hwithin cap
  obtain ⟨hinner, hrequests⟩ := hfront.sound_inner hsound
  rcases cap with - | (_ | _ | _ | _)
  · simp only [Within, (hfront.sound_served hsound).2, Multiset.card_cons] at hw ⊢
    exact (le_succ _).trans hw
  · have hlength : (s.served conn rest signer hints deque).outer.active.length ≤
        s.outer.active.length := by
      rw [served, Tier.active_turned, hfront.outer]
      split <;> simp
    exact hlength.trans hw
  · intro c
    have hc := hw c
    rw [hfront.bucket_served hsound]
    split
    case isTrue heq =>
      subst heq
      refine le_trans ?_ hc
      rw [hinner.card_keys, (hsound.bucket c).card_keys, Tier.active_turned, hfront.inner]
      split <;> simp
    · exact hc
  · intro c
    have hc := hw c
    rw [hfront.bucket_served hsound]
    split
    case isTrue heq =>
      subst heq
      rw [hrequests, Multiset.card_cons] at hc
      exact (le_succ _).trans hc
    · exact hc
  · intro c hint
    have hc := hw c hint
    rw [hfront.leaf_served hsound]
    split
    case isTrue heq =>
      obtain ⟨rfl, rfl⟩ := Prod.mk.inj heq
      rw [hfront.leaf, length_cons] at hc
      exact (le_succ _).trans hc
    · exact hc

theorem within_new (caps : Caps) (cap : Cap) : (new caps : DrrState R).Within cap := by
  rcases cap with - | (_ | _ | _ | _)
  · exact zero_le _
  · exact zero_le _
  · exact fun _ => zero_le _
  · exact fun _ => zero_le _
  · exact fun _ _ => zero_le _

theorem Effect.within {s' : DrrState R} {op : DrrOp R} {out : DrrOut R}
    (heffect : s.Effect op s' out) (hsound : s.Sound) (hwithin : ∀ cap, s.Within cap) :
    ∀ cap, s'.Within cap := by
  cases heffect with
  | refused =>
    intro c
    have hc := hwithin c
    rcases c with - | (_ | _ | _ | _) <;>
      simpa only [Within, requests, leaf, bucket, outer_refuse, caps_refuse] using hc
  | accepted _ _ req hbreach => exact hsound.within_accept hwithin hbreach req
  | idle => exact hwithin
  | served _ _ _ _ _ _ hfront => exact hfront.within_served hsound hwithin

theorem run_within {caps : Caps} {h : List (DrrEntry R)} (hrun : Run (drr R) (new caps) h s)
    (cap : Cap) : s.Within cap := by
  refine hrun.invariant (within_new caps) ?_ cap
  intro h s op s' out hprev hwithin hstep
  have hsound := run_sound hprev
  exact (hsound.effect hstep).within hsound hwithin

end Bounds

section Counters

/-- What the scheduler reports of the refusals by a bound. -/
def rejections (s : DrrState R) : Cap → ℕ
  | .global => s.stats.rejectedGlobal
  | .tier .maxFlows => s.stats.rejectedMaxFlows
  | .tier .maxSigners => s.stats.rejectedMaxSigners
  | .tier .connBacklog => s.stats.rejectedConnBacklog
  | .tier .perFlow => s.stats.rejectedPerFlow

theorem rejections_refuse (s : DrrState R) (cap c : Cap) :
    (s.refuse cap).rejections c =
      if c = cap then saturatingAdd (s.rejections c) 1 else s.rejections c := by
  rcases cap with - | (_ | _ | _ | _) <;> rcases c with - | (_ | _ | _ | _) <;> rfl

theorem dispatched_refuse (s : DrrState R) (cap : Cap) :
    (s.refuse cap).dispatched = s.dispatched := by
  rcases cap with - | (_ | _ | _ | _) <;> rfl

def refusedBy (cap : Cap) (e : DrrEntry R) : Bool :=
  match e.call, e.out with
  | .enqueue conn signer _, .enqueued (.error _) => e.pre.breach conn signer = some cap
  | _, _ => false

theorem saturatingAdd_min (n : ℕ) : saturatingAdd (min n u64Max) 1 = min (n + 1) u64Max := by
  rw [saturatingAdd]
  omega

variable {caps : Caps} {h : List (DrrEntry R)} {s : DrrState R}

theorem run_rejections (hrun : Run (drr R) (new caps) h s) (cap : Cap) :
    s.rejections cap = min (h.countP (refusedBy cap)) u64Max := by
  refine hrun.invariant ?_ ?_
  · rcases cap with - | (_ | _ | _ | _) <;> rfl
  intro h s op s' out hprev ih hstep
  cases (run_sound hprev).effect hstep with
  | refused _ _ _ c hbreach =>
    rw [rejections_refuse, ih, countP_cons]
    by_cases hcap : cap = c
    · subst hcap
      simp [refusedBy, hbreach, saturatingAdd_min]
    · simp [refusedBy, hbreach, hcap, Ne.symm hcap]
  | accepted | served =>
    rw [countP_cons_of_neg (by simp [refusedBy]), ← ih]
    rcases cap with - | (_ | _ | _ | _) <;> rfl
  | idle => rw [countP_cons_of_neg (by simp [refusedBy]), ← ih]

theorem run_dispatched (hrun : Run (drr R) (new caps) h s) :
    s.stats.dispatched = min (collect pickedOf h).length u64Max := by
  refine hrun.invariant rfl ?_
  intro h s op s' out hprev ih hstep
  cases (run_sound hprev).effect hstep with
  | refused _ _ _ cap =>
    have hsame : (s.refuse cap).stats.dispatched = s.stats.dispatched := dispatched_refuse s cap
    rw [hsame]
    simpa [collect, pickedOf] using ih
  | accepted conn signer req =>
    have hsame : (s.accept conn signer req).stats.dispatched = s.stats.dispatched := rfl
    rw [hsame]
    simpa [collect, pickedOf] using ih
  | idle => simpa [collect, pickedOf] using ih
  | served =>
    rw [stats, served, show s.dispatched = _ from ih, saturatingAdd_min]
    simp [collect, pickedOf]

/--
The books of the scheduler.  In every state that a run reaches all bounds hold,
both tiers are sound, a request is refused only where it would break a bound, and
the counters are the numbers of returned requests and of refusals by each bound,
up to the largest 64-bit value.
-/
theorem drr_bounds_hold
    (caps : Caps)
    {h : List (DrrEntry R)}
    {s : DrrState R}
    (hrun : Run (drr R) (new caps) h s) :
    s.caps = clampedCaps caps ∧
    (∀ cap, s.Within cap) ∧
    s.outer.Sound ∧
    (∀ conn, (s.bucket conn).Sound) ∧
    (∀ conn signer req s' req',
      s.enqueue conn signer req = (s', .error req') →
      ∃ cap, s.breach conn signer = some cap ∧ ¬ (s.accept conn signer req).Within cap) ∧
    (∀ conn signer req s',
      s.enqueue conn signer req = (s', .ok ()) → s' = s.accept conn signer req) ∧
    s.stats.dispatched = min (collect pickedOf h).length u64Max ∧
    ∀ cap, s.rejections cap = min (h.countP (refusedBy cap)) u64Max := by
  have hsound := run_sound hrun
  refine ⟨run_caps hrun, run_within hrun, hsound, hsound.bucket, ?_, ?_, run_dispatched hrun,
    run_rejections hrun⟩
  · intro conn signer req s' req' henqueue
    rw [hsound.enqueue_eq] at henqueue
    cases hbreach : s.breach conn signer with
    | none =>
      rw [hbreach] at henqueue
      cases henqueue
    | some cap => exact ⟨cap, rfl, hsound.not_within_accept hbreach req⟩
  · intro conn signer req s' henqueue
    rw [hsound.enqueue_eq] at henqueue
    cases hbreach : s.breach conn signer with
    | some =>
      rw [hbreach] at henqueue
      cases henqueue
    | none =>
      rw [hbreach] at henqueue
      cases henqueue
      rfl

/-- A scheduler that may hold one request refuses the second. -/
theorem drr_bounds_hold_full :
    ∃ (h : List (DrrEntry ℕ)) (s : DrrState ℕ),
      Run (drr ℕ) (new ⟨1, 1, 1, 1, 1⟩) h s ∧ h.countP (refusedBy .global) = 1 ∧
        s.rejections .global = min (h.countP (refusedBy .global)) u64Max := by
  have hrun : Run (drr ℕ) (new ⟨1, 1, 1, 1, 1⟩) _ _ :=
    .snoc (.snoc .nil
      (show (drr ℕ).step _ (.enqueue 1 0 7) = some (_, _) from rfl))
      (show (drr ℕ).step _ (.enqueue 2 5 8) = some (_, _) from rfl)
  have hbooks := drr_bounds_hold ⟨1, 1, 1, 1, 1⟩ hrun
  exact ⟨_, _, hrun, rfl, hbooks.2.2.2.2.2.2.2 .global⟩

theorem exists_refusals (n : ℕ) :
    ∃ (h : List (DrrEntry Unit)) (s : DrrState Unit),
      Run (drr Unit) (new ⟨0, 0, 0, 0, 0⟩) h s ∧ h.countP (refusedBy .global) = n := by
  induction n with
  | zero => exact ⟨[], _, .nil, rfl⟩
  | succ n ih =>
    obtain ⟨h, s, hrun, hcount⟩ := ih
    have hcaps : s.caps.global = 0 := by
      rw [run_caps hrun]
      rfl
    have hbreach : s.breach 0 0 = some .global := by rw [breach, hcaps, if_pos (zero_le _)]
    refine ⟨⟨s, .enqueue 0 0 (), .enqueued (.error ())⟩ :: h, s.refuse .global, .snoc hrun ?_, ?_⟩
    · simp only [drr, (run_sound hrun).enqueue_eq, hbreach]
    · rw [countP_cons_of_pos (by simp [refusedBy, hbreach]), hcount]

/-- After `2 ^ 64` refusals the counter is one short. -/
theorem refusal_counter_stops :
    ∃ (h : List (DrrEntry Unit)) (s : DrrState Unit),
      Run (drr Unit) (new ⟨0, 0, 0, 0, 0⟩) h s ∧
        s.stats.rejectedGlobal ≠ h.countP (refusedBy .global) := by
  obtain ⟨h, s, hrun, hcount⟩ := exists_refusals (2 ^ 64)
  refine ⟨h, s, hrun, ?_⟩
  have hreported : s.stats.rejectedGlobal = min (h.countP (refusedBy .global)) u64Max :=
    run_rejections hrun .global
  rw [hreported, hcount]
  decide

end Counters

end DrrState
end Knomosis.Host
