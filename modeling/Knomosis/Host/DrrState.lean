import Knomosis.Host.DrrTier

/-!
# What the scheduler does

The scheduler is described through the requests that wait at each leaf, that is at
each pair of a connection and a signer hint.  A request is refused where it would
break a bound, and the scheduler then only counts the refusal; otherwise it is
added at the end of its leaf.  A turn takes the oldest request of the leaf whose
turn it is at both tiers.
-/

namespace Knomosis.Host

open Lib

variable {R : Type}

section Fifo

open LawfulFlowStore

@[simp] theorem depth_fifo (fifo : RequestFifo R) : FlowStore.depth fifo = fifo.deque.length := rfl

@[simp] theorem depth_tier {K S : Type} [DecidableEq K] [FlowStore S R] (t : Tier K S) :
    FlowStore.depth t = t.totalDepth :=
  rfl

theorem deque_of_serve {fifo fifo' : RequestFifo R} {req : R}
    (h : FlowStore.serve fifo = .ok (some req, fifo')) : fifo.deque = req :: fifo'.deque := by
  obtain ⟨_ | ⟨_, _⟩⟩ := fifo <;> cases h
  rfl

theorem push_eq (fifo : RequestFifo R) (req : R) (perFlow : ℕ) :
    fifo.push req perFlow =
      if fifo.deque.length ≥ perFlow then (fifo, .error { reason := .perFlow, req })
      else ({ deque := fifo.deque ++ [req] }, .ok ()) :=
  rfl

/-- What a tier of leaves does with a request. -/
theorem Tier.Sound.enqueueLeaf_eq {K : Type} [DecidableEq K] {t : Tier K (RequestFifo R)}
    (hsound : t.Sound) (key : K) (req : R) (perFlow maxKeys : ℕ) (reason : RejectReason) :
    t.enqueueLeaf key req perFlow maxKeys reason =
      if key ∉ t.flows ∧ t.flows.keys.card ≥ maxKeys then (t, .error { reason, req })
      else if (t.storeAt key).deque.length ≥ perFlow then (t, .error { reason := .perFlow, req })
      else (t.joined key ⟨(t.storeAt key).deque ++ [req]⟩, .ok ()) := by
  have hpush : ∀ (fifo : RequestFifo R) rejected, LawfulFlowStore.Sound fifo →
      (fifo.push req perFlow).2 = .error rejected → (fifo.push req perFlow).1 = fifo := by
    intro fifo rejected _ h
    rw [push_eq] at h ⊢
    split at h
    case isTrue hfull => rw [if_pos hfull]
    case isFalse => cases h
  have hroute := hsound.enqueueRouted_eq key maxKeys reason req
    (fun fifo req => fifo.push req perFlow) hpush
  refine hroute.trans ?_
  by_cases hkeys : key ∉ t.flows ∧ t.flows.keys.card ≥ maxKeys
  · simp only [if_pos hkeys]
  simp only [if_neg hkeys, push_eq]
  by_cases hfull : (t.storeAt key).deque.length ≥ perFlow
  · simp only [if_pos hfull]
  · simp only [if_neg hfull]

theorem buffered_push (deque : List R) (req : R) :
    buffered (⟨deque ++ [req]⟩ : RequestFifo R) = req ::ₘ buffered (⟨deque⟩ : RequestFifo R) := by
  change ((deque ++ [req] : List R) : Multiset R) = req ::ₘ (deque : Multiset R)
  rw [← Multiset.coe_add, Multiset.add_comm, Multiset.coe_singleton, Multiset.singleton_add]

end Fifo

namespace ConnBucket

def leaf (bucket : ConnBucket R) (signer : SignerHint) : List R := (bucket.storeAt signer).deque

/-- The bound that refuses a request at a hint. -/
def breach (bucket : ConnBucket R) (signer : SignerHint)
    (perFlow maxSigners maxConnBacklog : ℕ) : Option RejectReason :=
  if signer ∈ bucket.flows ∧ (leaf bucket signer).length ≥ perFlow then some .perFlow
  else if bucket.totalDepth ≥ maxConnBacklog then some .connBacklog
  else if signer ∉ bucket.flows ∧ bucket.flows.keys.card ≥ maxSigners then some .maxSigners
  else if (leaf bucket signer).length ≥ perFlow then some .perFlow
  else none

theorem breach_eq_none
    (bucket : ConnBucket R) (signer : SignerHint) (perFlow maxSigners maxConnBacklog : ℕ) :
    breach bucket signer perFlow maxSigners maxConnBacklog = none ↔
      (leaf bucket signer).length < perFlow ∧ bucket.totalDepth < maxConnBacklog ∧
        (signer ∈ bucket.flows ∨ bucket.flows.keys.card < maxSigners) := by
  rw [breach]
  by_cases hmem : signer ∈ bucket.flows
  · simp only [hmem, true_and, not_true_eq_false, false_and, if_false, true_or, and_true]
    split_ifs <;> simp <;> omega
  · simp only [hmem, false_and, if_false, not_false_eq_true, true_and, false_or]
    split_ifs <;> simp <;> omega

def accept (bucket : ConnBucket R) (signer : SignerHint) (req : R) : ConnBucket R :=
  bucket.joined signer ⟨leaf bucket signer ++ [req]⟩

/-- What a connection does with a request. -/
theorem enqueueSigner_eq {bucket : ConnBucket R} (hsound : bucket.Sound)
    (signer : SignerHint) (req : R) (perFlow maxSigners maxConnBacklog : ℕ) :
    enqueueSigner bucket signer req perFlow maxSigners maxConnBacklog =
      match breach bucket signer perFlow maxSigners maxConnBacklog with
      | some reason => (bucket, .error { reason, req })
      | none => (accept bucket signer req, .ok ()) := by
  have hfull : (bucket.flows.lookup signer).any
      (fun entry => FlowStore.depth entry.store ≥ perFlow) = true ↔
        signer ∈ bucket.flows ∧ (leaf bucket signer).length ≥ perFlow := by
    rw [hsound.lookup_eq signer]
    by_cases hmem : signer ∈ bucket.flows <;> simp [hmem, leaf, FlowEntry.new]
  rw [enqueueSigner, breach]
  simp only [hfull]
  by_cases hleaf : signer ∈ bucket.flows ∧ (leaf bucket signer).length ≥ perFlow
  · simp only [if_pos hleaf]
  simp only [if_neg hleaf]
  by_cases hbacklog : bucket.totalDepth ≥ maxConnBacklog
  · simp only [if_pos hbacklog]
  simp only [if_neg hbacklog]
  rw [hsound.enqueueLeaf_eq]
  by_cases hkeys : signer ∉ bucket.flows ∧ bucket.flows.keys.card ≥ maxSigners
  · simp only [if_pos hkeys]
  simp only [if_neg hkeys]
  rw [show (bucket.storeAt signer).deque = leaf bucket signer from rfl]
  by_cases hroom : (leaf bucket signer).length ≥ perFlow
  · simp only [if_pos hroom]
  · simp only [if_neg hroom]
    rfl

theorem sound_accept {bucket : ConnBucket R} (hsound : bucket.Sound)
    (signer : SignerHint) (req : R) :
    (accept bucket signer req).Sound ∧
    (accept bucket signer req).requests = req ::ₘ bucket.requests := by
  have hjoined : LawfulFlowStore.buffered (⟨leaf bucket signer ++ [req]⟩ : RequestFifo R) =
      req ::ₘ LawfulFlowStore.buffered (bucket.storeAt signer) :=
    buffered_push _ _
  exact ⟨hsound.joined trivial hjoined, hsound.requests_joined hjoined⟩

theorem leaf_accept (bucket : ConnBucket R) (signer : SignerHint) (req : R) (hint : SignerHint) :
    leaf (accept bucket signer req) hint =
      if hint = signer then leaf bucket hint ++ [req] else leaf bucket hint := by
  rw [leaf, accept, Tier.storeAt_joined]
  split
  case isTrue h => rw [h]
  · rfl

end ConnBucket

namespace DrrState

/-- The flows of a connection; a connection without flows has a fresh bucket. -/
def bucket (s : DrrState R) (conn : ConnId) : ConnBucket R := s.outer.storeAt conn

def leaf (s : DrrState R) (conn : ConnId) (signer : SignerHint) : List R :=
  (s.bucket conn).leaf signer

def requests (s : DrrState R) : Multiset R := s.outer.requests

def turn (s : DrrState R) : Option (ConnId × SignerHint) :=
  s.outer.active.head?.bind fun conn =>
    (s.bucket conn).active.head?.map fun signer => (conn, signer)

/-- Both tiers keep their books. -/
def Sound (s : DrrState R) : Prop := s.outer.Sound

theorem sound_new (caps : Caps) : (new caps : DrrState R).Sound := Tier.sound_new

theorem Sound.bucket {s : DrrState R} (hsound : s.Sound) (conn : ConnId) : (s.bucket conn).Sound :=
  Tier.Sound.sound_storeAt hsound conn

inductive Cap where
  | global
  | tier (reason : RejectReason)
deriving DecidableEq

/-- The bound that refuses a request, if one does. -/
def breach (s : DrrState R) (conn : ConnId) (signer : SignerHint) : Option Cap :=
  if s.outer.totalDepth ≥ s.caps.global then some .global
  else if conn ∉ s.outer.flows ∧ s.outer.flows.keys.card ≥ s.caps.maxFlows then
    some (.tier .maxFlows)
  else
    ((s.bucket conn).breach signer s.caps.perFlow s.caps.maxSigners s.caps.maxConnBacklog).map .tier

theorem breach_eq_none (s : DrrState R) (conn : ConnId) (signer : SignerHint) :
    s.breach conn signer = none ↔ s.outer.totalDepth < s.caps.global ∧
        (conn ∈ s.outer.flows ∨ s.outer.flows.keys.card < s.caps.maxFlows) ∧
        (s.leaf conn signer).length < s.caps.perFlow ∧
        (s.bucket conn).totalDepth < s.caps.maxConnBacklog ∧
        (signer ∈ (s.bucket conn).flows ∨ (s.bucket conn).flows.keys.card < s.caps.maxSigners) := by
  rw [breach, leaf, ← ConnBucket.breach_eq_none]
  by_cases hglobal : s.outer.totalDepth ≥ s.caps.global
  · simp [hglobal]
  rw [if_neg hglobal, ← Nat.not_le]
  by_cases hmem : conn ∈ s.outer.flows
  · simp [hmem, hglobal]
  simp only [hmem, not_false_eq_true, true_and, false_or, ← Nat.not_le]
  by_cases hflows : s.outer.flows.keys.card ≥ s.caps.maxFlows
  · simp [hflows]
  · simp [hglobal, hflows]

def refuse (s : DrrState R) : Cap → DrrState R
  | .global => { s with rejectedGlobal := saturatingAdd s.rejectedGlobal 1 }
  | .tier reason => s.tally reason

/-- The scheduler with one more request at the end of a leaf. -/
def accept (s : DrrState R) (conn : ConnId) (signer : SignerHint) (req : R) : DrrState R :=
  { s with outer := s.outer.joined conn ((s.bucket conn).accept signer req) }

/-- What the scheduler does with a request. -/
theorem Sound.enqueue_eq {s : DrrState R} (hsound : s.Sound)
    (conn : ConnId) (signer : SignerHint) (req : R) :
    s.enqueue conn signer req =
      match s.breach conn signer with
      | some cap => (s.refuse cap, .error req)
      | none => (s.accept conn signer req, .ok ()) := by
  rw [enqueue, breach]
  by_cases hglobal : s.outer.totalDepth ≥ s.caps.global
  · simp only [if_pos hglobal]
    rfl
  simp only [if_neg hglobal]
  have hpush : ∀ (bucket : ConnBucket R) rejected, LawfulFlowStore.Sound bucket →
      (ConnBucket.enqueueSigner bucket signer req s.caps.perFlow s.caps.maxSigners
        s.caps.maxConnBacklog).2 = .error rejected →
      (ConnBucket.enqueueSigner bucket signer req s.caps.perFlow s.caps.maxSigners
        s.caps.maxConnBacklog).1 = bucket := by
    intro bucket rejected hbucket h
    rw [ConnBucket.enqueueSigner_eq hbucket] at h ⊢
    cases hbreach : ConnBucket.breach bucket signer s.caps.perFlow s.caps.maxSigners
        s.caps.maxConnBacklog with
    | none =>
      rw [hbreach] at h
      cases h
    | some => rfl
  have hroute := Tier.Sound.enqueueRouted_eq hsound conn s.caps.maxFlows .maxFlows req
    (fun bucket req => ConnBucket.enqueueSigner bucket signer req s.caps.perFlow
      s.caps.maxSigners s.caps.maxConnBacklog) hpush
  rw [show (Tier.new : ConnBucket R) = LawfulFlowStore.empty from rfl, hroute]
  by_cases hflows : conn ∉ s.outer.flows ∧ s.outer.flows.keys.card ≥ s.caps.maxFlows
  · simp only [if_pos hflows]
    rfl
  simp only [if_neg hflows]
  rw [show s.outer.storeAt conn = s.bucket conn from rfl,
    ConnBucket.enqueueSigner_eq (hsound.bucket conn)]
  cases ConnBucket.breach (s.bucket conn) signer s.caps.perFlow s.caps.maxSigners
      s.caps.maxConnBacklog with
  | none | some => rfl

theorem Sound.accept {s : DrrState R} (hsound : s.Sound)
    (conn : ConnId) (signer : SignerHint) (req : R) :
    (s.accept conn signer req).Sound ∧
    (s.accept conn signer req).requests = req ::ₘ s.requests := by
  obtain ⟨hbucket, hrequests⟩ := ConnBucket.sound_accept (hsound.bucket conn) signer req
  exact ⟨Tier.Sound.joined hsound hbucket hrequests, Tier.Sound.requests_joined hsound hrequests⟩

theorem bucket_accept
    (s : DrrState R) (conn : ConnId) (signer : SignerHint) (req : R) (c : ConnId) :
    (s.accept conn signer req).bucket c =
      if c = conn then (s.bucket conn).accept signer req else s.bucket c :=
  Tier.storeAt_joined c

theorem leaf_accept (s : DrrState R) (conn : ConnId) (signer : SignerHint) (req : R)
    (c : ConnId) (hint : SignerHint) :
    (s.accept conn signer req).leaf c hint =
      if (c, hint) = (conn, signer) then s.leaf c hint ++ [req] else s.leaf c hint := by
  simp only [leaf, bucket_accept, Prod.mk.injEq]
  by_cases hconn : c = conn
  · subst hconn
    simp only [if_true, ConnBucket.leaf_accept, true_and]
  · simp only [hconn, if_false, false_and]

@[simp] theorem outer_refuse (s : DrrState R) (cap : Cap) : (s.refuse cap).outer = s.outer := by
  rcases cap with - | (_ | _ | _ | _) <;> rfl

@[simp] theorem caps_refuse (s : DrrState R) (cap : Cap) : (s.refuse cap).caps = s.caps := by
  rcases cap with - | (_ | _ | _ | _) <;> rfl

section Turns

/-- The scheduler after the turn of a leaf that keeps `deque`. -/
def served (s : DrrState R) (conn : ConnId) (rest : List ConnId) (signer : SignerHint)
    (hints : List SignerHint) (deque : List R) : DrrState R :=
  { s with
    outer := s.outer.turned conn rest ((s.bucket conn).turned signer hints ⟨deque⟩)
    dispatched := saturatingAdd s.dispatched 1 }

/-- The leaf whose turn it is, the leaves behind it at both tiers, and what waits at it. -/
structure Front (s : DrrState R) (conn : ConnId) (rest : List ConnId) (signer : SignerHint)
    (hints : List SignerHint) (req : R) (deque : List R) : Prop where
  outer : s.outer.active = conn :: rest
  inner : (s.bucket conn).active = signer :: hints
  leaf : s.leaf conn signer = req :: deque

/-- A turn of the scheduler: nothing waits, or the leaf at the front gives up its oldest request. -/
theorem Sound.pick_cases {s : DrrState R} (hsound : s.Sound) :
    (s.outer.active = [] ∧ s.pick = .ok (none, s)) ∨
      ∃ conn rest signer hints req deque, s.Front conn rest signer hints req deque ∧
        s.pick = .ok (some req, s.served conn rest signer hints deque) := by
  rcases hactive : s.outer.active with - | ⟨conn, rest⟩
  · left
    refine ⟨rfl, ?_⟩
    rw [pick, Tier.pick_nil hactive]
  right
  obtain ⟨req, store, hserve, -, -, hpick⟩ := Tier.Sound.pick_cons hsound hactive
  -- the turn of the connection is a turn of its bucket
  have hbucket : (s.bucket conn).pick = .ok (some req, store) := hserve
  rcases hinner : (s.bucket conn).active with - | ⟨signer, hints⟩
  · rw [Tier.pick_nil hinner] at hbucket
    cases hbucket
  obtain ⟨req', fifo, hfifo, -, -, hturn⟩ := (hsound.bucket conn).pick_cons hinner
  rw [hturn] at hbucket
  obtain ⟨rfl, rfl⟩ : req' = req ∧ (s.bucket conn).turned signer hints fifo = store := by
    simpa using hbucket
  refine ⟨conn, rest, signer, hints, req', fifo.deque, ⟨hactive, hinner, deque_of_serve hfifo⟩, ?_⟩
  rw [pick, hpick]
  rfl

variable {s : DrrState R} {conn : ConnId} {rest : List ConnId} {signer : SignerHint}
variable {hints : List SignerHint} {req : R} {deque : List R}

namespace Front

section

variable (hfront : s.Front conn rest signer hints req deque)
include hfront

theorem turn_eq : s.turn = some (conn, signer) := by
  rw [turn, hfront.outer, List.head?_cons, Option.bind_some, hfront.inner]
  rfl

theorem sound_inner (hsound : s.Sound) :
    ((s.bucket conn).turned signer hints ⟨deque⟩).Sound ∧
    (s.bucket conn).requests =
      req ::ₘ ((s.bucket conn).turned signer hints ⟨deque⟩).requests := by
  have hserved : LawfulFlowStore.buffered ((s.bucket conn).storeAt signer) =
      req ::ₘ LawfulFlowStore.buffered (⟨deque⟩ : RequestFifo R) := by
    change ((s.leaf conn signer : List R) : Multiset R) = req ::ₘ (deque : Multiset R)
    rw [hfront.leaf, Multiset.cons_coe]
  exact ⟨(hsound.bucket conn).turned hfront.inner trivial hserved,
    (hsound.bucket conn).requests_turned hfront.inner trivial hserved⟩

theorem sound_served (hsound : s.Sound) :
    (s.served conn rest signer hints deque).Sound ∧
    s.requests = req ::ₘ (s.served conn rest signer hints deque).requests := by
  obtain ⟨hinner, hrequests⟩ := hfront.sound_inner hsound
  exact ⟨Tier.Sound.turned hsound hfront.outer hinner hrequests,
    Tier.Sound.requests_turned hsound hfront.outer hinner hrequests⟩

theorem bucket_served (hsound : s.Sound)
    (c : ConnId) :
    (s.served conn rest signer hints deque).bucket c =
      if c = conn then (s.bucket conn).turned signer hints ⟨deque⟩ else s.bucket c :=
  Tier.storeAt_turned (hfront.sound_inner hsound).1 c

theorem leaf_served (hsound : s.Sound)
    (c : ConnId) (hint : SignerHint) :
    (s.served conn rest signer hints deque).leaf c hint =
      if (c, hint) = (conn, signer) then deque else s.leaf c hint := by
  simp only [DrrState.leaf, hfront.bucket_served hsound, Prod.mk.injEq]
  by_cases hconn : c = conn
  · subst hconn
    have hstore : LawfulFlowStore.Sound (⟨deque⟩ : RequestFifo R) := trivial
    simp only [if_true, true_and, ConnBucket.leaf, Tier.storeAt_turned hstore]
    split <;> rfl
  · simp only [hconn, if_false, false_and]

end

end Front

end Turns

section Steps

/-- What one operation does: a request is refused or joins its leaf, a turn finds nothing or
serves the leaf at the front. -/
inductive Effect (s : DrrState R) : DrrOp R → DrrState R → DrrOut R → Prop
  | refused (conn : ConnId) (signer : SignerHint) (req : R) (cap : Cap)
      (hbreach : s.breach conn signer = some cap) :
      Effect s (.enqueue conn signer req) (s.refuse cap) (.enqueued (.error req))
  | accepted (conn : ConnId) (signer : SignerHint) (req : R)
      (hbreach : s.breach conn signer = none) :
      Effect s (.enqueue conn signer req) (s.accept conn signer req) (.enqueued (.ok ()))
  | idle (hactive : s.outer.active = []) : Effect s .pick s (.picked none)
  | served (conn : ConnId) (rest : List ConnId) (signer : SignerHint) (hints : List SignerHint)
      (req : R) (deque : List R) (hfront : s.Front conn rest signer hints req deque) :
      Effect s .pick (s.served conn rest signer hints deque) (.picked (some req))

variable {s s' : DrrState R} {op : DrrOp R} {out : DrrOut R}

theorem Sound.effect (hsound : s.Sound) (hstep : (drr R).step s op = some (s', out)) :
    s.Effect op s' out := by
  cases op with
  | enqueue conn signer req =>
    simp only [drr, hsound.enqueue_eq] at hstep
    cases hbreach : s.breach conn signer with
    | some cap =>
      rw [hbreach] at hstep
      cases hstep
      exact .refused conn signer req cap hbreach
    | none =>
      rw [hbreach] at hstep
      cases hstep
      exact .accepted conn signer req hbreach
  | pick =>
    rcases hsound.pick_cases with ⟨hactive, hpick⟩ |
      ⟨conn, rest, signer, hints, req, deque, hfront, hpick⟩
    · simp only [drr, hpick] at hstep
      cases hstep
      exact .idle hactive
    · simp only [drr, hpick] at hstep
      cases hstep
      exact .served conn rest signer hints req deque hfront

theorem Effect.sound (heffect : s.Effect op s' out) (hsound : s.Sound) : s'.Sound := by
  cases heffect with
  | refused =>
    rw [Sound, outer_refuse]
    exact hsound
  | accepted conn signer req => exact (hsound.accept conn signer req).1
  | idle => exact hsound
  | served _ _ _ _ _ _ hfront => exact (hfront.sound_served hsound).1

theorem Effect.caps_eq (heffect : s.Effect op s' out) : s'.caps = s.caps := by
  cases heffect with
  | refused _ _ _ cap => exact caps_refuse s cap
  | accepted | idle | served => rfl

end Steps

end DrrState

end Knomosis.Host
