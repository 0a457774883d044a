import Knomosis.Gateway.Ring

/-!
# Several producers of one ring

Every producer pushes the groups of one log in order, from the group on at which it
joined.  The ring compares a record only with the last one it took.  So it takes a
contiguous run of the log if nobody joins ahead of it.
-/

namespace Knomosis.Gateway

open Lib List

/-- A producer: what it has yet to push, and whether it has begun. -/
structure Producer where
  rest : List EventRecord
  started : Bool

/-- A ring with several producers. -/
structure Feed where
  intake : Intake
  producers : ℕ → Option Producer

/-- A producer joins, or pushes its next record. -/
inductive FeedOp where
  | connect (id seq : ℕ)
  | push (id : ℕ)

namespace Feed

/-- An empty ring that nobody feeds. -/
def new (capacity : ℕ) : Feed where
  intake := .new capacity
  producers := fun _ => none

/-- A producer joins at a group of the log. -/
def connect (log : Log) (s : Feed) (id seq : ℕ) : Feed :=
  { s with
    producers := Function.update s.producers id
      (some ⟨log.records.filter fun r => seq ≤ r.seq, false⟩) }

/-- A producer pushes the record in front. -/
def push (s : Feed) (id : ℕ) (r : EventRecord) (rest : List EventRecord) : Feed where
  intake := s.intake.push r
  producers := Function.update s.producers id (some ⟨rest, true⟩)

/-- A step of one producer. -/
def step (log : Log) (s : Feed) : FeedOp → Option (Feed × Unit)
  | .connect id seq => if s.producers id = none then some (s.connect log id seq, ()) else none
  | .push id =>
    match s.producers id with
    | some ⟨r :: rest, _⟩ => some (s.push id r rest, ())
    | _ => none

end Feed

/-- The ring and its producers over one log. -/
def feed (log : Log) : Machine Feed FeedOp Unit where
  step := Feed.step log

namespace Feed

variable {log : Log} {s : Feed}

/-- A first push is of a record no later than the one that the ring is waiting for. -/
def JoinsInTime (log : Log) (e : Entry Feed FeedOp Unit) : Prop :=
  match e.call with
  | .connect _ _ => True
  | .push id =>
    ∀ producer ∈ e.pre.producers id, producer.started = false →
      ∀ r ∈ producer.rest.head?, ∀ last ∈ e.pre.intake.ring.last,
        ∀ x ∈ log.records, last < x.cursor → r.cursor ≤ x.cursor

instance (log : Log) (e : Entry Feed FeedOp Unit) : Decidable (JoinsInTime log e) := by
  unfold JoinsInTime
  split <;> infer_instance

/-- The run that was taken, and what everybody who has begun is still going to push. -/
def OnLog (log : Log) (s : Feed) : Prop :=
  s.intake.Fed none ∧ ∃ post, s.intake.accepted ++ post <:+ log.records ∧
    ∀ id producer, s.producers id = some producer → producer.rest <:+ log.records ∧
      (producer.started = true → s.intake.accepted ≠ [] ∧ post <:+ producer.rest)

theorem OnLog.contiguous (h : OnLog log s) :
    s.intake.accepted <:+: log.records ∧ s.intake.accepted.Nodup := by
  obtain ⟨-, post, hrun, -⟩ := h
  refine ⟨(prefix_append _ _).isInfix.trans hrun.isInfix, ?_⟩
  refine (log.ascending.sublist ((sublist_append_left _ _).trans hrun.sublist)).imp ?_
  rintro a b hlt rfl
  exact lt_irrefl _ hlt

theorem eq_or_of_update {producers : ℕ → Option Producer} {id i : ℕ} {p q : Producer}
    (h : Function.update producers id (some p) i = some q) : q = p ∨ producers i = some q := by
  rcases eq_or_ne i id with rfl | hne
  · rw [Function.update_self, Option.some.injEq] at h
    exact .inl h.symm
  · rw [Function.update_of_ne hne] at h
    exact .inr h

theorem OnLog.connect (h : OnLog log s) (id seq : ℕ) : OnLog log (s.connect log id seq) := by
  obtain ⟨hfed, post, hrun, hproducers⟩ := h
  refine ⟨hfed, post, hrun, fun i producer hi => ?_⟩
  rcases eq_or_of_update hi with rfl | hi
  · obtain ⟨u, hu, -⟩ := log.ascending.filter_split (p := fun r => seq ≤ r.seq)
      fun a b hlt ha => decide_eq_true ((of_decide_eq_true ha).trans (Cursor.seq_le hlt.le))
    exact ⟨⟨u, hu⟩, fun hstarted => by cases hstarted⟩
  · exact hproducers i producer hi

/-- Where a first push in time stands. -/
theorem post_suffix_of_inTime {accepted post rest : List EventRecord} {r last : EventRecord}
    (hrun : accepted ++ post <:+ log.records) (hlast : accepted.getLast? = some last)
    (hrest : r :: rest <:+ log.records)
    (htime : ∀ x ∈ log.records, last.cursor < x.cursor → r.cursor ≤ x.cursor) :
    post <:+ r :: rest := by
  have hpost : post <:+ log.records := (suffix_append _ _).trans hrun
  rcases suffix_or_suffix_of_suffix hpost hrest with h | ⟨ahead, rfl⟩
  · exact h
  cases ahead with
  | nil => exact suffix_rfl
  | cons x =>
    have hasc := log.ascending.sublist hrun.sublist
    have hfirst : last.cursor < x.cursor :=
      (pairwise_append.mp hasc).2.2 last (mem_of_getLast? hlast) x (by simp)
    have hbefore : x.cursor < r.cursor :=
      rel_of_pairwise_cons (pairwise_append.mp hasc).2.1 (by simp)
    exact absurd (htime x (hpost.subset (by simp)) hfirst) (not_le.mpr hbefore)

theorem OnLog.push {id : ℕ} {r : EventRecord} {rest : List EventRecord} {started : Bool}
    (h : OnLog log s) (hid : s.producers id = some ⟨r :: rest, started⟩)
    (htime : JoinsInTime log ⟨s, .push id, ()⟩) : OnLog log (s.push id r rest) := by
  obtain ⟨hfed, post, hrun, hproducers⟩ := h
  obtain ⟨hrest, hstarted⟩ := hproducers id _ hid
  -- what is left of the log behind the ring, for this producer and for the others
  have hstep : ∃ post', (s.intake.push r).accepted ++ post' <:+ log.records ∧ post' <:+ rest ∧
      (s.intake.push r).accepted ≠ [] ∧ (s.intake.accepted ≠ [] → post' <:+ post) := by
    cases hlast : s.intake.accepted.getLast? with
    | none =>
      have hnil := List.getLast?_eq_none_iff.mp hlast
      rcases (hfed.push r).2 with ⟨-, htaken⟩ | ⟨⟨last, hmem, -⟩, -⟩
      · rw [htaken, hnil]
        exact ⟨rest, hrest, suffix_rfl, by simp, fun hne => absurd rfl hne⟩
      · cases hlast.symm.trans hmem
    | some last =>
      have hne : s.intake.accepted ≠ [] := ne_nil_of_mem (mem_of_getLast? hlast)
      have hpost : post <:+ r :: rest := by
        cases started with
        | true => exact (hstarted rfl).2
        | false =>
          exact post_suffix_of_inTime hrun hlast hrest
            (htime _ hid rfl r rfl last.cursor (by rw [hfed.last, hlast]; rfl))
      obtain ⟨post', hold, hnew, hlog⟩ := hfed.follow hrun hne hrest hpost
      refine ⟨post', hlog, hnew, ?_, fun _ => hold⟩
      rcases (hfed.push r).2 with ⟨-, htaken⟩ | ⟨-, hsame⟩
      · simp [htaken]
      · rwa [hsame]
  obtain ⟨post', hlog, hnew, htaken, hold⟩ := hstep
  refine ⟨(hfed.push r).1, post', hlog, fun i producer hi => ?_⟩
  rcases eq_or_of_update hi with rfl | hi
  · exact ⟨(suffix_cons r rest).trans hrest, fun _ => ⟨htaken, hnew⟩⟩
  · obtain ⟨hsuffix, hbegun⟩ := hproducers i producer hi
    refine ⟨hsuffix, fun hstarted => ⟨htaken, ?_⟩⟩
    exact (hold (hbegun hstarted).1).trans (hbegun hstarted).2

end Feed

/-- The ring takes a contiguous run, and nothing twice, if nobody joins ahead of it. -/
theorem shared_ring_contiguous
    (log : Log)
    (capacity : ℕ)
    {h : List (Entry Feed FeedOp Unit)}
    {s : Feed}
    (hrun : Run (feed log) (Feed.new capacity) h s)
    (htime : ∀ e ∈ h, Feed.JoinsInTime log e) :
    s.intake.accepted <:+: log.records ∧
      s.intake.accepted.Nodup := by
  refine Feed.OnLog.contiguous (Run.invariant_of_guard _ (fun _ s => s.OnLog log) ?_ ?_ hrun htime)
  · exact ⟨Intake.fed_new capacity, log.records, suffix_rfl, fun id _ hid => by cases hid⟩
  intro h s c s' o _ hinv hstep hguard
  cases c with
  | connect id seq =>
    simp only [feed, Feed.step] at hstep
    split at hstep
    · cases hstep
      exact hinv.connect id seq
    · cases hstep
  | push =>
    simp only [feed, Feed.step] at hstep
    split at hstep
    next hid =>
      cases hstep
      exact hinv.push hid hguard
    · cases hstep

/-- The second producer joins at the second group while the first is within the first. -/
theorem late_joiner_leaves_hole :
    ∃ h s,
      Run (feed twoGroups) (Feed.new 8) h s ∧
      ¬ s.intake.accepted <:+: twoGroups.records :=
  Run.exists_of_decide _ _ [.connect 0 1, .push 0, .connect 1 2, .push 1, .push 0] _ (by decide)

/-- The second producer joins at the first group behind a record that the ring has taken, and each
of the two pushes a record that the other has pushed before. -/
theorem shared_ring_two_producers :
    ∃ h s,
      Run (feed twoGroups) (Feed.new 8) h s ∧
      h.countP (fun e => e.call matches .push _) = 5 ∧
      s.intake.accepted.length = 3 ∧
      s.intake.accepted <:+: twoGroups.records ∧
      s.intake.accepted.Nodup := by
  obtain ⟨h, s, hrun, hpushed, htaken, htime⟩ := Run.exists_of_decide (feed twoGroups) (Feed.new 8)
    [.connect 0 1, .push 0, .connect 1 1, .push 1, .push 1, .push 0, .push 0]
    (fun h s => h.countP (fun e => e.call matches .push _) = 5 ∧
      s.intake.accepted.length = 3 ∧ ∀ e ∈ h, Feed.JoinsInTime twoGroups e) (by decide)
  exact ⟨h, s, hrun, hpushed, htaken, shared_ring_contiguous twoGroups 8 hrun htime⟩

end Knomosis.Gateway
