import Knomosis.Gateway.Ring

/-!
# The multiplexer

One subscription to the upstream feeds the ring.  When it is interrupted, the next
one is asked for everything after the last number whose group is complete, and the
ring drops what it has already.  Number 0 asks for the live tail instead, so an
interruption within the first group of the log is the one that loses records.
-/

namespace Knomosis.Gateway

open Lib List Option

/-- Counts the records of one number. -/
structure IndexCounter where
  seq : Option ℕ
  index : ℕ

namespace IndexCounter

/-- No number has been seen. -/
def new : IndexCounter := ⟨none, 0⟩

/-- The index of the next record, and the counter behind it. -/
def next (counter : IndexCounter) (seq : ℕ) : IndexCounter × ℕ :=
  let index := if counter.seq = some seq then counter.index else 0
  (⟨some seq, index + 1⟩, index)

/-- The counter gives the record in front its own index. -/
def Fits (counter : IndexCounter) (rest : List EventRecord) : Prop :=
  ∀ r ∈ rest.head?, (counter.next r.seq).2 = r.index

end IndexCounter

/-- Between two subscriptions, within one with what the upstream is yet to send, or at the end. -/
inductive MuxPhase where
  | waiting (resumeFrom : ℕ)
  | epoch (resumeFrom : ℕ) (rest : List EventRecord) (index : IndexCounter)
  | stopped

/-- The multiplexer, its ring, and how far the upstream's log has got. -/
structure MuxHost where
  head : ℕ
  intake : Intake
  phase : MuxPhase

/-- The log grows, or the subscription is opened, sends, drops, meets a gap or fails. -/
inductive MuxOp where
  | publish
  | connect
  | deliver
  | drop
  | truncated (oldestAvailableSeq : ℕ)
  | fault

/-- What the upstream sends to who asks for `resumeFrom`. -/
def served (log : Log) (head resumeFrom : ℕ) : List EventRecord :=
  log.records.filter fun r => (if resumeFrom = 0 then head else resumeFrom) < r.seq

namespace MuxHost

/-- Nothing is published, and the first subscription is for the live tail. -/
def new (capacity : ℕ) : MuxHost where
  head := 0
  intake := .new capacity
  phase := .waiting 0

/-- Where to resume: at the last whole number, or else before the oldest one. -/
def nextResume (s : MuxHost) (previous : ℕ) : ℕ :=
  (s.intake.ring.watermark.or (s.intake.ring.oldestSeq.map (· - 1))).getD previous

/-- Takes a record, under the index of the counter. -/
def take (s : MuxHost) (resumeFrom : ℕ) (r : EventRecord) (rest : List EventRecord)
    (index : IndexCounter) : MuxHost :=
  let counted := index.next r.seq
  { s with
    intake := s.intake.push { r with index := counted.2 }
    phase := .epoch resumeFrom rest counted.1 }

/-- A step of the upstream or of the multiplexer. -/
def step (log : Log) (s : MuxHost) (op : MuxOp) : Option (MuxHost × Unit) :=
  match op, s.phase with
  | .publish, _ => some ({ s with head := s.head + 1 }, ())
  | .connect, .waiting resumeFrom =>
    some ({ s with phase := .epoch resumeFrom (served log s.head resumeFrom) .new }, ())
  | .deliver, .epoch resumeFrom (r :: rest) index =>
    if r.seq ≤ s.head then some (s.take resumeFrom r rest index, ()) else none
  | .drop, .epoch resumeFrom _ _ =>
    some ({ s with phase := .waiting (s.nextResume resumeFrom) }, ())
  | .truncated oldest, .epoch _ _ _ =>
    some ({ s with intake := s.intake.noteGap oldest, phase := .waiting oldest }, ())
  | .fault, .epoch _ _ _ => some ({ s with phase := .stopped }, ())
  | _, _ => none

end MuxHost

/-- The multiplexer over one log. -/
def mux (log : Log) : Machine MuxHost MuxOp Unit where
  step := MuxHost.step log

section Marks

variable {i : Intake} {edge : Option Cursor}

/-- The watermark is a number accepted below the last one, if there is one. -/
structure Intake.Marks (i : Intake) : Prop where
  complete : ∀ w ∈ i.ring.watermark, ∃ last ∈ i.accepted.getLast?, w < last.seq ∧
    ∃ r ∈ i.accepted, r.seq = w
  opening : i.ring.watermark = none → ∀ last ∈ i.accepted.getLast?, ∀ r ∈ i.accepted,
    r.seq = last.seq

theorem Intake.Marks.push (h : i.Marks) (hfed : i.Fed edge) (r : EventRecord) :
    (i.push r).Marks := by
  rw [Intake.push, EventRing.push, hfed.last]
  cases hlast : i.accepted.getLast? with
  | none =>
    have hnil := List.getLast?_eq_none_iff.mp hlast
    refine ⟨fun w hw => ?_, by simp [hnil]⟩
    obtain ⟨last, hmem, -⟩ := h.complete w hw
    cases hlast.symm.trans hmem
  | some last =>
    have hmem := mem_of_getLast? hlast
    simp only [map_some]
    split
    · exact h
    next hafter =>
      rcases Cursor.lt_iff.mp (not_le.mp hafter) with hnew | ⟨hsame, -⟩
      · have hnumber : last.cursor.seq < r.seq := hnew
        rw [if_pos hnumber]
        refine ⟨fun w hw => ⟨r, by simp, ?_⟩, fun hnone => by cases hnone⟩
        cases hw
        exact ⟨hnew, last, by simp [hmem], rfl⟩
      · have hnumber : ¬ last.cursor.seq < r.seq := hsame.not_lt
        rw [if_neg hnumber]
        refine ⟨fun w hw => ⟨r, by simp, ?_⟩, fun hnone => ?_⟩
        · obtain ⟨last', hlast', hlt, x, hx, hseq⟩ := h.complete w hw
          cases hlast.symm.trans hlast'
          exact ⟨hlt.trans_eq hsame, x, by simp [hx], hseq⟩
        · simp only [ite_true, List.getLast?_concat, mem_some_iff, forall_eq',
            mem_append, mem_singleton]
          rintro x (hx | rfl)
          · exact (h.opening hnone last hlast x hx).trans hsame
          · rfl

end Marks

section Serving

variable {log : Log}

theorem served_split (log : Log) (head resumeFrom : ℕ) :
    ∃ u, u ++ served log head resumeFrom = log.records ∧
      ∀ r ∈ served log head resumeFrom, ∀ x ∈ u, x.seq < r.seq := by
  obtain ⟨u, hu, hfails⟩ := log.ascending.filter_split
    (p := fun r => (if resumeFrom = 0 then head else resumeFrom) < r.seq) fun a b hlt ha => by
      exact decide_eq_true ((of_decide_eq_true ha).trans_le (Cursor.seq_le hlt.le))
  refine ⟨u, hu, fun r hr x hx => ?_⟩
  exact (not_lt.mp (of_decide_eq_false (hfails x hx))).trans_lt
    (of_decide_eq_true (mem_filter.mp hr).2)

theorem served_index {head resumeFrom : ℕ} {r : EventRecord}
    (hr : r ∈ (served log head resumeFrom).head?) : r.index = 0 := by
  obtain ⟨u, hu, hbefore⟩ := served_split log head resumeFrom
  have hmem := mem_of_mem_head? hr
  have hchain := log.next
  have hfirst := log.first
  rw [← hu] at hchain hfirst
  cases hlast : u.getLast? with
  | none =>
    rw [List.getLast?_eq_none_iff.mp hlast] at hfirst
    exact congrArg Cursor.index (hfirst r hr)
  | some y =>
    have hlt := hbefore r hmem y (mem_of_getLast? hlast)
    rcases (isChain_append.mp hchain).2.2 y hlast r hr with ⟨hsame, -⟩ | ⟨-, hindex⟩
    · omega
    · exact hindex

theorem IndexCounter.Fits.next {counter : IndexCounter} {r : EventRecord} {rest : List EventRecord}
    (h : counter.Fits (r :: rest)) (hrest : r :: rest <:+ log.records) :
    (counter.next r.seq).1.Fits rest := by
  intro x hx
  obtain ⟨u, hu⟩ := hrest
  have hchain := log.next
  rw [← hu, isChain_append] at hchain
  have hindex : (if counter.seq = some r.seq then counter.index else 0) = r.index := h r rfl
  obtain ⟨l, rfl⟩ := List.head?_eq_some_iff.mp hx
  have hadjacent := (isChain_cons_cons.mp hchain.2.1).1
  simp only [IndexCounter.next, Option.some.injEq, hindex]
  split <;> omega

end Serving

namespace MuxHost

variable {log : Log} {s : MuxHost}

/-- What a phase has yet to ask for or to be sent covers what the ring is waiting for. -/
def Covers (log : Log) (accepted post : List EventRecord) : MuxPhase → Prop
  | .waiting resumeFrom => accepted ≠ [] → resumeFrom ≠ 0 ∧ ∀ r ∈ post, resumeFrom < r.seq
  | .epoch _ rest index => rest <:+ log.records ∧ index.Fits rest ∧
      (accepted = [] → ∀ r ∈ rest.head?, r.index = 0) ∧ (accepted ≠ [] → post <:+ rest)
  | .stopped => True

/-- The ring holds a run of the log from the beginning of a group. -/
def OnLog (log : Log) (s : MuxHost) : Prop :=
  ∃ edge post, s.intake.Fed edge ∧ s.intake.Marks ∧
    s.intake.accepted ++ post <:+ log.records ∧
    (∀ r ∈ s.intake.accepted.head?, r.index = 0) ∧
    Covers log s.intake.accepted post s.phase

/-- An interruption does not find the first group of the log in the ring alone. -/
def KeepsFirstGroup (e : Entry MuxHost MuxOp Unit) : Prop :=
  e.call = .drop → e.pre.intake.ring.watermark = none → e.pre.intake.ring.oldestSeq ≠ some 1

theorem OnLog.complete (h : OnLog log s) {w : ℕ} {x : EventRecord}
    (hw : s.intake.ring.watermark = some w) (hx : x ∈ log.records) (hseq : x.seq = w) :
    x ∈ s.intake.accepted := by
  obtain ⟨edge, post, -, hmarks, ⟨u, hu⟩, hstart, -⟩ := h
  obtain ⟨last, hlast, hlt, r, hr, hrw⟩ := hmarks.complete w hw
  have hasc := log.ascending
  rw [← hu] at hasc hx
  obtain ⟨-, htail, hbefore⟩ := pairwise_append.mp hasc
  obtain ⟨hacc, -, hafter⟩ := pairwise_append.mp htail
  simp only [mem_append] at hx
  rcases hx with hx | hx | hx
  · -- the run begins with a group, so nothing before it has a number of the run
    obtain ⟨a, ha⟩ := ne_none_iff_exists'.mp (mt List.head?_eq_none_iff.mp (ne_nil_of_mem hr))
    have hxa := hbefore x hx a (by simp [mem_of_mem_head? ha])
    have har := Cursor.seq_le (Ascending.head_le hacc ha hr)
    have hindex := hstart a ha
    simp only [Cursor.lt_iff, EventRecord.cursor] at hxa har
    omega
  · exact hx
  · have hle := Cursor.seq_le (hafter last (mem_of_getLast? hlast) x hx).le
    simp only [EventRecord.cursor] at hle
    omega

theorem OnLog.drop (h : OnLog log s) (resumeFrom : ℕ)
    (hkeeps : s.intake.ring.watermark = none → s.intake.ring.oldestSeq ≠ some 1) :
    OnLog log { s with phase := .waiting (s.nextResume resumeFrom) } := by
  obtain ⟨edge, post, hfed, hmarks, hrun, hstart, -⟩ := h
  refine ⟨edge, post, hfed, hmarks, hrun, hstart, fun hne => ?_⟩
  obtain ⟨last, hlast⟩ := ne_none_iff_exists'.mp (mt List.getLast?_eq_none_iff.mp hne)
  have hafter : ∀ r ∈ post, last.seq ≤ r.seq := fun r hr =>
    Cursor.seq_le ((pairwise_append.mp (log.ascending.sublist hrun.sublist)).2.2 last
      (mem_of_getLast? hlast) r hr).le
  have hpos : ∀ r ∈ s.intake.accepted, 0 < r.seq := fun r hr =>
    Log.seq_pos (hrun.subset (mem_append_left _ hr))
  rw [nextResume]
  cases hw : s.intake.ring.watermark with
  | some w =>
    obtain ⟨last', hlast', hlt, r, hr, hrw⟩ := hmarks.complete w hw
    cases hlast.symm.trans hlast'
    have := hpos r hr
    simp only [some_or, getD_some]
    exact ⟨by omega, fun x hx => by have := hafter x hx; omega⟩
  | none =>
    obtain ⟨gone, haccepted, -⟩ := hfed.window
    cases hbuf : s.intake.ring.buf with
    | nil => exact absurd (hfed.kept hbuf) hne
    | cons a =>
      have hold : s.intake.ring.oldestSeq = some a.seq := by
        rw [EventRing.oldestSeq, hbuf]
        rfl
      have ha : a ∈ s.intake.accepted := by
        rw [haccepted, hbuf]
        simp
      have hsame := hmarks.opening hw last hlast a ha
      have hone : a.seq ≠ 1 := fun h1 => hkeeps hw (by rw [hold, h1])
      have := hpos a ha
      rw [hold]
      simp only [none_or, map_some, getD_some]
      exact ⟨by omega, fun x hx => by have := hafter x hx; omega⟩

theorem OnLog.connect {resumeFrom : ℕ} (h : OnLog log s) (hphase : s.phase = .waiting resumeFrom) :
    OnLog log { s with phase := .epoch resumeFrom (served log s.head resumeFrom) .new } := by
  obtain ⟨edge, post, hfed, hmarks, hrun, hstart, hcovers⟩ := h
  rw [hphase] at hcovers
  refine ⟨edge, post, hfed, hmarks, hrun, hstart, ⟨_, (served_split log _ _).choose_spec.1⟩,
    fun r hr => ?_, fun _ r hr => served_index hr, fun hne => ?_⟩
  · rw [served_index hr]
    rfl
  obtain ⟨hne0, hpost⟩ := hcovers hne
  obtain ⟨u, hu⟩ := hrun
  have hall : post.filter (fun r => decide (resumeFrom < r.seq)) = post :=
    filter_eq_self.mpr fun r hr => decide_eq_true (hpost r hr)
  simp only [served, if_neg hne0]
  rw [← hu, filter_append, filter_append, hall, ← append_assoc]
  exact suffix_append _ _

theorem OnLog.deliver
    {resumeFrom : ℕ} {r : EventRecord} {rest : List EventRecord} {index : IndexCounter}
    (h : OnLog log s) (hphase : s.phase = .epoch resumeFrom (r :: rest) index) :
    OnLog log (s.take resumeFrom r rest index) := by
  obtain ⟨edge, post, hfed, hmarks, hrun, hstart, hcovers⟩ := h
  rw [hphase] at hcovers
  obtain ⟨hrest, hfits, hfirst, hfollow⟩ := hcovers
  have hrecord : { r with index := (index.next r.seq).2 } = r := by rw [hfits r rfl]
  have hsuffix := (suffix_cons r rest).trans hrest
  rw [take]
  simp only [hrecord]
  obtain ⟨hfed', htaken⟩ := hfed.push r
  have hmarks' := hmarks.push hfed r
  by_cases hnil : s.intake.accepted = []
  · rcases htaken with ⟨-, htaken⟩ | ⟨⟨last, hlast, -⟩, -⟩
    · rw [hnil, nil_append] at htaken
      refine ⟨edge, rest, hfed', hmarks', by rwa [htaken], ?_, hsuffix, hfits.next hrest, ?_,
        fun _ => suffix_rfl⟩
      · rw [htaken]
        exact hfirst hnil
      · simp [htaken]
    · rw [hnil] at hlast
      cases hlast
  · obtain ⟨post', -, hnew, hlog⟩ := hfed.follow hrun hnil hrest (hfollow hnil)
    refine ⟨edge, post', hfed', hmarks', hlog, ?_, hsuffix, hfits.next hrest, ?_, fun _ => hnew⟩
    · rcases htaken with ⟨-, htaken⟩ | ⟨-, hsame⟩
      · rwa [htaken, List.head?_append_of_ne_nil _ hnil]
      · rwa [hsame]
    · rcases htaken with ⟨-, htaken⟩ | ⟨-, hsame⟩
      · simp [htaken]
      · rw [hsame]
        exact fun h => absurd h hnil

end MuxHost

/-- What the ring took since its last gap is a contiguous run, and the watermark is complete. -/
theorem mux_loses_nothing (log : Log) (capacity : ℕ)
    {h : List (Entry MuxHost MuxOp Unit)} {s : MuxHost}
    (hrun : Run (mux log) (MuxHost.new capacity) h s)
    (hkeeps : ∀ e ∈ h, MuxHost.KeepsFirstGroup e) :
    s.intake.accepted <:+: log.records ∧
    ∀ w, s.intake.ring.watermark = some w →
      ∀ r ∈ log.records, r.seq = w → r ∈ s.intake.accepted := by
  have hinv : s.OnLog log := by
    refine Run.invariant_of_guard _ (fun _ s => s.OnLog log) ?_ ?_ hrun hkeeps
    · exact ⟨none, log.records, Intake.fed_new capacity, ⟨fun _ hw => (by cases hw), by
        simp [MuxHost.new, Intake.new]⟩, suffix_rfl, by simp [MuxHost.new, Intake.new],
        fun h => absurd rfl h⟩
    intro h s op s' o _ hinv hstep hguard
    simp only [mux, MuxHost.step] at hstep
    split at hstep
    · cases hstep
      exact hinv
    next hphase =>
      cases hstep
      exact hinv.connect hphase
    next hphase =>
      split at hstep
      · cases hstep
        exact hinv.deliver hphase
      · cases hstep
    · cases hstep
      exact hinv.drop _ (hguard rfl)
    next oldest _ _ _ _ =>
      cases hstep
      exact ⟨_, log.records, s.intake.fed_noteGap oldest, ⟨fun _ hw => (by cases hw), by
        simp [Intake.noteGap]⟩, suffix_rfl, by simp [Intake.noteGap],
        fun h => absurd rfl h⟩
    · cases hstep
      obtain ⟨edge, post, hfed, hmarks, hlog, hstart, -⟩ := hinv
      exact ⟨edge, post, hfed, hmarks, hlog, hstart, trivial⟩
    · cases hstep
  refine ⟨?_, fun w hw r hr hseq => hinv.complete hw hr hseq⟩
  obtain ⟨_, post, -, -, hlog, -⟩ := hinv
  exact (prefix_append _ _).isInfix.trans hlog.isInfix

/-- An interruption within the first group: the next subscription is of the live tail. -/
theorem first_group_loses_tail :
    ∃ h s, Run (mux twoGroups) (MuxHost.new 8) h s ∧ ¬ s.intake.accepted <:+: twoGroups.records :=
  Run.exists_of_decide _ _ [.connect, .publish, .deliver, .drop, .connect, .publish, .deliver] _
    (by decide)

/-- An interruption within a later group. -/
theorem mux_loses_nothing_later :
    ∃ h s, Run (mux twoGroups) (MuxHost.new 8) h s ∧ s.intake.accepted = twoGroups.records.drop 2 ∧
      s.intake.accepted <:+: twoGroups.records := by
  have hexec := Run.exists_of_decide (mux twoGroups) (MuxHost.new 8)
    [.publish, .connect, .publish, .deliver, .drop, .connect, .publish, .deliver, .deliver,
      .deliver]
    (fun h s => s.intake.accepted = twoGroups.records.drop 2 ∧
      ∀ e ∈ h, e.pre.intake.ring.oldestSeq ≠ some 1)
    (by decide)
  obtain ⟨h, s, hrun, haccepted, hkeeps⟩ := hexec
  exact ⟨h, s, hrun, haccepted, (mux_loses_nothing twoGroups 8 hrun fun e he _ _ => hkeeps e he).1⟩

end Knomosis.Gateway
