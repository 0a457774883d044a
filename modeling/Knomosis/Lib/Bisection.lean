import Mathlib.Logic.Relation
import Mathlib.Tactic

/-!
# Bisections, and copies of them kept from notices

A bisection narrows a range between two marks.  One side proposes the middle, the
other answers whether it agrees, and the range shrinks to the upper or the lower
half.  Every move is announced by a notice.  A notice of an answer does not say
which proposal it answers.

A copy that hears the notices in their order stays level with the bisection.  A
copy that was taken later than the notices it hears is not disturbed by proposals,
which it recognises as old, but it takes an old answer for an answer to the
proposal it knows.
-/

namespace Knomosis.Lib

/-- An index and what is claimed there. -/
structure Mark (C : Type*) where
  idx : ℕ
  commit : C

/-- A range between two marks, with the proposal that waits for an answer. -/
@[ext]
structure Bisection (C : Type*) where
  low : Mark C
  high : Mark C
  pending : Option (Mark C)
  depth : ℕ
  turn : Bool

/-- What a move announces. -/
inductive Notice (C : Type*) where
  | proposed (idx : ℕ) (commit : C)
  | answered (agree : Bool)

namespace Bisection

variable {C : Type*}

def mid (v : Bisection C) : ℕ := (v.low.idx + v.high.idx) / 2

/-- The middle lies inside the range. -/
def Wide (v : Bisection C) : Prop := v.low.idx < v.mid ∧ v.mid < v.high.idx

instance (v : Bisection C) : Decidable v.Wide := inferInstanceAs (Decidable (_ ∧ _))

def propose (v : Bisection C) (commit : C) : Bisection C :=
  { v with pending := some ⟨v.mid, commit⟩, turn := !v.turn }

def answer (v : Bisection C) (agree : Bool) (m : Mark C) : Bisection C where
  low := if agree then m else v.low
  high := if agree then v.high else m
  pending := none
  depth := v.depth + 1
  turn := !v.turn

/-- The moves of a bisection that is given up at depth `cap`, with their notices. -/
inductive Moves (cap : ℕ) (v : Bisection C) : Notice C → Bisection C → Prop
  | propose (commit : C) (hpending : v.pending = none) (hdepth : v.depth < cap)
      (hwide : v.Wide) :
      Moves cap v (.proposed v.mid commit) (v.propose commit)
  | answer (agree : Bool) (m : Mark C) (hpending : v.pending = some m) (hdepth : v.depth < cap) :
      Moves cap v (.answered agree) (v.answer agree m)

/-- Any number of moves. -/
def Reaches (cap : ℕ) : Bisection C → Bisection C → Prop :=
  Relation.ReflTransGen fun v v' => ∃ n, Moves cap v n v'

/-- What a copy makes of a notice: it makes the move if it could be made. -/
def hear (cap : ℕ) (u : Bisection C) : Notice C → Bisection C
  | .proposed idx commit =>
    if idx = u.mid ∧ u.pending.isNone ∧ u.depth < cap ∧ u.Wide then u.propose commit else u
  | .answered agree =>
    match u.pending with
    | none => u
    | some m => if u.depth < cap then u.answer agree m else u

/-- The range is not empty, a proposal lies inside it, and the turn tells who has to move. -/
structure Sound (v : Bisection C) : Prop where
  ordered : v.low.idx < v.high.idx
  inside : ∀ m ∈ v.pending, v.low.idx < m.idx ∧ m.idx < v.high.idx
  turn_eq : v.turn = v.pending.isSome

/-- The range lies on one side of an index. -/
def Off (i : ℕ) (v : Bisection C) : Prop := v.high.idx ≤ i ∨ i ≤ v.low.idx

/-- An index was proposed, and is still the proposal or was answered. -/
def Past (i : ℕ) (v : Bisection C) : Prop := (∃ m ∈ v.pending, m.idx = i) ∨ v.Off i

/-- Two ranges that have at most an end in common. -/
def Beside (u v : Bisection C) : Prop := u.high.idx ≤ v.low.idx ∨ v.high.idx ≤ u.low.idx

section Laws

variable {cap : ℕ} {u v v' : Bisection C} {n : Notice C}

theorem Moves.hear_eq (h : Moves cap v n v') : v.hear cap n = v' := by
  cases h with
  | propose _ hpending hdepth hwide => rw [hear, if_pos ⟨rfl, by rw [hpending]; rfl, hdepth, hwide⟩]
  | answer _ _ hpending hdepth =>
    rw [hear, hpending]
    exact if_pos hdepth

theorem Moves.sound (h : Moves cap v n v') (hsound : v.Sound) : v'.Sound := by
  obtain ⟨hordered, hinside, hturn⟩ := hsound
  cases h with
  | propose _ hpending _ hwide =>
    refine ⟨hordered, ?_, ?_⟩
    · intro m hm
      cases hm
      exact hwide
    · rw [hpending] at hturn
      simp [Bisection.propose, hturn]
  | answer agree m hpending =>
    obtain ⟨hlow, hhigh⟩ := hinside m hpending
    refine ⟨?_, nofun, ?_⟩
    · cases agree <;> assumption
    · rw [hpending] at hturn
      simp [Bisection.answer, hturn]

theorem Moves.depth_le (h : Moves cap v n v') : v'.depth ≤ cap := by
  cases h with
  | propose _ _ hdepth => exact hdepth.le
  | answer _ _ _ hdepth => exact hdepth

theorem Moves.ordered_shrinks (h : Moves cap v n v') (hsound : v.Sound) :
    v.low.idx ≤ v'.low.idx ∧ v'.high.idx ≤ v.high.idx := by
  cases h with
  | propose => exact ⟨le_rfl, le_rfl⟩
  | answer agree m hpending =>
    obtain ⟨hlow, hhigh⟩ := hsound.inside m hpending
    cases agree with
    | true => exact ⟨hlow.le, le_rfl⟩
    | false => exact ⟨le_rfl, hhigh.le⟩

variable {i : ℕ} {commit : C}

theorem Off.step (hoff : v.Off i) (h : Moves cap v n v') (hsound : v.Sound) : v'.Off i := by
  obtain ⟨hlow, hhigh⟩ := h.ordered_shrinks hsound
  rcases hoff with hoff | hoff
  · exact .inl (hhigh.trans hoff)
  · exact .inr (hoff.trans hlow)

/-- An answer leaves the range on one side of what it answers. -/
theorem off_answer (v : Bisection C) (agree : Bool) (m : Mark C) :
    (v.answer agree m).Off m.idx := by
  cases agree with
  | true => exact .inr le_rfl
  | false => exact .inl le_rfl

theorem Past.step (hpast : v.Past i) (h : Moves cap v n v') (hsound : v.Sound) : v'.Past i := by
  rcases hpast with ⟨m, hm, rfl⟩ | hoff
  · cases h with
    | propose _ hpending =>
      rw [hpending] at hm
      cases hm
    | answer agree _ hpending =>
      rw [hpending] at hm
      cases hm
      exact .inr (off_answer v agree m)
  · exact .inr (hoff.step h hsound)

theorem Reaches.sound (h : Reaches cap v v') (hsound : v.Sound) : v'.Sound := by
  induction h with
  | refl => exact hsound
  | tail _ hstep ih =>
    obtain ⟨n, hmove⟩ := hstep
    exact hmove.sound ih

theorem Past.reaches (hpast : v.Past i) (h : Reaches cap v v') (hsound : v.Sound) : v'.Past i := by
  induction h with
  | refl => exact hpast
  | tail hreach hstep ih =>
    obtain ⟨n, hmove⟩ := hstep
    exact ih.step hmove (Reaches.sound hreach hsound)

theorem Off.reaches (hoff : v.Off i) (h : Reaches cap v v') (hsound : v.Sound) : v'.Off i := by
  induction h with
  | refl => exact hoff
  | tail hreach hstep ih =>
    obtain ⟨n, hmove⟩ := hstep
    exact ih.step hmove (Reaches.sound hreach hsound)

theorem Past.hear_proposed (hpast : u.Past i) (commit : C) :
    u.hear cap (.proposed i commit) = u := by
  rw [hear, if_neg]
  rintro ⟨rfl, hpending, _, hlow, hhigh⟩
  rcases hpast with ⟨m, hm, _⟩ | hoff | hoff
  · rw [hm] at hpending
    cases hpending
  · exact absurd hhigh (not_lt.mpr hoff)
  · exact absurd hlow (not_lt.mpr hoff)

/-- An answer to the proposal keeps a copy past what it was past. -/
theorem Past.answer {m : Mark C} (hpast : u.Past i) (hsound : u.Sound)
    (hpending : u.pending = some m) (agree : Bool) : (u.answer agree m).Past i := by
  obtain ⟨hlow, hhigh⟩ := hsound.inside m hpending
  right
  rcases hpast with ⟨m', hm', rfl⟩ | hoff | hoff
  · rw [hpending] at hm'
    cases hm'
    exact off_answer u agree m
  · cases agree with
    | true => exact .inl hoff
    | false => exact .inl (hhigh.le.trans hoff)
  · cases agree with
    | true => exact .inr (hoff.trans hlow.le)
    | false => exact .inr hoff

theorem Moves.proposed_lt (h : Moves cap v (.proposed i commit) v') : i < v.high.idx := by
  cases h with
  | propose _ _ _ hwide => exact hwide.2

theorem past_of_proposed (h : Moves cap v (.proposed i commit) v') : v'.Past i := by
  cases h with
  | propose => exact .inl ⟨_, rfl, rfl⟩

theorem hear_answered_of_none (hpending : u.pending = none) (agree : Bool) :
    u.hear cap (.answered agree) = u := by
  rw [hear, hpending]

end Laws

section Copies

variable {cap : ℕ} {u v v' : Bisection C} {n : Notice C}

/-- A copy from later on is disturbed by an old answer at most. -/
theorem hear_ahead (hsound : v.Sound) (h : Moves cap v n v') (hahead : Reaches cap v' u) :
    u.hear cap n = u ∨
      ∃ agree m, n = .answered agree ∧ u.pending = some m ∧ u.hear cap n = u.answer agree m := by
  cases n with
  | proposed i commit =>
    exact .inl (((past_of_proposed h).reaches hahead (h.sound hsound)).hear_proposed commit)
  | answered agree =>
    cases hpending : u.pending with
    | none => exact .inl (hear_answered_of_none hpending agree)
    | some m =>
      by_cases hdepth : u.depth < cap
      · right
        refine ⟨agree, m, rfl, rfl, ?_⟩
        rw [hear, hpending]
        exact if_pos hdepth
      · left
        rw [hear, hpending]
        exact if_neg hdepth

/-- What a later copy has pending is not what an old answer answers. -/
theorem pending_ne_of_ahead {agree : Bool} {m m' : Mark C} (hsound : v.Sound)
    (h : Moves cap v (.answered agree) v') (hpending : v.pending = some m)
    (hahead : Reaches cap v' u) (hpending' : u.pending = some m') : m'.idx ≠ m.idx := by
  cases h with
  | answer agree _ hm₀ hdepth =>
    rw [hpending] at hm₀
    cases hm₀
    have hsound' := (Moves.answer agree m hpending hdepth).sound hsound
    obtain ⟨hlow, hhigh⟩ := (hahead.sound hsound').inside m' hpending'
    rintro heq
    rcases (off_answer v agree m).reaches hahead hsound' with hoff | hoff <;> omega

/-- A later copy that took an old answer is not disturbed by notices that are still older than
it. -/
theorem hear_misled_ahead {m : Mark C} (hsound : v.Sound) (h : Moves cap v n v')
    (hahead : Reaches cap v' u) (hpending : u.pending = some m) (agree : Bool) :
    (u.answer agree m).hear cap n = u.answer agree m := by
  cases n with
  | proposed i commit =>
    have hpast := (past_of_proposed h).reaches hahead (h.sound hsound)
    exact (hpast.answer (hahead.sound (h.sound hsound)) hpending agree).hear_proposed commit
  | answered agree' => exact hear_answered_of_none rfl agree'

/-- When the bisection answers the proposal itself, the copy that took an old answer is level
again, or on the other side. -/
theorem hear_misled_level {m : Mark C} (hpending : v.pending = some m)
    (h : Moves cap v n v') (agree : Bool) :
    (v.answer agree m).hear cap n = v.answer agree m ∧
    (v.answer agree m = v' ∨ (v.answer agree m).Beside v') := by
  cases h with
  | propose _ hnone =>
    rw [hpending] at hnone
    cases hnone
  | answer agree' _ hm' =>
    rw [hpending] at hm'
    cases hm'
    refine ⟨hear_answered_of_none rfl agree', ?_⟩
    cases agree <;> cases agree'
    · exact .inl rfl
    · exact .inr (.inl le_rfl)
    · exact .inr (.inr le_rfl)
    · exact .inl rfl

/-- A copy on the other side hears nothing more. -/
theorem hear_beside (hsound : v.Sound) (hbeside : u.Beside v) (hpending : u.pending = none)
    (h : Moves cap v n v') : u.hear cap n = u ∧ u.Beside v' := by
  obtain ⟨hlow, hhigh⟩ := h.ordered_shrinks hsound
  refine ⟨?_, ?_⟩
  · cases h with
    | propose commit _ _ hwide =>
      obtain ⟨hlow, hhigh⟩ := hwide
      have hpast : u.Past v.mid := by
        right
        rcases hbeside with hbeside | hbeside
        · exact .inl (hbeside.trans hlow.le)
        · exact .inr (hhigh.le.trans hbeside)
      exact hpast.hear_proposed commit
    | answer agree => exact hear_answered_of_none hpending agree
  · rcases hbeside with hbeside | hbeside
    · exact .inl (hbeside.trans hlow)
    · exact .inr (hhigh.trans hbeside)

end Copies

end Bisection

end Knomosis.Lib
