import Mathlib.Data.List.Nodup
import Mathlib.Tactic.Common

/-!
# Taking turns

Members wait in a line.  The first of the line takes its turn and goes to the end
of the line or leaves; a member that is not in the line may join at the end.

While one member waits, everybody who stands before it can take at most one turn,
and nobody else takes any: whoever has had a turn, and whoever joins, stands
behind it.  No assumption is made on how joining and turns alternate.
-/

namespace Knomosis.Lib

open List

universe u

section Rotation

variable {K : Type u}

/-- One step of the line, with the member that took its turn. -/
inductive Advance : List K → Option K → List K → Prop
  | turn (k : K) (rest : List K) : Advance (k :: rest) (some k) (rest ++ [k])
  | leave (k : K) (rest : List K) : Advance (k :: rest) (some k) rest
  | join (line : List K) (k : K) (hk : k ∉ line) : Advance line none (line ++ [k])
  | stay (line : List K) : Advance line none line

/-- A number of steps of the line, with the turns that were taken, latest first. -/
inductive Advances : List K → List (Option K) → List K → Prop
  | nil (line : List K) : Advances line [] line
  | snoc {line line' line'' : List K} {turns : List (Option K)} {o : Option K}
      (prev : Advances line turns line')
      (hstep : Advance line' o line'') :
      Advances line (o :: turns) line''

variable {line line' : List K} {o : Option K} {c : K} {turns : List (Option K)}

theorem Advance.nodup (hstep : Advance line o line') (hnodup : line.Nodup) : line'.Nodup := by
  cases hstep with
  | turn => exact nodup_append_comm.mp hnodup
  | leave => exact (nodup_cons.mp hnodup).2
  | join _ k hk => exact nodup_append_comm.mp (nodup_cons.mpr ⟨hk, hnodup⟩)
  | stay => exact hnodup

/-- The members that stand before `c`. -/
def Ahead (c : K) (line ahead : List K) : Prop := ∃ behind, line = ahead ++ c :: behind

/-- A step in which `c` has no turn removes the member with the turn, and only it, from those
who stand before `c`. -/
theorem Advance.ahead {ahead : List K} (hstep : Advance line o line') (hahead : Ahead c line ahead)
    (hc : o ≠ some c) : ∃ ahead', Ahead c line' ahead' ∧ ahead = o.toList ++ ahead' := by
  obtain ⟨behind, rfl⟩ := hahead
  -- whose turn it is stands at the front, so it is `c` unless someone is ahead of `c`
  rcases ahead with - | ⟨a, ahead⟩
  · generalize hline : [] ++ c :: behind = line at hstep
    cases hstep with
    | turn | leave =>
      obtain ⟨rfl, -⟩ := List.cons.inj hline
      exact absurd rfl hc
    | join _ k => exact ⟨[], ⟨behind ++ [k], by rw [← hline]; rfl⟩, rfl⟩
    | stay => exact ⟨[], ⟨behind, hline.symm⟩, rfl⟩
  · generalize hline : (a :: ahead) ++ c :: behind = line at hstep
    cases hstep with
    | turn =>
      obtain ⟨rfl, rfl⟩ := List.cons.inj hline
      exact ⟨ahead, ⟨behind ++ [a], by simp⟩, rfl⟩
    | leave =>
      obtain ⟨rfl, rfl⟩ := List.cons.inj hline
      exact ⟨ahead, ⟨behind, rfl⟩, rfl⟩
    | join _ k => exact ⟨a :: ahead, ⟨behind ++ [k], by rw [← hline]; simp⟩, rfl⟩
    | stay => exact ⟨a :: ahead, ⟨behind, hline.symm⟩, rfl⟩

/-- While `c` waits, the turns are those of the members that stood before it, in their order. -/
theorem Advances.ahead {ahead : List K} (hsteps : Advances line turns line')
    (hahead : Ahead c line ahead) (hc : some c ∉ turns) :
    ∃ ahead', Ahead c line' ahead' ∧ ahead = turns.reverse.filterMap id ++ ahead' := by
  induction hsteps with
  | nil => exact ⟨ahead, hahead, rfl⟩
  | @snoc _ _ _ o _ hstep ih =>
    rw [mem_cons, not_or] at hc
    obtain ⟨mid, hmid, rfl⟩ := ih hc.2
    obtain ⟨ahead', hahead', rfl⟩ := hstep.ahead hmid (Ne.symm hc.1)
    refine ⟨ahead', hahead', ?_⟩
    rw [reverse_cons, filterMap_append, append_assoc]
    cases o <;> rfl

/-- Nobody takes two turns while somebody waits. -/
theorem Advances.count_le_one [DecidableEq K] (hsteps : Advances line turns line')
    (hnodup : line.Nodup) (hmem : c ∈ line) (hc : some c ∉ turns) (d : K) :
    turns.count (some d) ≤ 1 := by
  obtain ⟨ahead, behind, rfl⟩ := append_of_mem hmem
  obtain ⟨ahead', -, rfl⟩ := hsteps.ahead ⟨behind, rfl⟩ hc
  have hahead : (turns.reverse.filterMap id ++ ahead').Nodup := (nodup_append.mp hnodup).1
  have hturns : (turns.reverse.filterMap id).Nodup := (nodup_append.mp hahead).1
  have hcount := nodup_iff_count_le_one.mp hturns d
  have hsame : (turns.reverse.filterMap id).count d = turns.count (some d) := by
    rw [count_filterMap, countP_reverse]
    rfl
  omega

end Rotation

end Knomosis.Lib
