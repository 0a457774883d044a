import Mathlib.Data.List.Sort
import Mathlib.Tactic

/-!
# Lists in the order of a rank

A list whose elements have strictly ascending ranks is determined by its members.
So two ways of sorting the same set by the same rank end with the same list,
however each of them proceeds.
-/

namespace Knomosis.Lib

open List

universe u v

section Ranked

variable {α : Type u} {β : Type v} [LinearOrder β] {rank : α → β} {l l₁ l₂ : List α} {a : α}

/-- The ranks of the list ascend strictly. -/
def Ranked (rank : α → β) (l : List α) : Prop := l.Pairwise (fun a b => rank a < rank b)

theorem Ranked.nodup (h : Ranked rank l) : l.Nodup :=
  List.Pairwise.imp (fun hlt heq => (heq ▸ hlt).false) h

theorem Ranked.eq_of_mem_iff (h₁ : Ranked rank l₁) (h₂ : Ranked rank l₂)
    (h : ∀ a, a ∈ l₁ ↔ a ∈ l₂) : l₁ = l₂ := by
  refine List.Perm.eq_of_pairwise ?_ h₁ h₂ ((perm_ext_iff_of_nodup h₁.nodup h₂.nodup).mpr h)
  intro a b _ _ hab hba
  exact absurd hba (lt_asymm hab)

theorem Ranked.orderedInsert [DecidableRel (fun a b : α => rank a < rank b)] (h : Ranked rank l)
    (hnew : ∀ b ∈ l, rank b ≠ rank a) :
    Ranked rank (l.orderedInsert (fun a b => rank a < rank b) a) := by
  induction l with
  | nil => simp [Ranked]
  | cons b l ih =>
    obtain ⟨hb, hl⟩ := pairwise_cons.mp h
    rw [orderedInsert_cons]
    split_ifs with hab
    · refine pairwise_cons.mpr ⟨?_, h⟩
      intro c hc
      rcases mem_cons.mp hc with rfl | hc
      · exact hab
      · exact hab.trans (hb c hc)
    · have hba : rank b < rank a :=
        lt_of_le_of_ne (not_lt.mp hab) (hnew b mem_cons_self)
      refine pairwise_cons.mpr ⟨?_, ih hl (fun c hc => hnew c (mem_cons_of_mem b hc))⟩
      intro c hc
      rcases (mem_orderedInsert _).mp hc with rfl | hc
      · exact hba
      · exact hb c hc

/-- A list that descends, read from its end, if no rank occurs twice. -/
theorem ranked_reverse (h : l.Pairwise (fun a b => rank b ≤ rank a)) (hnodup : (l.map rank).Nodup) :
    Ranked rank l.reverse := by
  rw [Ranked, pairwise_reverse]
  exact List.Pairwise.imp₂ (fun _ _ hle hne => lt_of_le_of_ne hle hne.symm) h
    (pairwise_map.mp hnodup)

end Ranked

end Knomosis.Lib
