import Mathlib.Tactic

/-!
# Reading in pieces

A device hands out a content in pieces of its own choice, an empty piece only when
nothing is asked for or nothing is left.  Whoever asks again until enough has come
gets the front of the content, whatever the pieces are.
-/

namespace Knomosis.Lib

open List

universe u v w

/-- A device with a state; a reading asks for a number of items at most. -/
structure Reader (σ : Type u) (ε : Type v) (α : Type w) where
  read : σ → ℕ → Except ε (List α × σ)

namespace Reader

variable {σ : Type u} {ε : Type v} {α : Type w} (r : Reader σ ε α)

/-- Ask for items until there are enough, an empty piece comes or the attempts are used up. -/
def fillFrom : ℕ → ℕ → σ → Except ε (List α × σ)
  | 0, _, s => .ok ([], s)
  | attempts + 1, want, s =>
    if want = 0 then .ok ([], s)
    else
      match r.read s want with
      | .error e => .error e
      | .ok ([], s) => .ok ([], s)
      | .ok (a :: piece, s) =>
        match fillFrom attempts (want - (a :: piece).length) s with
        | .error e => .error e
        | .ok (rest, s) => .ok (a :: piece ++ rest, s)

/-- Ask for items until there are enough or an empty piece comes: as each other piece has an item,
as many attempts as items suffice. -/
def fill (want : ℕ) (s : σ) : Except ε (List α × σ) := r.fillFrom want want s

/-- The device never fails and hands out what is left of a content. -/
structure Serves (content : σ → List α) : Prop where
  read : ∀ s n, ∃ piece s', r.read s n = .ok (piece, s') ∧ piece.length ≤ n ∧
    content s = piece ++ content s' ∧ (piece = [] → n = 0 ∨ content s = [])

namespace Serves

variable {r} {content : σ → List α}

theorem fillFrom (h : r.Serves content) {attempts want : ℕ} (hle : want ≤ attempts) (s : σ) :
    ∃ s', r.fillFrom attempts want s = .ok ((content s).take want, s') ∧
      content s' = (content s).drop want := by
  induction attempts generalizing want s with
  | zero =>
    have hzero : want = 0 := by omega
    subst hzero
    exact ⟨s, rfl, rfl⟩
  | succ attempts ih =>
    rw [Reader.fillFrom]
    by_cases hzero : want = 0
    · subst hzero
      exact ⟨s, rfl, rfl⟩
    rw [if_neg hzero]
    obtain ⟨piece, s', hread, hlen, hcontent, hempty⟩ := h.read s want
    rw [hread]
    cases piece with
    | nil =>
      have hnil : content s = [] := (hempty rfl).resolve_left hzero
      rw [hnil] at hcontent ⊢
      exact ⟨s', by simp, by simpa using hcontent.symm⟩
    | cons a piece =>
      have hrest : want - (a :: piece).length ≤ attempts := by
        rw [length_cons]
        omega
      obtain ⟨s'', hfill, hdrop⟩ := ih hrest s'
      refine ⟨s'', ?_, ?_⟩
      · simp only [hfill]
        rw [hcontent, take_append, take_of_length_le hlen]
      · rw [hdrop, hcontent, drop_append, drop_eq_nil_of_le hlen, nil_append]

theorem fill_append (h : r.Serves content) {s : σ} {front rest : List α}
    (hcontent : content s = front ++ rest) :
    ∃ s', r.fill front.length s = .ok (front, s') ∧ content s' = rest := by
  obtain ⟨s', hfill, hdrop⟩ := h.fillFrom le_rfl s
  rw [hcontent, take_left] at hfill
  rw [hcontent, drop_left] at hdrop
  exact ⟨s', hfill, hdrop⟩

theorem fill_short (h : r.Serves content) {s : σ} {want : ℕ} (hlen : (content s).length ≤ want) :
    ∃ s', r.fill want s = .ok (content s, s') := by
  obtain ⟨s', hfill, -⟩ := h.fillFrom (le_refl want) s
  rw [take_of_length_le hlen] at hfill
  exact ⟨s', hfill⟩

end Serves

end Reader

end Knomosis.Lib
