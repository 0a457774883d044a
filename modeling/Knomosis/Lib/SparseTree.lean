import Mathlib.Data.Set.Function
import Mathlib.Tactic

/-!
# Complete binary trees over numbered leaves

The leaves of a tree of height `d` are numbered, and the node of height `d` with
number `a` stands over the leaves `a * 2 ^ d` to `(a + 1) * 2 ^ d - 1`.  A path from
a leaf to the root is climbed with one sibling a level.  If the join of two nodes
determines them, for the pairs that are joined on the way, then only the leaf itself
climbs to the root.
-/

universe u

namespace Knomosis.Lib

open List
namespace SparseTree

variable {N : Type u} (join : N → N → N)

/-- The node of a height and number. -/
def node (leaf : ℕ → N) : ℕ → ℕ → N
  | 0, a => leaf a
  | d + 1, a => join (node leaf d (2 * a)) (node leaf d (2 * a + 1))

/-- The tree without its lowest level. -/
def parents (leaf : ℕ → N) (a : ℕ) : N := join (leaf (2 * a)) (leaf (2 * a + 1))

theorem node_parents (leaf : ℕ → N) (d a : ℕ) :
    node join (parents join leaf) d a = node join leaf (d + 1) a := by
  induction d generalizing a with
  | zero => rfl
  | succ d ih =>
    rw [node, ih, ih]
    rfl

/-- A leaf and its sibling, the left one first. -/
def pair (i : ℕ) (n s : N) : N × N := if i % 2 = 1 then (s, n) else (n, s)

/-- The node that a leaf climbs to; the siblings are those of the lowest level first. -/
def climb (i : ℕ) (n : N) : List N → N
  | [] => n
  | s :: siblings => climb (i / 2) (join (pair i n s).1 (pair i n s).2) siblings

/-- The pairs that a climb joins. -/
def climbPairs (i : ℕ) (n : N) : List N → List (N × N)
  | [] => []
  | s :: siblings => pair i n s :: climbPairs (i / 2) (join (pair i n s).1 (pair i n s).2) siblings

/-- The pairs that are joined over a leaf, up to a height. -/
def pathPairs (leaf : ℕ → N) (i : ℕ) : ℕ → List (N × N)
  | 0 => []
  | d + 1 => (leaf (2 * (i / 2)), leaf (2 * (i / 2) + 1)) ::
      pathPairs (parents join leaf) (i / 2) d

variable {join} {leaf : ℕ → N} {i : ℕ}

theorem node_congr {leaf' : ℕ → N} {d a : ℕ} (h : ∀ i, i / 2 ^ d = a → leaf i = leaf' i) :
    node join leaf d a = node join leaf' d a := by
  induction d generalizing a with
  | zero => exact h a (by simp)
  | succ d ih =>
    rw [node, node]
    congr 1
    · refine ih (fun i hi => h i ?_)
      rw [Nat.pow_succ, ← Nat.div_div_eq_div_mul, hi]
      omega
    · refine ih (fun i hi => h i ?_)
      rw [Nat.pow_succ, ← Nat.div_div_eq_div_mul, hi]
      omega

theorem mem_pathPairs {d : ℕ} {p : N × N} :
    p ∈ pathPairs join leaf i d ↔ ∃ j < d,
      p = (node join leaf j (2 * (i / 2 ^ (j + 1))),
        node join leaf j (2 * (i / 2 ^ (j + 1)) + 1)) := by
  induction d generalizing leaf i with
  | zero => simp [pathPairs]
  | succ d ih =>
    rw [pathPairs, mem_cons, ih]
    constructor
    · rintro (rfl | ⟨j, hj, rfl⟩)
      · exact ⟨0, Nat.succ_pos d, by simp [node]⟩
      · refine ⟨j + 1, Nat.succ_lt_succ hj, ?_⟩
        rw [node_parents, node_parents, Nat.div_div_eq_div_mul, ← Nat.pow_succ']
    · rintro ⟨j, hj, rfl⟩
      cases j with
      | zero => exact Or.inl (by simp [node])
      | succ j =>
        refine Or.inr ⟨j, Nat.lt_of_succ_lt_succ hj, ?_⟩
        rw [node_parents, node_parents, Nat.div_div_eq_div_mul, ← Nat.pow_succ']

theorem pair_eq {n s : N} (h : pair i n s = (leaf (2 * (i / 2)), leaf (2 * (i / 2) + 1))) :
    n = leaf i := by
  rw [pair] at h
  split_ifs at h with hodd
  · have hi : 2 * (i / 2) + 1 = i := by omega
    rw [(Prod.mk.inj h).2, hi]
  · have hi : 2 * (i / 2) = i := by omega
    rw [(Prod.mk.inj h).1, hi]

variable (join) in
/-- The siblings of a path, those of the lowest level first. -/
def siblings (leaf : ℕ → N) (i : ℕ) : ℕ → List N
  | 0 => []
  | d + 1 => leaf (if i % 2 = 1 then i - 1 else i + 1) :: siblings (parents join leaf) (i / 2) d

theorem siblings_zero (leaf : ℕ → N) (d : ℕ) :
    siblings join leaf 0 d = (List.range d).map fun j => node join leaf j 1 := by
  induction d generalizing leaf with
  | zero => rfl
  | succ d ih =>
    rw [siblings, Nat.zero_div, ih, range_succ_eq_map, map_cons, map_map]
    simp [node_parents, node, Function.comp_def]

/-- Only the leaf climbs to the root. -/
theorem eq_leaf_of_climb {n : N} {siblings : List N}
    (hinj : Set.InjOn (fun p : N × N => join p.1 p.2)
      {p | p ∈ climbPairs join i n siblings ∨ p ∈ pathPairs join leaf i siblings.length})
    (h : climb join i n siblings = node join leaf siblings.length (i / 2 ^ siblings.length)) :
    n = leaf i := by
  induction siblings generalizing i n leaf with
  | nil => simpa [climb, node] using h
  | cons _ _ ih =>
    rw [climb, length_cons, ← node_parents, Nat.pow_succ', ← Nat.div_div_eq_div_mul] at h
    have hup := ih (hinj.mono (fun p hp => hp.imp (mem_cons_of_mem _) (mem_cons_of_mem _))) h
    exact pair_eq (hinj (Or.inl mem_cons_self) (Or.inr mem_cons_self) hup)

end SparseTree
end Knomosis.Lib
