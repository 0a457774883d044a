import Mathlib.Data.Finmap
import Mathlib.Algebra.Order.BigOperators.Group.Multiset
import Mathlib.Algebra.Order.Ring.Nat
import Mathlib.Algebra.Group.Action.Defs
import Mathlib.Data.Multiset.Bind

/-!
# Totals over finite maps

A finite map from keys to values, and the total of a quantity over its values.
The quantity lives in any commutative additive monoid: a count, or a multiset of
things that the values hold.  Writing a key and taking it away both change the
total by what stands at that key, so the two equations below are all that a
bookkeeping argument needs.
-/

namespace Knomosis.Lib

universe u v w

/-- Finite maps with values of one type. -/
abbrev Keyed (K : Type u) (V : Type v) := Finmap (fun _ : K => V)

namespace Keyed

variable {K : Type u} {V : Type v} {M : Type w}

section Total

variable [AddCommMonoid M]

/-- The sum of a quantity over all values of the map. -/
def total (f : V → M) (m : Keyed K V) : M := (m.entries.map fun e => f e.2).sum

theorem total_card {R : Type*} (f : V → Multiset R) (m : Keyed K V) :
    (total f m).card = total (fun v => (f v).card) m := by
  have hjoin := Multiset.card_join (m.entries.map fun e => f e.2)
  rw [Multiset.map_map] at hjoin
  exact hjoin

variable [DecidableEq K]

theorem total_insert_of_notMem (f : V → M) {m : Keyed K V} {k : K} (v : V) (hk : k ∉ m) :
    total f (m.insert k v) = f v + total f m := by
  rw [total, Finmap.entries_insert_of_notMem hk, Multiset.map_cons, Multiset.sum_cons, total]

theorem insert_erase {m : Keyed K V} {k : K} (v : V) : (m.erase k).insert k v = m.insert k v := by
  refine Finmap.ext_lookup fun x => ?_
  by_cases hx : x = k
  · subst hx
    rw [Finmap.lookup_insert, Finmap.lookup_insert]
  · rw [Finmap.lookup_insert_of_ne _ hx, Finmap.lookup_insert_of_ne _ hx, Finmap.lookup_erase_ne hx]

theorem total_insert (f : V → M) (m : Keyed K V) (k : K) (v : V) :
    total f (m.insert k v) = f v + total f (m.erase k) := by
  rw [← insert_erase, total_insert_of_notMem f v Finmap.notMem_erase_self]

variable {m : Keyed K V} {k : K}

theorem insert_lookup {v : V} (hk : m.lookup k = some v) : m.insert k v = m := by
  refine Finmap.ext_lookup fun x => ?_
  by_cases hx : x = k
  · subst hx
    rw [Finmap.lookup_insert, hk]
  · rw [Finmap.lookup_insert_of_ne _ hx]

/-- A map's total is what stands at a key and what stands elsewhere. -/
theorem total_eq_add_erase (f : V → M) {m : Keyed K V} {k : K} {v : V} (hk : m.lookup k = some v) :
    total f m = f v + total f (m.erase k) := by
  rw [← total_insert, insert_lookup hk]

theorem erase_of_notMem (hk : k ∉ m) : m.erase k = m := by
  refine Finmap.ext_lookup fun x => ?_
  by_cases hx : x = k
  · subst hx
    rw [Finmap.lookup_erase, Finmap.lookup_eq_none.mpr hk]
  · rw [Finmap.lookup_erase_ne hx]

theorem total_congr {f g : V → M} (hfg : ∀ k v, m.lookup k = some v → f v = g v) :
    total f m = total g m := by
  rw [total, total]
  refine congrArg Multiset.sum (Multiset.map_congr rfl fun e he => ?_)
  exact hfg e.1 e.2 (Finmap.lookup_eq_some_iff.mpr he)

end Total

section Count

variable [DecidableEq K] {f : V → ℕ} {m : Keyed K V}

/-- Every value of the map counts for at least one where none is worth zero. -/
theorem card_keys_le_total (hpos : ∀ k v, m.lookup k = some v → 0 < f v) :
    m.keys.card ≤ total f m := by
  have hone : ∀ x ∈ m.entries.map (fun e => f e.2), 1 ≤ x := by
    intro x hx
    obtain ⟨e, he, rfl⟩ := Multiset.mem_map.mp hx
    exact hpos e.1 e.2 (Finmap.lookup_eq_some_iff.mpr he)
  have hle := Multiset.card_nsmul_le_sum hone
  have hcard : m.keys.card = m.entries.card := Multiset.card_map _ _
  rw [Multiset.card_map, smul_eq_mul, mul_one] at hle
  rw [hcard]
  exact hle

theorem total_eq_zero_iff (hpos : ∀ k v, m.lookup k = some v → 0 < f v) :
    total f m = 0 ↔ m.keys = ∅ := by
  constructor
  · intro hzero
    have hle := card_keys_le_total hpos
    rw [hzero] at hle
    exact Finset.card_eq_zero.mp (Nat.le_zero.mp hle)
  · intro hkeys
    have hcard : m.entries.card = 0 := by
      rw [← Finset.card_eq_zero] at hkeys
      exact (Multiset.card_map _ _).symm.trans hkeys
    rw [total, Multiset.card_eq_zero.mp hcard]
    rfl

theorem keys_insert (m : Keyed K V) (k : K) (v : V) : (m.insert k v).keys = insert k m.keys := by
  ext x
  rw [Finmap.mem_keys, Finmap.mem_insert, Finset.mem_insert, Finmap.mem_keys]

end Count

section Lookup

variable [DecidableEq K]

theorem lookup_insert_eq (m : Keyed K V) (k x : K) (v : V) :
    (m.insert k v).lookup x = if x = k then some v else m.lookup x := by
  by_cases hx : x = k
  · subst hx
    rw [Finmap.lookup_insert, if_pos rfl]
  · rw [Finmap.lookup_insert_of_ne _ hx, if_neg hx]

theorem lookup_erase_eq (m : Keyed K V) (k x : K) :
    (m.erase k).lookup x = if x = k then none else m.lookup x := by
  by_cases hx : x = k
  · subst hx
    rw [Finmap.lookup_erase, if_pos rfl]
  · rw [Finmap.lookup_erase_ne hx, if_neg hx]

end Lookup

end Keyed

end Knomosis.Lib
