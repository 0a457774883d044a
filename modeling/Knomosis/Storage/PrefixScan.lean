import Knomosis.Smt.MultiProof

/-!
# The prefix scan of the store

The scan selects a range of keys: from the prefix itself up to a bound that is found by
raising the last byte that is not `0xFF`.  The range is exactly the keys that start with
the prefix.  SQLite compares blobs byte by byte and then by length, which is the order of
lists.
-/

namespace Knomosis.Storage

open Smt

/-- The loop of `next_prefix_upper_bound`, on the bytes from the last one on. -/
def raiseLast : Bytes → Option Bytes
  | [] => none
  | last :: out => if last = 0xFF then raiseLast out else some ((last + 1) :: out)

def nextPrefixUpperBound (p : Bytes) : Option Bytes := (raiseLast p.reverse).map List.reverse

/-- The `kv` table: the key is the primary key. -/
structure KvTable where
  rows : List (Bytes × Bytes)
  primary : (rows.map Prod.fst).Nodup

/-- `SELECT key, value FROM kv WHERE … ORDER BY key ASC`. -/
def KvTable.select (kv : KvTable) (clause : Bytes → Bool) : List (Bytes × Bytes) :=
  (kv.rows.filter fun row => clause row.1).mergeSort fun a b => a.1 ≤ b.1

def kvScan (kv : KvTable) (p : Bytes) : List (Bytes × Bytes) :=
  if p.isEmpty then kv.select fun _ => true
  else match nextPrefixUpperBound p with
    | some ub => kv.select fun key => p ≤ key && key < ub
    | none => kv.select fun key => p ≤ key

theorem raiseLast_concat (xs : Bytes) (b : UInt8) :
    raiseLast (xs ++ [b]) = ((raiseLast xs).map (· ++ [b])).or (raiseLast [b]) := by
  induction xs with
  | nil => simp [raiseLast]
  | cons last out ih =>
    rw [List.cons_append, raiseLast, raiseLast, ih]
    split <;> simp

/-- The bound from the front: the first byte is raised only if the rest is all `0xFF`. -/
theorem nextPrefixUpperBound_cons (b : UInt8) (p : Bytes) :
    nextPrefixUpperBound (b :: p) =
      ((nextPrefixUpperBound p).map (b :: ·)).or (if b = 0xFF then none else some [b + 1]) := by
  rw [nextPrefixUpperBound, nextPrefixUpperBound, List.reverse_cons, raiseLast_concat]
  cases raiseLast p.reverse <;> by_cases hb : b = 0xFF <;> simp [raiseLast, hb]

theorem lt_succ_iff {b c : UInt8} (hb : b ≠ 0xFF) : c < b + 1 ↔ c ≤ b := by
  have : b.toNat ≠ 255 := fun h => hb (UInt8.toNat_inj.mp h)
  rw [UInt8.lt_iff_toNat_lt, UInt8.le_iff_toNat_le, UInt8.toNat_add]
  have := b.toNat_lt
  simp only [UInt8.toNat_one]
  omega

theorem in_range_iff (p k : Bytes) :
    (p ≤ k ∧ ∀ u, nextPrefixUpperBound p = some u → k < u) ↔ p <+: k := by
  induction p generalizing k with
  | nil => simp [nextPrefixUpperBound, raiseLast]
  | cons b p ih =>
    cases k with
    | nil => simp
    | cons c k =>
      rw [List.cons_le_cons_iff, List.cons_prefix_cons, ← ih k, nextPrefixUpperBound_cons]
      rcases Std.lt_trichotomy b c with hbc | rfl | hbc
      · have hne := UInt8.ne_of_lt hbc
        cases nextPrefixUpperBound p with
        | some u => simp [hne, List.cons_lt_cons_iff, UInt8.lt_asymm hbc, hne.symm]
        | none =>
          have hb : b ≠ 0xFF := by
            rintro rfl
            exact absurd (UInt8.lt_iff_toNat_lt.mp hbc) (Nat.le_of_lt_succ c.toNat_lt).not_gt
          simp [hb, hne, List.cons_lt_cons_iff, lt_succ_iff hb, hbc]
      · cases nextPrefixUpperBound p with
        | some u => simp
        | none => by_cases hb : b = 0xFF <;> simp [hb, List.cons_lt_cons_iff, lt_succ_iff]
      · simp [UInt8.lt_asymm hbc, (UInt8.ne_of_lt hbc).symm]

theorem KvTable.select_spec (kv : KvTable) (clause : Bytes → Bool) :
    (∀ row, row ∈ kv.select clause ↔ row ∈ kv.rows ∧ clause row.1) ∧
      (kv.select clause).Pairwise (·.1 < ·.1) := by
  have hsorted : (kv.select clause).Pairwise (fun a b => decide (a.1 ≤ b.1)) :=
    List.pairwise_mergeSort (by simpa using fun _ _ _ => List.le_trans)
      (by simpa using List.le_total) _
  have hnodup : ((kv.select clause).map Prod.fst).Nodup :=
    ((List.mergeSort_perm _ _).map _).nodup_iff.mpr (kv.primary.sublist (List.filter_sublist.map _))
  refine ⟨by simp [select], ?_⟩
  refine (hsorted.and (List.pairwise_map.mp hnodup)).imp fun h => ?_
  exact Std.lt_of_le_of_ne (of_decide_eq_true h.1) h.2

/-- The scan answers the rows whose key starts with the prefix, each once and ascending by
key; the bound cuts off exactly the keys that start with the prefix. -/
theorem kvScan_exact (kv : KvTable) (p : Bytes) :
    (∀ row, row ∈ kvScan kv p ↔ row ∈ kv.rows ∧ p <+: row.1) ∧
    (kvScan kv p).Pairwise (·.1 < ·.1) ∧
    (∀ u, nextPrefixUpperBound p = some u → ∀ k, (p ≤ k ∧ k < u) ↔ p <+: k) ∧
    (nextPrefixUpperBound p = none → ∀ k, p ≤ k ↔ p <+: k) := by
  have hsome : ∀ u, nextPrefixUpperBound p = some u → ∀ k, (p ≤ k ∧ k < u) ↔ p <+: k := by
    intro u hu k
    simpa [hu] using in_range_iff p k
  have hnone : nextPrefixUpperBound p = none → ∀ k, p ≤ k ↔ p <+: k := by
    intro hu k
    simpa [hu] using in_range_iff p k
  suffices h : ∃ clause, kvScan kv p = kv.select clause ∧ ∀ k, clause k ↔ p <+: k by
    obtain ⟨clause, hscan, hclause⟩ := h
    obtain ⟨hmem, hasc⟩ := kv.select_spec clause
    refine ⟨fun row => ?_, hscan ▸ hasc, hsome, hnone⟩
    rw [hscan, hmem, hclause]
  unfold kvScan
  split
  next hp => exact ⟨_, rfl, by simp [List.isEmpty_iff.mp hp]⟩
  next =>
    split
    next u hu => exact ⟨_, rfl, by simpa using hsome u hu⟩
    next hu => exact ⟨_, rfl, by simpa using hnone hu⟩

end Knomosis.Storage
