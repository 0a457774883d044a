import Knomosis.FaultProof.Verifier
import Knomosis.Lib.Ranked
import Knomosis.Smt.MultiWalk

/-!
# The frontier of a step

The kernel orders cells by the first bit at which their keys part.  That is the
order of the contract's path indices as numbers.  If no two of the derived cells
have the same key, then the submitted cells pass the shape check exactly if they
are the derived ones, each once, in any order.
-/

namespace Knomosis.FaultProof

open Lib Contracts Smt Kernel List

variable [Keccak]

def pathRank (t : CellTag) : ℕ := (pathIndex (cellKey t)).toNat

/-- No two of the cells have the same key. -/
def KeyInjectiveOn (ts : List CellTag) : Prop := ∀ t ∈ ts, ∀ u ∈ ts, cellKey t = cellKey u → t = u

theorem smtCellKey_inj {t u : CellTag} : smtCellKey t = smtCellKey u ↔ cellKey t = cellKey u := by
  rw [smtCellKey_eq, smtCellKey_eq, bytes32Bytes_injective.eq_iff]

theorem pathRank_inj {t u : CellTag} : pathRank t = pathRank u ↔ cellKey t = cellKey u := by
  rw [pathRank, pathRank, BitVec.toNat_inj]
  exact (Function.LeftInverse.injective pathIndex_pathIndex).eq_iff

theorem keyBit_smtCellKey (t : CellTag) {i : ℕ} (hi : i < 256) :
    keyBit (smtCellKey t) i = (pathRank t).testBit i := by
  rw [smtCellKey_eq, keyBit_bytes32Bytes _ hi, pathRank, BitVec.testBit_toNat,
    getLsbD_pathIndex _ hi]

/-- The first level at which two keys part is the highest bit in which the ranks differ. -/
theorem divBelow_spec (t u : CellTag) {d : ℕ} (hd : d ≤ 256) :
    match divBelow d (smtCellKey t) (smtCellKey u) with
    | none => ∀ i < d, (pathRank t).testBit i = (pathRank u).testBit i
    | some k => k < d ∧ (pathRank t).testBit k ≠ (pathRank u).testBit k ∧
        ∀ i, k < i → i < d → (pathRank t).testBit i = (pathRank u).testBit i := by
  induction d with
  | zero => simp [divBelow]
  | succ d ih =>
    have hd' : d < 256 := hd
    rw [divBelow, keyBit_smtCellKey t hd', keyBit_smtCellKey u hd']
    by_cases hbit : (pathRank t).testBit d = (pathRank u).testBit d
    · rw [if_neg (by simpa using hbit)]
      have ih := ih hd'.le
      cases hdiv : divBelow d (smtCellKey t) (smtCellKey u) with
      | none =>
        rw [hdiv] at ih
        intro i hi
        rcases Nat.lt_succ_iff_lt_or_eq.mp hi with hi | rfl
        · exact ih i hi
        · exact hbit
      | some =>
        rw [hdiv] at ih
        refine ⟨Nat.lt_succ_of_lt ih.1, ih.2.1, ?_⟩
        intro i hki hi
        rcases Nat.lt_succ_iff_lt_or_eq.mp hi with hi | rfl
        · exact ih.2.2 i hki hi
        · exact hbit
    · rw [if_pos (by simpa using hbit)]
      exact ⟨Nat.lt_succ_self d, hbit, fun i hki hi => by omega⟩

theorem pathRank_lt (t : CellTag) : pathRank t < 2 ^ 256 := (pathIndex (cellKey t)).isLt

theorem pathLess_iff (t u : CellTag) :
    pathLess (smtCellKey t) (smtCellKey u) = true ↔ pathRank t < pathRank u := by
  have hspec := divBelow_spec t u (le_refl 256)
  have habove : ∀ v : CellTag, ∀ i, 256 ≤ i → (pathRank v).testBit i = false := fun v i hi =>
    Nat.testBit_lt_two_pow (lt_of_lt_of_le (pathRank_lt v) (Nat.pow_le_pow_right (by decide) hi))
  rw [pathLess, smtDepth]
  cases hdiv : divBelow 256 (smtCellKey t) (smtCellKey u) with
  | none =>
    rw [hdiv] at hspec
    have heq : pathRank t = pathRank u := by
      refine Nat.eq_of_testBit_eq ?_
      intro i
      rcases Nat.lt_or_ge i 256 with hi | hi
      · exact hspec i hi
      · rw [habove t i hi, habove u i hi]
    simp [heq]
  | some k =>
    rw [hdiv] at hspec
    obtain ⟨hk, hne, hagree⟩ := hspec
    have hagree' : ∀ i, k < i → (pathRank t).testBit i = (pathRank u).testBit i := by
      intro i hki
      rcases Nat.lt_or_ge i 256 with hi | hi
      · exact hagree i hki hi
      · rw [habove t i hi, habove u i hi]
    simp only [keyBit_smtCellKey t hk, Bool.not_eq_true']
    constructor
    · intro ht
      refine Nat.lt_of_testBit k ht ?_ hagree'
      rw [ht] at hne
      exact (Bool.eq_true_of_not_eq_false (fun h => hne h.symm))
    · intro hlt
      by_contra ht
      have ht : (pathRank t).testBit k = true := Bool.eq_true_of_not_eq_false ht
      have hu : (pathRank u).testBit k = false := by
        rw [ht] at hne
        exact Bool.eq_false_of_not_eq_true (fun h => hne h.symm)
      have hgt := Nat.lt_of_testBit k hu ht (fun i hki => (hagree' i hki).symm)
      omega

section Sorting

theorem pathInsert_eq (t : CellTag) (ts : List CellTag) :
    pathInsert t ts = ts.orderedInsert (fun a b => pathRank a < pathRank b) t := by
  induction ts with
  | nil => rfl
  | cons _ _ ih =>
    rw [pathInsert, orderedInsert_cons, ih]
    simp only [pathLess_iff]

theorem pathSort_perm (ts : List CellTag) : (pathSort ts).Perm ts := by
  induction ts with
  | nil => exact List.Perm.refl []
  | cons t _ ih =>
    rw [pathSort, foldr_cons, pathInsert_eq]
    exact (perm_orderedInsert _ t _).trans (List.Perm.cons t ih)

variable {ts derived : List CellTag}

theorem pathSort_ranked (h : (ts.map pathRank).Nodup) : Ranked pathRank (pathSort ts) := by
  induction ts with
  | nil => exact List.Pairwise.nil
  | cons t ts ih =>
    obtain ⟨hnew, hts⟩ := nodup_cons.mp h
    rw [pathSort, foldr_cons, pathInsert_eq]
    refine (ih hts).orderedInsert ?_
    intro u hu heq
    exact hnew (mem_map.mpr ⟨u, (pathSort_perm ts).mem_iff.mp hu, heq⟩)

/-- Inserting into the frontier adds a cell unless it is already there. -/
theorem frontierInsert_spec {t : CellTag} (h : Ranked pathRank ts)
    (hinj : ∀ u ∈ ts, cellKey t = cellKey u → t = u) :
    Ranked pathRank (frontierInsert t ts) ∧ ∀ u, u ∈ frontierInsert t ts ↔ u = t ∨ u ∈ ts := by
  induction ts with
  | nil => exact ⟨pairwise_singleton _ t, by simp [frontierInsert]⟩
  | cons u _ ih =>
    obtain ⟨hu, hts⟩ := pairwise_cons.mp h
    rw [frontierInsert]
    by_cases hkey : cellKey t = cellKey u
    · obtain rfl := hinj u mem_cons_self hkey
      rw [if_pos (by simp)]
      exact ⟨h, by simp⟩
    rw [if_neg (by simpa [smtCellKey_inj] using hkey)]
    by_cases hlt : pathRank t < pathRank u
    · rw [if_pos ((pathLess_iff t u).mpr hlt)]
      refine ⟨pairwise_cons.mpr ⟨?_, h⟩, by simp⟩
      intro v hv
      rcases mem_cons.mp hv with rfl | hv
      · exact hlt
      · exact hlt.trans (hu v hv)
    · rw [if_neg (fun hless => hlt ((pathLess_iff t u).mp hless))]
      obtain ⟨hranked, hmem⟩ := ih hts (fun v hv => hinj v (mem_cons_of_mem u hv))
      have hgt : pathRank u < pathRank t :=
        lt_of_le_of_ne (not_lt.mp hlt) (fun heq => hkey (pathRank_inj.mp heq.symm))
      refine ⟨pairwise_cons.mpr ⟨?_, hranked⟩, ?_⟩
      · intro v hv
        rcases (hmem v).mp hv with rfl | hv
        · exact hgt
        · exact hu v hv
      · intro v
        rw [mem_cons, hmem, mem_cons]
        exact or_left_comm

theorem frontierOf_spec (hinj : KeyInjectiveOn ts) :
    Ranked pathRank (frontierOf ts) ∧ ∀ t, t ∈ frontierOf ts ↔ t ∈ ts := by
  induction ts with
  | nil => exact ⟨List.Pairwise.nil, fun t => Iff.rfl⟩
  | cons t ts ih =>
    obtain ⟨hranked, hmem⟩ := ih (fun u hu v hv =>
      hinj u (mem_cons_of_mem t hu) v (mem_cons_of_mem t hv))
    obtain ⟨hranked', hmem'⟩ := frontierInsert_spec hranked (fun u hu =>
      hinj t mem_cons_self u (mem_cons_of_mem t ((hmem u).mp hu)))
    refine ⟨hranked', ?_⟩
    intro u
    change u ∈ frontierInsert t (frontierOf ts) ↔ u ∈ t :: ts
    rw [hmem', mem_cons, hmem]

theorem nodup_pathRank (hinj : KeyInjectiveOn derived) (hsub : ∀ t ∈ ts, t ∈ derived)
    (hnodup : ts.Nodup) : (ts.map pathRank).Nodup := by
  refine List.Nodup.map_on ?_ hnodup
  intro t ht u hu heq
  exact hinj t (hsub t ht) u (hsub u hu) (pathRank_inj.mp heq)

/-- The submitted cells pass the shape check exactly if they are the derived ones, each once. -/
theorem frontierShapeOk_iff {submitted : List CellTag} (hinj : KeyInjectiveOn derived) :
    frontierShapeOk derived submitted = true ↔
      submitted.Nodup ∧ ∀ t, t ∈ submitted ↔ t ∈ derived := by
  obtain ⟨hranked, hmem⟩ := frontierOf_spec hinj
  rw [frontierShapeOk, beq_iff_eq]
  constructor
  · intro heq
    have hperm := pathSort_perm submitted
    rw [heq] at hperm
    exact ⟨hperm.nodup_iff.mp hranked.nodup, fun t => by rw [← hperm.mem_iff, hmem]⟩
  · rintro ⟨hnodup, hsame⟩
    refine (pathSort_ranked (nodup_pathRank hinj (fun t ht => (hsame t).mp ht)
      hnodup)).eq_of_mem_iff hranked ?_
    intro t
    rw [(pathSort_perm submitted).mem_iff, hsame, hmem]

end Sorting

end Knomosis.FaultProof
