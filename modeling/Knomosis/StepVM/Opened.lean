import Knomosis.FaultProof.Frontier
import Knomosis.StepVM.Derivation

/-!
# Opened cells and bundles

What the caller hands to the contract and what the kernel's verifier takes are the
same cells and the same wire.  The contract's frontier check passes exactly if the
opened cells are the derived ones, each once; its sorting puts them in the order
in which the kernel walks; and each leaf it hashes is the kernel's leaf.
-/

namespace Knomosis.StepVM

open Lib Contracts Smt Kernel FaultProof List OpenedCell
open StepWrites

section Bundles

/-- The opened cells and the wire are those of the bundle. -/
structure Corresponds (opened : List OpenedCell) (gapMask siblings : Calldata)
    (b : MultiBundle) : Prop where
  cells : opened.map (fun o => (o.cell, o.preValue)) = b.cells.map (fun c => (cellOf c.1, c.2))
  proof : b.proof = wireProof gapMask.bytes siblings.bytes

variable {opened : List OpenedCell} {gapMask siblings : Calldata} {b : MultiBundle}

theorem Corresponds.map_cell (h : Corresponds opened gapMask siblings b) :
    opened.map cell = (b.cells.map Prod.fst).map cellOf := by
  have hfst := congrArg (List.map Prod.fst) h.cells
  rw [map_map, map_map] at hfst
  rw [map_map]
  exact hfst

theorem find_cell {os : List OpenedCell} {cs : List (CellTag × Bytes)}
    (h : os.map (fun o => (o.cell, o.preValue)) = cs.map (fun c => (cellOf c.1, c.2)))
    (t : CellTag) :
    (os.find? (fun o => o.cell == cellOf t)).map preValue =
      (cs.find? (fun c => c.1 == t)).map Prod.snd := by
  induction os generalizing cs with
  | nil =>
    obtain rfl : cs = [] := map_eq_nil_iff.mp h.symm
    rfl
  | cons _ _ ih =>
    obtain ⟨c, cs, rfl, hc, hrest⟩ := map_eq_cons_iff.mp h.symm
    obtain ⟨hcell, hvalue⟩ := Prod.mk.inj hc
    by_cases heq : c.1 = t
    · rw [List.find?_cons_of_pos (by simp [← hcell, heq]), List.find?_cons_of_pos (by simp [heq])]
      simp [← hvalue]
    · have hne : cellOf c.1 ≠ cellOf t := fun h => heq (cellOf_injective h)
      rw [List.find?_cons_of_neg (by simp [← hcell, hne]), List.find?_cons_of_neg (by simp [heq])]
      exact ih hrest.symm

theorem Corresponds.value (h : Corresponds opened gapMask siblings b) (t : CellTag) (v : Bytes) :
    openedValue opened (cellOf t) = .ok v ↔ b.valueAt t = some v := by
  have hfind := find_cell h.cells t
  rw [MultiBundle.valueAt, ← hfind, openedValue, findOpened]
  cases opened.find? (fun o => o.cell == cellOf t) with
  | none | some => simp

theorem exists_corresponds (gapMask siblings : Calldata)
    (h : ∀ o ∈ opened, ∃ t, o.cell = cellOf t) : ∃ b, Corresponds opened gapMask siblings b := by
  have hcells : ∃ cs : List (CellTag × Bytes),
      opened.map (fun o => (o.cell, o.preValue)) = cs.map (fun c => (cellOf c.1, c.2)) := by
    induction opened with
    | nil => exact ⟨[], rfl⟩
    | cons o _ ih =>
      obtain ⟨t, ht⟩ := h o mem_cons_self
      obtain ⟨cs, hcs⟩ := ih (fun o' ho' => h o' (mem_cons_of_mem o ho'))
      exact ⟨(t, o.preValue) :: cs, by simp [ht, hcs]⟩
  obtain ⟨cs, hcs⟩ := hcells
  exact ⟨⟨cs, wireProof gapMask.bytes siblings.bytes⟩, hcs, rfl⟩

theorem valueAt_eq_some (hnodup : (b.cells.map Prod.fst).Nodup) {t : CellTag} {v : Bytes} :
    b.valueAt t = some v ↔ (t, v) ∈ b.cells := by
  rw [MultiBundle.valueAt]
  generalize b.cells = cs at hnodup ⊢
  induction cs with
  | nil => simp
  | cons c cs ih =>
    obtain ⟨hnew, hrest⟩ := nodup_cons.mp hnodup
    by_cases hc : c.1 = t
    · subst hc
      have hnot : ∀ w, (c.1, w) ∉ cs := fun w hw => hnew (mem_map.mpr ⟨_, hw, rfl⟩)
      simp [hnot, Prod.ext_iff, eq_comm]
    · rw [List.find?_cons_of_neg (by simpa using hc), ih hrest]
      simp [Prod.ext_iff, Ne.symm hc]

theorem Corresponds.value_of_mem (h : Corresponds opened gapMask siblings b)
    (hnodup : (b.cells.map Prod.fst).Nodup) {o : OpenedCell} {t : CellTag} (ho : o ∈ opened)
    (hcell : o.cell = cellOf t) : b.valueAt t = some o.preValue := by
  have hmem : (o.cell, o.preValue) ∈ b.cells.map (fun c => (cellOf c.1, c.2)) :=
    h.cells ▸ mem_map_of_mem ho
  obtain ⟨c, hc, heq⟩ := mem_map.mp hmem
  obtain ⟨htag, hval⟩ := Prod.ext_iff.mp heq
  obtain rfl : c.1 = t := cellOf_injective (htag.trans hcell)
  rw [valueAt_eq_some hnodup]
  have hval' : c.2 = o.preValue := hval
  exact hval' ▸ hc

theorem cellAndValue_injective :
    Function.Injective (fun c : CellTag × Bytes => (cellOf c.1, c.2)) := by
  rintro ⟨t, v⟩ ⟨t', v'⟩ heq
  obtain ⟨ht, hv⟩ := Prod.ext_iff.mp heq
  exact Prod.ext (cellOf_injective ht) hv

theorem Corresponds.unique {b' : MultiBundle} (h : Corresponds opened gapMask siblings b)
    (h' : Corresponds opened gapMask siblings b') : b = b' := by
  obtain ⟨cells, proof⟩ := b
  obtain ⟨cells', proof'⟩ := b'
  obtain rfl : proof = proof' := h.proof.trans h'.proof.symm
  obtain rfl : cells = cells' := cellAndValue_injective.list_map (h.cells.symm.trans h'.cells)
  rfl

theorem Corresponds.perm {opened' : List OpenedCell} (h : Corresponds opened gapMask siblings b)
    (hperm : opened'.Perm opened) :
    ∃ b', Corresponds opened' gapMask siblings b' ∧ b'.cells.Perm b.cells := by
  obtain ⟨b', h'⟩ : ∃ b', Corresponds opened' gapMask siblings b' := by
    refine exists_corresponds gapMask siblings (fun o ho => ?_)
    have hmem : o.cell ∈ opened.map cell := mem_map_of_mem (hperm.mem_iff.mp ho)
    rw [h.map_cell] at hmem
    obtain ⟨t, -, ht⟩ := mem_map.mp hmem
    exact ⟨t, ht.symm⟩
  refine ⟨b', h', ?_⟩
  rw [← map_perm_map_iff cellAndValue_injective, ← h.cells, ← h'.cells]
  exact hperm.map _

theorem valueAt_perm {b' : MultiBundle} (hperm : b'.cells.Perm b.cells)
    (hnodup : (b.cells.map Prod.fst).Nodup) : b'.valueAt = b.valueAt := by
  have hnodup' : (b'.cells.map Prod.fst).Nodup := (hperm.map _).nodup_iff.mpr hnodup
  funext t
  apply Option.ext
  intro v
  rw [valueAt_eq_some hnodup', valueAt_eq_some hnodup, hperm.mem_iff]

end Bundles

section Frontier

variable {opened : List OpenedCell}

theorem card_append (seen cells : List Cell) :
    (seen ++ cells).toFinset.card = seen.toFinset.card + countNew seen cells := by
  induction cells generalizing seen with
  | nil => simp [countNew]
  | cons c _ ih =>
    have hone : (seen ++ [c]).toFinset.card = seen.toFinset.card + if c ∈ seen then 0 else 1 := by
      have hset : (seen ++ [c]).toFinset = insert c seen.toFinset := by
        ext d
        simp
      rw [hset]
      split_ifs with hc
      · rw [Finset.insert_eq_self.mpr (by simpa using hc), Nat.add_zero]
      · rw [Finset.card_insert_of_notMem (by simpa using hc)]
    rw [append_cons, ih, hone, countNew, Nat.add_assoc]

theorem frontierSize_eq {cells : List Cell} (hpolicy : policyCell ∉ cells) :
    frontierSize cells = (policyCell :: cells).toFinset.card := by
  have hcount := card_append [] cells
  rw [nil_append, toFinset_nil, Finset.card_empty, Nat.zero_add] at hcount
  rw [frontierSize, ← hcount, toFinset_cons,
    Finset.card_insert_of_notMem (by simpa using hpolicy), Nat.add_comm]

theorem findOpened_isNone (c : Cell) :
    (findOpened opened c).isNone = true ↔ c ∉ opened.map cell := by
  rw [findOpened, Option.isNone_iff_eq_none, List.find?_eq_none]
  simp

theorem firstMissing_eq_none (i : ℕ) (cells : List Cell) :
    firstMissing opened i cells = none ↔ ∀ c ∈ cells, c ∈ opened.map cell := by
  induction cells generalizing i with
  | nil => simp [firstMissing]
  | cons c _ ih =>
    rw [firstMissing, forall_mem_cons, ← ih (i + 1)]
    by_cases hc : c ∈ opened.map cell
    · rw [if_neg (fun h => (findOpened_isNone c).mp h hc)]
      simp [hc]
    · rw [if_pos ((findOpened_isNone c).mpr hc)]
      simp [hc]

/-- The frontier check passes exactly if the opened cells are the required ones, each once. -/
theorem requireFrontier_eq_ok {cells : List Cell} (hpolicy : policyCell ∉ cells) :
    requireFrontier opened cells = .ok () ↔ (opened.map cell).Nodup ∧
      ∀ c, c ∈ opened.map cell ↔ c ∈ policyCell :: cells := by
  have hok : requireFrontier opened cells = .ok () ↔
      opened.length = (policyCell :: cells).toFinset.card ∧
      ∀ c ∈ policyCell :: cells, c ∈ opened.map cell := by
    rw [requireFrontier, guard_eq_ok, guard_eq_ok, not_not, findOpened_isNone, not_not,
      frontierSize_eq hpolicy, forall_mem_cons, ← firstMissing_eq_none 0]
    cases firstMissing opened 0 cells with
    | none | some => simp
  rw [hok]
  have hlen : opened.length = (opened.map cell).length := (length_map _).symm
  rw [hlen]
  generalize opened.map cell = os
  generalize policyCell :: cells = cs
  constructor
  · rintro ⟨hcard, hsub⟩
    have hsub' : cs.toFinset ⊆ os.toFinset := by
      intro c hc
      exact mem_toFinset.mpr (hsub c (mem_toFinset.mp hc))
    have heq := Finset.eq_of_subset_of_card_le hsub' ((toFinset_card_le os).trans_eq hcard)
    refine ⟨?_, fun c => ?_⟩
    · rw [← Multiset.coe_nodup, ← Multiset.toFinset_card_eq_card_iff_nodup]
      change os.toFinset.card = os.length
      rw [← heq, hcard]
    · rw [← mem_toFinset, ← heq, mem_toFinset]
  · rintro ⟨hnodup, hsame⟩
    refine ⟨?_, fun c hc => (hsame c).mpr hc⟩
    rw [← toFinset_card_of_nodup hnodup]
    congr 1
    ext c
    simp [hsame]

end Frontier

section Order

theorem map_zipIdx_fst {α β : Type} (f : α → β) (xs : List α) :
    xs.zipIdx.map (fun x => f x.1) = xs.map f := by
  apply ext_getElem
  · simp
  · intro i h1 h2
    simp

variable [Keccak] {opened : List OpenedCell}

/-- The path index of an opened cell as a number. -/
def openedRank (x : OpenedCell × ℕ) : ℕ := (pathOf x.1).toNat

theorem insertPath_eq (x : OpenedCell × ℕ) (sorted : List (OpenedCell × ℕ)) :
    insertPath x sorted = sorted.orderedInsert (fun y z => openedRank z ≤ openedRank y) x := by
  induction sorted with
  | nil => rfl
  | cons y _ ih =>
    have hiff : pathOf x.1 < pathOf y.1 ↔ ¬ openedRank y ≤ openedRank x := by
      rw [BitVec.lt_def, openedRank, openedRank, not_le]
    rw [insertPath, orderedInsert_cons, ih]
    simp only [hiff, ite_not]

/-- The sorted prefix holds the cells seen so far, in descending order. -/
theorem foldl_insertPath (xs sorted : List (OpenedCell × ℕ))
    (h : sorted.Pairwise (fun y z => openedRank z ≤ openedRank y)) :
    (xs.foldl (fun sorted x => insertPath x sorted) sorted).Pairwise
        (fun y z => openedRank z ≤ openedRank y) ∧
      (xs.foldl (fun sorted x => insertPath x sorted) sorted).Perm (xs ++ sorted) := by
  have : Std.Total (fun y z : OpenedCell × ℕ => openedRank z ≤ openedRank y) :=
    ⟨fun y z => le_total _ _⟩
  have : IsTrans (OpenedCell × ℕ) (fun y z => openedRank z ≤ openedRank y) :=
    ⟨fun _ _ _ h₁ h₂ => h₂.trans h₁⟩
  induction xs generalizing sorted with
  | nil => exact ⟨h, List.Perm.refl _⟩
  | cons x xs ih =>
    rw [foldl_cons, insertPath_eq]
    obtain ⟨hsorted, hperm⟩ := ih _ (h.orderedInsert x sorted)
    refine ⟨hsorted, hperm.trans ?_⟩
    have hins := perm_orderedInsert (fun y z => openedRank z ≤ openedRank y) x sorted
    exact (List.Perm.append_left xs hins).trans perm_middle

theorem pathOrder_perm (opened : List OpenedCell) : (pathOrder opened).Perm opened.zipIdx := by
  have hperm := (foldl_insertPath opened.zipIdx [] List.Pairwise.nil).2
  rw [append_nil] at hperm
  exact (reverse_perm _).trans hperm

theorem pathOrder_ranked (h : (opened.map (fun o => (pathOf o).toNat)).Nodup) :
    Ranked openedRank (pathOrder opened) := by
  obtain ⟨hsorted, hperm⟩ := foldl_insertPath opened.zipIdx [] List.Pairwise.nil
  refine ranked_reverse hsorted ?_
  rw [append_nil] at hperm
  rw [(hperm.map openedRank).nodup_iff]
  exact (map_zipIdx_fst (fun o => (pathOf o).toNat) opened).symm ▸ h

theorem mem_pathOrder {x : OpenedCell × ℕ} (h : x ∈ pathOrder opened) : x.1 ∈ opened :=
  (mem_zipIdx' ((pathOrder_perm opened).mem_iff.mp h)).2 ▸ getElem_mem _

variable {gapMask siblings : Calldata} {b : MultiBundle} {derived : List CellTag}

/-- The contract walks the cells in the kernel's order. -/
theorem pathOrder_cells (hinj : KeyInjectiveOn derived)
    (hnodup : (opened.map cell).Nodup)
    (hmem : ∀ c, c ∈ opened.map cell ↔ c ∈ derived.map cellOf) :
    (pathOrder opened).map (fun x => x.1.cell) = (frontierOf derived).map cellOf := by
  let cellRank : Cell → ℕ := fun c => (pathIndex (deriveCellSmtKey c)).toNat
  obtain ⟨hfrontier, hfmem⟩ := frontierOf_spec hinj
  have hranks : (opened.map (fun o => (pathOf o).toNat)).Nodup := by
    have hcomp : opened.map (fun o => (pathOf o).toNat) =
        (opened.map cell).map cellRank := by
      rw [map_map]
      rfl
    rw [hcomp]
    refine List.Nodup.map_on ?_ hnodup
    intro c hc d hd heq
    obtain ⟨t, ht, rfl⟩ := mem_map.mp ((hmem c).mp hc)
    obtain ⟨u, hu, rfl⟩ := mem_map.mp ((hmem d).mp hd)
    exact congrArg cellOf (hinj t ht u hu (pathRank_inj.mp heq))
  have hleft : Ranked cellRank ((pathOrder opened).map (fun x => x.1.cell)) :=
    pairwise_map.mpr (pathOrder_ranked hranks)
  have hright : Ranked cellRank ((frontierOf derived).map cellOf) := pairwise_map.mpr hfrontier
  refine hleft.eq_of_mem_iff hright ?_
  intro c
  have hperm := (pathOrder_perm opened).map (fun x => x.1.cell)
  rw [hperm.mem_iff, map_zipIdx_fst cell opened, hmem]
  simp only [mem_map, hfmem]

end Order

section Leaves

variable [Keccak]

/-- The contract sees from the hash whether the value is the absent one, and can write the
value's length. -/
def Hashable (t : CellTag) (v : Bytes) : Prop :=
  v.length < 2 ^ 64 ∧
    (keccak256 v = keccak256 (FaultProof.canonicalAbsentValue t) →
      v = FaultProof.canonicalAbsentValue t)

def leafWord (t : CellTag) (v : Bytes) : Bytes32 :=
  if v = FaultProof.canonicalAbsentValue t then emptyLeafHash
  else keccak256 (encodeBytes (smtCellKey t) ++ encodeBytes v)

theorem bytes_leafWord (t : CellTag) (v : Bytes) : bytes32Bytes (leafWord t v) = cellLeaf t v := by
  rw [leafWord, cellLeaf]
  split_ifs <;> rfl

omit [Keccak] in
theorem canonicalAbsentValue_eq (t : CellTag) :
    StepWrites.canonicalAbsentValue (cellOf t).kind = .ok (FaultProof.canonicalAbsentValue t) := by
  have hzero : CBEEncode.uintValue 0 = .ok (encodeNat 0) := uintValue_eq_ok.mpr ⟨by norm_num, rfl⟩
  cases t <;>
    simp [StepWrites.canonicalAbsentValue, cellOf, CellTag.kindIndex,
      FaultProof.canonicalAbsentValue, amountValue_eq, hzero, CBEEncode.epochBudgetValue,
      ActorBudget.encode, ActorBudget.empty, BudgetPolicy.encode]

theorem cellLeafHash_eq {t : CellTag} {v : Bytes} (h : Hashable t v) :
    cellLeafHash (cellOf t) v = .ok (leafWord t v) := by
  have hkey : CBEEncode.bytesValue (bytes32Bytes (deriveCellSmtKey (cellOf t))) =
      .ok (encodeBytes (smtCellKey t)) :=
    bytesValue_of_lt (by simp)
  have habsent : (keccak256 v == keccak256 (FaultProof.canonicalAbsentValue t)) =
      decide (v = FaultProof.canonicalAbsentValue t) := by
    rw [Bool.eq_iff_iff, beq_iff_eq, decide_eq_true_eq]
    exact ⟨h.2, fun heq => heq ▸ rfl⟩
  rw [cellLeafHash, isCanonicallyAbsent, canonicalAbsentValue_eq, leafPreimage, hkey,
    bytesValue_of_lt h.1]
  simp only [ok_bind, habsent, decide_eq_true_eq]
  rfl

end Leaves

end Knomosis.StepVM
