import Knomosis.StepVM.Opened

/-!
# What the contract and the kernel read from a bundle

A step can be executed only if its bundle opens the cells of the step and every
cell holds a value of its kind.  Both sides ask for this: the contract because it
reverts on a value it cannot decode, the kernel because its derivation has no
value then.  Where the bundle can be read, the leaves of the contract are the
leaves of the kernel.
-/

namespace Knomosis.StepVM

open Lib Contracts Smt Kernel FaultProof List MultiBundle
open StepWrites

variable [Keccak]

section Frontiers

variable {opened : List OpenedCell} {gapMask siblings : Calldata} {b : MultiBundle}
variable {a : Action} {signer : ActorId}

omit [Keccak] in
theorem policyCell_notMem (a : Action) (signer : ActorId) (n : ℕ) :
    policyCell ∉ (verifierWriteCells a signer n).map cellOf := by
  cases a <;>
    simp [verifierWriteCells, writeCells, policyCell, cellOf, CellTag.kindIndex, CELL_BUDGET_POLICY]

omit [Keccak] in
theorem ne_budgetPolicy {n : ℕ} {t : CellTag} (ht : t ∈ verifierWriteCells a signer n) :
    t ≠ .budgetPolicy := by
  rintro rfl
  exact policyCell_notMem a signer n (mem_map_of_mem ht)

omit [Keccak] in
theorem balanceKey_mem {n : ℕ} {r : ResourceId} {x : ActorId}
    (ht : .balance r x ∈ verifierWriteCells a signer n) : (r, x) ∈ balanceKeys a signer := by
  obtain ⟨rest, hsplit, hrest, -⟩ := verifierWriteCells_eq a signer n
  rw [hsplit, mem_append] at ht
  rcases ht with ht | ht
  · obtain ⟨k, hk, heq⟩ := mem_map.mp ht
    obtain ⟨rfl, rfl⟩ : k.1 = r ∧ k.2 = x := by simpa using heq
    exact hk
  · exact absurd rfl (hrest _ ht)

omit [Keccak] in
theorem kind_eq_policy {o : OpenedCell} {t : CellTag} (hcell : o.cell = cellOf t) :
    o.cell.kind = CELL_BUDGET_POLICY ↔ t = .budgetPolicy := by
  rw [hcell]
  cases t <;> simp [cellOf, CellTag.kindIndex, CELL_BUDGET_POLICY]

omit [Keccak] in
theorem stepCells_map (a : Action) (signer : ActorId) (n : ℕ) :
    (stepCells a signer n).map cellOf = policyCell :: (verifierWriteCells a signer n).map cellOf :=
  rfl

omit [Keccak] in
/-- The contract's frontier check and the kernel's ask for the same cells. -/
theorem requireFrontier_iff (h : Corresponds opened gapMask siblings b) (n : ℕ) :
    requireFrontier opened ((verifierWriteCells a signer n).map cellOf) = .ok () ↔
      (b.cells.map Prod.fst).Nodup ∧ ∀ t, t ∈ b.cells.map Prod.fst ↔ t ∈ stepCells a signer n := by
  rw [requireFrontier_eq_ok (policyCell_notMem a signer n), ← stepCells_map, h.map_cell,
    nodup_map_iff cellOf_injective]
  refine and_congr_right fun _ => ?_
  constructor
  · intro hsame t
    have ht := hsame (cellOf t)
    rwa [mem_map_of_injective cellOf_injective, mem_map_of_injective cellOf_injective] at ht
  · intro hsame c
    simp only [mem_map, hsame]

omit [Keccak] in
theorem nextWdIdPreMulti_eq (h : Corresponds opened gapMask siblings b) :
    nextWdIdPreMulti opened =
      match b.valueAt .bridgeNextWdId with
      | some v => decodeNonce v
      | none => .ok 0 := by
  have hfind : opened.find? (fun o => o.cell.kind == CELL_BRIDGE_NEXT_WD_ID) =
      opened.find? (fun o => o.cell == cellOf .bridgeNextWdId) := by
    rw [← List.head?_filter, ← List.head?_filter]
    refine congrArg List.head? (filter_congr ?_)
    intro o ho
    have hmem : o.cell ∈ opened.map OpenedCell.cell := mem_map_of_mem ho
    rw [h.map_cell] at hmem
    obtain ⟨t, -, ht⟩ := mem_map.mp hmem
    rw [← ht, Bool.eq_iff_iff, beq_iff_eq, beq_iff_eq, cellOf_injective.eq_iff]
    cases t <;> simp [cellOf, CellTag.kindIndex, CELL_BRIDGE_NEXT_WD_ID]
  have hvalue := find_cell h.cells .bridgeNextWdId
  rw [nextWdIdPreMulti, hfind, valueAt, ← hvalue]
  cases opened.find? (fun o => o.cell == cellOf .bridgeNextWdId) with
  | none | some => rfl

omit [Keccak] in
theorem nextWdIdPreMulti_eq_ok (h : Corresponds opened gapMask siblings b) {n : ℕ} :
    nextWdIdPreMulti opened = .ok n ↔
      n = b.nextWdId ∧ ∀ v, b.valueAt .bridgeNextWdId = some v → Decodes .bridgeNextWdId v := by
  rw [nextWdIdPreMulti_eq h, nextWdId]
  cases b.valueAt .bridgeNextWdId with
  | none => simp [eq_comm]
  | some v =>
    have hsame : ∀ m, exactly (decodeNat v) = some m ↔ decodeNonce v = .ok m := fun m => by
      rw [exactly_decodeNat, decodeNonce_eq_ok]
    constructor
    · intro hn
      refine ⟨?_, fun w hw => ⟨n, by rwa [← Option.some.inj hw]⟩⟩
      simp [(hsame n).mpr hn]
    · rintro ⟨rfl, hdec⟩
      obtain ⟨m, hm⟩ := hdec v rfl
      simp [(hsame m).mpr hm, hm]

omit [Keccak] in
theorem nextWdId_lt (b : MultiBundle) : b.nextWdId < 2 ^ 64 := by
  rw [nextWdId]
  cases hread : (b.valueAt .bridgeNextWdId).bind (fun v => exactly (decodeNat v)) with
  | none => exact Nat.two_pow_pos 64
  | some =>
    obtain ⟨v, -, hv⟩ := Option.bind_eq_some_iff.mp hread
    exact (exactly_decodeNat.mp hv).1

end Frontiers

section Steps

variable {opened : List OpenedCell} {gapMask siblings : Calldata} {b : MultiBundle}
variable {a : Action} {signer : ActorId} {l2LogIndex : ℕ}
variable {policy : StepWrites.BudgetPolicy} {plan : BalancePlan}

/-- The value of a cell after the step under a policy and a plan. -/
def nextValue (policy : StepWrites.BudgetPolicy) (b : MultiBundle) (a : Action)
    (signer : ActorId) (l2LogIndex : ℕ) (plan : BalancePlan) (t : CellTag) : Option Bytes :=
  if t = .budgetPolicy then b.valueAt t
  else
    derivedValueUnder (.bounded policy.freeTier policy.actionCost policy.currentEpoch) b.valueAt a
      signer l2LogIndex plan t

/-- The bundle opens the cells of the step, and both sides can read them. -/
structure Reads (b : MultiBundle) (a : Action) (signer : ActorId)
    (policy : StepWrites.BudgetPolicy) (plan : BalancePlan) : Prop where
  nodup : (b.cells.map Prod.fst).Nodup
  cells : ∀ t, t ∈ b.cells.map Prod.fst ↔ t ∈ stepCells a signer b.nextWdId
  decodes : ∀ t ∈ stepCells a signer b.nextWdId, ∃ v, b.valueAt t = some v ∧ Decodes t v
  policy : ∃ pv, b.valueAt .budgetPolicy = some pv ∧ decodeBudgetPolicy pv = .ok policy
  plan : plannedBalances b.balanceReader a signer = some plan

omit [Keccak] in
theorem Reads.isSome (h : Reads b a signer policy plan) :
    ∀ t ∈ stepCells a signer b.nextWdId, (b.valueAt t).isSome := by
  intro t ht
  obtain ⟨v, hv, -⟩ := h.decodes t ht
  exact Option.isSome_iff_exists.mpr ⟨v, hv⟩

/-- The sizes and hashes that a step meets are those of real values. -/
structure StepFits (a : Action) (signer : ActorId) (l2LogIndex : ℕ) (b : MultiBundle) :
    Prop where
  keys : KeyInjectiveOn (stepCells a signer b.nextWdId)
  counters : CountersFit a signer b.valueAt
  before : ∀ t ∈ stepCells a signer b.nextWdId, ∀ v, b.valueAt t = some v → Hashable t v
  after : ∀ policy plan, Reads b a signer policy plan → ∀ t ∈ stepCells a signer b.nextWdId,
    ∀ v, nextValue policy b a signer l2LogIndex plan t = some v → Hashable t v

/-- The root before and the root after the step, folded from the opened values and the next. -/
def Folds (policy : StepWrites.BudgetPolicy) (b : MultiBundle) (a : Action) (signer : ActorId)
    (l2LogIndex : ℕ) (plan : BalancePlan) (preRoot r : Bytes) : Prop :=
  let expected := multiFrontierOf a signer b.nextWdId
  let pre := openedWith b.valueAt expected
  let post := openedWith (nextValue policy b a signer l2LogIndex plan) expected
  let levels := multiGapLevels smtDepth pre
  b.proof.isWellFormedFor levels = true ∧
    multiWalk smtDepth pre (expandMultiProof levels b.proof) = some (preRoot, []) ∧
    multiWalk smtDepth post (expandMultiProof levels b.proof) = some (r, [])

section Reordering

variable {b' : MultiBundle}

omit [Keccak] in
theorem nextWdId_perm (hval : b'.valueAt = b.valueAt) : b'.nextWdId = b.nextWdId := by
  rw [nextWdId, nextWdId, hval]

omit [Keccak] in
theorem nextValue_perm (hval : b'.valueAt = b.valueAt) :
    nextValue policy b' a signer l2LogIndex plan = nextValue policy b a signer l2LogIndex plan := by
  funext t
  rw [nextValue, nextValue, hval]

omit [Keccak] in
theorem Reads.of_perm (h : Reads b a signer policy plan) (hperm : b'.cells.Perm b.cells) :
    Reads b' a signer policy plan := by
  have hval := valueAt_perm hperm h.nodup
  have hreader : b'.balanceReader = b.balanceReader := by
    funext r x
    rw [balanceReader, balanceReader, hval]
  constructor
  · exact (hperm.map _).nodup_iff.mpr h.nodup
  · intro t
    rw [(hperm.map _).mem_iff, nextWdId_perm hval]
    exact h.cells t
  · rw [nextWdId_perm hval, hval]
    exact h.decodes
  · rw [hval]
    exact h.policy
  · rw [hreader]
    exact h.plan

theorem StepFits.of_perm (h : StepFits a signer l2LogIndex b)
    (hnodup : (b.cells.map Prod.fst).Nodup) (hperm : b'.cells.Perm b.cells) :
    StepFits a signer l2LogIndex b' := by
  have hval := valueAt_perm hperm hnodup
  constructor
  · rw [nextWdId_perm hval]
    exact h.keys
  · rw [hval]
    exact h.counters
  · rw [nextWdId_perm hval, hval]
    exact h.before
  · intro policy plan hreads
    rw [nextWdId_perm hval, nextValue_perm hval]
    exact h.after policy plan (hreads.of_perm hperm.symm)

theorem Folds.of_perm {preRoot r : Bytes} (h : Folds policy b a signer l2LogIndex plan preRoot r)
    (hval : b'.valueAt = b.valueAt) (hproof : b'.proof = b.proof) :
    Folds policy b' a signer l2LogIndex plan preRoot r := by
  rw [Folds, nextWdId_perm hval, nextValue_perm hval, hval, hproof]
  exact h

end Reordering

/-- The leaf word of a value that is there. -/
def leafOf (value : CellTag → Option Bytes) (t : CellTag) : Bytes32 :=
  leafWord t ((value t).getD [])

theorem openedWith_eq {value : CellTag → Option Bytes} {ts : List CellTag}
    (h : ∀ t ∈ ts, (value t).isSome) :
    openedWith value ts = openedCells (ts.map cellKey) (ts.map (leafOf value)) := by
  induction ts with
  | nil => rfl
  | cons t ts ih =>
    obtain ⟨v, hv⟩ := Option.isSome_iff_exists.mp (h t mem_cons_self)
    have ih' := ih (fun u hu => h u (mem_cons_of_mem t hu))
    rw [openedWith, filterMap_cons, hv]
    change (smtCellKey t, cellLeaf t v) :: openedWith value ts = _
    rw [ih', smtCellKey_eq, ← bytes_leafWord]
    simp [openedCells, leafOf, hv]

theorem length_openedWith {value : CellTag → Option Bytes} {ts : List CellTag} :
    (openedWith value ts).length = ts.length ↔ ∀ t ∈ ts, (value t).isSome := by
  rw [openedWith, length_filterMap_eq_countP, countP_eq_length]
  simp

section Values

variable (hb : a.FieldsBounded) (hidx : l2LogIndex < 2 ^ 64)
variable (hcorr : Corresponds opened gapMask siblings b)
variable (hreads : Reads b a signer policy plan) (hfits : StepFits a signer l2LogIndex b)

include hreads hcorr in
/-- The opened cells in the order of the walk are the frontier. -/
theorem pathOrder_forall₂ (hinj : KeyInjectiveOn (stepCells a signer b.nextWdId)) :
    List.Forall₂
      (fun x t => x.1.cell = cellOf t ∧ t ∈ stepCells a signer b.nextWdId ∧
        b.valueAt t = some x.1.preValue)
      (pathOrder opened) (multiFrontierOf a signer b.nextWdId) := by
  have hnodup : (opened.map OpenedCell.cell).Nodup := by
    rw [hcorr.map_cell]
    exact hreads.nodup.map cellOf_injective
  have hmem : ∀ c, c ∈ opened.map OpenedCell.cell ↔
      c ∈ (stepCells a signer b.nextWdId).map cellOf := by
    intro c
    rw [hcorr.map_cell, mem_map, mem_map]
    simp only [hreads.cells]
  have hcells := pathOrder_cells hinj hnodup hmem
  have hforall : List.Forall₂ (fun (x : OpenedCell × ℕ) t => x.1.cell = cellOf t)
      (pathOrder opened) (multiFrontierOf a signer b.nextWdId) := by
    rw [← forall₂_eq_eq_eq] at hcells
    exact (forall₂_map_left_iff.mp (forall₂_map_right_iff.mp hcells))
  refine ((forall₂_and_left _ _).mpr ⟨fun x hx => mem_pathOrder hx, hforall⟩).imp ?_
  rintro x t ⟨hx, hcell⟩
  have hval := hcorr.value_of_mem hreads.nodup hx hcell
  refine ⟨hcell, ?_, hval⟩
  rw [← hreads.cells]
  exact mem_map.mpr ⟨_, (valueAt_eq_some hreads.nodup).mp hval, rfl⟩

include hb hidx hcorr hreads hfits in
/-- The contract's leaves are the leaf words of the frontier, and every cell has a next value. -/
theorem multiLeaves_eq (hadj : faultProofAdjudicable a = true) :
    multiLeaves ((verifierWriteCells a signer b.nextWdId).map cellOf) opened a.tag
        (actionFieldsForL1 a) signer.toNat l2LogIndex =
      .ok ((multiFrontierOf a signer b.nextWdId).map (fun t =>
        (pathIndex (cellKey t), leafOf b.valueAt t,
          leafOf (nextValue policy b a signer l2LogIndex plan) t))) ∧
    ∀ t ∈ stepCells a signer b.nextWdId,
      (nextValue policy b a signer l2LogIndex plan t).isSome := by
  obtain ⟨pv, hpv, hpolicy⟩ := hreads.policy
  have hbal : ∀ k ∈ balanceKeys a signer, (readerOf b.valueAt k.1 k.2).isSome := by
    intro k hk
    obtain ⟨rest, hcells, -⟩ := verifierWriteCells_eq a signer b.nextWdId
    obtain ⟨v, hv, n, hn⟩ := hreads.decodes (.balance k.1 k.2)
      (.tail _ (hcells ▸ mem_append_left _ (mem_map_of_mem hk)))
    exact Option.isSome_iff_exists.mpr ⟨n, readerOf_eq_some.mpr ⟨v, hv, hn⟩⟩
  obtain ⟨kplan, new0, new1, new2, new3, hkplan, hplan, hagree⟩ :=
    @planMulti_agrees a signer b.nextWdId opened b.valueAt hadj hb hcorr.value hbal
  obtain rfl : kplan = plan := Option.some.inj (hkplan.symm.trans hreads.plan)
  have hvalue : ∀ (i : ℕ) (o : OpenedCell) (t : CellTag), o.cell = cellOf t →
      t ∈ stepCells a signer b.nextWdId → b.valueAt t = some o.preValue →
      ∃ v, newValueMulti opened i o ((verifierWriteCells a signer b.nextWdId).map cellOf) a.tag
          (actionFieldsForL1 a) signer.toNat l2LogIndex pv
          ⟨new0, new1, new2, new3, grantData a signer⟩ = .ok v ∧
        nextValue policy b a signer l2LogIndex kplan t = some v := by
    intro i o t hcell hmem hval
    rw [newValueMulti, nextValue]
    rcases mem_cons.mp hmem with rfl | hwritten
    · exact ⟨o.preValue, by rw [hcell]; rfl, by rw [if_pos rfl, hval]⟩
    have hkind := ne_budgetPolicy hwritten
    rw [if_neg hkind, if_neg (mt (kind_eq_policy hcell).mp hkind)]
    exact deriveValueMulti_agrees hb hcorr.value hreads.decodes hpv hpolicy hfits.counters
      (nextWdId_lt b) hidx hagree hwritten hcell hval
  have hforall := pathOrder_forall₂ hcorr hreads hfits.keys
  refine ⟨?_, ?_⟩
  · rw [multiLeaves]
    have hpv' : openedValue opened policyCell = .ok pv := (hcorr.value .budgetPolicy pv).mpr hpv
    rw [hpv', ok_bind, hplan, ok_bind]
    refine mapM_of_forall₂ (hforall.imp ?_)
    rintro ⟨o, i⟩ t ⟨hcell, hmem, hval⟩
    obtain ⟨v, hv, hnext⟩ := hvalue i o t hcell hmem hval
    have hpre : cellLeafHash o.cell o.preValue = .ok (leafWord t o.preValue) := by
      rw [hcell]
      exact cellLeafHash_eq (hfits.before t hmem _ hval)
    have hpost : cellLeafHash o.cell v = .ok (leafWord t v) := by
      rw [hcell]
      exact cellLeafHash_eq (hfits.after policy kplan hreads t hmem _ hnext)
    have hpath : pathOf o = pathIndex (cellKey t) := by
      rw [pathOf, hcell]
      rfl
    simp only [hpre, hv, hpost, hpath, ok_bind, leafOf, hval, hnext, Option.getD_some]
  · intro t hmem
    have hcellmem : cellOf t ∈ opened.map OpenedCell.cell := by
      rw [hcorr.map_cell]
      exact mem_map_of_mem ((hreads.cells t).mpr hmem)
    obtain ⟨o, ho, hcell⟩ := mem_map.mp hcellmem
    obtain ⟨v, -, hv⟩ := hvalue 0 o t hcell hmem (hcorr.value_of_mem hreads.nodup ho hcell)
    exact Option.isSome_iff_exists.mpr ⟨v, hv⟩

end Values

section Success

omit [Keccak] in
theorem epochBudget_mem (a : Action) (signer : ActorId) (n : ℕ) :
    .epochBudget signer ∈ verifierWriteCells a signer n := by
  cases a <;> simp [verifierWriteCells, writeCells]

omit [Keccak] in
/-- A value that the contract could derive came from a cell that it could read. -/
theorem deriveValueMulti_decodes
    {o : OpenedCell} {t : CellTag} {cells : List Cell} {i actionKind signer' l2LogIndex : ℕ}
    {fields pv v : Bytes} {cplan : StepPlan.Plan} (hcell : o.cell = cellOf t)
    (hbal : ∀ r x, t ≠ .balance r x) (hpol : t ≠ .budgetPolicy)
    (h : deriveValueMulti opened i o cells actionKind fields signer' l2LogIndex pv cplan = .ok v) :
    Decodes t o.preValue ∧ (∀ x, t = .epochBudget x → ∃ p, decodeBudgetPolicy pv = .ok p) := by
  rw [deriveValueMulti, hcell] at h
  cases t with
  | balance r x => exact absurd rfl (hbal r x)
  | budgetPolicy => exact absurd rfl hpol
  | nonce | bridgeNextWdId =>
    obtain ⟨n, hn, -⟩ := bind_eq_ok.mp (show deriveNonce o.preValue = .ok v from h)
    exact ⟨⟨n, hn⟩, fun y hy => by cases hy⟩
  | epochBudget =>
    obtain ⟨sv, -, h⟩ := bind_eq_ok.mp h
    obtain ⟨p, hp, h⟩ := bind_eq_ok.mp h
    obtain ⟨sb, -, h⟩ := bind_eq_ok.mp h
    obtain ⟨tb, htb, -⟩ := bind_eq_ok.mp h
    exact ⟨⟨tb, htb⟩, fun _ _ => ⟨p, hp⟩⟩
  | _ => exact ⟨trivial, fun y hy => by cases hy⟩

/-- If the contract gets as far as the walk then the bundle could be read. -/
theorem reads_of_multiLeaves {leaves : List (Bytes32 × Bytes32 × Bytes32)}
    (hadj : faultProofAdjudicable a = true) (hb : a.FieldsBounded)
    (hcorr : Corresponds opened gapMask siblings b) (hnodup : (b.cells.map Prod.fst).Nodup)
    (hcells : ∀ t, t ∈ b.cells.map Prod.fst ↔ t ∈ stepCells a signer b.nextWdId)
    (h : multiLeaves ((verifierWriteCells a signer b.nextWdId).map cellOf) opened a.tag
        (actionFieldsForL1 a) signer.toNat l2LogIndex = .ok leaves) :
    ∃ policy plan, Reads b a signer policy plan := by
  obtain ⟨pv, hpv, h⟩ := bind_eq_ok.mp h
  obtain ⟨cplan, hcplan, h⟩ := bind_eq_ok.mp h
  have hpv' : b.valueAt .budgetPolicy = some pv := (hcorr.value .budgetPolicy pv).mp hpv
  have hbal := planMulti_reads hcorr.value hcplan
  have hwritten : ∀ t ∈ verifierWriteCells a signer b.nextWdId,
      ∃ v, b.valueAt t = some v ∧ Decodes t v ∧
        (∀ x, t = .epochBudget x → ∃ p, decodeBudgetPolicy pv = .ok p) := by
    intro t ht
    have hcellmem : cellOf t ∈ opened.map OpenedCell.cell := by
      rw [hcorr.map_cell]
      exact mem_map_of_mem ((hcells t).mpr (.tail _ ht))
    obtain ⟨o, ho, hcell⟩ := mem_map.mp hcellmem
    have hval := hcorr.value_of_mem hnodup ho hcell
    refine ⟨o.preValue, hval, ?_⟩
    by_cases hbalance : ∃ r x, t = .balance r x
    · obtain ⟨r, x, rfl⟩ := hbalance
      obtain ⟨n, hn⟩ := Option.isSome_iff_exists.mp (hbal _ (balanceKey_mem ht))
      obtain ⟨v, hv, hdec⟩ := readerOf_eq_some.mp hn
      obtain rfl : v = o.preValue := Option.some.inj (hv.symm.trans hval)
      exact ⟨⟨n, hdec⟩, fun y hy => by cases hy⟩
    · obtain ⟨i, hi⟩ : ∃ i, (o, i) ∈ pathOrder opened := by
        obtain ⟨i, hlt, hget⟩ := mem_iff_getElem.mp ho
        refine ⟨i, (pathOrder_perm opened).mem_iff.mpr ?_⟩
        rw [mk_mem_zipIdx_iff_getElem?, List.getElem?_eq_some_iff]
        exact ⟨hlt, hget⟩
      obtain ⟨y, hy⟩ := forall_of_mapM h _ hi
      simp only [bind_eq_ok] at hy
      obtain ⟨-, -, v, hv, -⟩ := hy
      have hpol := ne_budgetPolicy ht
      have hnot : o.cell.kind ≠ CELL_BUDGET_POLICY := mt (kind_eq_policy hcell).mp hpol
      have hv' : deriveValueMulti opened i o _ a.tag _ signer.toNat l2LogIndex pv cplan = .ok v :=
        (if_neg hnot).symm.trans hv
      exact deriveValueMulti_decodes hcell (fun r x hrx => hbalance ⟨r, x, hrx⟩) hpol hv'
  obtain ⟨-, -, -, hpolicy⟩ := hwritten _ (epochBudget_mem a signer b.nextWdId)
  obtain ⟨policy, hpolicy⟩ := hpolicy signer rfl
  obtain ⟨plan, -, -, -, -, hplan, -⟩ :=
    @planMulti_agrees a signer b.nextWdId opened b.valueAt hadj hb hcorr.value hbal
  refine ⟨policy, plan, hnodup, hcells, ?_, ⟨pv, hpv', hpolicy⟩, hplan⟩
  intro t ht
  rcases mem_cons.mp ht with rfl | ht
  · exact ⟨pv, hpv', policy, hpolicy⟩
  · obtain ⟨v, hv, hdec, -⟩ := hwritten t ht
    exact ⟨v, hv, hdec⟩

omit [Keccak] in
/-- A value that the kernel could derive came from a cell that it could read. -/
theorem derivedCellValue_decodes {pv : Bytes} {t : CellTag} (hbal : ∀ r x, t ≠ .balance r x)
    (hpol : t ≠ .budgetPolicy) (hsome : (b.valueAt t).isSome)
    (h : (derivedCellValue b.valueAt pv a signer l2LogIndex plan t).isSome) :
    (∃ v, b.valueAt t = some v ∧ Decodes t v) ∧
      (∀ x, t = .epochBudget x → ∃ p, exactly (BudgetPolicy.decode pv) = some p) := by
  obtain ⟨v, hv⟩ := Option.isSome_iff_exists.mp hsome
  obtain ⟨w, hw⟩ := Option.isSome_iff_exists.mp h
  cases t with
  | balance r x => exact absurd rfl (hbal r x)
  | budgetPolicy => exact absurd rfl hpol
  | nonce | bridgeNextWdId =>
    obtain ⟨v', hv', hw⟩ := Option.bind_eq_some_iff.mp hw
    obtain ⟨n, hn, -⟩ := Option.bind_eq_some_iff.mp hw
    exact ⟨⟨v', hv', n, decodeNonce_eq_ok.mpr (exactly_decodeNat.mp hn)⟩, fun y hy => by cases hy⟩
  | epochBudget =>
    obtain ⟨sv, -, hw⟩ := Option.bind_eq_some_iff.mp hw
    obtain ⟨tv, htv, hw⟩ := Option.bind_eq_some_iff.mp hw
    obtain ⟨p, hp, hw⟩ := Option.bind_eq_some_iff.mp hw
    obtain ⟨sb, -, hw⟩ := Option.bind_eq_some_iff.mp hw
    obtain ⟨tb, htb, -⟩ := Option.bind_eq_some_iff.mp hw
    have hdec := decodeActorBudget_eq_ok.mpr (ActorBudget.exactly_decode.mp htb)
    exact ⟨⟨tv, htv, tb, hdec⟩, fun _ _ => ⟨p, hp⟩⟩
  | _ => exact ⟨⟨v, hv, trivial⟩, fun y hy => by cases hy⟩

omit [Keccak] in
/-- If the kernel can derive every value then the bundle could be read. -/
theorem reads_of_derived {pv : Bytes} (hnodup : (b.cells.map Prod.fst).Nodup)
    (hcells : ∀ t, t ∈ b.cells.map Prod.fst ↔ t ∈ stepCells a signer b.nextWdId)
    (hpv : b.valueAt .budgetPolicy = some pv)
    (hplan : plannedBalances b.balanceReader a signer = some plan)
    (hpre : ∀ t ∈ stepCells a signer b.nextWdId, (b.valueAt t).isSome)
    (hpost : ∀ t ∈ stepCells a signer b.nextWdId, (if t = .budgetPolicy then b.valueAt t
      else derivedCellValue b.valueAt pv a signer l2LogIndex plan t).isSome) :
    ∃ policy, policy.actionCost ≠ 0 ∧ exactly (BudgetPolicy.decode pv) =
        some (.bounded policy.freeTier policy.actionCost policy.currentEpoch) ∧
      Reads b a signer policy plan := by
  have hderived : ∀ t ∈ verifierWriteCells a signer b.nextWdId,
      (derivedCellValue b.valueAt pv a signer l2LogIndex plan t).isSome := by
    intro t ht
    have hsome := hpost t (.tail _ ht)
    rwa [if_neg (ne_budgetPolicy ht)] at hsome
  have hsigner := epochBudget_mem a signer b.nextWdId
  obtain ⟨p, hp⟩ := (derivedCellValue_decodes (by simp) (by simp)
    (hpre _ (.tail _ hsigner)) (hderived _ hsigner)).2 signer rfl
  obtain ⟨f, c, e, -, -, -, hcost, rfl, -⟩ := BudgetPolicy.exactly_decode.mp hp
  have hdecode := (exactly_decode_policy.mp hp).1
  refine ⟨⟨f, c, e⟩, hcost, hp, hnodup, hcells, ?_, ⟨pv, hpv, hdecode⟩, hplan⟩
  intro t ht
  rcases mem_cons.mp ht with rfl | ht
  · exact ⟨pv, hpv, _, hdecode⟩
  by_cases hbalance : ∃ r x, t = .balance r x
  · obtain ⟨r, x, rfl⟩ := hbalance
    have hbal := plannedBalances_reads hplan _ (balanceKey_mem ht)
    obtain ⟨n, hn⟩ := Option.isSome_iff_exists.mp hbal
    obtain ⟨v, hv, hdec⟩ := readerOf_eq_some.mp hn
    exact ⟨v, hv, n, hdec⟩
  · exact (derivedCellValue_decodes (fun r x hrx => hbalance ⟨r, x, hrx⟩) (ne_budgetPolicy ht)
      (hpre t (.tail _ ht)) (hderived t ht)).1

end Success

end Steps

end Knomosis.StepVM
