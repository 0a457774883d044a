import Knomosis.StepVM.Readings

/-!
# The step of the contract and the step of the kernel

The contract's step and the kernel's verifier accept the same bundles and derive
the same root, except for one thing.  The kernel refuses a budget policy under
which actions are free; the contract does not.
-/

namespace Knomosis.StepVM

open Lib Contracts Smt Kernel FaultProof List
open StepWrites

section Inversion

variable [Keccak]

/-- What an executed step has gone through. -/
theorem executeStepToRootMulti_eq_ok
    {preRoot r : Bytes32} {actionKind signer l2LogIndex : ℕ} {fields : Bytes}
    {opened : List OpenedCell} {gapMask siblings : Calldata} :
    executeStepToRootMulti preRoot actionKind fields signer l2LogIndex opened gapMask siblings =
        .ok r ↔ opened.length ≤ StepVM.MAX_CELL_OPENINGS ∧ isAdjudicable actionKind = true ∧
      ∃ nextWdIdPre cells leaves, nextWdIdPreMulti opened = .ok nextWdIdPre ∧
        deriveWriteSet actionKind fields signer nextWdIdPre = .ok cells ∧
        requireFrontier opened cells = .ok () ∧
        multiLeaves cells opened actionKind fields signer l2LogIndex = .ok leaves ∧
        multiWalkPair (leaves.map (·.1)) (leaves.map (·.2.1)) (leaves.map (·.2.2)) gapMask
          siblings precomputeEmptySubtreeHashes = .ok (preRoot, r) := by
  rw [executeStepToRootMulti, guard_eq_ok, guard_eq_ok, Nat.not_lt]
  simp only [Bool.not_eq_true', Bool.not_eq_false, bind_eq_ok]
  refine and_congr_right fun _ => and_congr_right fun _ => ?_
  constructor
  · rintro ⟨n, hn, cells, hcells, ⟨⟩, hfrontier, leaves, hleaves, h⟩
    refine ⟨n, cells, leaves, hn, hcells, hfrontier, hleaves, ?_⟩
    split at h
    · cases h
    next hwalk =>
      obtain ⟨hroot, hr⟩ := guard_eq_ok.mp h
      rw [hwalk, not_not.mp hroot, Except.ok.inj hr]
  · rintro ⟨n, cells, leaves, hn, hcells, hfrontier, hleaves, hwalk⟩
    refine ⟨n, hn, cells, hcells, (), hfrontier, leaves, hleaves, ?_⟩
    simp [hwalk]

/-- What an accepted bundle has gone through. -/
theorem verifierPostRootMulti_eq_some
    {preRoot r : Bytes} {a : Action} {signer : ActorId} {l2LogIndex : ℕ} {b : MultiBundle} :
    verifierPostRootMulti preRoot a signer l2LogIndex b = some r ↔ faultProofAdjudicable a = true ∧
      frontierShapeOk (stepCells a signer b.nextWdId) (b.cells.map Prod.fst) = true ∧
      ∃ policyValue plan, b.valueAt .budgetPolicy = some policyValue ∧
        plannedBalances b.balanceReader a signer = some plan ∧
        (let expected := multiFrontierOf a signer b.nextWdId
         let pre := openedWith b.valueAt expected
         let post := openedWith (fun t =>
            if t = .budgetPolicy then b.valueAt t
            else derivedCellValue b.valueAt policyValue a signer l2LogIndex plan t)
          expected
         let levels := multiGapLevels smtDepth pre
         pre.length = expected.length ∧ post.length = expected.length ∧
         b.proof.isWellFormedFor levels = true ∧
         multiWalk smtDepth pre (expandMultiProof levels b.proof) = some (preRoot, []) ∧
         multiWalk smtDepth post (expandMultiProof levels b.proof) = some (r, [])) := by
  by_cases hadj : faultProofAdjudicable a = true
  swap
  · simp [verifierPostRootMulti, hadj]
  by_cases hshape : frontierShapeOk (stepCells a signer b.nextWdId) (b.cells.map Prod.fst) = true
  swap
  · simp [verifierPostRootMulti, hshape]
  rw [verifierPostRootMulti, if_neg (not_not.mpr hadj), if_neg (not_not.mpr hshape)]
  simp only [hadj, hshape, true_and, Option.bind_eq_bind, Option.bind_eq_some_iff]
  constructor
  · rintro ⟨pv, hpv, plan, hplan, h⟩
    refine ⟨pv, plan, hpv, hplan, ?_⟩
    split_ifs at h with h1 h2 h3
    split at h
    next root hwalk =>
      split_ifs at h with h4
      split at h
      next root' hwalk' =>
        refine ⟨not_not.mp h1, not_not.mp h2, h3, ?_, ?_⟩
        · rw [hwalk, not_not.mp h4]
        · rw [hwalk', Option.some.inj h]
      · cases h
    · cases h
  · rintro ⟨pv, plan, hpv, hplan, h1, h2, h3, h4, h5⟩
    refine ⟨pv, hpv, plan, hplan, ?_⟩
    simp [h1, h2, h3, h4, h5]

end Inversion

section Agreement

variable [Keccak] {opened : List OpenedCell} {gapMask siblings : Calldata} {b : MultiBundle}
variable {a : Action} {signer : ActorId} {l2LogIndex : ℕ}
variable {policy : StepWrites.BudgetPolicy} {plan : BalancePlan}

section Roots

variable (hadj : faultProofAdjudicable a = true) (hb : a.FieldsBounded)
variable (hidx : l2LogIndex < 2 ^ 64) (hcorr : Corresponds opened gapMask siblings b)
variable (hfits : StepFits a signer l2LogIndex b)

omit [Keccak] in
theorem length_stepCells (a : Action) (signer : ActorId) (n : ℕ) :
    (stepCells a signer n).length ≤ 32 := by
  cases a <;> simp [stepCells, verifierWriteCells, writeCells]

omit [Keccak] in
theorem length_le_of_nodup {ts : List CellTag} {n : ℕ} (hnodup : ts.Nodup)
    (hsub : ∀ t ∈ ts, t ∈ stepCells a signer n) : ts.length ≤ 32 :=
  (subperm_of_subset hnodup hsub).length_le.trans (length_stepCells a signer n)

theorem mem_multiFrontierOf {n : ℕ} (hinj : KeyInjectiveOn (stepCells a signer n)) (t : CellTag) :
    t ∈ multiFrontierOf a signer n ↔ t ∈ stepCells a signer n :=
  (frontierOf_spec hinj).2 t

theorem frontier_keys {n : ℕ} (hinj : KeyInjectiveOn (stepCells a signer n)) :
    let keys := (multiFrontierOf a signer n).map cellKey
    keys ≠ [] ∧ (keys.map pathIndex).Pairwise (· < ·) ∧ keys.length ≤ MAX_OPENED_CELLS := by
  obtain ⟨hranked, hmem⟩ := frontierOf_spec hinj
  refine ⟨?_, ?_, ?_⟩
  · rw [Ne, map_eq_nil_iff]
    exact ne_nil_of_mem ((hmem .budgetPolicy).mpr mem_cons_self)
  · rw [map_map, pairwise_map]
    exact hranked.imp (fun h => BitVec.lt_def.mpr h)
  · rw [length_map]
    exact length_le_of_nodup hranked.nodup (fun t ht => (hmem t).mp ht)

include hcorr in
/-- The walk over the contract's leaves is the two folds of the kernel. -/
theorem multiWalkPair_leaves (hinj : KeyInjectiveOn (stepCells a signer b.nextWdId))
    (hpre : ∀ t ∈ stepCells a signer b.nextWdId, (b.valueAt t).isSome)
    (hpost : ∀ t ∈ stepCells a signer b.nextWdId,
      (nextValue policy b a signer l2LogIndex plan t).isSome) {preRoot r : Bytes32} :
    let leaves := (multiFrontierOf a signer b.nextWdId).map (fun t =>
      (pathIndex (cellKey t), leafOf b.valueAt t,
        leafOf (nextValue policy b a signer l2LogIndex plan) t))
    multiWalkPair (leaves.map (·.1)) (leaves.map (·.2.1)) (leaves.map (·.2.2)) gapMask siblings
        precomputeEmptySubtreeHashes = .ok (preRoot, r) ↔
      Folds policy b a signer l2LogIndex plan (bytes32Bytes preRoot) (bytes32Bytes r) := by
  have hmem := mem_multiFrontierOf hinj
  obtain ⟨hne, hasc, hcap⟩ := frontier_keys hinj
  intro leaves
  have hkeys : leaves.map (·.1) =
      ((multiFrontierOf a signer b.nextWdId).map cellKey).map pathIndex := by
    simp [leaves, Function.comp_def]
  have hpres : leaves.map (·.2.1) =
      (multiFrontierOf a signer b.nextWdId).map (leafOf b.valueAt) := by
    simp [leaves, Function.comp_def]
  have hposts : leaves.map (·.2.2) = (multiFrontierOf a signer b.nextWdId).map
      (leafOf (nextValue policy b a signer l2LogIndex plan)) := by
    simp [leaves, Function.comp_def]
  rw [hkeys, hpres, hposts, multiWalkPair_eq_ok hne hcap (by simp) (by simp) hasc hcorr.proof.symm
    rfl, Folds, openedWith_eq (fun t ht => hpre t ((hmem t).mp ht)),
    openedWith_eq (fun t ht => hpost t ((hmem t).mp ht))]

/-- The bundle opens its cells under the root. -/
def Opens (b : MultiBundle) (a : Action) (signer : ActorId) (preRoot : Bytes) : Prop :=
  let pre := openedWith b.valueAt (multiFrontierOf a signer b.nextWdId)
  let levels := multiGapLevels smtDepth pre
  b.proof.isWellFormedFor levels = true ∧
    multiWalk smtDepth pre (expandMultiProof levels b.proof) = some (preRoot, [])

include hadj hb hidx hcorr hfits in
/-- On a wire of the right shape the two folds give two words. -/
theorem exists_roots (hreads : Reads b a signer policy plan)
    (hwf : b.proof.isWellFormedFor (multiGapLevels smtDepth
      (openedWith b.valueAt (multiFrontierOf a signer b.nextWdId))) = true) :
    ∃ w w' : Bytes32, ∀ preRoot, (Opens b a signer preRoot ↔ preRoot = bytes32Bytes w) ∧
      ∀ r, Folds policy b a signer l2LogIndex plan preRoot r ↔
        preRoot = bytes32Bytes w ∧ r = bytes32Bytes w' := by
  have hmem := mem_multiFrontierOf hfits.keys
  obtain ⟨hne, hasc, -⟩ := frontier_keys hfits.keys
  have hpost := (multiLeaves_eq hb hidx hcorr hreads hfits hadj).2
  have hpre' := openedWith_eq (fun t ht => hreads.isSome t ((hmem t).mp ht))
  have hpost' := openedWith_eq (fun t ht => hpost t ((hmem t).mp ht))
  rw [hpre'] at hwf
  have hlen : ∀ f : CellTag → Bytes32, ((multiFrontierOf a signer b.nextWdId).map f).length =
      ((multiFrontierOf a signer b.nextWdId).map cellKey).length := fun f => by simp
  obtain ⟨w, w', gc, -, hw, hw', -⟩ := walkLeaves_agrees hne (hlen (leafOf b.valueAt))
    (hlen (leafOf (nextValue policy b a signer l2LogIndex plan))) hasc hcorr.proof.symm rfl hwf
  refine ⟨w, w', fun preRoot => ⟨?_, fun r => ?_⟩⟩
  · rw [Opens, hpre', hw]
    simp [hwf, eq_comm]
  · rw [Folds, hpre', hpost', hw, hw']
    simp [hwf, eq_comm]

include hadj hb hidx hcorr hfits in
theorem folds_iff_opens (hreads : Reads b a signer policy plan) {preRoot : Bytes} :
    ∃ w : Bytes32, ∀ r, Folds policy b a signer l2LogIndex plan preRoot r ↔
      Opens b a signer preRoot ∧ r = bytes32Bytes w := by
  by_cases hwf : b.proof.isWellFormedFor
      (multiGapLevels smtDepth (openedWith b.valueAt (multiFrontierOf a signer b.nextWdId))) = true
  · obtain ⟨w, w', hroots⟩ := exists_roots hadj hb hidx hcorr hfits hreads hwf
    obtain ⟨hopens, hfolds⟩ := hroots preRoot
    refine ⟨w', fun r => ?_⟩
    rw [hfolds, hopens]
  · refine ⟨0, fun r => ?_⟩
    rw [Folds, Opens]
    simp [hwf]

include hadj hb hidx hcorr hfits in
/-- The contract executes a step exactly if the bundle can be read and folds to the root before. -/
theorem executeStepToRootMulti_iff {preRoot r : Bytes32} :
    executeStepToRootMulti preRoot a.tag (actionFieldsForL1 a) signer.toNat l2LogIndex opened
        gapMask siblings = .ok r ↔ ∃ policy plan, Reads b a signer policy plan ∧
        Folds policy b a signer l2LogIndex plan (bytes32Bytes preRoot) (bytes32Bytes r) := by
  rw [executeStepToRootMulti_eq_ok]
  constructor
  · rintro ⟨-, -, n, cells, leaves, hn, hcells, hfrontier, hleaves, hwalk⟩
    obtain ⟨rfl, -⟩ := (nextWdIdPreMulti_eq_ok hcorr).mp hn
    obtain rfl := Except.ok.inj ((deriveWriteSet_eq hadj hb signer b.nextWdId).symm.trans hcells)
    obtain ⟨hnodup, hsame⟩ := (requireFrontier_iff hcorr b.nextWdId).mp hfrontier
    obtain ⟨policy, plan, hreads⟩ := reads_of_multiLeaves hadj hb hcorr hnodup hsame hleaves
    obtain ⟨hleaves', hpost⟩ := multiLeaves_eq hb hidx hcorr hreads hfits hadj
    obtain rfl := Except.ok.inj (hleaves'.symm.trans hleaves)
    exact ⟨policy, plan, hreads,
      (multiWalkPair_leaves hcorr hfits.keys hreads.isSome hpost).mp hwalk⟩
  · rintro ⟨policy, plan, hreads, hfolds⟩
    obtain ⟨hleaves, hpost⟩ := multiLeaves_eq hb hidx hcorr hreads hfits hadj
    refine ⟨?_, ?_, b.nextWdId, _, _, ?_, deriveWriteSet_eq hadj hb signer b.nextWdId,
      (requireFrontier_iff hcorr b.nextWdId).mpr ⟨hreads.nodup, hreads.cells⟩, hleaves,
      (multiWalkPair_leaves hcorr hfits.keys hreads.isSome hpost).mpr hfolds⟩
    · have hlen := congrArg List.length hcorr.map_cell
      rw [length_map, length_map] at hlen
      rw [hlen]
      exact length_le_of_nodup hreads.nodup (fun t ht => (hreads.cells t).mp ht)
    · rw [isAdjudicable_tag, hadj]
    · refine (nextWdIdPreMulti_eq_ok hcorr).mpr ⟨rfl, ?_⟩
      intro v hv
      have hmem : .bridgeNextWdId ∈ b.cells.map Prod.fst :=
        mem_map.mpr ⟨_, (valueAt_eq_some hreads.nodup).mp hv, rfl⟩
      obtain ⟨w, hw, hdec⟩ := hreads.decodes .bridgeNextWdId ((hreads.cells _).mp hmem)
      obtain rfl := Option.some.inj (hw.symm.trans hv)
      exact hdec

include hadj hb hidx hcorr hfits in
/-- The kernel accepts a bundle exactly if it can be read, folds, and its actions cost something. -/
theorem verifierPostRootMulti_iff {preRoot r : Bytes} :
    verifierPostRootMulti preRoot a signer l2LogIndex b = some r ↔
      ∃ policy plan, Reads b a signer policy plan ∧ policy.actionCost ≠ 0 ∧
        Folds policy b a signer l2LogIndex plan preRoot r := by
  have hmem := mem_multiFrontierOf hfits.keys
  -- once the policy is read, the two derivations are the same function
  have hsame : ∀ {policy plan pv},
      exactly (BudgetPolicy.decode pv) =
        some (.bounded policy.freeTier policy.actionCost policy.currentEpoch) →
      (fun t => if t = .budgetPolicy then b.valueAt t
        else derivedCellValue b.valueAt pv a signer l2LogIndex plan t) =
        nextValue policy b a signer l2LogIndex plan := by
    intro policy plan pv hp
    funext t
    rw [nextValue, derivedCellValue_eq hp]
  rw [verifierPostRootMulti_eq_some, frontierShapeOk_iff hfits.keys]
  constructor
  · rintro ⟨-, ⟨hnodup, hcells⟩, pv, plan, hpv, hplan, hprelen, hpostlen, hwf, hpre, hpost⟩
    have hpreSome := length_openedWith.mp hprelen
    have hpostSome := length_openedWith.mp hpostlen
    obtain ⟨policy, hcost, hp, hreads⟩ := reads_of_derived hnodup hcells hpv hplan
      (fun t ht => hpreSome t ((hmem t).mpr ht)) (fun t ht => hpostSome t ((hmem t).mpr ht))
    refine ⟨policy, plan, hreads, hcost, hwf, hpre, ?_⟩
    rwa [hsame hp] at hpost
  · rintro ⟨policy, plan, hreads, hcost, hwf, hpre, hpost⟩
    obtain ⟨pv, hpv, hdecode⟩ := hreads.policy
    have hp := exactly_decode_policy.mpr ⟨hdecode, hcost⟩
    have hsomes := (multiLeaves_eq hb hidx hcorr hreads hfits hadj).2
    refine ⟨hadj, ⟨hreads.nodup, hreads.cells⟩, pv, plan, hpv, hreads.plan, ?_, ?_, hwf, hpre, ?_⟩
    · exact length_openedWith.mpr (fun t ht => hreads.isSome t ((hmem t).mp ht))
    · rw [hsame hp]
      exact length_openedWith.mpr (fun t ht => hsomes t ((hmem t).mp ht))
    · rwa [hsame hp]

include hadj hb hidx hcorr hfits in
/-- A bundle that can be read, with a wire of the right shape, is executed under some root. -/
theorem exists_executed (hreads : Reads b a signer policy plan)
    (hwf : b.proof.isWellFormedFor (multiGapLevels smtDepth
      (openedWith b.valueAt (multiFrontierOf a signer b.nextWdId))) = true) :
    ∃ preRoot w, executeStepToRootMulti preRoot a.tag (actionFieldsForL1 a) signer.toNat
      l2LogIndex opened gapMask siblings = .ok w := by
  obtain ⟨w, w', hroots⟩ := exists_roots hadj hb hidx hcorr hfits hreads hwf
  exact ⟨w, w', (executeStepToRootMulti_iff hadj hb hidx hcorr hfits).mpr
    ⟨policy, plan, hreads, ((hroots _).2 _).mpr ⟨rfl, rfl⟩⟩⟩

/-- The step opens, under the root before, a budget policy under which actions are free. -/
def FreeStep (preRoot : Bytes) (a : Action) (signer : ActorId) (b : MultiBundle) : Prop :=
  ∃ policy plan, Reads b a signer policy plan ∧ policy.actionCost = 0 ∧ Opens b a signer preRoot

include hadj hb hidx hcorr hfits in
/-- On one bundle, the kernel accepts what the contract executes, unless actions are free. -/
theorem bundle_agrees {preRoot : Bytes32} {r : Bytes} :
    verifierPostRootMulti (bytes32Bytes preRoot) a signer l2LogIndex b = some r ↔
      (∃ w, executeStepToRootMulti preRoot a.tag (actionFieldsForL1 a) signer.toNat l2LogIndex
          opened gapMask siblings = .ok w ∧ r = bytes32Bytes w) ∧
        ¬ FreeStep (bytes32Bytes preRoot) a signer b := by
  simp only [executeStepToRootMulti_iff hadj hb hidx hcorr hfits]
  rw [verifierPostRootMulti_iff hadj hb hidx hcorr hfits]
  constructor
  · rintro ⟨policy, plan, hreads, hcost, hfolds⟩
    obtain ⟨w, hw⟩ := folds_iff_opens hadj hb hidx hcorr hfits hreads
    obtain ⟨-, rfl⟩ := (hw r).mp hfolds
    refine ⟨⟨w, ⟨policy, plan, hreads, hfolds⟩, rfl⟩, ?_⟩
    rintro ⟨policy', plan', hreads', hfree, -⟩
    obtain ⟨pv, hpv, hpolicy⟩ := hreads.policy
    obtain ⟨pv', hpv', hpolicy'⟩ := hreads'.policy
    obtain rfl := Option.some.inj (hpv.symm.trans hpv')
    obtain rfl := Except.ok.inj (hpolicy.symm.trans hpolicy')
    exact hcost hfree
  · rintro ⟨⟨w, ⟨policy, plan, hreads, hfolds⟩, rfl⟩, hpaid⟩
    obtain ⟨w', hw'⟩ := folds_iff_opens hadj hb hidx hcorr hfits hreads
    refine ⟨policy, plan, hreads, ?_, hfolds⟩
    intro hfree
    exact hpaid ⟨policy, plan, hreads, hfree, ((hw' _).mp hfolds).1⟩

include hadj hb hidx hcorr hfits in
theorem executes_of_freeStep {preRoot : Bytes32} (h : FreeStep (bytes32Bytes preRoot) a signer b) :
    ∃ w, executeStepToRootMulti preRoot a.tag (actionFieldsForL1 a) signer.toNat l2LogIndex
      opened gapMask siblings = .ok w := by
  obtain ⟨policy, plan, hreads, -, hopens⟩ := h
  obtain ⟨w, hw⟩ := folds_iff_opens hadj hb hidx hcorr hfits hreads
  exact ⟨w, (executeStepToRootMulti_iff hadj hb hidx hcorr hfits).mpr
    ⟨policy, plan, hreads, (hw _).mpr ⟨hopens, rfl⟩⟩⟩

end Roots

/-- The contract returns a root exactly if the kernel returns it on the corresponding bundle. -/
def StepsAgree (preRoot : Bytes32) (a : Action) (signer : ActorId) (l2LogIndex : ℕ)
    (opened : List OpenedCell) (gapMask siblings : Calldata) : Prop :=
  ∀ r, (∃ w, executeStepToRootMulti preRoot (actionKindByte a).toNat (actionFieldsForL1 a)
      signer.toNat l2LogIndex opened gapMask siblings = .ok w ∧ r = bytes32Bytes w) ↔
    ∃ b, Corresponds opened gapMask siblings b ∧
      verifierPostRootMulti (bytes32Bytes preRoot) a signer l2LogIndex b = some r

/-- Opened cells that the contract executes stand for a bundle. -/
theorem exists_bundle {preRoot w : Bytes32} (hadj : faultProofAdjudicable a = true)
    (hb : a.FieldsBounded)
    (h : executeStepToRootMulti preRoot a.tag (actionFieldsForL1 a) signer.toNat l2LogIndex
      opened gapMask siblings = .ok w) :
    ∃ b, Corresponds opened gapMask siblings b ∧ (b.cells.map Prod.fst).Nodup := by
  obtain ⟨-, -, n, cells, -, -, hcells, hfrontier, -⟩ := executeStepToRootMulti_eq_ok.mp h
  obtain rfl := Except.ok.inj ((deriveWriteSet_eq hadj hb signer n).symm.trans hcells)
  obtain ⟨hnodup, hsame⟩ := (requireFrontier_eq_ok (policyCell_notMem a signer n)).mp hfrontier
  obtain ⟨b, hcorr⟩ := exists_corresponds gapMask siblings (fun o (ho : o ∈ opened) => by
    have hmem := (hsame o.cell).mp (mem_map_of_mem ho)
    rw [← stepCells_map] at hmem
    obtain ⟨t, -, ht⟩ := mem_map.mp hmem
    exact ⟨t, ht.symm⟩)
  refine ⟨b, hcorr, List.Nodup.of_map cellOf ?_⟩
  rwa [← hcorr.map_cell]

/-- A step that executes also executes with its cells in another order. -/
theorem executes_of_perm {preRoot w : Bytes32} {opened' : List OpenedCell}
    (hadj : faultProofAdjudicable a = true) (hb : a.FieldsBounded) (hidx : l2LogIndex < 2 ^ 64)
    (hfits : ∀ b, Corresponds opened gapMask siblings b → (b.cells.map Prod.fst).Nodup →
      StepFits a signer l2LogIndex b) (hperm : opened'.Perm opened)
    (h : executeStepToRootMulti preRoot a.tag (actionFieldsForL1 a) signer.toNat l2LogIndex
      opened gapMask siblings = .ok w) :
    executeStepToRootMulti preRoot a.tag (actionFieldsForL1 a) signer.toNat l2LogIndex
      opened' gapMask siblings = .ok w := by
  obtain ⟨b, hcorr, hnodup⟩ := exists_bundle hadj hb h
  have hfits := hfits b hcorr hnodup
  obtain ⟨policy, plan, hreads, hfolds⟩ :=
    (executeStepToRootMulti_iff hadj hb hidx hcorr hfits).mp h
  obtain ⟨b', hcorr', hperm'⟩ := hcorr.perm hperm
  exact (executeStepToRootMulti_iff hadj hb hidx hcorr'
    (hfits.of_perm hnodup hperm')).mpr
    ⟨policy, plan, hreads.of_perm hperm', hfolds.of_perm (valueAt_perm hperm' hnodup)
      (hcorr'.proof.trans hcorr.proof.symm)⟩

/-- The two steps agree exactly if the opened cells do not show a policy of free actions under
the root before.  The order of the opened cells never matters to the contract. -/
theorem step_vm_agrees_iff
    (preRoot : Bytes32)
    (a : Action)
    (signer : ActorId)
    (l2LogIndex : ℕ)
    (opened : List OpenedCell)
    (gapMask siblings : Calldata)
    (hadj : faultProofAdjudicable a = true)
    (hb : a.FieldsBounded)
    (hidx : l2LogIndex < 2 ^ 64)
    (hfits : ∀ b, Corresponds opened gapMask siblings b → StepFits a signer l2LogIndex b) :
    (StepsAgree preRoot a signer l2LogIndex opened gapMask siblings ↔
      ∀ b, Corresponds opened gapMask siblings b → ¬ FreeStep (bytes32Bytes preRoot) a signer b) ∧
    ∀ opened' w, opened'.Perm opened →
      (executeStepToRootMulti preRoot (actionKindByte a).toNat (actionFieldsForL1 a) signer.toNat
          l2LogIndex opened' gapMask siblings = .ok w ↔
        executeStepToRootMulti preRoot (actionKindByte a).toNat (actionFieldsForL1 a) signer.toNat
          l2LogIndex opened gapMask siblings = .ok w) := by
  rw [StepsAgree, actionKindByte_toNat]
  refine ⟨⟨?_, ?_⟩, ?_⟩
  · intro hagree b hcorr hfree
    obtain ⟨w, hw⟩ := executes_of_freeStep hadj hb hidx hcorr (hfits b hcorr) hfree
    obtain ⟨b', hcorr', hb'⟩ := (hagree (bytes32Bytes w)).mp ⟨w, hw, rfl⟩
    obtain rfl := hcorr.unique hcorr'
    exact ((bundle_agrees hadj hb hidx hcorr (hfits b hcorr)).mp hb').2 hfree
  · intro hpaid r
    constructor
    · rintro ⟨w, hw, rfl⟩
      obtain ⟨b, hcorr, -⟩ := exists_bundle hadj hb hw
      exact ⟨b, hcorr, (bundle_agrees hadj hb hidx hcorr (hfits b hcorr)).mpr
        ⟨⟨w, hw, rfl⟩, hpaid b hcorr⟩⟩
    · rintro ⟨b, hcorr, h⟩
      exact ((bundle_agrees hadj hb hidx hcorr (hfits b hcorr)).mp h).1
  · intro opened' w hperm
    constructor
    · refine executes_of_perm hadj hb hidx ?_ hperm.symm
      intro b' hcorr' hnodup'
      obtain ⟨b, hcorr, hcells⟩ := hcorr'.perm hperm.symm
      exact (hfits b hcorr).of_perm ((hcells.map _).nodup_iff.mpr hnodup') hcells.symm
    · exact executes_of_perm hadj hb hidx (fun b hcorr _ => hfits b hcorr) hperm

end Agreement

section Minted

/-- A hash function that keeps the first bytes, for the runs on fixed inputs. -/
abbrev mixKeccak : Keccak where
  keccak256 := fun bs => BitVec.ofNat 256 (bs.foldl (fun h b => (257 * h + b.toNat) % 2 ^ 256) 7)

/-- The cells of a step that mints onto a balance, under a policy of cost `c`. -/
def mintedCells (c : Fin 2) : List (CellTag × Bytes) :=
  [(.budgetPolicy, (Kernel.BudgetPolicy.bounded 0 c 0).encode),
    (.balance 0 0, Kernel.encodeAmount 2), (.nonce 0, encodeNat 0),
    (.epochBudget 0, ActorBudget.encode ⟨0, 0⟩)]

def mintedOpened (c : Fin 2) : List OpenedCell :=
  [⟨cellOf .budgetPolicy, (Kernel.BudgetPolicy.bounded 0 c 0).encode, by decide, by decide,
      by decide, by revert c; decide⟩,
    ⟨cellOf (.balance 0 0), Kernel.encodeAmount 2, by decide, by decide, by decide, by decide⟩,
    ⟨cellOf (.nonce 0), encodeNat 0, by decide, by decide, by decide, by decide⟩,
    ⟨cellOf (.epochBudget 0), ActorBudget.encode ⟨0, 0⟩, by decide, by decide, by decide,
      by decide⟩]

def mintedMask : Calldata := ⟨List.replicate 127 0, fun _ => 0⟩

def noSiblings : Calldata := ⟨[], fun _ => 0⟩

def mintedBundle (c : Fin 2) : MultiBundle :=
  ⟨mintedCells c, wireProof mintedMask.bytes noSiblings.bytes⟩

theorem minted_corresponds (c : Fin 2) :
    Corresponds (mintedOpened c) mintedMask noSiblings (mintedBundle c) :=
  ⟨rfl, rfl⟩

theorem minted_nodup (c : Fin 2) : ((mintedBundle c).cells.map Prod.fst).Nodup := by
  revert c
  decide

instance (t : CellTag) (v : Bytes) : Decidable (@Hashable mixKeccak t v) :=
  inferInstanceAs (Decidable (_ ∧ _))

theorem minted_stepCells (c : Fin 2) :
    stepCells (.mint 0 0 5) 0 (mintedBundle c).nextWdId =
      [.budgetPolicy, .balance 0 0, .nonce 0, .epochBudget 0] := by
  revert c
  decide +kernel

theorem minted_bounded : (Action.mint 0 0 5).FieldsBounded :=
  (by decide : 5 < 2 ^ 256)

theorem minted_plan (c : Fin 2) :
    plannedBalances (mintedBundle c).balanceReader (.mint 0 0 5) 0 = some [((0, 0), 7)] := by
  revert c
  decide +kernel

variable {c : Fin 2} {p : StepWrites.BudgetPolicy}

theorem minted_value {t : CellTag} {v : Bytes} (h : (mintedBundle c).valueAt t = some v) :
    (t = .budgetPolicy ∧ v = (Kernel.BudgetPolicy.bounded 0 c 0).encode) ∨
      (t = .balance 0 0 ∧ v = Kernel.encodeAmount 2) ∨ (t = .nonce 0 ∧ v = encodeNat 0) ∨
      (t = .epochBudget 0 ∧ v = ActorBudget.encode ⟨0, 0⟩) := by
  simpa [mintedBundle, mintedCells] using (valueAt_eq_some (minted_nodup c)).mp h

theorem minted_policy_self (c : Fin 2) :
    decodeBudgetPolicy (Kernel.BudgetPolicy.bounded 0 c 0).encode = .ok ⟨0, c, 0⟩ := by
  revert c
  decide +kernel

theorem minted_policy (h : decodeBudgetPolicy (Kernel.BudgetPolicy.bounded 0 c 0).encode = .ok p) :
    p = ⟨0, c, 0⟩ := by
  exact Except.ok.inj (h.symm.trans (minted_policy_self c))

theorem minted_reads {plan : BalancePlan}
    (h : Reads (mintedBundle c) (.mint 0 0 5) 0 p plan) : p = ⟨0, c, 0⟩ := by
  obtain ⟨pv, hpv, hpolicy⟩ := h.policy
  obtain rfl : pv = _ := by simpa using minted_value hpv
  exact minted_policy hpolicy

theorem minted_budget {b : ActorBudget}
    (h : decodeActorBudget (ActorBudget.encode ⟨0, 0⟩) = .ok b) : b = ⟨0, 0⟩ := by
  have hself : decodeActorBudget (ActorBudget.encode ⟨0, 0⟩) = .ok ⟨0, 0⟩ :=
    decodeActorBudget_eq_ok.mpr ⟨by decide, by decide, rfl⟩
  exact Except.ok.inj (h.symm.trans hself)

theorem minted_counters (c : Fin 2) :
    CountersFit (.mint 0 0 5) 0 (mintedBundle c).valueAt := by
  constructor
  · rintro t v n hv ht hn
    have hzero : v = encodeNat 0 := by
      rcases ht with ⟨x, rfl⟩ | rfl
      · have hx : x = 0 ∧ v = encodeNat 0 := by simpa using minted_value hv
        exact hx.2
      · simpa using minted_value hv
    have hself : decodeNonce (encodeNat 0) = .ok 0 := decodeNonce_eq_ok.mpr ⟨by decide, rfl⟩
    obtain rfl : 0 = n := Except.ok.inj (hself.symm.trans (hzero ▸ hn))
    decide
  · rintro target pv sv tv policy signerPre targetPre hpv hsv htv hpolicy hsigner htarget
    obtain rfl : pv = _ := by simpa using minted_value hpv
    obtain rfl : sv = _ := by simpa using minted_value hsv
    obtain ⟨rfl, rfl⟩ : target = 0 ∧ tv = _ := by simpa using minted_value htv
    obtain rfl := minted_policy hpolicy
    obtain rfl := minted_budget hsigner
    obtain rfl := minted_budget htarget
    revert c
    decide +kernel

theorem minted_fits (c : Fin 2) : @StepFits mixKeccak (.mint 0 0 5) 0 0 (mintedBundle c) := by
  refine @StepFits.mk mixKeccak _ _ _ _ ?_ (minted_counters c) ?_ ?_
  · have hkeys : ∀ t ∈ [CellTag.budgetPolicy, .balance 0 0, .nonce 0, .epochBudget 0],
        ∀ u ∈ [CellTag.budgetPolicy, .balance 0 0, .nonce 0, .epochBudget 0],
          @cellKey mixKeccak t = @cellKey mixKeccak u → t = u := by
      decide +kernel
    exact hkeys
  · rintro t - v hv
    rcases minted_value hv with ⟨rfl, rfl⟩ | ⟨rfl, rfl⟩ | ⟨rfl, rfl⟩ | ⟨rfl, rfl⟩
    · revert c
      decide +kernel
    · decide +kernel
    · decide +kernel
    · decide +kernel
  · rintro policy plan hreads t ht v hv
    obtain rfl : [((0, 0), 7)] = plan := Option.some.inj ((minted_plan c).symm.trans hreads.plan)
    have hnext : ∀ c : Fin 2, ∀ t ∈ [CellTag.budgetPolicy, .balance 0 0, .nonce 0, .epochBudget 0],
        ∀ v ∈ nextValue ⟨0, c, 0⟩ (mintedBundle c) (.mint 0 0 5) 0 0 [((0, 0), 7)] t,
          @Hashable mixKeccak t v := by
      decide +kernel
    exact hnext c t ht v hv

theorem minted_readable (c : Fin 2) :
    Reads (mintedBundle c) (.mint 0 0 5) 0 ⟨0, c, 0⟩ [((0, 0), 7)] := by
  constructor
  · exact minted_nodup c
  · intro t
    rfl
  · intro t ht
    rw [minted_stepCells] at ht
    simp only [mem_cons, not_mem_nil, or_false] at ht
    rcases ht with rfl | rfl | rfl | rfl
    · exact ⟨_, rfl, _, minted_policy_self c⟩
    · exact ⟨_, rfl, 2, decodeAmount_eq_ok.mpr ⟨by decide, rfl⟩⟩
    · exact ⟨_, rfl, 0, decodeNonce_eq_ok.mpr ⟨by decide, rfl⟩⟩
    · exact ⟨_, rfl, ⟨0, 0⟩, decodeActorBudget_eq_ok.mpr ⟨by decide, by decide, rfl⟩⟩
  · exact ⟨_, rfl, minted_policy_self c⟩
  · exact minted_plan c

/-- The step is executed under some root. -/
theorem minted_executes (c : Fin 2) :
    ∃ preRoot w, @executeStepToRootMulti mixKeccak preRoot
      (actionKindByte (.mint 0 0 5)).toNat (actionFieldsForL1 (.mint 0 0 5)) 0 0
      (mintedOpened c) mintedMask noSiblings = .ok w := by
  refine @exists_executed mixKeccak (mintedOpened c) mintedMask noSiblings (mintedBundle c)
    (.mint 0 0 5) 0 0 _ _ rfl minted_bounded (by decide) (minted_corresponds c) (minted_fits c)
    (minted_readable c) ?_
  fin_cases c
  · decide +kernel
  · decide +kernel

/-- Under a policy with a cost the step executes, and the two sides agree on it. -/
theorem step_vm_agrees_iff_minted :
    ∃ preRoot : Bytes32,
      (∃ w, @executeStepToRootMulti mixKeccak preRoot (actionKindByte (.mint 0 0 5)).toNat
        (actionFieldsForL1 (.mint 0 0 5)) 0 0 (mintedOpened 1) mintedMask noSiblings =
          .ok w) ∧ @StepsAgree mixKeccak preRoot (.mint 0 0 5) 0 0 (mintedOpened 1) mintedMask
        noSiblings := by
  obtain ⟨preRoot, hexec⟩ := minted_executes 1
  refine ⟨preRoot, hexec, ?_⟩
  · have hfits : ∀ b, Corresponds (mintedOpened 1) mintedMask noSiblings b →
        @StepFits mixKeccak (.mint 0 0 5) 0 0 b := by
      intro b hcorr
      obtain rfl := hcorr.unique (minted_corresponds 1)
      exact minted_fits 1
    have hagree := @step_vm_agrees_iff mixKeccak preRoot
      (.mint 0 0 5) 0 0 (mintedOpened 1) mintedMask noSiblings rfl minted_bounded (by decide) hfits
    refine hagree.1.mpr ?_
    rintro b hcorr ⟨policy, plan, hreads, hfree, -⟩
    obtain rfl := hcorr.unique (minted_corresponds 1)
    rw [minted_reads hreads] at hfree
    simp at hfree

/-- Under a policy of free actions the contract executes the step, and the kernel refuses it. -/
theorem free_action_executed :
    ∃ preRoot : Bytes32,
      (∃ w, @executeStepToRootMulti mixKeccak preRoot (actionKindByte (.mint 0 0 5)).toNat
        (actionFieldsForL1 (.mint 0 0 5)) 0 0 (mintedOpened 0) mintedMask noSiblings =
          .ok w) ∧ ∀ b, Corresponds (mintedOpened 0) mintedMask noSiblings b →
        @StepFits mixKeccak (.mint 0 0 5) 0 0 b ∧
        @verifierPostRootMulti mixKeccak (bytes32Bytes preRoot) (.mint 0 0 5) 0 0 b =
          none := by
  obtain ⟨preRoot, hexec⟩ := minted_executes 0
  refine ⟨preRoot, hexec, ?_⟩
  intro b hcorr
  obtain rfl := hcorr.unique (minted_corresponds 0)
  refine ⟨minted_fits 0, ?_⟩
  rw [Option.eq_none_iff_forall_ne_some]
  intro r hr
  obtain ⟨policy, plan, hreads, hcost, -⟩ := (@verifierPostRootMulti_iff mixKeccak (mintedOpened 0)
    mintedMask noSiblings (mintedBundle 0) (.mint 0 0 5) 0 0 rfl minted_bounded (by decide) hcorr
    (minted_fits 0) _ _).mp hr
  rw [minted_reads hreads] at hcost
  simp at hcost

end Minted

end Knomosis.StepVM
