import Knomosis.StepVM.Balances

/-!
# Values on both sides

The value that the contract derives for a written cell is the one that the kernel
derives, as long as no counter and no budget outgrows its field.  The kernel's
derivation is split in two: reading the budget policy, and everything else.
-/

namespace Knomosis.StepVM

open Lib Contracts Smt Kernel FaultProof List StepWrites
open CBEEncode StepWrites

section Budgets

variable {a : Action} {signer target : ActorId}

theorem grantOf_lt {recipient : ActorId} {grant : ℕ} (hb : a.FieldsBounded)
    (h : grantOf signer a = some (recipient, grant)) : grant < 2 ^ 64 := by
  cases a with
  | depositWithFee _ _ _ _ _ n =>
    obtain ⟨-, rfl⟩ : _ ∧ n = grant := by simpa [grantOf] using h
    exact hb.2.2.1
  | topUpActionBudget _ _ increment
  | topUpActionBudgetFor _ _ _ increment =>
    obtain ⟨-, rfl⟩ : _ ∧ increment = grant := by simpa [grantOf] using h
    exact hb.2
  | _ => cases h

theorem refundConsumeExtra_lt (hb : a.FieldsBounded) : refundConsumeExtra a < 2 ^ 64 := by
  cases a with
  | claimBudgetRefund => exact hb.1
  | _ => exact Nat.two_pow_pos 64

theorem add256_of_small {m n : ℕ} (hm : m < 2 ^ 64) (hn : n < 2 ^ 64) : add256 m n = .ok (m + n) :=
  add256_of_lt (lt_maxAmount.mpr (by omega))

/-- The numbers of a budget fit their fields. -/
def Small (b : ActorBudget) : Prop := b.lastSeenEpoch < 2 ^ 64 ∧ b.budgetBalance < 2 ^ 64

theorem normalise_eq (b : ActorBudget) (now freeTier : ℕ) :
    normalise b now freeTier = b.normalise now freeTier := by
  rw [normalise, ActorBudget.normalise]
  split_ifs with h1 h2
  · rw [max_eq_left h2.le]
  · rw [max_eq_right (by omega)]
  · rfl

variable {b : ActorBudget} {now freeTier : ℕ}

theorem Small.normalise (hb : Small b) (hnow : now < 2 ^ 64) (hfree : freeTier < 2 ^ 64) :
    Small (b.normalise now freeTier) := by
  rw [ActorBudget.normalise]
  split_ifs
  · exact ⟨hnow, max_lt hb.2 hfree⟩
  · exact hb

theorem consume_eq (b : ActorBudget) (now freeTier cost : ℕ) :
    consume b now freeTier cost = .ok (match b.consume now freeTier cost with
        | none => (false, b)
        | some left => (true, left)) := by
  rw [consume, ActorBudget.consume, normalise_eq]
  by_cases h : cost ≤ (b.normalise now freeTier).budgetBalance
  · simp [h, sub256_of_le h]
  · simp [h]

theorem Small.consume {left : ActorBudget} {cost : ℕ}
    (hb : Small b) (hnow : now < 2 ^ 64) (hfree : freeTier < 2 ^ 64)
    (h : b.consume now freeTier cost = some left) : Small left := by
  have hn := hb.normalise hnow hfree
  rw [ActorBudget.consume] at h
  split_ifs at h
  cases h
  exact ⟨hn.1, lt_of_le_of_lt (Nat.sub_le _ _) hn.2⟩

theorem applyGrantAt_eq {currentEpoch : ℕ} (hb : a.FieldsBounded)
    (hsmall : Small b) (hfree : freeTier < 2 ^ 64) (hepoch : currentEpoch < 2 ^ 64) :
    StepWrites.applyGrantAt target.toNat (grantData a signer) freeTier currentEpoch b =
        .ok (FaultProof.applyGrantAt a signer freeTier currentEpoch target b) ∧
      (FaultProof.applyGrantAt a signer freeTier currentEpoch target b).lastSeenEpoch < 2 ^ 64 := by
  have hn := hsmall.normalise hepoch hfree
  rw [StepWrites.applyGrantAt, grantData, FaultProof.applyGrantAt]
  cases hgrant : grantOf signer a with
  | none => exact ⟨rfl, hsmall.1⟩
  | some g =>
    obtain ⟨recipient, grant⟩ := g
    have hlt := grantOf_lt hb hgrant
    rcases eq_or_ne target recipient with rfl | hne
    · constructor
      · simp [StepWrites.topUp, ActorBudget.topUp, normalise_eq, add256_of_small hn.2 hlt]
      · simpa [ActorBudget.topUp] using hn.1
    · constructor
      · simp [hne, UInt64.toNat_inj]
      · simpa only [if_neg hne] using hsmall.1

/-- The contract derives the budget that the kernel derives. -/
theorem deriveEpochBudget_eq (signer target : ActorId)
    {policy : StepWrites.BudgetPolicy} {signerPre targetPre : ActorBudget} (hb : a.FieldsBounded)
    (hfree : policy.freeTier < 2 ^ 64) (hcost : policy.actionCost < 2 ^ 64)
    (hepoch : policy.currentEpoch < 2 ^ 64)
    (hsigner : Small signerPre) (htarget : Small targetPre) :
    let out := FaultProof.deriveEpochBudget
      (.bounded policy.freeTier policy.actionCost policy.currentEpoch) signerPre targetPre a
      signer target
    StepWrites.deriveEpochBudget policy signerPre targetPre signer.toNat target.toNat
        (grantData a signer) = .ok out ∧
      out.lastSeenEpoch < 2 ^ 64 := by
  have hextra : (grantData a signer).refundExtra = refundConsumeExtra a := by
    rw [grantData]
    split <;> rfl
  have hbridge : signer.toNat = BRIDGE_ACTOR ↔ signer = bridgeActor := by
    rw [← UInt64.toNat_inj]
    rfl
  simp only [StepWrites.deriveEpochBudget, FaultProof.deriveEpochBudget, hbridge, hextra,
    add256_of_small hcost (refundConsumeExtra_lt hb), ok_bind, consume_eq, UInt64.toNat_inj]
  by_cases hsign : signer = bridgeActor
  · simp only [hsign, if_true]
    exact applyGrantAt_eq hb htarget hfree hepoch
  simp only [hsign, if_false]
  cases hconsume : signerPre.consume policy.currentEpoch policy.freeTier
      (policy.actionCost + refundConsumeExtra a) with
  | none => exact ⟨rfl, htarget.1⟩
  | some =>
    refine applyGrantAt_eq hb ?_ hfree hepoch
    split_ifs
    · exact hsigner.consume hepoch hfree hconsume
    · exact htarget

end Budgets

section Reading

/-- A value of the kind that the cell holds.  Keys, policies and records may be anything. -/
def Decodes : CellTag → Bytes → Prop
  | .balance .., v => ∃ n, StepWrites.decodeAmount v = .ok n
  | .nonce _, v | .bridgeNextWdId, v => ∃ n, decodeNonce v = .ok n
  | .epochBudget _, v => ∃ b, decodeActorBudget v = .ok b
  | .budgetPolicy, v => ∃ p, decodeBudgetPolicy v = .ok p
  | _, _ => True

/-- The balances that values of cells give. -/
def readerOf (val : CellTag → Option Bytes) : BalanceReader :=
  fun r x => (val (.balance r x)).bind (fun v => exactly (Kernel.decodeAmount v))

theorem readerOf_eq_some {val : CellTag → Option Bytes} {r : ResourceId} {x : ActorId} {n : ℕ} :
    readerOf val r x = some n ↔
      ∃ v, val (.balance r x) = some v ∧ StepWrites.decodeAmount v = .ok n := by
  simp only [readerOf, Option.bind_eq_some_iff, exactly_decodeAmount, decodeAmount_eq_ok]

variable {val : CellTag → Option Bytes} {policy : Kernel.BudgetPolicy}

theorem readerOf_lt {r : ResourceId} {x : ActorId} {n : ℕ} (h : readerOf val r x = some n) :
    n < maxAmount := by
  obtain ⟨v, -, hv⟩ := readerOf_eq_some.mp h
  exact lt_maxAmount.mpr (decodeAmount_eq_ok.mp hv).1

/-- No counter and no budget of the step outgrows its field. -/
structure CountersFit (a : Action) (signer : ActorId) (val : CellTag → Option Bytes) : Prop where
  counter : ∀ t v n, val t = some v → (∃ x, t = .nonce x) ∨ t = .bridgeNextWdId →
    decodeNonce v = .ok n → n + 1 < 2 ^ 64
  budget : ∀ target pv sv tv policy signerPre targetPre,
    val .budgetPolicy = some pv → val (.epochBudget signer) = some sv →
    val (.epochBudget target) = some tv →
    decodeBudgetPolicy pv = .ok policy → decodeActorBudget sv = .ok signerPre →
    decodeActorBudget tv = .ok targetPre →
    (FaultProof.deriveEpochBudget
      (.bounded policy.freeTier policy.actionCost policy.currentEpoch) signerPre targetPre a
      signer target).budgetBalance < 2 ^ 64

/-- The kernel's derivation with the budget policy already read. -/
def derivedValueUnder (policy : Kernel.BudgetPolicy) (val : CellTag → Option Bytes) (a : Action)
    (signer : ActorId) (l2LogIndex : ℕ) (plan : BalancePlan) : CellTag → Option Bytes
  | .epochBudget target => do
    let signerValue ← val (.epochBudget signer)
    let targetValue ← val (.epochBudget target)
    let signerPre ← exactly (ActorBudget.decode signerValue)
    let targetPre ← exactly (ActorBudget.decode targetValue)
    some (FaultProof.deriveEpochBudget policy signerPre targetPre a signer target).encode
  | t => derivedCellValue val [] a signer l2LogIndex plan t

theorem derivedValueUnder_epochBudget {a : Action}
    {signer target : ActorId} {l2LogIndex : ℕ} {plan : BalancePlan} :
    derivedValueUnder policy val a signer l2LogIndex plan (.epochBudget target) =
      (val (.epochBudget signer)).bind (fun signerValue =>
        (val (.epochBudget target)).bind (fun targetValue =>
          (exactly (ActorBudget.decode signerValue)).bind (fun signerPre =>
            (exactly (ActorBudget.decode targetValue)).bind (fun targetPre =>
              some (FaultProof.deriveEpochBudget policy signerPre targetPre a signer
                target).encode)))) :=
  rfl

theorem derivedCellValue_eq {policyValue : Bytes}
    (hpolicy : exactly (BudgetPolicy.decode policyValue) = some policy)
    (val : CellTag → Option Bytes) (a : Action) (signer : ActorId) (l2LogIndex : ℕ)
    (plan : BalancePlan) (t : CellTag) :
    derivedCellValue val policyValue a signer l2LogIndex plan t =
      derivedValueUnder policy val a signer l2LogIndex plan t := by
  cases t with
  | epochBudget =>
    rw [derivedCellValue_epochBudget, derivedValueUnder_epochBudget]
    simp only [FaultProof.deriveEpochBudgetCellValue, hpolicy, Option.bind_eq_bind,
      Option.bind_some]
  | _ => rfl

end Reading

section Plans

variable {a : Action} {signer : ActorId} {nextWdIdPre : ℕ}

/-- The balances stand in front of the other written cells, and there are at most four. -/
theorem verifierWriteCells_eq (a : Action) (signer : ActorId) (nextWdIdPre : ℕ) :
    ∃ rest, verifierWriteCells a signer nextWdIdPre =
        (balanceKeys a signer).map (fun k => .balance k.1 k.2) ++ rest ∧
      (∀ t ∈ rest, t.kindIndex ≠ CELL_BALANCE) ∧ (balanceKeys a signer).length ≤ 4 := by
  cases a <;> exact ⟨_, rfl, by simp [CellTag.kindIndex, CELL_BALANCE], by
      simp [balanceKeys, writeCells, filterMap_cons, balanceKey]⟩

/-- Written cell `i` is a balance exactly if the action writes at least `i + 1` balances. -/
theorem balanceCell_iff {i : ℕ} {c : Cell} :
    ((verifierWriteCells a signer nextWdIdPre).map cellOf)[i]? = some c ∧ c.kind = CELL_BALANCE ↔
      ∃ k, (balanceKeys a signer)[i]? = some k ∧ c = cellOf (.balance k.1 k.2) := by
  obtain ⟨rest, hcells, hrest, -⟩ := verifierWriteCells_eq a signer nextWdIdPre
  rw [hcells, map_append, map_map, List.getElem?_append]
  split_ifs with hi
  · rw [length_map] at hi
    simp only [List.getElem?_map, Option.map_eq_some_iff, Function.comp_apply]
    constructor
    · rintro ⟨⟨k, hk, rfl⟩, -⟩
      exact ⟨k, hk, rfl⟩
    · rintro ⟨k, hk, rfl⟩
      exact ⟨⟨k, hk, rfl⟩, rfl⟩
  · rw [length_map] at hi
    rw [List.getElem?_eq_none (Nat.not_lt.mp hi)]
    simp only [reduceCtorEq, false_and, exists_false, iff_false, not_and]
    intro hc
    obtain ⟨t, ht, rfl⟩ := mem_map.mp (mem_of_getElem? hc)
    exact hrest t ht

variable {opened : List OpenedCell} {val : CellTag → Option Bytes}

/-- The contract reads the balances that the action writes, and nothing for the other slots. -/
theorem balancePreAt_eq_ok (hval : ∀ t v, openedValue opened (cellOf t) = .ok v ↔ val t = some v)
    {i n : ℕ} :
    balancePreAt opened ((verifierWriteCells a signer nextWdIdPre).map cellOf) i = .ok n ↔
      match (balanceKeys a signer)[i]? with
      | some k => readerOf val k.1 k.2 = some n
      | none => n = 0 := by
  have hiff := @balanceCell_iff a signer nextWdIdPre i
  rw [balancePreAt]
  cases hkey : (balanceKeys a signer)[i]? with
  | some k =>
    obtain ⟨hcell, hkind⟩ := hiff.mpr ⟨k, hkey, rfl⟩
    simp only [hcell, readerOf_eq_some]
    rw [if_pos hkind, bind_eq_ok]
    simp only [hval]
  | none =>
    cases hcell : ((verifierWriteCells a signer nextWdIdPre).map cellOf)[i]? with
    | none => simp [eq_comm]
    | some c =>
      have hkind : c.kind ≠ CELL_BALANCE := by
        intro hkind
        obtain ⟨k, hk, -⟩ := hiff.mp ⟨hcell, hkind⟩
        rw [hkey] at hk
        cases hk
      simp [hkind, eq_comm]

/-- The contract makes its plan exactly if the kernel does, and the plans agree. -/
theorem planMulti_agrees (hadj : faultProofAdjudicable a = true) (hb : a.FieldsBounded)
    (hval : ∀ t v, openedValue opened (cellOf t) = .ok v ↔ val t = some v)
    (hreads : ∀ k ∈ balanceKeys a signer, (readerOf val k.1 k.2).isSome) :
    ∃ kplan new0 new1 new2 new3, plannedBalances (readerOf val) a signer = some kplan ∧
      planMulti opened a.tag (actionFieldsForL1 a) signer.toNat
        ((verifierWriteCells a signer nextWdIdPre).map cellOf) =
          .ok ⟨new0, new1, new2, new3, grantData a signer⟩ ∧
      PlansAgree (balanceKeys a signer) kplan (new0, new1, new2, new3) := by
  have hpre : ∀ i, ∃ n,
      balancePreAt opened ((verifierWriteCells a signer nextWdIdPre).map cellOf) i = .ok n ∧
      ∀ k, (balanceKeys a signer)[i]? = some k → readerOf val k.1 k.2 = some n := by
    intro i
    simp only [balancePreAt_eq_ok hval]
    cases hkey : (balanceKeys a signer)[i]? with
    | none => exact ⟨0, rfl, by simp⟩
    | some k =>
      obtain ⟨n, hn⟩ := Option.isSome_iff_exists.mp (hreads k (mem_of_getElem? hkey))
      exact ⟨n, hn, by simpa using hn⟩
  choose pre hbalance hread using hpre
  obtain ⟨kplan, ⟨new0, new1, new2, new3⟩, hkernel, hcontract, hagree⟩ :=
    plannedBalances_agrees (readerOf val) hadj hb (fun _ _ _ => readerOf_lt) hread
  refine ⟨kplan, new0, new1, new2, new3, hkernel, ?_, hagree⟩
  rw [planMulti, hbalance 0, hbalance 1, hbalance 2, hbalance 3]
  simp only [ok_bind, hcontract, planGrant_eq hb]

/-- The contract has a plan only if it can read every balance that the action writes. -/
theorem planMulti_reads {plan : StepPlan.Plan} {actionKind signer' : ℕ} {fields : Bytes}
    (hval : ∀ t v, openedValue opened (cellOf t) = .ok v ↔ val t = some v)
    (h : planMulti opened actionKind fields signer'
      ((verifierWriteCells a signer nextWdIdPre).map cellOf) = .ok plan) :
    ∀ k ∈ balanceKeys a signer, (readerOf val k.1 k.2).isSome := by
  obtain ⟨-, -, -, hlen⟩ := verifierWriteCells_eq a signer nextWdIdPre
  simp only [planMulti, bind_eq_ok, balancePreAt_eq_ok hval] at h
  obtain ⟨n0, h0, n1, h1, n2, h2, n3, h3, -⟩ := h
  intro k hk
  obtain ⟨i, hi⟩ := mem_iff_getElem?.mp hk
  have hlt : i < 4 := lt_of_lt_of_le (List.getElem?_eq_some_iff.mp hi).1 hlen
  interval_cases i
  · rw [hi] at h0
    simp [h0]
  · rw [hi] at h1
    simp [h1]
  · rw [hi] at h2
    simp [h2]
  · rw [hi] at h3
    simp [h3]

end Plans

section Values

variable {a : Action} {signer : ActorId} {nextWdIdPre : ℕ}
variable {opened : List OpenedCell} {val : CellTag → Option Bytes}
variable {policy : StepWrites.BudgetPolicy} {pv : Bytes} {kplan : BalancePlan}
variable {new0 new1 new2 new3 : ℕ}

theorem balanceSlot_iff {j : ℕ} {r : ResourceId} {x : ActorId} :
    balanceSlot ((verifierWriteCells a signer nextWdIdPre).map cellOf) j
        (cellOf (.balance r x)) = true ↔ (balanceKeys a signer)[j]? = some (r, x) := by
  rw [balanceSlot, Option.any_eq_true]
  simp only [Bool.and_eq_true, beq_iff_eq]
  constructor
  · rintro ⟨c, hc, ⟨hkind, hA⟩, hB⟩
    obtain ⟨k, hk, rfl⟩ := balanceCell_iff.mp ⟨hc, hkind⟩
    rw [hk]
    exact congrArg some (Prod.ext (UInt64.toNat_inj.mp hA) (UInt64.toNat_inj.mp hB))
  · intro hk
    obtain ⟨hc, hkind⟩ := balanceCell_iff.mpr ⟨(r, x), hk, rfl⟩
    exact ⟨_, hc, ⟨hkind, rfl⟩, rfl⟩

variable {o : OpenedCell} {i l2LogIndex : ℕ}

/-- A written balance gets the value of the first slot that holds it. -/
theorem balance_value {r : ResourceId} {x : ActorId}
    (opened : List OpenedCell) (i actionKind signer' l2LogIndex : ℕ) (fields pv : Bytes)
    (grant : Grant) (hagree : PlansAgree (balanceKeys a signer) kplan (new0, new1, new2, new3))
    (hmem : .balance r x ∈ verifierWriteCells a signer nextWdIdPre)
    (hcell : o.cell = cellOf (.balance r x)) :
    ∃ n, deriveValueMulti opened i o ((verifierWriteCells a signer nextWdIdPre).map cellOf)
        actionKind fields signer' l2LogIndex pv ⟨new0, new1, new2, new3, grant⟩ =
          .ok (encodeAmount n) ∧ plannedBalanceAt kplan r x = some n := by
  obtain ⟨rest, hcells, hrest, hlen⟩ := verifierWriteCells_eq a signer nextWdIdPre
  have hslot : ∀ j, (balanceKeys a signer)[j]? = some (r, x) →
      plannedBalanceAt kplan r x = some (slot (new0, new1, new2, new3) j) := fun j hj =>
    plannedBalanceAt_of_mem hagree.consistent (hagree.mem j (r, x) hj)
  have hkey : (r, x) ∈ balanceKeys a signer := by
    rw [hcells] at hmem
    rcases mem_append.mp hmem with hmem | hmem
    · obtain ⟨k, hk, heq⟩ := mem_map.mp hmem
      obtain ⟨rfl, rfl⟩ : k.1 = r ∧ k.2 = x := by simpa using heq
      exact hk
    · exact absurd rfl (hrest _ hmem)
  obtain ⟨j, hj⟩ := mem_iff_getElem?.mp hkey
  have hlt : j < 4 := lt_of_lt_of_le (List.getElem?_eq_some_iff.mp hj).1 hlen
  have hkind : o.cell.kind = CELL_BALANCE := by
    rw [hcell]
    rfl
  rw [deriveValueMulti, if_pos hkind]
  simp only [hcell, balanceSlot_iff, amountValue_eq]
  split_ifs with h0 h1 h2 h3
  · exact ⟨new0, rfl, hslot 0 h0⟩
  · exact ⟨new1, rfl, hslot 1 h1⟩
  · exact ⟨new2, rfl, hslot 2 h2⟩
  · exact ⟨new3, rfl, hslot 3 h3⟩
  interval_cases j
  · exact absurd hj h0
  · exact absurd hj h1
  · exact absurd hj h2
  · exact absurd hj h3

theorem counter_value {v : Bytes} {n : ℕ} (hn : decodeNonce v = .ok n) (hfit : n + 1 < 2 ^ 64) :
    deriveNonce v = .ok (encodeNat (n + 1)) ∧
      deriveCounterCellValue v = some (encodeNat (n + 1)) := by
  have hkernel : exactly (decodeNat v) = some n := exactly_decodeNat.mpr (decodeNonce_eq_ok.mp hn)
  constructor
  · rw [deriveNonce, hn, ok_bind, add256_of_small (by omega) (by norm_num), ok_bind]
    exact uintValue_eq_ok.mpr ⟨hfit, rfl⟩
  · simp [deriveCounterCellValue, hkernel]

/-- A budget changes in the same way on both sides. -/
theorem budget_value {target : ActorId} {sv tv : Bytes} {signerPre targetPre : ActorBudget}
    (hb : a.FieldsBounded) (hfit : CountersFit a signer val)
    (hpv : val .budgetPolicy = some pv) (hsv : val (.epochBudget signer) = some sv)
    (htv : val (.epochBudget target) = some tv)
    (hpolicy : decodeBudgetPolicy pv = .ok policy) (hsigner : decodeActorBudget sv = .ok signerPre)
    (htarget : decodeActorBudget tv = .ok targetPre) (l2LogIndex : ℕ) :
    ∃ v, StepWrites.deriveEpochBudgetCellValue pv sv tv signer.toNat target.toNat
        (grantData a signer) = .ok v ∧
      derivedValueUnder (.bounded policy.freeTier policy.actionCost policy.currentEpoch) val a
        signer l2LogIndex kplan (.epochBudget target) = some v := by
  obtain ⟨hfree, hcost, hepoch, -⟩ := decodeBudgetPolicy_eq_ok.mp hpolicy
  have hs := decodeActorBudget_eq_ok.mp hsigner
  have ht := decodeActorBudget_eq_ok.mp htarget
  obtain ⟨hout, hlast⟩ := deriveEpochBudget_eq signer target hb hfree
    hcost hepoch ⟨hs.1, hs.2.1⟩ ⟨ht.1, ht.2.1⟩
  refine ⟨(FaultProof.deriveEpochBudget
    (.bounded policy.freeTier policy.actionCost policy.currentEpoch) signerPre targetPre a signer
    target).encode, ?_, ?_⟩
  · rw [StepWrites.deriveEpochBudgetCellValue, hpolicy, ok_bind, hsigner, ok_bind, htarget,
      ok_bind, hout, ok_bind]
    exact epochBudgetValue_eq_ok.mpr
      ⟨hlast, hfit.budget target pv sv tv policy signerPre targetPre hpv hsv htv hpolicy hsigner
        htarget, rfl⟩
  · simp [derivedValueUnder_epochBudget, hsv, htv, ActorBudget.exactly_decode.mpr hs,
      ActorBudget.exactly_decode.mpr ht]

attribute [local simp] verifierWriteCells writeCells

/-- The record of a deposit is the same on both sides. -/
theorem consumed_value (val : CellTag → Option Bytes) (kplan : BalancePlan) {depositId : DepositId}
    (hb : a.FieldsBounded)
    (hmem : .bridgeConsumed depositId ∈ verifierWriteCells a signer nextWdIdPre) (l2LogIndex : ℕ) :
    ∃ v, deriveConsumed a.tag (actionFieldsForL1 a) = .ok v ∧
      derivedCellValue val [] a signer l2LogIndex kplan (.bridgeConsumed depositId) = some v := by
  have hid : ∀ n : UInt64, uintValue n.toNat = .ok (encodeNat n.toNat) := fun n =>
    uintValue_eq_ok.mpr ⟨n.toNat_lt, rfl⟩
  cases a with
  | deposit _ _ _ _ =>
    have hzero : uintValue 0 = .ok (encodeNat 0) := hid 0
    refine ⟨_, ?_, rfl⟩
    simp [deriveConsumed, Action.tag, actionFieldsForL1, fieldAt_uint256 hb.1,
      deriveConsumedCellValue, hid, hzero, amountValue_eq, DepositRecord.encode]
  | depositWithFee _ _ _ _ _ _ _ =>
    obtain ⟨huser, hpool, hgrant, -, -⟩ := hb
    refine ⟨_, ?_, rfl⟩
    simp [deriveConsumed, Action.tag, actionFieldsForL1, fieldAt_uint256 huser,
      fieldAt_uint256 hpool, fieldAt_uint64 hgrant, deriveConsumedCellValue, hid,
      uintValue_eq_ok.mpr ⟨hgrant, rfl⟩, amountValue_eq, DepositRecord.encode]
  | _ => simp at hmem

/-- The record of a withdrawal is the same on both sides. -/
theorem pending_value (val : CellTag → Option Bytes) (kplan : BalancePlan)
    {withdrawalId signer' : ℕ} {cells : List Cell} {plan : StepPlan.Plan} (hb : a.FieldsBounded)
    (hnext : nextWdIdPre < 2 ^ 64) (hidx : l2LogIndex < 2 ^ 64)
    (hmem : .bridgePending withdrawalId ∈ verifierWriteCells a signer nextWdIdPre)
    (hcell : o.cell = cellOf (.bridgePending withdrawalId)) :
    ∃ v, deriveValueMulti opened i o cells a.tag (actionFieldsForL1 a) signer' l2LogIndex pv
        plan = .ok v ∧
      derivedCellValue val [] a signer l2LogIndex kplan (.bridgePending withdrawalId) = some v := by
  cases a with
  | withdraw r sender amount recipientL1 =>
    obtain rfl : withdrawalId = nextWdIdPre := by simpa using hmem
    have hslice : ((actionFieldsForL1 (.withdraw r sender amount recipientL1)).drop 48).take 20 =
        ethAddressBytes recipientL1 := by
      rw [actionFieldsForL1, drop_left' (by simp), take_of_length_le (by simp)]
    have hrecipient : bytesValue (ethAddressBytes recipientL1) =
        .ok (encodeBytes (ethAddressBytes recipientL1)) :=
      bytesValue_of_lt (by simp)
    refine ⟨_, ?_, rfl⟩
    rw [deriveValueMulti, hcell, hslice]
    simp [cellOf, CellTag.kindIndex, CellTag.keyParts, CELL_BALANCE, CELL_NONCE,
      CELL_EPOCH_BUDGET, CELL_REGISTRY, CELL_LOCAL_POLICY, CELL_BRIDGE_CONSUMED,
      CELL_BRIDGE_PENDING, actionFieldsForL1, fieldAt_uint256 hb, derivePendingCellValue,
      uintValue_eq_ok.mpr ⟨r.toNat_lt, rfl⟩, hrecipient, amountValue_eq,
      uintValue_eq_ok.mpr ⟨hidx, rfl⟩, uintValue_eq_ok.mpr ⟨hnext, rfl⟩,
      PendingWithdrawal.encode]
  | _ => simp at hmem

/-- The contract derives a written cell's value as the kernel does. -/
theorem deriveValueMulti_agrees {t : CellTag} (hb : a.FieldsBounded)
    (hval : ∀ t v, openedValue opened (cellOf t) = .ok v ↔ val t = some v)
    (hdec : ∀ u ∈ stepCells a signer nextWdIdPre, ∃ v, val u = some v ∧ Decodes u v)
    (hpv : val .budgetPolicy = some pv) (hpolicy : decodeBudgetPolicy pv = .ok policy)
    (hfit : CountersFit a signer val) (hnext : nextWdIdPre < 2 ^ 64) (hidx : l2LogIndex < 2 ^ 64)
    (hagree : PlansAgree (balanceKeys a signer) kplan (new0, new1, new2, new3))
    (hmem : t ∈ verifierWriteCells a signer nextWdIdPre) (hcell : o.cell = cellOf t)
    (hvalue : val t = some o.preValue) :
    ∃ v, deriveValueMulti opened i o ((verifierWriteCells a signer nextWdIdPre).map cellOf) a.tag
        (actionFieldsForL1 a) signer.toNat l2LogIndex pv
        ⟨new0, new1, new2, new3, grantData a signer⟩ = .ok v ∧
      derivedValueUnder (.bounded policy.freeTier policy.actionCost policy.currentEpoch) val a
        signer l2LogIndex kplan t = some v := by
  have hdecodes : Decodes t o.preValue := by
    obtain ⟨v, hv, hd⟩ := hdec t (.tail _ hmem)
    obtain rfl : v = o.preValue := Option.some.inj (hv.symm.trans hvalue)
    exact hd
  cases t with
  | balance r x =>
    obtain ⟨n, hcontract, hkernel⟩ := balance_value opened i a.tag signer.toNat l2LogIndex
      (actionFieldsForL1 a) pv (grantData a signer) hagree hmem hcell
    refine ⟨_, hcontract, ?_⟩
    change derivedCellValue val [] a signer l2LogIndex kplan (.balance r x) = _
    rw [derivedCellValue_balance, hkernel]
    rfl
  | nonce x =>
    obtain ⟨n, hn⟩ := hdecodes
    obtain ⟨hcontract, hkernel⟩ := counter_value hn (hfit.counter _ _ n hvalue (.inl ⟨x, rfl⟩) hn)
    refine ⟨encodeNat (n + 1), ?_, ?_⟩
    · rw [deriveValueMulti, hcell]
      exact hcontract
    · change derivedCellValue val [] a signer l2LogIndex kplan (.nonce x) = _
      rw [derivedCellValue_nonce, hvalue]
      exact hkernel
  | bridgeNextWdId =>
    obtain ⟨n, hn⟩ := hdecodes
    obtain ⟨hcontract, hkernel⟩ := counter_value hn (hfit.counter _ _ n hvalue (.inr rfl) hn)
    refine ⟨encodeNat (n + 1), ?_, ?_⟩
    · rw [deriveValueMulti, hcell]
      exact hcontract
    · change derivedCellValue val [] a signer l2LogIndex kplan .bridgeNextWdId = _
      rw [derivedCellValue_nextWdId, hvalue]
      exact hkernel
  | epochBudget =>
    obtain ⟨targetPre, htarget⟩ := hdecodes
    have hsignerMem : .epochBudget signer ∈ stepCells a signer nextWdIdPre := by
      cases a <;> simp [stepCells]
    obtain ⟨sv, hsv, signerPre, hsigner⟩ := hdec _ hsignerMem
    obtain ⟨v, hcontract, hkernel⟩ := budget_value hb hfit hpv hsv hvalue hpolicy hsigner
      htarget l2LogIndex
    refine ⟨v, ?_, hkernel⟩
    have hread : openedValue opened ⟨CELL_EPOCH_BUDGET, signer.toNat, 0⟩ = .ok sv :=
      (hval (.epochBudget signer) sv).mpr hsv
    rw [deriveValueMulti, hcell, hread]
    simpa [cellOf, CellTag.kindIndex, CellTag.keyParts, CELL_BALANCE, CELL_NONCE,
      CELL_EPOCH_BUDGET] using hcontract
  | registry x =>
    have hkey : ∃ key : Bytes, key.length < 2 ^ 64 ∧
        (actionFieldsForL1 a).drop 8 = key ∧ 8 ≤ (actionFieldsForL1 a).length ∧
        derivedCellValue val [] a signer l2LogIndex kplan (.registry x) =
          some (encodeBytes key) := by
      cases a with
      | replaceKey _ key | registerIdentity _ key =>
        exact ⟨key, hb, by simp [actionFieldsForL1], by simp [actionFieldsForL1], rfl⟩
      | _ => simp at hmem
    obtain ⟨key, hlen, hdrop, hlong, hkernel⟩ := hkey
    refine ⟨_, ?_, hkernel⟩
    rw [deriveValueMulti, hcell]
    change deriveRegistryFromFields (actionFieldsForL1 a) = _
    rw [deriveRegistryFromFields, if_neg (Nat.not_lt.mpr hlong), hdrop, bytesValue_of_lt hlen]
  | localPolicy =>
    rw [deriveValueMulti, hcell]
    cases a with
    | declareLocalPolicy _ | revokeLocalPolicy => exact ⟨_, rfl, rfl⟩
    | _ => simp at hmem
  | bridgeConsumed =>
    obtain ⟨v, hcontract, hkernel⟩ := consumed_value val kplan hb hmem l2LogIndex
    refine ⟨v, ?_, hkernel⟩
    rw [deriveValueMulti, hcell]
    exact hcontract
  | bridgePending => exact pending_value val kplan hb hnext hidx hmem hcell
  | _ => cases a <;> simp at hmem

end Values

end Knomosis.StepVM
