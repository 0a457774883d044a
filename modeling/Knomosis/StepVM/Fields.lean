import Knomosis.StepVM.Values

/-!
# Packed fields

The contract finds the fields of an action at fixed offsets of the bytes that the
kernel packs them into.  So it derives the cells that the kernel derives, and the
same grant.
-/

namespace Knomosis.StepVM

open Lib Contracts Smt Kernel FaultProof
open StepWrites

section Reading

@[simp] theorem uint64BE_length (n : ℕ) : (uint64BE n).length = 8 := by simp [uint64BE]

@[simp] theorem uint256BE_length (n : ℕ) : (uint256BE n).length = 32 := by simp [uint256BE]

@[simp] theorem ethAddressBytes_length (recipient : EthAddress) :
    (ethAddressBytes recipient).length = 20 := by
  simp [ethAddressBytes]

theorem fieldAt_skip (pre rest : Bytes) (offset width : ℕ) :
    fieldAt (pre ++ rest) (offset + pre.length) width = fieldAt rest offset width := by
  rw [fieldAt, fieldAt, Nat.add_comm, ← List.drop_drop, List.drop_left]

@[simp] theorem fieldAt_skip_uint64 (n : ℕ) (rest : Bytes) (offset width : ℕ) :
    fieldAt (uint64BE n ++ rest) (offset + 8) width = fieldAt rest offset width :=
  fieldAt_skip (uint64BE n) rest offset width

@[simp] theorem fieldAt_skip_uint256 (n : ℕ) (rest : Bytes) (offset width : ℕ) :
    fieldAt (uint256BE n ++ rest) (offset + 32) width = fieldAt rest offset width :=
  fieldAt_skip (uint256BE n) rest offset width

variable {n width offset : ℕ} {fields : Bytes}

theorem fieldAt_beBytes (h : n < 256 ^ width) :
    (∀ rest, fieldAt (beBytes width n ++ rest) 0 width = n) ∧
      fieldAt (beBytes width n) 0 width = n := by
  have hread : beNat (beBytes width n) = n := by rw [beNat_beBytes, Nat.mod_eq_of_lt h]
  constructor
  · intro rest
    rw [fieldAt, List.drop_zero, List.take_append_of_le_length (by simp),
      List.take_of_length_le (by simp), hread]
  · rw [fieldAt, List.drop_zero, List.take_of_length_le (by simp), hread]

theorem fieldAt_uint64 (h : n < 2 ^ 64) :
    (∀ rest, fieldAt (uint64BE n ++ rest) 0 8 = n) ∧ fieldAt (uint64BE n) 0 8 = n :=
  fieldAt_beBytes (by simpa using h)

theorem fieldAt_uint256 (h : n < 2 ^ 256) :
    (∀ rest, fieldAt (uint256BE n ++ rest) 0 32 = n) ∧ fieldAt (uint256BE n) 0 32 = n :=
  fieldAt_beBytes (by simpa using h)

@[simp] theorem fieldAt_id (a : UInt64) (rest : Bytes) :
    fieldAt (uint64BE a.toNat ++ rest) 0 8 = a.toNat :=
  (fieldAt_uint64 a.toNat_lt).1 rest

@[simp] theorem fieldAt_last_id (a : UInt64) : fieldAt (uint64BE a.toNat) 0 8 = a.toNat :=
  (fieldAt_uint64 a.toNat_lt).2

@[simp] theorem truncate_id (a : UInt64) : truncate 64 a.toNat = a.toNat :=
  truncate_of_lt a.toNat_lt

@[simp] theorem readFieldUint_of_le (h : offset + width ≤ fields.length) :
    readFieldUint fields offset width = .ok (fieldAt fields offset width) := by
  rw [readFieldUint, if_neg (by omega)]

@[simp] theorem readField64_of_le (h : offset + 8 ≤ fields.length) :
    readField64 fields offset = .ok (truncate 64 (fieldAt fields offset 8)) := by
  rw [readField64, readFieldUint_of_le h]
  rfl

end Reading

section Cells

/-- A cell as the contract names it. -/
def cellOf (t : CellTag) : Cell := ⟨t.kindIndex, t.keyParts.1, t.keyParts.2⟩

theorem cellOf_injective : Function.Injective cellOf := by
  intro t u h
  obtain ⟨hkind, hA, hB⟩ : t.kindIndex = u.kindIndex ∧ t.keyParts.1 = u.keyParts.1 ∧
      t.keyParts.2 = u.keyParts.2 := by
    simpa [cellOf] using h
  exact CellTag.eq_of_key hkind (Prod.ext hA hB)

variable {a : Action}

theorem isAdjudicable_tag (a : Action) : isAdjudicable a.tag = faultProofAdjudicable a := by
  cases a <;> rfl

attribute [local simp] Action.tag actionFieldsForL1

/-- The contract derives the cells that the kernel derives. -/
theorem deriveWriteSet_eq (hadj : faultProofAdjudicable a = true) (hb : a.FieldsBounded)
    (signer : ActorId) (nextWdIdPre : ℕ) :
    deriveWriteSet a.tag (actionFieldsForL1 a) signer.toNat nextWdIdPre =
      .ok ((verifierWriteCells a signer nextWdIdPre).map cellOf) := by
  cases a with
  | deposit =>
    simp [deriveWriteSet, need, uniform, verifierWriteCells, writeCells, cellOf,
      CellTag.kindIndex, CellTag.keyParts, (fieldAt_uint64 hb.2).2]
  | depositWithFee =>
    simp [deriveWriteSet, need, uniform, verifierWriteCells, writeCells, cellOf,
      CellTag.kindIndex, CellTag.keyParts, fieldAt_uint64 hb.2.2.2.1, AMM_RESERVE_ACTOR,
      ammReserveActor]
  | distributeOthers | proportionalDilute => cases hadj
  | _ =>
    simp [deriveWriteSet, need, uniform, verifierWriteCells, writeCells, cellOf,
      CellTag.kindIndex, CellTag.keyParts, isAdjudicable]

/-- The grant of an action, as the contract takes it from the fields. -/
def grantData (a : Action) (signer : ActorId) : Grant :=
  match grantOf signer a with
  | none => ⟨false, 0, 0, refundConsumeExtra a⟩
  | some (recipient, grant) => ⟨true, recipient.toNat, grant, refundConsumeExtra a⟩

theorem planGrant_eq (hb : a.FieldsBounded) (signer : ActorId) :
    StepPlan.planGrant a.tag (actionFieldsForL1 a) signer.toNat = .ok (grantData a signer) := by
  cases a with
  | depositWithFee =>
    simp [StepPlan.planGrant, grantData, grantOf, refundConsumeExtra, fieldAt_uint64 hb.2.2.1]
  | topUpActionBudget | topUpActionBudgetFor =>
    simp [StepPlan.planGrant, grantData, grantOf, refundConsumeExtra, fieldAt_uint64 hb.2]
  | claimBudgetRefund =>
    simp [StepPlan.planGrant, grantData, grantOf, refundConsumeExtra, fieldAt_uint64 hb.1]
  | _ => rfl

end Cells

end Knomosis.StepVM
