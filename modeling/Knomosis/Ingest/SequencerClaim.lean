import Knomosis.Ingest.Translation
import Knomosis.Kernel.ReceiptVerifiedClaim

/-!
# The sequencer's claims in the ingest service

The service checks a claim against a receipt of the chain below.  It multiplies gas
and price in 256 bits, where the product is exact.  The conversion into the second
currency is done in 128 bits, where products stay at the largest value, before the
division.
-/

namespace Knomosis.Ingest

open Lib Smt Kernel.Bridge
open Signing.L1Ingest

def SEQUENCER_ACTOR_ID : ActorId := 2

/-- A claim that was handed in. -/
structure SequencerClaim where
  action : Action
  signer : ActorId
  nonce : Nonce
  sig : Bytes

structure GasReceipt where
  batchId : UInt64
  gasUsed : BitVec 128
  gasPrice : BitVec 128
  receiptBindingHash : Contracts.Bytes32

/-- A rate, in units of the second currency for a unit of the first. -/
structure EthBoldRate where
  rateNum : BitVec 128
  rateDen : BitVec 128
  rateBindingHash : Contracts.Bytes32

def amountFromU128 (x : BitVec 128) : Amount := x.setWidth 256

def amountCheckedMul (x y : Amount) : Option Amount :=
  if x.toNat * y.toNat < 2 ^ 256 then some (x * y) else none

def saturatingMul (x y : BitVec 128) : BitVec 128 :=
  if x.toNat * y.toNat < 2 ^ 128 then x * y else BitVec.allOnes 128

def GasReceipt.reimbursement (receipt : GasReceipt) : Amount :=
  (amountCheckedMul (amountFromU128 receipt.gasUsed) (amountFromU128 receipt.gasPrice)).getD
    (BitVec.allOnes 256)

def boldReceiptReimbursement (gasUsed gasPrice rateNum rateDen : BitVec 128) : Amount :=
  if rateDen = 0 then 0
  else
    let wei := saturatingMul gasUsed gasPrice
    amountFromU128 (saturatingMul wei rateNum / rateDen)

def GasReceipt.boldReimbursement (receipt : GasReceipt) (rate : EthBoldRate) : Amount :=
  Ingest.boldReceiptReimbursement receipt.gasUsed receipt.gasPrice rate.rateNum rate.rateDen

/-- A transfer of the pool to the sequencer, of at most a bound. -/
def isPoolTransfer (resource : UInt64) (bound : Amount) : Action → Bool
  | .transfer r sender receiver amount =>
    r == resource && sender == GAS_POOL_ACTOR_ID && receiver == SEQUENCER_ACTOR_ID &&
      decide (amount ≤ bound)
  | _ => false

def SequencerClaim.isReceiptBackedBy (claim : SequencerClaim) (receipt : GasReceipt) : Bool :=
  isPoolTransfer 0 receipt.reimbursement claim.action

def SequencerClaim.isBoldReceiptBackedBy (claim : SequencerClaim) (receipt : GasReceipt)
    (rate : EthBoldRate) : Bool :=
  isPoolTransfer 1 (receipt.boldReimbursement rate) claim.action

theorem amountFromU128_toNat (x : BitVec 128) : (amountFromU128 x).toNat = x.toNat := by
  have hlt := x.isLt
  rw [amountFromU128, BitVec.toNat_setWidth]
  exact Nat.mod_eq_of_lt (by omega)

theorem mul_lt_of_u128 (x y : BitVec 128) : x.toNat * y.toNat < 2 ^ 256 :=
  calc
    x.toNat * y.toNat < 2 ^ 128 * 2 ^ 128 := Nat.mul_lt_mul'' x.isLt y.isLt
    _ = 2 ^ 256 := by norm_num

theorem reimbursement_toNat (receipt : GasReceipt) :
    receipt.reimbursement.toNat =
      gasReceiptReimbursement receipt.gasUsed.toNat receipt.gasPrice.toNat := by
  have hlt := mul_lt_of_u128 receipt.gasUsed receipt.gasPrice
  rw [GasReceipt.reimbursement, amountCheckedMul, amountFromU128_toNat, amountFromU128_toNat,
    if_pos hlt, Option.getD_some, BitVec.toNat_mul, amountFromU128_toNat, amountFromU128_toNat]
  exact Nat.mod_eq_of_lt hlt

theorem saturatingMul_toNat (x y : BitVec 128) :
    (saturatingMul x y).toNat = min (x.toNat * y.toNat) (2 ^ 128 - 1) := by
  rw [saturatingMul]
  split
  next hlt =>
    rw [BitVec.toNat_mul, Nat.mod_eq_of_lt hlt]
    omega
  next hge =>
    rw [BitVec.toNat_allOnes]
    omega

/-- What the conversion comes to: both products stay at the largest value of 128 bits. -/
def saturatedBold (gasUsed gasPrice rateNum rateDen : ℕ) : ℕ :=
  min (min (gasUsed * gasPrice) (2 ^ 128 - 1) * rateNum) (2 ^ 128 - 1) / rateDen

theorem boldReimbursement_toNat (receipt : GasReceipt) (rate : EthBoldRate) :
    (receipt.boldReimbursement rate).toNat =
      saturatedBold receipt.gasUsed.toNat receipt.gasPrice.toNat rate.rateNum.toNat
        rate.rateDen.toNat := by
  rw [GasReceipt.boldReimbursement, boldReceiptReimbursement, saturatedBold]
  split
  next hzero => simp [hzero]
  · rw [amountFromU128_toNat, BitVec.toNat_udiv, saturatingMul_toNat, saturatingMul_toNat]

theorem saturatedBold_le (gasUsed gasPrice rateNum rateDen : ℕ) :
    saturatedBold gasUsed gasPrice rateNum rateDen ≤
      Kernel.Bridge.boldReceiptReimbursement gasUsed gasPrice rateNum rateDen := by
  refine Nat.div_le_div_right ((min_le_left _ _).trans ?_)
  exact Nat.mul_le_mul_right _ (min_le_left _ _)

theorem saturatedBold_eq {gasUsed gasPrice rateNum : ℕ} (rateDen : ℕ)
    (hlt : gasUsed * gasPrice * rateNum < 2 ^ 128) :
    saturatedBold gasUsed gasPrice rateNum rateDen =
      Kernel.Bridge.boldReceiptReimbursement gasUsed gasPrice rateNum rateDen := by
  rw [saturatedBold, Kernel.Bridge.boldReceiptReimbursement]
  rcases Nat.eq_zero_or_pos rateNum with rfl | hpos
  · simp
  have hwei : gasUsed * gasPrice ≤ 2 ^ 128 - 1 := by
    have hle := Nat.le_mul_of_pos_right (gasUsed * gasPrice) hpos
    omega
  rw [min_eq_left hwei, min_eq_left (by omega)]

theorem shape_of_isPoolTransfer {resource : UInt64} {bound : Amount} {action : Action}
    (h : isPoolTransfer resource bound action = true) :
    ∃ amount, action = .transfer resource GAS_POOL_ACTOR_ID SEQUENCER_ACTOR_ID amount ∧
      amount ≤ bound := by
  cases action with
  | transfer _ _ _ amount =>
    simp only [isPoolTransfer, Bool.and_eq_true, beq_iff_eq, decide_eq_true_eq] at h
    obtain ⟨⟨⟨rfl, rfl⟩, rfl⟩, hle⟩ := h
    exact ⟨amount, rfl, hle⟩
  | _ => cases h

/-- The shape of a claim and its bound, in the kernel's terms. -/
theorem isPoolTransfer_iff {resource : UInt64} {bound : Amount} {action : Action} :
    isPoolTransfer resource bound action = true ↔ ∃ amount, action.toKernel =
          .transfer resource Kernel.gasPoolActor sequencerActor amount ∧
        amount ≤ bound.toNat := by
  cases action with
  | transfer _ _ _ amount =>
    simp only [isPoolTransfer, Bool.and_eq_true, beq_iff_eq, decide_eq_true_eq, Action.toKernel,
      Kernel.Action.transfer.injEq]
    constructor
    · rintro ⟨⟨⟨rfl, rfl⟩, rfl⟩, hle⟩
      exact ⟨amount.toNat, ⟨rfl, rfl, rfl, rfl⟩, hle⟩
    · rintro ⟨amount', ⟨rfl, rfl, rfl, rfl⟩, hle⟩
      exact ⟨⟨⟨rfl, rfl⟩, rfl⟩, hle⟩
  | _ => simp [isPoolTransfer, Action.toKernel]

/-- On the first leg the service and the kernel decide alike.  On the second the service holds
claims against the saturated conversion, so it accepts no more than the kernel, and the same where
the product of gas, price and numerator has 128 bits. -/
theorem receipt_gates_agree (claim : SequencerClaim) (receipt : GasReceipt) (rate : EthBoldRate) :
    (claim.isReceiptBackedBy receipt = true ↔
      ∃ amount,
        claim.action.toKernel =
          .transfer 0 Kernel.gasPoolActor Kernel.Bridge.sequencerActor amount ∧
        amount ≤ Kernel.Bridge.gasReceiptReimbursement receipt.gasUsed.toNat
          receipt.gasPrice.toNat) ∧
    (claim.isBoldReceiptBackedBy receipt rate = true ↔
      ∃ amount,
        claim.action.toKernel =
          .transfer 1 Kernel.gasPoolActor Kernel.Bridge.sequencerActor amount ∧
        amount ≤ saturatedBold receipt.gasUsed.toNat receipt.gasPrice.toNat
          rate.rateNum.toNat rate.rateDen.toNat) ∧
    (∀ hash rateHash batchId,
      (claim.isReceiptBackedBy receipt = true ↔
        ∃ cap, Kernel.Bridge.receiptVerifiedClaimAdmissible
          (Kernel.Bridge.attestsOnly hash batchId receipt.gasUsed.toNat receipt.gasPrice.toNat)
          cap claim.action.toKernel) ∧
      (claim.isBoldReceiptBackedBy receipt rate = true →
        ∃ cap, Kernel.Bridge.receiptVerifiedBoldClaimAdmissible
          (Kernel.Bridge.attestsOnly hash batchId receipt.gasUsed.toNat receipt.gasPrice.toNat)
          (Kernel.Bridge.attestsOnly rateHash batchId rate.rateNum.toNat rate.rateDen.toNat)
          cap claim.action.toKernel) ∧
      (receipt.gasUsed.toNat * receipt.gasPrice.toNat * rate.rateNum.toNat < 2 ^ 128 →
        (claim.isBoldReceiptBackedBy receipt rate = true ↔
          ∃ cap, Kernel.Bridge.receiptVerifiedBoldClaimAdmissible
            (Kernel.Bridge.attestsOnly hash batchId receipt.gasUsed.toNat receipt.gasPrice.toNat)
            (Kernel.Bridge.attestsOnly rateHash batchId rate.rateNum.toNat rate.rateDen.toNat)
            cap claim.action.toKernel))) := by
  have heth := @isPoolTransfer_iff 0 receipt.reimbursement claim.action
  rw [reimbursement_toNat] at heth
  have hbold := @isPoolTransfer_iff 1 (receipt.boldReimbursement rate) claim.action
  rw [boldReimbursement_toNat] at hbold
  refine ⟨heth, hbold, ?_⟩
  intro hash rateHash batchId
  rw [Kernel.Bridge.admissible_on_receipt, Kernel.Bridge.admissible_on_receipt_and_rate]
  refine ⟨heth, ?_, ?_⟩
  · intro hbacked
    obtain ⟨amount, haction, hle⟩ := hbold.mp hbacked
    exact ⟨amount, haction, hle.trans (saturatedBold_le _ _ _ _)⟩
  · intro hlt
    rw [← saturatedBold_eq _ hlt]
    exact hbold

def sampleReceipt (gasUsed gasPrice : BitVec 128) : GasReceipt := ⟨7, gasUsed, gasPrice, 0⟩

/-- A rate with 18 decimals on both sides. -/
def sampleRate (whole : BitVec 128) : EthBoldRate :=
  ⟨whole * 1000000000000000000, 1000000000000000000, 0⟩

def sampleClaim (resource : UInt64) (amount : Amount) : SequencerClaim :=
  ⟨.transfer resource 1 2 amount, 1, 0, []⟩

theorem receipt_gates_agree_small :
    21000 * 50 * (3000 * 1000000000000000000) < 2 ^ 128 ∧
    ((sampleClaim 1 3150000000).isBoldReceiptBackedBy (sampleReceipt 21000 50)
        (sampleRate 3000) = true ↔ ∃ cap, receiptVerifiedBoldClaimAdmissible
        (attestsOnly [] 7 21000 50)
        (attestsOnly [] 7 (3000 * 1000000000000000000) 1000000000000000000)
        cap (.transfer 1 1 2 3150000000)) :=
  ⟨by norm_num, ((receipt_gates_agree (sampleClaim 1 3150000000) (sampleReceipt 21000 50)
    (sampleRate 3000)).2.2 [] [] 7).2.2 (by decide)⟩

/-- Two million gas at 100 gwei and a rate of 3000: the kernel admits a claim of 600, the service
does not. -/
theorem ordinary_rate_saturates :
    ¬ ((sampleClaim 1 600000000000000000000).isBoldReceiptBackedBy
        (sampleReceipt 2000000 100000000000) (sampleRate 3000) = true ↔
      ∃ amount, (sampleClaim 1 600000000000000000000).action.toKernel =
          .transfer 1 Kernel.gasPoolActor Kernel.Bridge.sequencerActor amount ∧
        amount ≤ Kernel.Bridge.boldReceiptReimbursement 2000000 100000000000
          (3000 * 1000000000000000000) 1000000000000000000) := by
  have hrefused : (sampleClaim 1 600000000000000000000).isBoldReceiptBackedBy
      (sampleReceipt 2000000 100000000000) (sampleRate 3000) = false := by
    decide
  intro hiff
  rw [hiff.mpr ⟨600000000000000000000, rfl, by decide⟩] at hrefused
  cases hrefused

end Knomosis.Ingest
