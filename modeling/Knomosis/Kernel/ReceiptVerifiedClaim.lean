import Knomosis.Kernel.Action

/-!
# Claims of the sequencer that a receipt backs

The sequencer pays for batches on the chain below and takes the cost out of the pool
of fees.  A claim is admissible if a watcher has attested a receipt that covers it.
In the second currency the cost is converted at a rate that an oracle has attested,
and rounded down.
-/

namespace Knomosis.Kernel
namespace Bridge

open Lib Smt

/-- The actor that publishes batches. -/
def sequencerActor : ActorId := 2

def gasReceiptReimbursement (gasUsed gasPrice : ℕ) : Amount := gasUsed * gasPrice

def boldReceiptReimbursement (gasUsed gasPrice rateNum rateDen : ℕ) : Amount :=
  gasUsed * gasPrice * rateNum / rateDen

section Gates

variable (l1GasReceiptVerifier : Bytes → ℕ → ℕ → ℕ → Bool)
variable (l1EthBoldRateOracle : Bytes → ℕ → ℕ → ℕ → Bool)

/-- A receipt that the watcher attests and that covers an amount. -/
structure SequencerReimbursementVerified (amount : Amount) where
  receiptBindingHash : Bytes
  batchId : ℕ
  gasUsed : ℕ
  gasPrice : ℕ
  l1_attestation : l1GasReceiptVerifier receiptBindingHash batchId gasUsed gasPrice = true
  amount_backed : amount ≤ gasReceiptReimbursement gasUsed gasPrice

def receiptVerifiedClaimAdmissible (maxDrainPerActionEth : Amount) (action : Action) : Prop :=
  ∃ amount, action = .transfer 0 gasPoolActor sequencerActor amount ∧
    amount ≤ maxDrainPerActionEth ∧
    Nonempty (SequencerReimbursementVerified l1GasReceiptVerifier amount)

/-- A receipt and a rate, both attested, that cover an amount of the second currency. -/
structure SequencerReimbursementVerifiedBold (amount : Amount) where
  receiptBindingHash : Bytes
  rateBindingHash : Bytes
  batchId : ℕ
  gasUsed : ℕ
  gasPrice : ℕ
  rateNum : ℕ
  rateDen : ℕ
  gas_attestation : l1GasReceiptVerifier receiptBindingHash batchId gasUsed gasPrice = true
  rate_attestation : l1EthBoldRateOracle rateBindingHash batchId rateNum rateDen = true
  amount_backed : amount ≤ boldReceiptReimbursement gasUsed gasPrice rateNum rateDen

def receiptVerifiedBoldClaimAdmissible (maxDrainPerActionBold : Amount) (action : Action) : Prop :=
  ∃ amount, action = .transfer 1 gasPoolActor sequencerActor amount ∧
    amount ≤ maxDrainPerActionBold ∧
    Nonempty (SequencerReimbursementVerifiedBold l1GasReceiptVerifier l1EthBoldRateOracle amount)

end Gates

/-- Who attests one statement and no other. -/
def attestsOnly (hash : Bytes) (batchId x y : ℕ) : Bytes → ℕ → ℕ → ℕ → Bool :=
  fun hash' batchId' x' y' => decide ((hash', batchId', x', y') = (hash, batchId, x, y))

theorem attestsOnly_eq_true {hash hash' : Bytes} {batchId x y batchId' x' y' : ℕ} :
    attestsOnly hash batchId x y hash' batchId' x' y' = true ↔
      hash' = hash ∧ batchId' = batchId ∧ x' = x ∧ y' = y := by
  simp [attestsOnly]

section OneReceipt

variable (hash rateHash : Bytes) (batchId gasUsed gasPrice rateNum rateDen : ℕ) (action : Action)

/-- Under some cap a claim is admissible on one receipt if it is a transfer that the receipt
covers. -/
theorem admissible_on_receipt :
    (∃ cap, receiptVerifiedClaimAdmissible (attestsOnly hash batchId gasUsed gasPrice) cap action) ↔
      ∃ amount, action = .transfer 0 gasPoolActor sequencerActor amount ∧
        amount ≤ gasReceiptReimbursement gasUsed gasPrice := by
  constructor
  · rintro ⟨cap, amount, haction, -, ⟨w⟩⟩
    obtain ⟨-, -, hused, hprice⟩ := attestsOnly_eq_true.mp w.l1_attestation
    have hbacked := w.amount_backed
    rw [hused, hprice] at hbacked
    exact ⟨amount, haction, hbacked⟩
  · rintro ⟨amount, haction, hbacked⟩
    exact ⟨amount, amount, haction, le_rfl,
      ⟨⟨hash, batchId, gasUsed, gasPrice, attestsOnly_eq_true.mpr ⟨rfl, rfl, rfl, rfl⟩, hbacked⟩⟩⟩

theorem admissible_on_receipt_and_rate :
    (∃ cap, receiptVerifiedBoldClaimAdmissible (attestsOnly hash batchId gasUsed gasPrice)
        (attestsOnly rateHash batchId rateNum rateDen) cap action) ↔
      ∃ amount, action = .transfer 1 gasPoolActor sequencerActor amount ∧
        amount ≤ boldReceiptReimbursement gasUsed gasPrice rateNum rateDen := by
  constructor
  · rintro ⟨cap, amount, haction, -, ⟨w⟩⟩
    obtain ⟨-, -, hused, hprice⟩ := attestsOnly_eq_true.mp w.gas_attestation
    obtain ⟨-, -, hnum, hden⟩ := attestsOnly_eq_true.mp w.rate_attestation
    have hbacked := w.amount_backed
    rw [hused, hprice, hnum, hden] at hbacked
    exact ⟨amount, haction, hbacked⟩
  · rintro ⟨amount, haction, hbacked⟩
    exact ⟨amount, amount, haction, le_rfl,
      ⟨⟨hash, rateHash, batchId, gasUsed, gasPrice, rateNum, rateDen,
        attestsOnly_eq_true.mpr ⟨rfl, rfl, rfl, rfl⟩,
        attestsOnly_eq_true.mpr ⟨rfl, rfl, rfl, rfl⟩, hbacked⟩⟩⟩

end OneReceipt

end Bridge
end Knomosis.Kernel
