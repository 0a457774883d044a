import Knomosis.Kernel.Admission
import Knomosis.Kernel.Evidence

/-!
# The advance of an admitted action

The fault-proof layer does not ask again whether an action was admitted.  Its
advance is a total function, and it takes the action under the budget policy that
the state carries.  Where the budget gate lets an action through, the gated
advance is the total one.
-/

namespace Knomosis.FaultProof

open Kernel

/-- An entry around an action whose hashes nobody reads. -/
def signedActionEntry (st : SignedAction) : LogEntry where
  prevHash := []
  signedAction := st
  postStateHash := []

/-- The advance without the budgets. -/
def productionApply (es : ExtendedState) (st : SignedAction) (l2LogIndex : ℕ) : ExtendedState :=
  { kernelOnlyApply es (signedActionEntry st) with
    bridge := applyActionToBridgeState es.bridge st.action l2LogIndex }

/-- The budget gate lets the action through. -/
def budgetGateAdmits (es : ExtendedState) (st : SignedAction) (refundRate : ResourceId → ℕ) :
    Bool :=
  match es.budgetPolicy with
  | .bounded freeTier actionCost currentEpoch =>
    topUpActionBudgetGasCheck st.action st.signer es &&
      depositWithFeeSignerCheck st.action st.signer &&
      topUpActionBudgetForGate st.action st.signer es &&
      topUpRoundTripCheck st.action refundRate &&
      claimBudgetRefundGate st.action st.signer es refundRate &&
      (decide (st.signer = bridgeActor) ||
        (es.epochBudgets.consume st.signer currentEpoch freeTier
          (actionCost + refundConsumeExtra st.action)).isSome)

/-- The advance with the budgets: the charge, then the grant. -/
def productionApplyBudget (es : ExtendedState) (st : SignedAction) (l2LogIndex : ℕ) :
    ExtendedState :=
  match es.budgetPolicy with
  | .bounded freeTier actionCost currentEpoch =>
    let applied := productionApply es st l2LogIndex
    let grant := budgetGrant st.signer st.action freeTier currentEpoch
    if st.signer = bridgeActor then { applied with epochBudgets := grant es.epochBudgets }
    else
      match es.epochBudgets.consume st.signer currentEpoch freeTier
          (actionCost + refundConsumeExtra st.action) with
      | none => applied
      | some ebs => { applied with epochBudgets := grant ebs }

/-- The advance of a list of actions; each takes the next log index. -/
def productionReplayBudget (es : ExtendedState) (startIdx : ℕ) : List SignedAction → ExtendedState
  | [] => es
  | st :: rest => productionReplayBudget (productionApplyBudget es st startIdx) (startIdx + 1) rest

section Gate

variable (es : ExtendedState) (st : SignedAction) (l2LogIndex : ℕ)

theorem applyAdmissible_eq : applyAdmissible es st = kernelOnlyApply es (signedActionEntry st) := by
  rw [applyAdmissible, kernelOnlyApply, signedActionEntry]
  cases st.action <;> rfl

theorem applyBridgeAdmissible_eq :
    applyBridgeAdmissible es st l2LogIndex = productionApply es st l2LogIndex := by
  rw [applyBridgeAdmissible, productionApply, applyAdmissible_eq]

/-- The gated advance is the gate and the total advance. -/
theorem applyBridgeAdmissibleWithBudget_eq (refundRate : ResourceId → ℕ) :
    applyBridgeAdmissibleWithBudget es st l2LogIndex refundRate =
      if budgetGateAdmits es st refundRate then some (productionApplyBudget es st l2LogIndex)
      else none := by
  rcases hpolicy : es.budgetPolicy with ⟨freeTier, actionCost, currentEpoch⟩
  simp only [applyBridgeAdmissibleWithBudget, budgetGateAdmits, productionApplyBudget, hpolicy,
    applyBridgeAdmissible_eq, Bool.and_eq_true, Bool.or_eq_true, decide_eq_true_eq]
  -- a gate that refuses ends both sides with nothing
  by_cases h1 : topUpActionBudgetGasCheck st.action st.signer es = true
  case neg => simp [h1]
  by_cases h2 : depositWithFeeSignerCheck st.action st.signer = true
  case neg => simp [h2]
  by_cases h3 : topUpActionBudgetForGate st.action st.signer es = true
  case neg => simp [h3]
  by_cases h4 : topUpRoundTripCheck st.action refundRate = true
  case neg => simp [h4]
  by_cases h5 : claimBudgetRefundGate st.action st.signer es refundRate = true
  case neg => simp [h5]
  simp only [h1, h2, h3, h4, h5, not_true_eq_false, if_false, true_and]
  by_cases hbridge : st.signer = bridgeActor
  · simp [hbridge]
  · cases hpay : es.epochBudgets.consume st.signer currentEpoch freeTier
        (actionCost + refundConsumeExtra st.action) <;>
      simp [hbridge]

end Gate

section Fields

/-- The budgets after the charge and the grant. -/
def advancedBudgets (es : ExtendedState) (st : SignedAction) : EpochBudgetState :=
  match es.budgetPolicy with
  | .bounded freeTier actionCost currentEpoch =>
    let grant := budgetGrant st.signer st.action freeTier currentEpoch
    if st.signer = bridgeActor then grant es.epochBudgets
    else
      (es.epochBudgets.consume st.signer currentEpoch freeTier
        (actionCost + refundConsumeExtra st.action)).elim es.epochBudgets grant

variable (es : ExtendedState) (st : SignedAction) (l2LogIndex : ℕ)

theorem productionApplyBudget_eq :
    productionApplyBudget es st l2LogIndex =
      { base := stepImpl es.base (st.action.toTransition st.signer)
        nonces := (advanceNonce es st.signer).nonces
        registry := applyActionToRegistry es.registry st.action
        bridge := applyActionToBridgeState es.bridge st.action l2LogIndex
        localPolicies := applyActionToLocalPolicies es.localPolicies st.signer st.action
        epochBudgets := advancedBudgets es st
        budgetPolicy := es.budgetPolicy } := by
  rcases hpolicy : es.budgetPolicy with ⟨freeTier, actionCost, currentEpoch⟩
  simp only [productionApplyBudget, advancedBudgets, hpolicy, productionApply,
    ← applyAdmissible_eq, applyAdmissible]
  by_cases hbridge : st.signer = bridgeActor
  · simp [hbridge, advanceNonce, expectsNonce, hpolicy]
  · cases hpay : es.epochBudgets.consume st.signer currentEpoch freeTier
        (actionCost + refundConsumeExtra st.action) <;>
      simp [hbridge, advanceNonce, expectsNonce, hpolicy]

end Fields

end Knomosis.FaultProof
