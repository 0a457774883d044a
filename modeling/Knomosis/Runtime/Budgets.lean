import Knomosis.Kernel.BudgetLedger
import Knomosis.Runtime.Loop

/-!
# The budgets along a run

Within an epoch an actor has what it began the epoch with, and what it was granted
since, less what it was charged.  It begins an epoch with what it carried over,
raised to the free tier.  Only epoch zero is different: nothing is raised there, since
every budget counts as seen in it.
-/

namespace Knomosis.Runtime

open Lib Kernel FaultProof

section Actions

variable {es : ExtendedState} {st : SignedAction} {freeTier actionCost now : ℕ}

/-- What an action charges an actor. -/
def charged (actionCost : ℕ) (st : SignedAction) (a : ActorId) : ℕ :=
  if st.signer ≠ bridgeActor ∧ a = st.signer then actionCost + refundConsumeExtra st.action else 0

/-- The budgets after an action that the gate lets through. -/
theorem advancedBudgets_balance {refundRate : ResourceId → ℕ}
    (hpolicy : es.budgetPolicy = .bounded freeTier actionCost now)
    (hgate : budgetGateAdmits es st refundRate = true) (hseen : es.epochBudgets.SeenBy now) :
    (advancedBudgets es st).SeenBy now ∧
      ∀ a, (advancedBudgets es st).currentBudget a now freeTier + charged actionCost st a =
        es.epochBudgets.currentBudget a now freeTier + granted st.signer st.action a := by
  simp only [budgetGateAdmits, hpolicy, Bool.and_eq_true, Bool.or_eq_true,
    decide_eq_true_eq] at hgate
  obtain ⟨-, hpays⟩ := hgate
  simp only [advancedBudgets, hpolicy]
  by_cases hbridge : st.signer = bridgeActor
  · simp only [if_pos hbridge]
    refine ⟨seenBy_budgetGrant hseen _ _, fun a => ?_⟩
    have hfree : charged actionCost st a = 0 := if_neg (fun h => h.1 hbridge)
    rw [currentBudget_budgetGrant, hfree, Nat.add_zero]
  · simp only [if_neg hbridge]
    obtain ⟨ebs, hconsume⟩ := Option.isSome_iff_exists.mp (hpays.resolve_left hbridge)
    simp only [hconsume, Option.elim_some]
    refine ⟨seenBy_budgetGrant (hseen.consume hconsume) _ _, fun a => ?_⟩
    have hcharge : charged actionCost st a =
        if a = st.signer then actionCost + refundConsumeExtra st.action else 0 := by
      simp [charged, hbridge]
    have hleft := EpochBudgetState.currentBudget_consume hconsume a
    rw [currentBudget_budgetGrant, hcharge]
    omega

end Actions

section Epochs

/-- An actor's budget in the current epoch of a state. -/
def currentBudget (es : ExtendedState) (a : ActorId) : ℕ :=
  match es.budgetPolicy with
  | .bounded freeTier _ currentEpoch => es.epochBudgets.currentBudget a currentEpoch freeTier

/-- The next action is the first of an epoch. -/
def RuntimeState.AtBoundary (rs : RuntimeState) : Prop :=
  rs.epochLength ≠ 0 ∧ rs.logIndex ≠ 0 ∧ rs.logIndex % rs.epochLength = 0

instance (rs : RuntimeState) : Decidable rs.AtBoundary := inferInstanceAs (Decidable (_ ∧ _))

/-- What an actor carried over the last boundary. -/
def carried (a : ActorId) : List Processed → ℕ
  | [] => 0
  | e :: h => if e.pre.AtBoundary then currentBudget e.pre.state a else carried a h

/-- A sum over the actions since the last boundary. -/
def sinceBoundary (amount : Processed → ℕ) : List Processed → ℕ
  | [] => 0
  | e :: h => (if e.pre.AtBoundary then 0 else sinceBoundary amount h) + amount e

/-- The number of boundaries that a run has crossed. -/
def crossings (h : List Processed) : ℕ := h.countP (fun e => decide e.pre.AtBoundary)

theorem crossings_eq_zero {h : List Processed} : crossings h = 0 ↔ ¬ ∃ e ∈ h, e.pre.AtBoundary := by
  simp [crossings, List.countP_eq_zero]

variable {verify : Verifier} {hashStream : Hash} {rs₀ rs rs' : RuntimeState}
variable {h : List Processed} {freeTier actionCost baseEpoch : ℕ}

/-- The budgets after a run, against what the actions of the epoch granted and charged. -/
structure Balanced (freeTier actionCost baseEpoch : ℕ) (h : List Processed)
    (rs : RuntimeState) : Prop where
  policy : rs.state.budgetPolicy = .bounded freeTier actionCost (baseEpoch + crossings h)
  seen : rs.state.epochBudgets.SeenBy (baseEpoch + crossings h)
  balance : ∀ a, currentBudget rs.state a + sinceBoundary (fun e => charged actionCost e.call a) h =
    (if baseEpoch + crossings h = 0 then 0 else max (carried a h) freeTier) +
      sinceBoundary (fun e => granted e.call.signer e.call.action a) h

theorem currentBudget_eq {es : ExtendedState} {now : ℕ}
    (hpolicy : es.budgetPolicy = .bounded freeTier actionCost now) (a : ActorId) :
    currentBudget es a = es.epochBudgets.currentBudget a now freeTier := by
  rw [currentBudget, hpolicy]

/-- The policy and the budgets as the next action sees them. -/
theorem Balanced.effective (hbalanced : Balanced freeTier actionCost baseEpoch h rs)
    (st : SignedAction) (out : LogEntry × List Event) :
    rs.effective.budgetPolicy =
        .bounded freeTier actionCost (baseEpoch + crossings (⟨rs, st, out⟩ :: h)) ∧
      rs.effective.epochBudgets.SeenBy (baseEpoch + crossings (⟨rs, st, out⟩ :: h)) ∧
      ∀ a, rs.effective.epochBudgets.currentBudget a
          (baseEpoch + crossings (⟨rs, st, out⟩ :: h)) freeTier + (if rs.AtBoundary then 0
            else sinceBoundary (fun e => charged actionCost e.call a) h) =
        (if baseEpoch + crossings (⟨rs, st, out⟩ :: h) = 0 then 0
          else max (carried a (⟨rs, st, out⟩ :: h)) freeTier) + (if rs.AtBoundary then 0
            else sinceBoundary (fun e => granted e.call.signer e.call.action a) h) := by
  have hpolicy : rs.effective.budgetPolicy =
      rs.state.budgetPolicy.advanceEpoch rs.epochLength rs.logIndex := rfl
  rw [hbalanced.policy, BudgetPolicy.advanceEpoch] at hpolicy
  by_cases hboundary : rs.AtBoundary
  · -- a new epoch: nothing is counted yet, and what was there is carried over
    have hcross : baseEpoch + crossings (⟨rs, st, out⟩ :: h) = baseEpoch + crossings h + 1 := by
      simp [crossings, hboundary, Nat.add_assoc]
    rw [hcross]
    refine ⟨hpolicy.trans (if_pos hboundary), hbalanced.seen.mono (Nat.le_succ _), fun a => ?_⟩
    have hraised : rs.state.epochBudgets.currentBudget a (baseEpoch + crossings h + 1) freeTier =
        max (rs.state.epochBudgets.currentBudget a (baseEpoch + crossings h) freeTier) freeTier :=
      EpochBudgetState.currentBudget_succ hbalanced.seen a
    rw [if_pos hboundary, if_pos hboundary, if_neg (Nat.succ_ne_zero _), carried,
      if_pos hboundary, currentBudget_eq hbalanced.policy]
    exact congrArg (· + 0) hraised
  · have hcross : crossings (⟨rs, st, out⟩ :: h) = crossings h := by simp [crossings, hboundary]
    rw [hcross]
    refine ⟨hpolicy.trans (if_neg hboundary), hbalanced.seen, fun a => ?_⟩
    have hbefore := hbalanced.balance a
    rw [currentBudget_eq hbalanced.policy] at hbefore
    rw [if_neg hboundary, if_neg hboundary, carried, if_neg hboundary]
    exact hbefore

theorem Balanced.step {st : SignedAction} {out : LogEntry × List Event}
    (hbalanced : Balanced freeTier actionCost baseEpoch h rs)
    (hadmitted : Admitted verify rs st rs' out.2) :
    Balanced freeTier actionCost baseEpoch (⟨rs, st, out⟩ :: h) rs' := by
  obtain ⟨hpolicy, hseen, hbalance⟩ := hbalanced.effective st out
  obtain ⟨hseen', hbalance'⟩ := advancedBudgets_balance hpolicy hadmitted.gate hseen
  have hstate := hadmitted.state
  rw [productionApplyBudget_eq] at hstate
  have hpolicy' : rs'.state.budgetPolicy =
      .bounded freeTier actionCost (baseEpoch + crossings (⟨rs, st, out⟩ :: h)) := by
    rw [hstate]
    exact hpolicy
  refine ⟨hpolicy', by rw [hstate]; exact hseen', fun a => ?_⟩
  have hbefore := hbalance a
  have hafter := hbalance' a
  rw [currentBudget_eq hpolicy', sinceBoundary, sinceBoundary]
  rw [hstate]
  dsimp only
  omega

theorem balanced_of_run (hrun : Run (runtime verify hashStream) rs₀ h rs)
    (hpolicy : rs₀.state.budgetPolicy = .bounded freeTier actionCost baseEpoch)
    (hempty : rs₀.state.epochBudgets = ∅) : Balanced freeTier actionCost baseEpoch h rs := by
  induction hrun with
  | nil =>
    refine ⟨hpolicy, ?_, fun a => ?_⟩
    · rw [hempty]
      exact EpochBudgetState.seenBy_empty _
    have hbudget : currentBudget rs₀.state a = if baseEpoch = 0 then 0 else freeTier := by
      rw [currentBudget_eq hpolicy, hempty, EpochBudgetState.currentBudget,
        EpochBudgetState.budgetOf_empty]
      cases baseEpoch with
      | zero => rfl
      | succ => simp [ActorBudget.normalise, ActorBudget.empty]
    rw [hbudget]
    simp [sinceBoundary, crossings, carried]
  | snoc _ hstep ih => exact ih.step (admitted_of_step hstep)

theorem indices_of_run (hrun : Run (runtime verify hashStream) rs₀ h rs) :
    rs.logIndex = rs₀.logIndex + h.length ∧ rs.epochLength = rs₀.epochLength := by
  induction hrun with
  | nil => exact ⟨rfl, rfl⟩
  | snoc _ hstep ih =>
    have hadmitted := admitted_of_step hstep
    rw [hadmitted.logIndex, hadmitted.epochLength, ih.1, List.length_cons]
    exact ⟨Nat.add_assoc _ _ _, ih.2⟩

end Epochs

end Knomosis.Runtime
