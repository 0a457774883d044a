import Knomosis.Runtime.Replay

/-!
# What the log of a batch says

A log that the runtime wrote is replayed in two more places, and neither asks again about
admission.  The replay for disputes rebuilds the state before each entry, up to the bridge and
the budgets.  The replay of the fault proof knows no epochs, and rebuilds the whole state as
long as none begins.
-/

namespace Knomosis.Runtime

open Kernel FaultProof

variable {verify : Verifier} {hashStream : Hash} {rs rs' : RuntimeState} {log : List LogEntry}

section Disputes

/-- The replay for disputes leaves alone the bridge and the budgets, and rebuilds the rest. -/
theorem Appends.kernelOnlyReplay_eq (h : Appends verify hashStream rs log rs')
    (bridge : BridgeState) (epochBudgets : EpochBudgetState) (budgetPolicy : BudgetPolicy) :
    kernelOnlyReplay { rs.state with bridge, epochBudgets, budgetPolicy } log =
      { rs'.state with bridge, epochBudgets, budgetPolicy } := by
  induction h with
  | nil => rfl
  | @cons _ _ _ e _ _ hstep _ ih =>
    rw [← ih, (admitted_of_step hstep).state, productionApplyBudget_eq, kernelOnlyReplay,
      List.foldl_cons, kernelOnlyApply]
    cases e.signedAction.action <;> rfl

/-- Every entry was admitted in the state that the entries before it led to. -/
theorem Appends.admitted (h : Appends verify hashStream rs log rs') {i : ℕ} {e : LogEntry}
    (hentry : log[i]? = some e) :
    ∃ rs₁ rs₂ events, Admitted verify rs₁ e.signedAction rs₂ events ∧
    Appends verify hashStream rs (log.take i) rs₁ := by
  induction h generalizing i with
  | nil => cases hentry
  | cons hstep _ ih =>
    cases i with
    | zero =>
      cases hentry
      exact ⟨_, _, _, admitted_of_step hstep, .nil _⟩
    | succ i =>
      obtain ⟨_, _, _, hadmitted, hbefore⟩ := ih hentry
      exact ⟨_, _, _, hadmitted, .cons hstep hbefore⟩

/-- The replay for disputes follows the runtime, and neither check is upheld against it. -/
theorem disputes_not_upheld (rs : RuntimeState) (sts : List SignedAction) :
    kernelOnlyReplay rs.state (logged verify hashStream rs sts) =
        { (processBatch verify hashStream rs sts).1.state with
          bridge := rs.state.bridge
          epochBudgets := rs.state.epochBudgets
          budgetPolicy := rs.state.budgetPolicy } ∧
      ∀ i, checkNonceMismatch rs.state (logged verify hashStream rs sts) i ≠ .upheld ∧
        checkPreconditionFalse rs.state (logged verify hashStream rs sts) i ≠ .upheld := by
  have hlog := @appends_batch verify hashStream rs sts
  generalize logged verify hashStream rs sts = log at hlog ⊢
  refine ⟨hlog.kernelOnlyReplay_eq _ _ _, fun i => ?_⟩
  unfold checkNonceMismatch checkPreconditionFalse
  cases hentry : log[i]? with
  | none => simp
  | some e =>
    obtain ⟨rs₁, _, _, hadmitted, hbefore⟩ := hlog.admitted hentry
    have hreplay := hbefore.kernelOnlyReplay_eq rs.state.bridge rs.state.epochBudgets
      rs.state.budgetPolicy
    have hi : ¬ log.length < i := (List.getElem?_eq_some_iff.mp hentry).1.not_gt
    -- neither check reads what the replay leaves alone
    have hnonce : e.signedAction.nonce = expectsNonce
        (kernelOnlyReplay rs.state (log.take i)) e.signedAction.signer := by
      rw [hreplay]
      exact hadmitted.admissible.nonce
    have hpre : e.signedAction.action.compileTransition.pre
        (kernelOnlyReplay rs.state (log.take i)).base := by
      rw [hreplay]
      exact hadmitted.admissible.pre
    simp [replayPrefix, hi, hnonce, hpre]

end Disputes

section FaultProof

theorem productionReplayBudget_policy (es : ExtendedState) (i : ℕ) (sts : List SignedAction) :
    (productionReplayBudget es i sts).budgetPolicy = es.budgetPolicy := by
  induction sts generalizing es i with
  | nil => rfl
  | cons st sts ih => rw [productionReplayBudget, ih, productionApplyBudget_eq]

/-- Epochs only go up, and within one the fault proof advances as the runtime does. -/
theorem Appends.epoch (h : Appends verify hashStream rs log rs') {freeTier actionCost now : ℕ}
    (hpolicy : rs.state.budgetPolicy = .bounded freeTier actionCost now) :
    ∃ now' ≥ now, rs'.state.budgetPolicy = .bounded freeTier actionCost now' ∧ (now' = now →
      productionReplayBudget rs.state rs.logIndex (log.map (·.signedAction)) = rs'.state) := by
  induction h generalizing now with
  | nil => exact ⟨now, le_rfl, hpolicy, fun _ => rfl⟩
  | @cons rs rs₁ _ _ _ _ hstep _ ih =>
    have hadmitted := admitted_of_step hstep
    have hnext : rs₁.state.budgetPolicy =
        rs.state.budgetPolicy.advanceEpoch rs.epochLength rs.logIndex := by
      rw [hadmitted.state, productionApplyBudget_eq]
      rfl
    rw [hpolicy, BudgetPolicy.advanceEpoch] at hnext
    split at hnext
    · -- an epoch begins, and `now` does not come back
      obtain ⟨now', hle, hend, -⟩ := ih hnext
      exact ⟨now', by omega, hend, by omega⟩
    next hwithin =>
      obtain ⟨now', hle, hend, hreplay⟩ := ih hnext
      refine ⟨now', hle, hend, fun hnow => ?_⟩
      have heffective : rs.effective = rs.state := by
        rw [RuntimeState.effective, ExtendedState.withAdvancedEpoch, hpolicy,
          BudgetPolicy.advanceEpoch, if_neg hwithin, ← hpolicy]
      rw [List.map_cons, productionReplayBudget, ← hreplay hnow, hadmitted.state, heffective,
        hadmitted.logIndex]

/-- The fault proof reaches the state of the runtime exactly where no epoch has begun. -/
theorem fault_proof_agrees_iff (rs : RuntimeState) (sts : List SignedAction) :
    productionReplayBudget rs.state rs.logIndex
        ((logged verify hashStream rs sts).map (·.signedAction)) =
        (processBatch verify hashStream rs sts).1.state ↔
      (processBatch verify hashStream rs sts).1.state.budgetPolicy = rs.state.budgetPolicy := by
  constructor
  · intro heq
    rw [← heq, productionReplayBudget_policy]
  · intro hpolicy
    rcases hnow : rs.state.budgetPolicy with ⟨freeTier, actionCost, now⟩
    obtain ⟨now', -, hend, hreplay⟩ := (appends_batch rs sts).epoch hnow
    rw [hpolicy, hnow] at hend
    cases hend
    exact hreplay rfl

end FaultProof

end Knomosis.Runtime
