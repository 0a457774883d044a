import Knomosis.Runtime.Loop

/-!
# The log and its replay

The state is rebuilt from the log.  Each entry is checked against the hash of the one
before, its action is admitted again, and the result is compared with the hash it records.
-/

namespace Knomosis.Runtime

open Lib Kernel FaultProof

inductive ReplayError where
  | chainBroken (atIndex : ℕ)
  | notAdmissible (atIndex : ℕ)
  | postHashMismatch (atIndex : ℕ)

variable (verify : Verifier) (hashStream : Hash)

/-- The state, the last hash, the index and the settings are those of `rs`. -/
def replayStepWith (rs : RuntimeState) (e : LogEntry) : Except ReplayError ExtendedState :=
  if e.prevHash ≠ rs.prevHash then .error (.chainBroken rs.logIndex)
  else if BridgeAdmissibleWith verify rs.policy rs.deploymentId rs.effective e.signedAction then
    match applyBridgeAdmissibleWithBudget rs.effective e.signedAction rs.logIndex
        rs.refundRate with
    | some nextState =>
      if hashStream nextState.encode ≠ e.postStateHash then .error (.postHashMismatch rs.logIndex)
      else .ok nextState
    | none => .error (.notAdmissible rs.logIndex)
  else .error (.notAdmissible rs.logIndex)

/-- Where the entry has led to `state'`. -/
def RuntimeState.advance (rs : RuntimeState) (e : LogEntry) (state' : ExtendedState) :
    RuntimeState :=
  { rs with state := state', prevHash := entryHash hashStream e, logIndex := rs.logIndex + 1 }

def replayLoopWith : RuntimeState → List LogEntry → Except ReplayError ExtendedState
  | rs, [] => .ok rs.state
  | rs, e :: rest =>
    match replayStepWith verify hashStream rs e with
    | .ok state' => replayLoopWith (rs.advance hashStream e state') rest
    | .error err => .error err

def processBatch : RuntimeState → List SignedAction →
    RuntimeState × List (Except ProcessError (RuntimeState × LogEntry × List Event))
  | rs, [] => (rs, [])
  | rs, st :: rest =>
    let result := processPure verify hashStream rs st
    let rs' := match result with
      | .ok r => r.1
      | .error _ => rs
    let (rs'', results) := processBatch rs' rest
    (rs'', result :: results)

/-- The entries that a batch appends to the log. -/
def logged (rs : RuntimeState) (sts : List SignedAction) : List LogEntry :=
  (processBatch verify hashStream rs sts).2.filterMap (fun r => r.toOption.map (·.2.1))

/-- A run of the runtime, by what it appends to the log. -/
inductive Appends : RuntimeState → List LogEntry → RuntimeState → Prop
  | nil (rs : RuntimeState) : Appends rs [] rs
  | cons {rs rs₁ rs' : RuntimeState} {e : LogEntry} {events : List Event} {log : List LogEntry}
      (hstep : (runtime verify hashStream).step rs e.signedAction = some (rs₁, e, events))
      (hrest : Appends rs₁ log rs') : Appends rs (e :: log) rs'

variable {verify hashStream} {rs rs' : RuntimeState} {st : SignedAction} {e : LogEntry}
variable {events : List Event} {log : List LogEntry}

/-- The runtime takes an action where the replay takes the entry. -/
theorem processPure_eq_ok :
    processPure verify hashStream rs st = .ok (rs', e, events) ↔
    ∃ state', replayStepWith verify hashStream rs e = .ok state' ∧ e.signedAction = st ∧
      rs' = rs.advance hashStream e state' ∧ events = extractEvents rs.effective state' st := by
  constructor
  · intro hok
    unfold processPure at hok
    dsimp only at hok
    split at hok
    next hadmissible =>
      split at hok
      next newState happly =>
        cases hok
        refine ⟨newState, ?_, rfl, rfl, rfl⟩
        simp [replayStepWith, hadmissible, happly]
      · cases hok
    · cases hok
  · rintro ⟨state', hstep, rfl, rfl, rfl⟩
    simp only [replayStepWith, ne_eq, ite_not] at hstep
    split_ifs at hstep with hprev hadmissible
    split at hstep
    next newState happly =>
      split_ifs at hstep with hpost
      cases hstep
      simp [processPure, hadmissible, happly, RuntimeState.advance, ← hprev, hpost]
    · cases hstep

theorem appends_batch (rs : RuntimeState) (sts : List SignedAction) :
    Appends verify hashStream rs (logged verify hashStream rs sts)
      (processBatch verify hashStream rs sts).1 := by
  induction sts generalizing rs with
  | nil => exact .nil rs
  | cons st sts ih =>
    simp only [logged, processBatch]
    cases hok : processPure verify hashStream rs st with
    | error => exact ih rs
    | ok r =>
      obtain ⟨-, -, rfl, -⟩ := processPure_eq_ok.mp hok
      exact .cons (toOption_eq_some.mpr hok) (ih r.1)

theorem Appends.replay (h : Appends verify hashStream rs log rs') :
    replayLoopWith verify hashStream rs log = .ok rs'.state := by
  induction h with
  | nil => rfl
  | cons hstep _ ih =>
    obtain ⟨_, hreplay, -, rfl, -⟩ := processPure_eq_ok.mp (toOption_eq_some.mp hstep)
    rw [replayLoopWith, hreplay]
    exact ih

/-- The replay accepts the logs that batches write, and rebuilds the state that they leave. -/
theorem replayLoopWith_eq_ok {state' : ExtendedState} :
    replayLoopWith verify hashStream rs log = .ok state' ↔
      ∃ sts, (processBatch verify hashStream rs sts).1.state = state' ∧
        logged verify hashStream rs sts = log := by
  constructor
  · intro hok
    induction log generalizing rs with
    | nil =>
      cases hok
      exact ⟨[], rfl, rfl⟩
    | cons e log ih =>
      simp only [replayLoopWith] at hok
      split at hok
      next s hstep =>
        obtain ⟨sts, hfinal, hlog⟩ := ih hok
        have hstep' := processPure_eq_ok.mpr ⟨s, hstep, rfl, rfl, rfl⟩
        refine ⟨e.signedAction :: sts, ?_, ?_⟩
        · simpa only [processBatch, hstep'] using hfinal
        · simpa [logged, processBatch, hstep', Except.toOption] using hlog
      · cases hok
  · rintro ⟨sts, rfl, rfl⟩
    exact (appends_batch rs sts).replay

end Knomosis.Runtime
