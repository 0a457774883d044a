import Knomosis.FaultProof.Production
import Knomosis.Kernel.Extract
import Knomosis.Lib.Machine

/-!
# The runtime loop

The runtime takes one signed action after the other.  It first moves the budget
policy to the epoch of the action's log index, then asks whether the action is
admissible and whether the budget gate lets it through, and then applies it.  What it
refuses leaves no trace; what it takes gets a log entry, which is chained to the one
before, and a list of events.
-/

namespace Knomosis.Runtime

open Lib Smt Kernel FaultProof

/-- How a stream of bytes is hashed. -/
abbrev Hash := Bytes → Bytes

/-- The hash of an entry binds its action and the entry before. -/
def entryHash (hashStream : Hash) (entry : LogEntry) : Bytes :=
  hashStream (entry.signedAction.encode ++ encodeBytes entry.prevHash)

structure RuntimeState where
  policy : AuthorityPolicy
  state : ExtendedState
  prevHash : Bytes
  logIndex : ℕ
  deploymentId : Bytes
  epochLength : ℕ
  refundRate : ResourceId → ℕ

inductive ProcessError where
  | notAdmissible
  | budgetRejected
deriving DecidableEq

/-- The state as the next action sees it. -/
def RuntimeState.effective (rs : RuntimeState) : ExtendedState :=
  rs.state.withAdvancedEpoch rs.epochLength rs.logIndex

def processPure (verify : Verifier) (hashStream : Hash) (rs : RuntimeState) (st : SignedAction) :
    Except ProcessError (RuntimeState × LogEntry × List Event) :=
  let esEff := rs.effective
  if BridgeAdmissibleWith verify rs.policy rs.deploymentId esEff st then
    match applyBridgeAdmissibleWithBudget esEff st rs.logIndex rs.refundRate with
    | some newState =>
      let entry : LogEntry := ⟨rs.prevHash, st, hashStream newState.encode⟩
      let events := extractEvents esEff newState st
      .ok ({ rs with
              state := newState
              prevHash := entryHash hashStream entry
              logIndex := rs.logIndex + 1 }, entry, events)
    | none => .error .budgetRejected
  else .error .notAdmissible

/-- The runtime as a machine that puts out log entries and events. -/
def runtime (verify : Verifier) (hashStream : Hash) :
    Machine RuntimeState SignedAction (LogEntry × List Event) where
  step rs st := (processPure verify hashStream rs st).toOption

/-- An action of a run, with what it put out. -/
abbrev Processed := Entry RuntimeState SignedAction (LogEntry × List Event)

section Steps

variable {verify : Verifier} {hashStream : Hash} {rs rs' : RuntimeState} {st : SignedAction}
variable {out : LogEntry × List Event}

/-- What an admitted action does. -/
structure Admitted (verify : Verifier) (rs : RuntimeState) (st : SignedAction)
    (rs' : RuntimeState) (events : List Event) : Prop where
  admissible : BridgeAdmissibleWith verify rs.policy rs.deploymentId rs.effective st
  gate : budgetGateAdmits rs.effective st rs.refundRate = true
  state : rs'.state = productionApplyBudget rs.effective st rs.logIndex
  logIndex : rs'.logIndex = rs.logIndex + 1
  epochLength : rs'.epochLength = rs.epochLength
  events : events = extractEvents rs.effective rs'.state st

theorem admitted_of_step (hstep : (runtime verify hashStream).step rs st = some (rs', out)) :
    Admitted verify rs st rs' out.2 := by
  have hok := toOption_eq_some.mp hstep
  unfold processPure at hok
  dsimp only at hok
  split at hok
  next hadmissible =>
    split at hok
    next newState happly =>
      rw [applyBridgeAdmissibleWithBudget_eq, Option.ite_none_right_eq_some] at happly
      obtain ⟨hgate, hnew⟩ := happly
      cases hok
      exact ⟨hadmissible, hgate, (Option.some.inj hnew).symm, rfl, rfl, rfl⟩
    · cases hok
  · cases hok

variable {events : List Event} {r : ResourceId} {a : ActorId}

section

variable (h : Admitted verify rs st rs' events)
include h

theorem Admitted.base :
    rs'.state.base = stepImpl rs.state.base (st.action.toTransition st.signer) := by
  rw [h.state, productionApplyBudget_eq]
  rfl

/-- The balances that are reported are those that the action changed. -/
theorem Admitted.balanceChanged_mem {oldV newV : Amount} :
    .balanceChanged r a oldV newV ∈ events ↔
      getBalance rs.state.base r a ≠ getBalance rs'.state.base r a ∧
        oldV = getBalance rs.state.base r a ∧ newV = getBalance rs'.state.base r a := by
  rw [h.events, balanceChanged_mem_extractEvents]
  refine ⟨And.right, fun hchange => ⟨?_, hchange⟩⟩
  -- an account that the action does not move has its balance unchanged
  by_contra hnot
  have hsame := (moves_stepImpl st.action st.signer).frame r a hnot
  rw [show rs.effective.base = rs.state.base from rfl, ← h.base] at hsame
  exact hchange.1 hsame.symm

theorem Admitted.bounded (hbounded : rs.state.base.Bounded) : rs'.state.base.Bounded := by
  rw [h.base]
  exact (moves_stepImpl st.action st.signer).bounded hbounded

theorem Admitted.length_events_le : events.length ≤ Laws.maxRecipientsPerBulkAction + 8 := by
  rw [h.events]
  exact length_extractEvents_le h.admissible.pre

theorem Admitted.events_ne_nil : events ≠ [] := by
  rw [h.events]
  exact extractEvents_ne_nil _ _ _

theorem Admitted.movement {e : Event} {amount : Amount}
    (he : e ∈ events) (hmovement : e.movement = some ((r, a), amount)) :
    amount = 0 ∨ getBalance rs.state.base r a ≠ getBalance rs'.state.base r a := by
  rw [h.events] at he
  have hmoved := movement_extractEvents h.admissible.pre h.base he hmovement
  exact hmoved

end

end Steps

end Knomosis.Runtime
