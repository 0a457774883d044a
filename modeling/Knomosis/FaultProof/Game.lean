import Knomosis.FaultProof.CellProof
import Knomosis.FaultProof.Verifier
import Knomosis.Kernel.Admission
import Knomosis.Kernel.Decoding

/-!
# The bisection game of the kernel

Two parties agree on the state at the low end of a range and disagree on the state
at its high end.  One names a commitment for the middle, the other agrees or
disagrees with it, and the range is halved.  A range of one step is decided by
executing the step.

The party that takes the last move brings the step, its place in the batch and the
registered key of its signer.  What does not open under the commitments of the
game is refused; a step that opens is executed, and it counts as no step at all if
its signature is not valid.
-/

namespace Knomosis.FaultProof

open Lib Contracts Smt Kernel

def MAX_BISECTION_DEPTH : ℕ := 64

/-- The state after `idx` entries has the commitment `commit`. -/
structure Claim where
  idx : ℕ
  commit : Bytes
deriving DecidableEq

structure DisputedRange where
  low : Claim
  high : Claim
deriving DecidableEq

namespace DisputedRange

def midpointIdx (r : DisputedRange) : ℕ := (r.low.idx + r.high.idx) / 2

def isSingleStep (r : DisputedRange) : Prop := r.high.idx = r.low.idx + 1

instance (r : DisputedRange) : Decidable r.isSingleStep := inferInstanceAs (Decidable (_ = _))

end DisputedRange

inductive TurnSide where
  | sequencer
  | challenger
deriving DecidableEq

def TurnSide.flip : TurnSide → TurnSide
  | sequencer => challenger
  | challenger => sequencer

inductive GameStatus where
  | inProgress
  | sequencerWon
  | challengerWon
  | timedOutSequencer
  | timedOutChallenger
deriving DecidableEq

structure GameState where
  sequencer : ActorId
  challenger : ActorId
  range : DisputedRange
  pendingMidpoint : Option Claim
  depth : ℕ
  turn : TurnSide
  sequencerBond : ℕ
  challengerBond : ℕ
  status : GameStatus
  deploymentId : Bytes
  actionsRoot : Bytes
deriving DecidableEq

/-- A step of the log with what its verification needs. -/
structure KernelStep where
  preStateCommit : Bytes
  signedAction : SignedAction
  postStateCommit : Bytes
  l2LogIndex : ℕ
  bundle : MultiBundle

inductive GameTransition where
  | submitMidpoint (midpointCommit : Bytes)
  | respondAgree
  | respondDisagree
  | terminateOnSingleStep (kernelStep : KernelStep) (actionProof : SmtCellProof)
      (registryValue : Bytes) (registryProof : SmtCellProof)
  | timeoutLoss

inductive GameError where
  | gameAlreadyEnded
  | wrongTurn
  | midpointOutOfRange
  | midpointDuringResponse
  | responseDuringSubmit
  | bisectionDepthExceeded
  | rangeNotSingleStep
  | terminationDuringBisection
  | actionNotInBatch
  | registryOpeningInvalid
deriving DecidableEq

section Adjudication

variable [Keccak]

def kernelStepApply (step : KernelStep) : Option Bytes :=
  verifierPostRootMulti step.preStateCommit step.signedAction.action step.signedAction.signer
    step.l2LogIndex step.bundle

/-- The key in a registry cell; an absent cell holds none. -/
def registryCellKey (value : Bytes) : Option PublicKey :=
  if value.length = 0 then none
  else (decodeBytes value).toOption.map Prod.fst

/-- The nonce that the opened cells give for the signer. -/
def frontierNonce (b : MultiBundle) (signer : ActorId) : Option Nonce :=
  (b.valueAt (.nonce signer)).bind fun v => (decodeNat v).toOption.map Prod.fst

def signatureAdmissible (verify : Verifier) (deploymentId : Bytes) (step : KernelStep)
    (registryValue : Bytes) : Bool :=
  match registryCellKey registryValue with
  | none => false
  | some pk =>
    match frontierNonce step.bundle step.signedAction.signer with
    | none => false
    | some nonce =>
      verify pk
        (signingInput step.signedAction.action step.signedAction.signer nonce deploymentId)
        step.signedAction.sig

/-- The status in which the party with the turn has won. -/
def TurnSide.wins : TurnSide → GameStatus
  | sequencer => .sequencerWon
  | challenger => .challengerWon

def applyTransitionWith (verify : Verifier) (gs : GameState) :
    GameTransition → Except GameError GameState
  | .submitMidpoint midpointCommit =>
    if gs.status ≠ .inProgress then .error .gameAlreadyEnded
    else if gs.pendingMidpoint.isSome then .error .midpointDuringResponse
    else if gs.depth ≥ MAX_BISECTION_DEPTH then .error .bisectionDepthExceeded
    else if gs.range.midpointIdx ≤ gs.range.low.idx ∨ gs.range.high.idx ≤ gs.range.midpointIdx then
      .error .midpointOutOfRange
    else
      .ok { gs with
        pendingMidpoint := some { idx := gs.range.midpointIdx, commit := midpointCommit }
        turn := gs.turn.flip }
  | .respondAgree =>
    if gs.status ≠ .inProgress then .error .gameAlreadyEnded
    else if gs.depth ≥ MAX_BISECTION_DEPTH then .error .bisectionDepthExceeded
    else
      match gs.pendingMidpoint with
      | none => .error .responseDuringSubmit
      | some mp =>
        .ok { gs with
          range := { low := mp, high := gs.range.high }
          pendingMidpoint := none
          depth := gs.depth + 1
          turn := gs.turn.flip }
  | .respondDisagree =>
    if gs.status ≠ .inProgress then .error .gameAlreadyEnded
    else if gs.depth ≥ MAX_BISECTION_DEPTH then .error .bisectionDepthExceeded
    else
      match gs.pendingMidpoint with
      | none => .error .responseDuringSubmit
      | some mp =>
        .ok { gs with
          range := { low := gs.range.low, high := mp }
          pendingMidpoint := none
          depth := gs.depth + 1
          turn := gs.turn.flip }
  | .terminateOnSingleStep step actionProof registryValue registryProof =>
    if gs.status ≠ .inProgress then .error .gameAlreadyEnded
    else if ¬ gs.range.isSingleStep then .error .rangeNotSingleStep
    else if gs.pendingMidpoint.isSome then .error .terminationDuringBisection
    else if step.signedAction.sig.length ≠ 65 ∨
        verifyActionProof gs.actionsRoot gs.range.low.idx (actionLeafValue step.signedAction)
          actionProof ≠ true then
      .error .actionNotInBatch
    else if step.preStateCommit ≠ gs.range.low.commit ∨ step.l2LogIndex ≠ gs.range.high.idx then
      .ok { gs with status := gs.turn.flip.wins }
    else if verifyStateCellProof gs.range.low.commit (.registry step.signedAction.signer)
        registryValue registryProof ≠ true then
      .error .registryOpeningInvalid
    else
      match kernelStepApply step with
      | none => .ok { gs with status := gs.turn.flip.wins }
      | some vmPostCommit =>
        let computedPostCommit :=
          if signatureAdmissible verify gs.deploymentId step registryValue then vmPostCommit
          else gs.range.low.commit
        if computedPostCommit = gs.range.high.commit then
          .ok { gs with status := gs.turn.wins }
        else .ok { gs with status := gs.turn.flip.wins }
  | .timeoutLoss =>
    if gs.status ≠ .inProgress then .error .gameAlreadyEnded
    else
      .ok { gs with
        status :=
          match gs.turn with
          | .sequencer => .timedOutSequencer
          | .challenger => .timedOutChallenger }

/-- What a last move can come to.  Only the last case depends on what the move carries. -/
inductive TerminateResult (gs : GameState) : Except GameError GameState → Prop
  | ended (hstatus : gs.status ≠ .inProgress) : TerminateResult gs (.error .gameAlreadyEnded)
  | wide (hstatus : gs.status = .inProgress) (hrange : ¬ gs.range.isSingleStep) :
      TerminateResult gs (.error .rangeNotSingleStep)
  | pending (hstatus : gs.status = .inProgress) (hrange : gs.range.isSingleStep)
      (hpending : gs.pendingMidpoint.isSome) :
      TerminateResult gs (.error .terminationDuringBisection)
  | unproved (hstatus : gs.status = .inProgress) (hrange : gs.range.isSingleStep)
      (hpending : gs.pendingMidpoint = none) (e : GameError)
      (he : e = .actionNotInBatch ∨ e = .registryOpeningInvalid) : TerminateResult gs (.error e)
  | won (hstatus : gs.status = .inProgress) (hrange : gs.range.isSingleStep)
      (hpending : gs.pendingMidpoint = none) (side : TurnSide) :
      TerminateResult gs (.ok { gs with status := side.wins })

theorem terminateResult (verify : Verifier) (gs : GameState) (step : KernelStep)
    (actionProof : SmtCellProof) (registryValue : Bytes) (registryProof : SmtCellProof) :
    TerminateResult gs (applyTransitionWith verify gs
      (.terminateOnSingleStep step actionProof registryValue registryProof)) := by
  rw [applyTransitionWith]
  split
  case isTrue hstatus => exact .ended hstatus
  case isFalse hstatus =>
  rw [not_not] at hstatus
  split
  case isTrue hrange => exact .wide hstatus hrange
  case isFalse hrange =>
  rw [not_not] at hrange
  split
  case isTrue hpending => exact .pending hstatus hrange hpending
  case isFalse hpending =>
  rw [Bool.not_eq_true, Option.isSome_eq_false_iff, Option.isNone_iff_eq_none] at hpending
  split
  · exact .unproved hstatus hrange hpending _ (.inl rfl)
  split
  · exact .won hstatus hrange hpending _
  split
  · exact .unproved hstatus hrange hpending _ (.inr rfl)
  split
  · exact .won hstatus hrange hpending _
  · extract_lets computedPostCommit
    split <;> exact .won hstatus hrange hpending _

end Adjudication

end Knomosis.FaultProof
