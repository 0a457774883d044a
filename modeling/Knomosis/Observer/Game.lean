import Knomosis.FaultProof.Game

/-!
# The game of the observer

The observer keeps its own copy of a bisection game, in machine words.  It decides
which moves are legal, but it does not execute the last step: it leaves a game that
is decided by execution as it is, and takes its result from the chain.

The check for a pending midpoint that the observer leaves out when it terminates is
implied: a pending midpoint lies strictly inside the range, so the range is not a
single step.
-/

namespace Knomosis.Observer

open Contracts Smt Kernel

def MAX_BISECTION_DEPTH : UInt32 := 64

structure Claim where
  idx : UInt64
  commit : Bytes32
deriving DecidableEq

structure DisputedRange where
  low : Claim
  high : Claim
deriving DecidableEq

namespace DisputedRange

/-- The middle, computed in 128 bits. -/
def midpointIdx (r : DisputedRange) : UInt64 :=
  let mid := (r.low.idx.toNat + r.high.idx.toNat) / 2
  if mid < 2 ^ 64 then UInt64.ofNat mid else UInt64.ofNat (2 ^ 64 - 1)

def isSingleStep (r : DisputedRange) : Bool :=
  r.high.idx.toNat = min (r.low.idx.toNat + 1) (2 ^ 64 - 1)

end DisputedRange

inductive TurnSide where
  | sequencer
  | challenger
deriving DecidableEq

def TurnSide.flip : TurnSide → TurnSide
  | sequencer => challenger
  | challenger => sequencer

inductive GameStatus where
  | inProgress
  | sequencerWon
  | challengerWon
  | timedOutSequencer
  | timedOutChallenger
deriving DecidableEq

def GameStatus.isInProgress : GameStatus → Bool
  | inProgress => true
  | _ => false

structure GameState where
  sequencer : ActorId
  challenger : ActorId
  range : DisputedRange
  pendingMidpoint : Option Claim
  depth : UInt32
  turn : TurnSide
  sequencerBond : BitVec 128
  challengerBond : BitVec 128
  status : GameStatus
  deploymentId : Bytes32
  actionsRoot : Bytes32
deriving DecidableEq

inductive GameTransition where
  | submitMidpoint (commit : Bytes32)
  | respondAgree
  | respondDisagree
  | terminateOnSingleStep (expectedPostCommit : Bytes32)
  | timeoutLoss
deriving DecidableEq

inductive GameError where
  | gameAlreadyEnded
  | wrongTurn
  | midpointOutOfRange
  | midpointDuringResponse
  | responseDuringSubmit
  | bisectionDepthExceeded
  | rangeNotSingleStep
  | terminationDuringBisection
  | invalidSettlement
deriving DecidableEq

def applySubmitMidpoint (gs : GameState) (midpointCommit : Bytes32) : Except GameError GameState :=
  if ¬ gs.status.isInProgress then .error .gameAlreadyEnded
  else if gs.pendingMidpoint.isSome then .error .midpointDuringResponse
  else if gs.depth ≥ MAX_BISECTION_DEPTH then .error .bisectionDepthExceeded
  else if gs.range.midpointIdx ≤ gs.range.low.idx ∨ gs.range.high.idx ≤ gs.range.midpointIdx then
    .error .midpointOutOfRange
  else
    .ok { gs with
      pendingMidpoint := some { idx := gs.range.midpointIdx, commit := midpointCommit }
      turn := gs.turn.flip }

/-- The successor of a depth, the largest one being its own. -/
def saturatingSucc (depth : UInt32) : UInt32 :=
  if depth.toNat + 1 < 2 ^ 32 then depth + 1 else depth

def applyRespond (gs : GameState) (agree : Bool) : Except GameError GameState :=
  if ¬ gs.status.isInProgress then .error .gameAlreadyEnded
  else if gs.depth ≥ MAX_BISECTION_DEPTH then .error .bisectionDepthExceeded
  else
    match gs.pendingMidpoint with
    | none => .error .responseDuringSubmit
    | some mp =>
      .ok { gs with
        range :=
          if agree then { low := mp, high := gs.range.high }
          else { low := gs.range.low, high := mp }
        pendingMidpoint := none
        depth := saturatingSucc gs.depth
        turn := gs.turn.flip }

def applyTerminateOnSingleStep (gs : GameState) : Except GameError GameState :=
  if ¬ gs.status.isInProgress then .error .gameAlreadyEnded
  else if ¬ gs.range.isSingleStep then .error .rangeNotSingleStep
  else .ok gs

def applyTimeout (gs : GameState) : Except GameError GameState :=
  if ¬ gs.status.isInProgress then .error .gameAlreadyEnded
  else
    .ok { gs with
      status :=
        match gs.turn with
        | .sequencer => .timedOutSequencer
        | .challenger => .timedOutChallenger }

def applyTransition (gs : GameState) : GameTransition → Except GameError GameState
  | .submitMidpoint c => applySubmitMidpoint gs c
  | .respondAgree => applyRespond gs true
  | .respondDisagree => applyRespond gs false
  | .terminateOnSingleStep _ => applyTerminateOnSingleStep gs
  | .timeoutLoss => applyTimeout gs

/-- Take the result of a game from the chain. -/
def applySettlement (gs : GameState) (finalStatus : GameStatus) : Except GameError GameState :=
  if ¬ gs.status.isInProgress then .error .gameAlreadyEnded
  else if finalStatus.isInProgress then .error .invalidSettlement
  else .ok { gs with status := finalStatus }

def Claim.toKernel (c : Claim) : FaultProof.Claim where
  idx := c.idx.toNat
  commit := bytes32Bytes c.commit

def DisputedRange.toKernel (r : DisputedRange) : FaultProof.DisputedRange where
  low := r.low.toKernel
  high := r.high.toKernel

def TurnSide.toKernel : TurnSide → FaultProof.TurnSide
  | sequencer => .sequencer
  | challenger => .challenger

def GameStatus.toKernel : GameStatus → FaultProof.GameStatus
  | inProgress => .inProgress
  | sequencerWon => .sequencerWon
  | challengerWon => .challengerWon
  | timedOutSequencer => .timedOutSequencer
  | timedOutChallenger => .timedOutChallenger

/-- The state of the kernel's game that a state of the observer's game stands for. -/
def GameState.toKernel (gs : GameState) : FaultProof.GameState where
  sequencer := gs.sequencer
  challenger := gs.challenger
  range := gs.range.toKernel
  pendingMidpoint := gs.pendingMidpoint.map Claim.toKernel
  depth := gs.depth.toNat
  turn := gs.turn.toKernel
  sequencerBond := gs.sequencerBond.toNat
  challengerBond := gs.challengerBond.toNat
  status := gs.status.toKernel
  deploymentId := bytes32Bytes gs.deploymentId
  actionsRoot := bytes32Bytes gs.actionsRoot

/-- The error of the kernel's game with the same name. -/
def GameError.toKernel : GameError → Option FaultProof.GameError
  | gameAlreadyEnded => some .gameAlreadyEnded
  | wrongTurn => some .wrongTurn
  | midpointOutOfRange => some .midpointOutOfRange
  | midpointDuringResponse => some .midpointDuringResponse
  | responseDuringSubmit => some .responseDuringSubmit
  | bisectionDepthExceeded => some .bisectionDepthExceeded
  | rangeNotSingleStep => some .rangeNotSingleStep
  | terminationDuringBisection => some .terminationDuringBisection
  | invalidSettlement => none

/-- The same move in both games.  The last move carries data of its own in either. -/
inductive SameMove : GameTransition → FaultProof.GameTransition → Prop
  | submitMidpoint (c : Bytes32) : SameMove (.submitMidpoint c) (.submitMidpoint (bytes32Bytes c))
  | respondAgree : SameMove .respondAgree .respondAgree
  | respondDisagree : SameMove .respondDisagree .respondDisagree
  | timeoutLoss : SameMove .timeoutLoss .timeoutLoss

/-- Results of the two games that stand for each other. -/
def SameResult :
    Except GameError GameState → Except FaultProof.GameError FaultProof.GameState → Prop
  | .ok gs, .ok gs' => gs' = gs.toKernel
  | .error e, .error e' => e.toKernel = some e'
  | _, _ => False

@[simp] theorem midpointIdx_toNat (r : DisputedRange) :
    r.midpointIdx.toNat = r.toKernel.midpointIdx := by
  have hlow := r.low.idx.toNat_lt
  have hhigh := r.high.idx.toNat_lt
  have hmid : (r.low.idx.toNat + r.high.idx.toNat) / 2 < 2 ^ 64 := by omega
  simp only [DisputedRange.midpointIdx, if_pos hmid]
  rw [UInt64.toNat_ofNat_of_lt' hmid]
  rfl

/-- The low end stays below the largest index, so its saturating successor is its successor. -/
theorem isSingleStep_iff {r : DisputedRange} (hordered : r.low.idx < r.high.idx) :
    r.isSingleStep = true ↔ r.toKernel.isSingleStep := by
  have hlt : r.low.idx.toNat < r.high.idx.toNat := hordered
  have hhigh := r.high.idx.toNat_lt
  rw [DisputedRange.isSingleStep, decide_eq_true_eq]
  change _ ↔ r.high.idx.toNat = r.low.idx.toNat + 1
  omega

theorem isInProgress_iff (status : GameStatus) :
    status.isInProgress = true ↔ status.toKernel = .inProgress := by
  cases status <;> simp [GameStatus.isInProgress, GameStatus.toKernel]

theorem saturatingSucc_toNat {depth : UInt32} (hdepth : ¬ depth ≥ MAX_BISECTION_DEPTH) :
    (saturatingSucc depth).toNat = depth.toNat + 1 := by
  have hlt : depth.toNat < 64 := UInt32.not_le.mp hdepth
  rw [saturatingSucc, if_pos (by omega), UInt32.toNat_add]
  change (depth.toNat + 1) % 2 ^ 32 = depth.toNat + 1
  exact Nat.mod_eq_of_lt (by omega)

theorem depth_iff (depth : UInt32) :
    depth ≥ MAX_BISECTION_DEPTH ↔ depth.toNat ≥ FaultProof.MAX_BISECTION_DEPTH :=
  UInt32.le_iff_toNat_le

theorem flip_toKernel (turn : TurnSide) : turn.flip.toKernel = turn.toKernel.flip := by
  cases turn <;> rfl

section Moves

variable [Keccak] (verify : Verifier)

theorem submitMidpoint_mirrors (gs : GameState) (c : Bytes32) :
    SameResult (applySubmitMidpoint gs c)
      (FaultProof.applyTransitionWith verify gs.toKernel (.submitMidpoint (bytes32Bytes c))) := by
  have hstatus := isInProgress_iff gs.status
  have hrange : (gs.range.midpointIdx ≤ gs.range.low.idx ∨
      gs.range.high.idx ≤ gs.range.midpointIdx) ↔
      (gs.range.toKernel.midpointIdx ≤ gs.range.toKernel.low.idx ∨
        gs.range.toKernel.high.idx ≤ gs.range.toKernel.midpointIdx) := by
    rw [UInt64.le_iff_toNat_le, UInt64.le_iff_toNat_le, midpointIdx_toNat]
    rfl
  simp only [applySubmitMidpoint, FaultProof.applyTransitionWith, GameState.toKernel,
    Option.isSome_map, ← depth_iff, ← hrange, ne_eq, ← hstatus]
  split
  · rfl
  split
  · rfl
  split
  · rfl
  split
  · rfl
  · simp [SameResult, GameState.toKernel, Claim.toKernel, flip_toKernel]

theorem respond_mirrors (gs : GameState) (agree : Bool) :
    SameResult (applyRespond gs agree)
      (FaultProof.applyTransitionWith verify gs.toKernel
        (if agree then .respondAgree else .respondDisagree)) := by
  have hstatus := isInProgress_iff gs.status
  cases agree <;>
  · simp only [applyRespond, FaultProof.applyTransitionWith, GameState.toKernel, ← depth_iff,
      ne_eq, ← hstatus, if_true, Bool.false_eq_true, if_false]
    split
    · rfl
    split
    · rfl
    case isFalse hdepth =>
      cases gs.pendingMidpoint with
      | none => rfl
      | some =>
        simp [SameResult, GameState.toKernel, DisputedRange.toKernel, flip_toKernel,
          saturatingSucc_toNat hdepth]

theorem timeout_mirrors (gs : GameState) :
    SameResult (applyTimeout gs)
      (FaultProof.applyTransitionWith verify gs.toKernel .timeoutLoss) := by
  have hstatus := isInProgress_iff gs.status
  simp only [applyTimeout, FaultProof.applyTransitionWith, GameState.toKernel, ne_eq, ← hstatus]
  split
  · rfl
  · cases gs.turn <;> simp [SameResult, GameState.toKernel, GameStatus.toKernel, TurnSide.toKernel]

theorem move_mirrors (gs : GameState) {t : GameTransition} {t' : FaultProof.GameTransition}
    (hmove : SameMove t t') :
    SameResult (applyTransition gs t) (FaultProof.applyTransitionWith verify gs.toKernel t') := by
  cases hmove with
  | submitMidpoint c => exact submitMidpoint_mirrors verify gs c
  | respondAgree => exact respond_mirrors verify gs true
  | respondDisagree => exact respond_mirrors verify gs false
  | timeoutLoss => exact timeout_mirrors verify gs

end Moves

/-- The range is not empty, and a pending midpoint lies strictly inside it. -/
structure GameState.Proper (gs : GameState) : Prop where
  ordered : gs.range.low.idx < gs.range.high.idx
  inside : ∀ mp ∈ gs.pendingMidpoint, gs.range.low.idx < mp.idx ∧ mp.idx < gs.range.high.idx

/-- A game with nothing played yet. -/
structure GameState.Opening (gs : GameState) : Prop where
  pending : gs.pendingMidpoint = none
  depth : gs.depth = 0
  ordered : gs.range.low.idx < gs.range.high.idx

namespace GameState

theorem Opening.proper {gs : GameState} (hopen : gs.Opening) : gs.Proper where
  ordered := hopen.ordered
  inside := by simp [hopen.pending]

variable {gs gs' : GameState}

/-- A single step has no index inside, so nothing is pending over it. -/
theorem Proper.pending_of_isSingleStep (hproper : gs.Proper)
    (hsingle : gs.range.isSingleStep = true) : gs.pendingMidpoint = none := by
  cases hpending : gs.pendingMidpoint with
  | none => rfl
  | some mp =>
    obtain ⟨hlow, hhigh⟩ := hproper.inside mp hpending
    have hlow' : gs.range.low.idx.toNat < mp.idx.toNat := hlow
    have hhigh' : mp.idx.toNat < gs.range.high.idx.toNat := hhigh
    have hstep : gs.range.high.idx.toNat = gs.range.low.idx.toNat + 1 :=
      (isSingleStep_iff hproper.ordered).mp hsingle
    omega

/-- What an accepted move does to a game. -/
inductive Moved (gs : GameState) : GameState → Prop
  | same : Moved gs gs
  | ended {status : GameStatus} (hended : status.isInProgress = false) :
      Moved gs { gs with status := status }
  | submitted {c : Bytes32} {turn : TurnSide} (hpending : gs.pendingMidpoint = none)
      (hlow : gs.range.low.idx < gs.range.midpointIdx)
      (hhigh : gs.range.midpointIdx < gs.range.high.idx) :
      Moved gs { gs with
        pendingMidpoint := some { idx := gs.range.midpointIdx, commit := c }
        turn := turn }
  | responded {mp : Claim} {agree : Bool} {depth : UInt32} {turn : TurnSide}
      (hpending : gs.pendingMidpoint = some mp) :
      Moved gs { gs with
        range :=
          if agree then { low := mp, high := gs.range.high }
          else { low := gs.range.low, high := mp }
        pendingMidpoint := none
        depth := depth
        turn := turn }

theorem moved_of_respond {agree : Bool} (happly : applyRespond gs agree = .ok gs') :
    gs.Moved gs' := by
  simp only [applyRespond, Lib.guard_eq_ok] at happly
  obtain ⟨-, -, happly⟩ := happly
  split at happly
  · cases happly
  · cases happly
    exact .responded ‹_›

theorem moved_of_transition {t : GameTransition} (happly : applyTransition gs t = .ok gs') :
    gs.Moved gs' := by
  cases t with
  | submitMidpoint =>
    simp only [applyTransition, applySubmitMidpoint, Lib.guard_eq_ok, not_or, UInt64.not_le,
      Option.not_isSome_iff_eq_none, Except.ok.injEq] at happly
    obtain ⟨-, hpending, -, ⟨hlow, hhigh⟩, rfl⟩ := happly
    exact .submitted hpending hlow hhigh
  | respondAgree | respondDisagree => exact moved_of_respond happly
  | terminateOnSingleStep =>
    simp only [applyTransition, applyTerminateOnSingleStep, Lib.guard_eq_ok] at happly
    cases happly.2.2
    exact .same
  | timeoutLoss =>
    simp only [applyTransition, applyTimeout, Lib.guard_eq_ok] at happly
    cases happly.2
    exact .ended (by split <;> rfl)

theorem Moved.proper (hmoved : gs.Moved gs') (hproper : gs.Proper) : gs'.Proper := by
  cases hmoved with
  | same => exact hproper
  | ended => exact ⟨hproper.ordered, hproper.inside⟩
  | submitted _ hlow hhigh =>
    refine ⟨hproper.ordered, ?_⟩
    rintro mp ⟨⟩
    exact ⟨hlow, hhigh⟩
  | @responded mp agree _ _ hpending =>
    obtain ⟨hlow, hhigh⟩ := hproper.inside mp hpending
    cases agree with
    | true => exact ⟨hhigh, by simp⟩
    | false => exact ⟨hlow, by simp⟩

end GameState

section Plays

theorem terminate_eq_ok_iff (gs gs' : GameState) (c : Bytes32) :
    applyTransition gs (.terminateOnSingleStep c) = .ok gs' ↔
      gs.status.isInProgress = true ∧ gs.range.isSingleStep = true ∧ gs' = gs := by
  simp only [applyTransition, applyTerminateOnSingleStep]
  split
  · simp_all
  split
  · simp_all
  · simp_all only [not_not, Except.ok.injEq, true_and, eq_comm]

/-- The refusals of a last move that do not depend on what it carries. -/
def RefusesStructurally : Except FaultProof.GameError FaultProof.GameState → Prop
  | .error .gameAlreadyEnded => True
  | .error .rangeNotSingleStep => True
  | .error .terminationDuringBisection => True
  | _ => False

/-- The result that the chain reports for a status of the kernel's game. -/
def GameStatus.ofKernel : FaultProof.GameStatus → GameStatus
  | .inProgress => inProgress
  | .sequencerWon => sequencerWon
  | .challengerWon => challengerWon
  | .timedOutSequencer => timedOutSequencer
  | .timedOutChallenger => timedOutChallenger

@[simp] theorem GameStatus.toKernel_ofKernel (status : FaultProof.GameStatus) :
    (GameStatus.ofKernel status).toKernel = status := by
  cases status <;> rfl

/-- The observer's part in a last move that the kernel's game answers with `result`: it
accepts the move, and then takes over the status. -/
def settle (gs : GameState) (c : Bytes32)
    (result : Except FaultProof.GameError FaultProof.GameState) : Except GameError GameState :=
  match result with
  | .ok gs' => do
    let accepted ← applyTransition gs (.terminateOnSingleStep c)
    applySettlement accepted (.ofKernel gs'.status)
  | .error _ => .ok gs

theorem GameState.Proper.terminate_iff {gs : GameState} (hproper : gs.Proper) (c : Bytes32)
    {result : Except FaultProof.GameError FaultProof.GameState}
    (hresult : FaultProof.TerminateResult gs.toKernel result) :
    (∃ gs', applyTransition gs (.terminateOnSingleStep c) = .ok gs') ↔
      ¬ RefusesStructurally result := by
  have hstatus := isInProgress_iff gs.status
  have hsingle := isSingleStep_iff hproper.ordered
  simp only [terminate_eq_ok_iff]
  cases hresult with
  | ended hended =>
    simp [RefusesStructurally, hstatus, show gs.status.toKernel ≠ .inProgress from hended]
  | wide _ hwide =>
    simp [RefusesStructurally, hsingle, show ¬ gs.range.toKernel.isSingleStep from hwide]
  | pending _ hrange hpending =>
    have hnone := hproper.pending_of_isSingleStep (hsingle.mpr hrange)
    simp [GameState.toKernel, hnone] at hpending
  | unproved hprogress hrange _ e he =>
    have hopen : ¬ RefusesStructurally (.error e) := by rcases he with rfl | rfl <;> exact id
    exact ⟨fun _ => hopen, fun _ => ⟨gs, hstatus.mpr hprogress, hsingle.mpr hrange, rfl⟩⟩
  | won hprogress hrange _ =>
    exact ⟨fun _ => id, fun _ => ⟨gs, hstatus.mpr hprogress, hsingle.mpr hrange, rfl⟩⟩

/-- A game decided by execution is settled with the same winner. -/
theorem GameState.Proper.settle_eq {gs : GameState} (hproper : gs.Proper) (c : Bytes32)
    {gs' : FaultProof.GameState} (hresult : FaultProof.TerminateResult gs.toKernel (.ok gs')) :
    ∃ settled : GameState, settle gs c (.ok gs') = .ok settled ∧
      settled.Proper ∧ gs' = settled.toKernel := by
  cases hresult with
  | won hprogress hrange _ side =>
    have haccept : applyTransition gs (.terminateOnSingleStep c) = .ok gs :=
      (terminate_eq_ok_iff gs gs c).mpr ⟨(isInProgress_iff _).mpr hprogress,
        (isSingleStep_iff hproper.ordered).mpr hrange, rfl⟩
    have hprogress' : gs.status.isInProgress = true := (isInProgress_iff _).mpr hprogress
    have hdecided : (GameStatus.ofKernel side.wins).isInProgress = false := by cases side <;> rfl
    refine ⟨{ gs with status := .ofKernel side.wins }, ?_,
      (Moved.ended hdecided).proper hproper, ?_⟩
    · simp only [settle, haccept]
      change applySettlement gs (.ofKernel side.wins) = _
      simp [applySettlement, hprogress', hdecided]
    · simp [GameState.toKernel]

variable [Keccak] (verify : Verifier)

/-- Both games, played from a common opening.  A refused move changes nothing. -/
inductive Play : GameState → FaultProof.GameState → Prop
  | opening {gs : GameState} (hopen : gs.Opening) : Play gs gs.toKernel
  | move {gs gs' t t'} (prev : Play gs gs') (hmove : SameMove t t') :
      Play ((applyTransition gs t).toOption.getD gs)
        ((FaultProof.applyTransitionWith verify gs' t').toOption.getD gs')
  | terminate {gs gs'} (prev : Play gs gs') (c : Bytes32) (step : FaultProof.KernelStep)
      (actionProof : FaultProof.SmtCellProof) (registryValue : Bytes)
      (registryProof : FaultProof.SmtCellProof) :
      Play
        ((settle gs c (FaultProof.applyTransitionWith verify gs'
          (.terminateOnSingleStep step actionProof registryValue registryProof))).toOption.getD gs)
        ((FaultProof.applyTransitionWith verify gs'
          (.terminateOnSingleStep step actionProof registryValue registryProof)).toOption.getD gs')

variable {verify}

/-- On every play the two games are in corresponding states, with a proper range. -/
theorem Play.agree {gs : GameState} {gs' : FaultProof.GameState} (hplay : Play verify gs gs') :
    gs' = gs.toKernel ∧ gs.Proper := by
  induction hplay with
  | opening hopen => exact ⟨rfl, hopen.proper⟩
  | @move gs _ t t' _ hmove ih =>
    obtain ⟨rfl, hproper⟩ := ih
    have hsame := move_mirrors verify gs hmove
    cases hgs : applyTransition gs t <;>
      cases hgs' : FaultProof.applyTransitionWith verify gs.toKernel t' <;>
      rw [hgs, hgs'] at hsame
    · exact ⟨rfl, hproper⟩
    · exact hsame.elim
    · exact hsame.elim
    · exact ⟨hsame, (GameState.moved_of_transition hgs).proper hproper⟩
  | @terminate gs _ _ c step actionProof registryValue registryProof ih =>
    obtain ⟨rfl, hproper⟩ := ih
    have hresult := FaultProof.terminateResult verify gs.toKernel step actionProof
      registryValue registryProof
    generalize FaultProof.applyTransitionWith verify gs.toKernel
      (.terminateOnSingleStep step actionProof registryValue registryProof) = result at hresult ⊢
    cases result with
    | error => exact ⟨rfl, hproper⟩
    | ok =>
      obtain ⟨settled, hsettle, hproper', hkernel⟩ := hproper.settle_eq c hresult
      rw [hsettle]
      exact ⟨hkernel, hproper'⟩

/--
On every play from an opening the observer's game mirrors the kernel's.  The states
correspond, and so do the results of every move of the bisection and of a timeout.
A last move is accepted exactly when the kernel's game does not refuse it for the
state the game is in.
-/
theorem game_mirrors
    {gs : GameState}
    {gs' : FaultProof.GameState}
    (hplay : Play verify gs gs') :
    gs' = gs.toKernel ∧
    (∀ t t',
      SameMove t t' →
      SameResult (applyTransition gs t) (FaultProof.applyTransitionWith verify gs' t')) ∧
    ∀ c step actionProof registryValue registryProof,
      (∃ accepted, applyTransition gs (.terminateOnSingleStep c) = .ok accepted) ↔
      ¬ RefusesStructurally (FaultProof.applyTransitionWith verify gs'
          (.terminateOnSingleStep step actionProof registryValue registryProof)) := by
  obtain ⟨rfl, hproper⟩ := hplay.agree
  refine ⟨rfl, fun t t' hmove => move_mirrors verify gs hmove, ?_⟩
  intro c step actionProof registryValue registryProof
  exact hproper.terminate_iff c
    (FaultProof.terminateResult verify gs.toKernel step actionProof registryValue registryProof)

end Plays

/-- A game over two steps, with no one having moved. -/
def twoSteps : GameState where
  sequencer := 1
  challenger := 2
  range := { low := { idx := 0, commit := 0 }, high := { idx := 2, commit := 7 } }
  pendingMidpoint := none
  depth := 0
  turn := .sequencer
  sequencerBond := 5
  challengerBond := 5
  status := .inProgress
  deploymentId := 0
  actionsRoot := 0

theorem twoSteps_answered_alike :
    ∃ gs gs', @Play zeroKeccak (fun _ _ _ => false) gs gs' ∧ gs.pendingMidpoint.isSome ∧
      SameResult (applyTransition gs .respondDisagree)
        (@FaultProof.applyTransitionWith zeroKeccak (fun _ _ _ => false) gs' .respondDisagree) := by
  have hopen : twoSteps.Opening := ⟨rfl, rfl, by decide⟩
  have hplay := @Play.move zeroKeccak _ _ _ _ _
    (@Play.opening zeroKeccak (fun _ _ _ => false) _ hopen) (.submitMidpoint 3)
  exact ⟨_, _, hplay, by decide, (@game_mirrors zeroKeccak _ _ _ hplay).2.1 _ _ .respondDisagree⟩

end Knomosis.Observer
