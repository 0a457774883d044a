import Knomosis.Contracts.StateRootSubmission
import Mathlib.Algebra.BigOperators.Pi

/-!
# KnomosisFaultProofGame

The bisection game.  A game narrows the range of one disputed batch until it
holds a single log entry, and then lets the step verifier decide.  Whoever is
on turn and does not move before the deadline loses by timeout.

The three moves that only touch one game are functions of that game.  Opening
and settling a game call into the registry: opening must lock the record, while
settlement tries each registry call and goes on when it fails.  A registry call
fails as a whole when the registry is in the middle of a transfer of its own;
`registryLocked` says whether the call is made from inside such a transfer.

What the terminal step computes is a parameter here: `adjudicate` stands for
the inclusion check, the step verifier and the signature gate together, and
answers with the adjudicated root, or with nothing where one of them reverts.

A storage slot of `games` that was never written reads as a game in progress
with deadline zero: the first member of either enumeration is its zero value.
-/

namespace Knomosis.Contracts

open Lib

/-- A state root asserted at a log index. -/
structure Claim where
  idx : ℕ
  commit : Bytes32
deriving DecidableEq

inductive TurnSide where
  | sequencer
  | challenger
deriving DecidableEq

namespace TurnSide

def flip : TurnSide → TurnSide
  | .sequencer => .challenger
  | .challenger => .sequencer

end TurnSide

inductive GameStatus where
  | inProgress
  | sequencerWon
  | challengerWon
  | timedOutSequencer
  | timedOutChallenger
deriving DecidableEq

namespace GameStatus

/-- The settled statuses in which the challenger is paid. -/
def challengerWins : GameStatus → Bool
  | .sequencerWon => false
  | .timedOutChallenger => false
  | _ => true

end GameStatus

structure Game where
  sequencer : Address
  challenger : Address
  low : Claim
  high : Claim
  hasPendingMidpoint : Bool
  pendingMidpoint : Claim
  depth : ℕ
  turn : TurnSide
  turnDeadline : ℕ
  sequencerBond : ℕ
  challengerBond : ℕ
  status : GameStatus
  deploymentId : Bytes32
  lastStepBlock : ℕ
  disputedLogIndex : ℕ
deriving DecidableEq

/-- The storage value of a game id that was never opened. -/
def Game.unopened : Game where
  sequencer := 0
  challenger := 0
  low := ⟨0, 0⟩
  high := ⟨0, 0⟩
  hasPendingMidpoint := false
  pendingMidpoint := ⟨0, 0⟩
  depth := 0
  turn := .sequencer
  turnDeadline := 0
  sequencerBond := 0
  challengerBond := 0
  status := .inProgress
  deploymentId := 0
  lastStepBlock := 0
  disputedLogIndex := 0

/-- The immutables of the game, as its constructor admits them. -/
structure GameConfig where
  bisectionResponseTimeout : ℕ
  minChallengeBond : ℕ
  minBisectionStepIntervalBlocks : ℕ
  treasury : Address
  stateRootSubmission : Address
  treasury_ne_zero : treasury ≠ 0
  stateRootSubmission_ne_zero : stateRootSubmission ≠ 0
  interval_lt_timeout : minBisectionStepIntervalBlocks < bisectionResponseTimeout
  timeout_lt : bisectionResponseTimeout < 2 ^ 64
  bond_pos : 0 < minChallengeBond
  bond_lt : minChallengeBond < 2 ^ 128

def maxBisectionDepth : ℕ := 64

inductive GameError where
  | zeroAddress
  | insufficientBond
  | turnDeadlineExpired
  | noPendingMidpoint
  | midpointAlreadyPending
  | midpointOutOfRange
  | rangeNotSingleStep
  | gameAlreadyEnded
  | notResponsible
  | bondTransferFailed
  | bisectionStepTooFast
  | gameAlreadyExists
  | depthCapExceeded
  | lowRootNotSubmitted
  | lowCommitMismatch
  | lowNotBatchStart
  | disputedRootReverted
  | nothingToWithdraw
  | registryCallFailed
  | adjudicationReverted
  | arithmeticPanic
  | calldataOutOfRange
deriving DecidableEq

namespace Game

/-- The party on turn. -/
def responsible (g : Game) : Address := if g.turn = .sequencer then g.sequencer else g.challenger

/-- The deadline of a turn that starts in block `b`, in checked arithmetic. -/
def nextDeadline (cfg : GameConfig) (b : Block) : Option ℕ :=
  checkedAdd 64 (truncate 64 b.number) cfg.bisectionResponseTimeout

/-- Hand the turn to the other side in block `b`. -/
def passTurn (g : Game) (deadline : ℕ) (b : Block) : Game :=
  { g with
    turn := g.turn.flip
    turnDeadline := deadline
    lastStepBlock := truncate 64 b.number }

/-- The earliest block of the next move, in checked arithmetic. -/
def earliestStep (cfg : GameConfig) (g : Game) : Option ℕ :=
  checkedAdd 64 g.lastStepBlock cfg.minBisectionStepIntervalBlocks

/-- The game with a midpoint on the table. -/
def propose (g : Game) (midpoint : Claim) : Game :=
  { g with pendingMidpoint := midpoint, hasPendingMidpoint := true }

def submitMidpoint (cfg : GameConfig) (g : Game) (msg : Msg)
    (midpointCommit : Bytes32) : Except GameError Game :=
  if g.status ≠ .inProgress then .error .gameAlreadyEnded
  else if g.turnDeadline < msg.block.number then .error .turnDeadlineExpired
  else if g.hasPendingMidpoint then .error .midpointAlreadyPending
  else if maxBisectionDepth ≤ g.depth then .error .depthCapExceeded
  else
    checked (g.earliestStep cfg) .arithmeticPanic fun earliest =>
      if msg.block.number < earliest then .error .bisectionStepTooFast
      else if msg.sender ≠ g.responsible then .error .notResponsible
      else
        checked (checkedAdd 64 g.low.idx g.high.idx) .arithmeticPanic fun idxSum =>
          if idxSum / 2 ≤ g.low.idx ∨ g.high.idx ≤ idxSum / 2 then
            .error .midpointOutOfRange
          else
            checked (nextDeadline cfg msg.block) .arithmeticPanic fun deadline =>
              .ok ((g.propose ⟨idxSum / 2, midpointCommit⟩).passTurn deadline msg.block)

/-- The game after the answer to the pending midpoint. -/
def narrow (g : Game) (agree : Bool) : Game :=
  { g with
    low := if agree then g.pendingMidpoint else g.low
    high := if agree then g.high else g.pendingMidpoint
    hasPendingMidpoint := false
    depth := g.depth + 1 }

def respondToMidpoint (cfg : GameConfig) (g : Game) (msg : Msg)
    (agree : Bool) : Except GameError Game :=
  if g.status ≠ .inProgress then .error .gameAlreadyEnded
  else if g.turnDeadline < msg.block.number then .error .turnDeadlineExpired
  else if ¬ g.hasPendingMidpoint then .error .noPendingMidpoint
  else
    checked (g.earliestStep cfg) .arithmeticPanic fun earliest =>
      if msg.block.number < earliest then .error .bisectionStepTooFast
      else if msg.sender ≠ g.responsible then .error .notResponsible
      else if maxBisectionDepth < (g.narrow agree).depth then .error .depthCapExceeded
      else
        checked (nextDeadline cfg msg.block) .arithmeticPanic fun deadline =>
          .ok ((g.narrow agree).passTurn deadline msg.block)

/-- The status the terminal step settles the game with. -/
def terminalStatus (g : Game) (computedPostCommit : Bytes32) : GameStatus :=
  if computedPostCommit = g.high.commit then
    if g.turn = .sequencer then .sequencerWon else .challengerWon
  else
    if g.turn = .sequencer then .challengerWon else .sequencerWon

/-- Who is paid when the game settles with this status. -/
def winner (g : Game) (finalStatus : GameStatus) : Address :=
  if finalStatus.challengerWins then g.challenger else g.sequencer

def totalBonds (g : Game) : ℕ := g.sequencerBond + g.challengerBond

/-- The status `claimTimeout` settles the game with. -/
def timeoutStatus (g : Game) : GameStatus :=
  if g.turn = .sequencer then .timedOutSequencer else .timedOutChallenger

/-- What the bisection moves leave alone. -/
structure SameStakes (g g' : Game) : Prop where
  sequencer_eq : g'.sequencer = g.sequencer
  challenger_eq : g'.challenger = g.challenger
  sequencerBond_eq : g'.sequencerBond = g.sequencerBond
  challengerBond_eq : g'.challengerBond = g.challengerBond
  status_eq : g'.status = g.status
  disputedLogIndex_eq : g'.disputedLogIndex = g.disputedLogIndex

variable {cfg : GameConfig} {g g' : Game} {msg : Msg} {midpointCommit : Bytes32} {agree : Bool}

theorem submitMidpoint_ok (h : g.submitMidpoint cfg msg midpointCommit = .ok g') :
    g.status = .inProgress ∧ msg.block.number ≤ g.turnDeadline ∧
      g.hasPendingMidpoint = false ∧ g.depth < maxBisectionDepth ∧ g.low.idx + g.high.idx < 2 ^ 64 ∧
      g.low.idx < (g.low.idx + g.high.idx) / 2 ∧ (g.low.idx + g.high.idx) / 2 < g.high.idx ∧
      ∃ deadline, g' = (g.propose ⟨(g.low.idx + g.high.idx) / 2, midpointCommit⟩).passTurn
          deadline msg.block := by
  simp only [submitMidpoint, guard_eq_ok, checked_eq_ok, checkedAdd_eq_some, not_not,
    not_lt, not_le, not_or, Except.ok.injEq, Bool.not_eq_true] at h
  obtain ⟨hstatus, hdeadline, hpending, hdepth, _, _, _, _, _, ⟨hsum, rfl⟩,
    ⟨hlow, hhigh⟩, deadline, _, rfl⟩ := h
  exact ⟨hstatus, hdeadline, hpending, hdepth, hsum, hlow, hhigh, deadline, rfl⟩

theorem respondToMidpoint_ok (h : g.respondToMidpoint cfg msg agree = .ok g') :
    g.status = .inProgress ∧ msg.block.number ≤ g.turnDeadline ∧
      g.hasPendingMidpoint = true ∧ g.depth < maxBisectionDepth ∧
      ∃ deadline, g' = (g.narrow agree).passTurn deadline msg.block := by
  simp only [respondToMidpoint, guard_eq_ok, checked_eq_ok, not_not, not_lt, Except.ok.injEq] at h
  obtain ⟨hstatus, hdeadline, hpending, _, _, _, _, hdepth, deadline, _, rfl⟩ := h
  exact ⟨hstatus, hdeadline, hpending, hdepth, deadline, rfl⟩

theorem submitMidpoint_sameStakes (h : g.submitMidpoint cfg msg midpointCommit = .ok g') :
    SameStakes g g' := by
  obtain ⟨_, _, _, _, _, _, _, _, rfl⟩ := submitMidpoint_ok h
  exact ⟨rfl, rfl, rfl, rfl, rfl, rfl⟩

theorem respondToMidpoint_sameStakes (h : g.respondToMidpoint cfg msg agree = .ok g') :
    SameStakes g g' := by
  obtain ⟨_, _, _, _, _, rfl⟩ := respondToMidpoint_ok h
  exact ⟨rfl, rfl, rfl, rfl, rfl, rfl⟩

end Game

structure GameContract where
  games : ℕ → Game
  nextGameId : ℕ
  activeGameForLogIndex : ℕ → ℕ
  pendingWithdrawals : Address → ℕ
  balance : ℕ

/-- What the terminal step of a game comes to, given the batch's actions root. -/
abbrev Adjudicator (τ : Type) := Bytes32 → Game → τ → Option Bytes32

/-- What a call that reaches the registry answers: both storages and the
effects on the registry, oldest first. -/
abbrev GameResult := Except GameError (GameContract × Registry × List RegistryEffect)

namespace GameContract

def construct : GameContract where
  games := fun _ => Game.unopened
  nextGameId := 0
  activeGameForLogIndex := fun _ => 0
  pendingWithdrawals := fun _ => 0
  balance := 0

def setGame (c : GameContract) (gameId : ℕ) (g : Game) : GameContract :=
  { c with games := Function.update c.games gameId g }

/-- A move that only touches one game. -/
def liftMove (c : GameContract) (gameId : ℕ) (r : Except GameError Game) :
    Except GameError GameContract :=
  match r with
  | .error e => .error e
  | .ok g => .ok (c.setGame gameId g)

/-- The game `initiateChallenge` opens. -/
def openedGame (rcfg : RegistryConfig) (reg : Registry) (msg : Msg)
    (disputedLogIndex : ℕ) (lowCommit : Bytes32) (lowLogIndex deadline : ℕ) : Game where
  sequencer := (reg.roots disputedLogIndex).sequencer
  challenger := msg.sender
  low := ⟨lowLogIndex, lowCommit⟩
  high := ⟨disputedLogIndex, (reg.roots disputedLogIndex).stateCommit⟩
  hasPendingMidpoint := false
  pendingMidpoint := ⟨0, 0⟩
  depth := 0
  turn := .sequencer
  turnDeadline := deadline
  sequencerBond := 0
  challengerBond := truncate 128 msg.value
  status := .inProgress
  deploymentId := rcfg.deploymentId
  lastStepBlock := truncate 64 msg.block.number
  disputedLogIndex := disputedLogIndex

/-- Write the opened game; a stale pending midpoint of the slot is kept. -/
def openGame (c : GameContract) (g : Game) (value : ℕ) : GameContract :=
  let gameId := c.nextGameId + 1
  { c.setGame gameId { g with pendingMidpoint := (c.games gameId).pendingMidpoint } with
    nextGameId := gameId
    activeGameForLogIndex := Function.update c.activeGameForLogIndex g.disputedLogIndex gameId
    balance := c.balance + value }

def initiateChallenge (rcfg : RegistryConfig) (gcfg : GameConfig)
    (c : GameContract) (reg : Registry) (msg : Msg) (registryLocked : Bool)
    (disputedLogIndex : ℕ) (challengerCommit lowCommit : Bytes32) (lowLogIndex : ℕ) : GameResult :=
  let root := reg.roots disputedLogIndex
  if 2 ^ 64 ≤ disputedLogIndex ∨ 2 ^ 64 ≤ lowLogIndex then
    .error .calldataOutOfRange
  else if msg.value ≠ gcfg.minChallengeBond then .error .insufficientBond
  else if c.activeGameForLogIndex disputedLogIndex ≠ 0 then .error .gameAlreadyExists
  else if disputedLogIndex ≤ lowLogIndex then .error .midpointOutOfRange
  else if ¬ reg.Exists disputedLogIndex then .error .zeroAddress
  else if root.finalised then .error .gameAlreadyEnded
  else if reg.isRecordReverted disputedLogIndex then .error .disputedRootReverted
  else if challengerCommit = root.stateCommit then .error .midpointOutOfRange
  else if lowLogIndex ≠ root.prevEndIndex then .error .lowNotBatchStart
  else if ¬ reg.Exists lowLogIndex then .error .lowRootNotSubmitted
  else if lowCommit ≠ (reg.roots lowLogIndex).stateCommit then .error .lowCommitMismatch
  else
    checked (Game.nextDeadline gcfg msg.block) .arithmeticPanic fun deadline =>
      if registryLocked then .error .registryCallFailed
      else
        checked (reg.markDisputed rcfg rcfg.faultProofGame disputedLogIndex).toOption
            .registryCallFailed fun marked =>
          .ok (c.openGame (openedGame rcfg reg msg disputedLogIndex lowCommit
            lowLogIndex deadline) msg.value, marked.1, [marked.2])

/-- `try slashSequencerBond`: the registry, the ether received and the effects. -/
def trySlash (rcfg : RegistryConfig) (reg : Registry) (registryLocked : Bool)
    (logIndex : ℕ) : Registry × ℕ × List RegistryEffect :=
  if registryLocked then (reg, 0, [])
  else
    match reg.slashSequencerBond rcfg rcfg.faultProofGame logIndex rcfg.faultProofGame with
    | .error _ => (reg, 0, [])
    | .ok (reg', eff) => (reg', reg.balance - reg'.balance, [eff])

def tryRevert (rcfg : RegistryConfig) (reg : Registry) (block : Block)
    (registryLocked : Bool) (fromIdx : ℕ) : Registry × List RegistryEffect :=
  if registryLocked then (reg, [])
  else
    match reg.revertStateRootsFrom rcfg rcfg.faultProofGame block fromIdx with
    | .error _ => (reg, [])
    | .ok (reg', eff) => (reg', [eff])

def tryClear (rcfg : RegistryConfig) (reg : Registry) (registryLocked : Bool)
    (logIndex : ℕ) : Registry × List RegistryEffect :=
  if registryLocked then (reg, [])
  else
    match reg.clearDisputed rcfg rcfg.faultProofGame logIndex with
    | .error _ => (reg, [])
    | .ok (reg', eff) => (reg', [eff])

/-- The winner's 95 percent of the bonds and the treasury's rest. -/
def splitBonds (sequencerBond challengerBond : ℕ) : Option (ℕ × ℕ) :=
  (checkedAdd 128 sequencerBond challengerBond).bind fun totalBonds =>
    (checkedMul 128 totalBonds 95).map fun scaled => (scaled / 100, totalBonds - scaled / 100)

/-- `pendingWithdrawals[a] += amount`, skipped for a zero amount. -/
def credit (c : GameContract) (a : Address) (amount : ℕ) : Option GameContract :=
  if amount = 0 then some c
  else
    (checkedAdd 256 (c.pendingWithdrawals a) amount).map fun sum =>
      { c with pendingWithdrawals := Function.update c.pendingWithdrawals a sum }

/-- The writes of `_settle` before any external call. -/
def closeGame (c : GameContract) (gameId : ℕ) (finalStatus : GameStatus) : GameContract :=
  let g := c.games gameId
  { c.setGame gameId { g with status := finalStatus } with
    activeGameForLogIndex := Function.update c.activeGameForLogIndex g.disputedLogIndex 0 }

/-- Book the ether that the slash brought in. -/
def bookSlash (c : GameContract) (gameId delta : ℕ) : Option GameContract :=
  let g := c.games gameId
  (checkedAdd 128 g.sequencerBond (truncate 128 delta)).map fun sequencerBond =>
    { c.setGame gameId { g with sequencerBond := sequencerBond } with
      balance := c.balance + delta }

/-- Credit the bonds of a closed game. -/
def payOut (gcfg : GameConfig) (c : GameContract) (gameId : ℕ)
    (winner : Address) : Option GameContract :=
  let g := c.games gameId
  (splitBonds g.sequencerBond g.challengerBond).bind fun payouts =>
    (c.credit winner payouts.1).bind fun c' => c'.credit gcfg.treasury payouts.2

def settle (rcfg : RegistryConfig) (gcfg : GameConfig) (c : GameContract)
    (reg : Registry) (block : Block) (registryLocked : Bool) (gameId : ℕ)
    (finalStatus : GameStatus) : GameResult :=
  let g := c.games gameId
  let closed := c.closeGame gameId finalStatus
  if finalStatus.challengerWins then
    let slash := trySlash rcfg reg registryLocked g.disputedLogIndex
    let sweep := tryRevert rcfg slash.1 block registryLocked g.disputedLogIndex
    checked (closed.bookSlash gameId slash.2.1) .arithmeticPanic fun booked =>
      checked (booked.payOut gcfg gameId g.challenger) .arithmeticPanic fun c' =>
        .ok (c', sweep.1, slash.2.2 ++ sweep.2)
  else
    let clear := tryClear rcfg reg registryLocked g.disputedLogIndex
    checked (closed.payOut gcfg gameId g.sequencer) .arithmeticPanic fun c' =>
      .ok (c', clear.1, clear.2)

def terminateOnSingleStep {τ : Type} (adjudicate : Adjudicator τ)
    (rcfg : RegistryConfig) (gcfg : GameConfig) (c : GameContract)
    (reg : Registry) (msg : Msg) (registryLocked : Bool) (gameId : ℕ) (args : τ) : GameResult :=
  let g := c.games gameId
  if g.status ≠ .inProgress then .error .gameAlreadyEnded
  else if g.high.idx < g.low.idx then .error .arithmeticPanic
  else if g.high.idx - g.low.idx ≠ 1 then .error .rangeNotSingleStep
  else if g.hasPendingMidpoint then .error .midpointAlreadyPending
  else if msg.sender ≠ g.responsible then .error .notResponsible
  else
    checked (adjudicate (reg.roots g.disputedLogIndex).actionsRoot g args)
        .adjudicationReverted fun computedPostCommit =>
      c.settle rcfg gcfg reg msg.block registryLocked gameId (g.terminalStatus computedPostCommit)

def claimTimeout (rcfg : RegistryConfig) (gcfg : GameConfig) (c : GameContract)
    (reg : Registry) (msg : Msg) (registryLocked : Bool) (gameId : ℕ) : GameResult :=
  let g := c.games gameId
  if g.status ≠ .inProgress then .error .gameAlreadyEnded
  else if msg.block.number ≤ g.turnDeadline then .error .turnDeadlineExpired
  else c.settle rcfg gcfg reg msg.block registryLocked gameId g.timeoutStatus

def withdraw (c : GameContract) (sender : Address) : Except GameError GameContract :=
  let amount := c.pendingWithdrawals sender
  if amount = 0 then .error .nothingToWithdraw
  else if c.balance < amount then .error .bondTransferFailed
  else
    .ok { c with
      pendingWithdrawals := Function.update c.pendingWithdrawals sender 0
      balance := c.balance - amount }

def receive (c : GameContract) (value : ℕ) : GameContract := { c with balance := c.balance + value }

/-! ## What an accepted call has checked and done -/

section Accepted

variable {rcfg : RegistryConfig} {gcfg : GameConfig} {c c' : GameContract}
variable {reg reg' : Registry} {effs : List RegistryEffect}

structure MayOpen (gcfg : GameConfig) (c : GameContract) (reg : Registry) (msg : Msg)
    (disputedLogIndex : ℕ) (challengerCommit lowCommit : Bytes32)
    (lowLogIndex : ℕ) : Prop where
  disputed_lt : disputedLogIndex < 2 ^ 64
  value_eq : msg.value = gcfg.minChallengeBond
  no_game : c.activeGameForLogIndex disputedLogIndex = 0
  low_lt : lowLogIndex < disputedLogIndex
  record : reg.MayDispute disputedLogIndex
  commit_ne : challengerCommit ≠ (reg.roots disputedLogIndex).stateCommit
  low_eq : lowLogIndex = (reg.roots disputedLogIndex).prevEndIndex
  low_exists : reg.Exists lowLogIndex
  lowCommit_eq : lowCommit = (reg.roots lowLogIndex).stateCommit

variable {msg : Msg} {registryLocked : Bool} {disputedLogIndex lowLogIndex gameId : ℕ}
variable {challengerCommit lowCommit : Bytes32} {winner : Address} {finalStatus : GameStatus}

theorem initiateChallenge_ok
    (h : c.initiateChallenge rcfg gcfg reg msg registryLocked disputedLogIndex
      challengerCommit lowCommit lowLogIndex = .ok (c', reg', effs)) :
    MayOpen gcfg c reg msg disputedLogIndex challengerCommit lowCommit lowLogIndex ∧
      ∃ deadline, Game.nextDeadline gcfg msg.block = some deadline ∧
        c' = c.openGame (openedGame rcfg reg msg disputedLogIndex lowCommit
          lowLogIndex deadline) msg.value ∧ reg' = reg.setDisputed disputedLogIndex true ∧
        effs = [.disputed disputedLogIndex] := by
  simp only [initiateChallenge, guard_eq_ok, checked_eq_ok, not_not, not_le, not_or,
    Except.ok.injEq, Prod.mk.injEq, Bool.not_eq_true, Prod.exists] at h
  obtain ⟨hrange, hvalue, hactive, hlow, hex, _, _, hcommit, hstart, hlowex, hlowc,
    deadline, hdeadline, _, reg₁, eff, hmark, rfl, rfl, rfl⟩ := h
  have hmark' : reg.markDisputed rcfg rcfg.faultProofGame disputedLogIndex = .ok (reg₁, eff) := by
    revert hmark
    cases reg.markDisputed rcfg rcfg.faultProofGame disputedLogIndex <;> simp [Except.toOption]
  obtain ⟨_, hmay, rfl, rfl⟩ := Registry.markDisputed_ok hmark'
  exact ⟨⟨hrange.1, hvalue, hactive, hlow, hmay, hcommit, hstart, hlowex, hlowc⟩,
    deadline, hdeadline, rfl, rfl, rfl⟩

/-- The checks are all that stands in the way of a challenge. -/
theorem MayOpen.initiateChallenge {deadline : ℕ}
    (hmay : MayOpen gcfg c reg msg disputedLogIndex challengerCommit lowCommit lowLogIndex)
    (hdeadline : Game.nextDeadline gcfg msg.block = some deadline) :
    ∃ r, c.initiateChallenge rcfg gcfg reg msg false disputedLogIndex
      challengerCommit lowCommit lowLogIndex = .ok r := by
  have hrange : ¬ (2 ^ 64 ≤ disputedLogIndex ∨ 2 ^ 64 ≤ lowLogIndex) := by
    have h₁ := hmay.disputed_lt
    have h₂ := hmay.low_lt
    omega
  have horder : ¬ disputedLogIndex ≤ lowLogIndex := not_le.mpr hmay.low_lt
  have hrec := hmay.record
  have hmark : reg.markDisputed rcfg rcfg.faultProofGame disputedLogIndex =
      .ok (reg.setDisputed disputedLogIndex true, .disputed disputedLogIndex) := by
    simp [Registry.markDisputed, hrec.exist, hrec.not_reverted, hrec.not_finalised,
      hrec.not_disputed]
  simp only [GameContract.initiateChallenge, guard_eq_ok, checked_eq_ok, hmark]
  exact ⟨_, hrange, not_not.mpr hmay.value_eq, not_not.mpr hmay.no_game, horder,
    not_not.mpr hrec.exist, by simp [hrec.not_finalised], hrec.not_reverted,
    hmay.commit_ne, not_not.mpr hmay.low_eq, not_not.mpr hmay.low_exists,
    not_not.mpr hmay.lowCommit_eq, deadline, hdeadline, by simp, _, rfl, rfl⟩

/-- The registry either refuses the slash or pays the whole bond to the game. -/
theorem trySlash_cases (rcfg : RegistryConfig) (reg : Registry) (registryLocked : Bool) (k : ℕ) :
    trySlash rcfg reg registryLocked k = (reg, 0, []) ∨ registryLocked = false ∧ reg.MaySlash k ∧
        trySlash rcfg reg registryLocked k = (reg.payOutBond k, (reg.roots k).bond,
            [.slashed k rcfg.faultProofGame (reg.roots k).bond]) := by
  unfold trySlash
  cases registryLocked with
  | true => simp
  | false =>
    cases hslash : reg.slashSequencerBond rcfg rcfg.faultProofGame k rcfg.faultProofGame with
    | error => simp
    | ok p =>
      obtain ⟨_, hmay, hreg, heff⟩ := Registry.slashSequencerBond_ok hslash
      refine Or.inr ⟨rfl, hmay, ?_⟩
      have hfund := hmay.funded
      simp only [Bool.false_eq_true, if_false, hreg, heff, Prod.mk.injEq, true_and, and_true]
      show reg.balance - (reg.balance - (reg.roots k).bond) = (reg.roots k).bond
      omega

theorem tryRevert_eq (rcfg : RegistryConfig) (reg : Registry) (block : Block)
    (registryLocked : Bool) (f : ℕ) :
    tryRevert rcfg reg block registryLocked f =
      if registryLocked then (reg, []) else (reg.sweepFrom block f, [.revertedFrom f]) := by
  cases registryLocked <;> simp [tryRevert, Registry.revertStateRootsFrom]

theorem tryClear_cases (rcfg : RegistryConfig) (reg : Registry) (registryLocked : Bool) (k : ℕ) :
    tryClear rcfg reg registryLocked k = (reg, []) ∨
      reg.Exists k ∧ tryClear rcfg reg registryLocked k =
        (reg.setDisputed k false, [.disputeCleared k]) := by
  unfold tryClear
  cases registryLocked with
  | true => simp
  | false =>
    cases hclear : reg.clearDisputed rcfg rcfg.faultProofGame k with
    | error => simp
    | ok p =>
      obtain ⟨_, hex, hreg, heff⟩ := Registry.clearDisputed_ok hclear
      simp [hex, hreg, heff]

inductive SettledRegistry (rcfg : RegistryConfig) (reg : Registry) (block : Block)
    (f : ℕ) : Registry → List RegistryEffect → Prop
  | untouched : SettledRegistry rcfg reg block f reg []
  | cleared (hex : reg.Exists f) :
      SettledRegistry rcfg reg block f (reg.setDisputed f false) [.disputeCleared f]
  | swept : SettledRegistry rcfg reg block f (reg.sweepFrom block f) [.revertedFrom f]
  | slashed (hmay : reg.MaySlash f) :
      SettledRegistry rcfg reg block f
        ((reg.payOutBond f).sweepFrom block f)
        [.slashed f rcfg.faultProofGame (reg.roots f).bond, .revertedFrom f]

def creditTo (pending : Address → ℕ) (a : Address) (amount : ℕ) : Address → ℕ :=
  Function.update pending a (pending a + amount)

structure SettledGame (gcfg : GameConfig) (c : GameContract) (gameId : ℕ)
    (finalStatus : GameStatus) (delta : ℕ) (c' : GameContract) : Prop where
  games_eq : c'.games = Function.update c.games gameId
    { c.games gameId with
      status := finalStatus
      sequencerBond := (c.games gameId).sequencerBond + truncate 128 delta }
  nextGameId_eq : c'.nextGameId = c.nextGameId
  active_eq : c'.activeGameForLogIndex =
    Function.update c.activeGameForLogIndex (c.games gameId).disputedLogIndex 0
  balance_eq : c'.balance = c.balance + delta
  pending_eq : c'.pendingWithdrawals =
    creditTo
      (creditTo c.pendingWithdrawals ((c.games gameId).winner finalStatus)
        ((c'.games gameId).totalBonds * 95 / 100))
      gcfg.treasury
      ((c'.games gameId).totalBonds - (c'.games gameId).totalBonds * 95 / 100)

theorem credit_ok {a : Address} {amount : ℕ} (h : c.credit a amount = some c') :
    c' = { c with pendingWithdrawals := creditTo c.pendingWithdrawals a amount } := by
  unfold credit at h
  split_ifs at h with hzero
  · cases h
    simp [creditTo, hzero]
  · simp only [Option.map_eq_some_iff, checkedAdd_eq_some] at h
    obtain ⟨_, ⟨_, rfl⟩, rfl⟩ := h
    rfl

theorem splitBonds_ok {sequencerBond challengerBond : ℕ} {payouts : ℕ × ℕ}
    (h : splitBonds sequencerBond challengerBond = some payouts) :
    payouts = ((sequencerBond + challengerBond) * 95 / 100,
      sequencerBond + challengerBond - (sequencerBond + challengerBond) * 95 / 100) := by
  simp only [splitBonds, Option.bind_eq_some_iff, Option.map_eq_some_iff,
    checkedAdd_eq_some, checkedMul_eq_some] at h
  obtain ⟨_, ⟨_, rfl⟩, _, ⟨_, rfl⟩, rfl⟩ := h
  rfl

theorem payOut_ok (h : c.payOut gcfg gameId winner = some c') :
    c' = { c with
      pendingWithdrawals :=
        creditTo
          (creditTo c.pendingWithdrawals winner ((c.games gameId).totalBonds * 95 / 100))
          gcfg.treasury
          ((c.games gameId).totalBonds - (c.games gameId).totalBonds * 95 / 100) } := by
  simp only [payOut, Option.bind_eq_some_iff] at h
  obtain ⟨payouts, hsplit, c₁, h₁, h₂⟩ := h
  obtain rfl := splitBonds_ok hsplit
  obtain rfl := credit_ok h₁
  exact credit_ok h₂

/-- Closing, booking and paying out compose to one settlement. -/
theorem payOut_booked {delta : ℕ} {booked : GameContract}
    (hwinner : winner = (c.games gameId).winner finalStatus)
    (hbook : (c.closeGame gameId finalStatus).bookSlash gameId delta = some booked)
    (hpay : booked.payOut gcfg gameId winner = some c') :
    SettledGame gcfg c gameId finalStatus delta c' := by
  simp only [bookSlash, Option.map_eq_some_iff, checkedAdd_eq_some] at hbook
  obtain ⟨_, ⟨_, rfl⟩, rfl⟩ := hbook
  subst hwinner
  rw [payOut_ok hpay]
  refine ⟨?_, rfl, rfl, rfl, rfl⟩
  simp [setGame, closeGame]

theorem payOut_closed (hwinner : winner = (c.games gameId).winner finalStatus)
    (hpay : (c.closeGame gameId finalStatus).payOut gcfg gameId winner = some c') :
    SettledGame gcfg c gameId finalStatus 0 c' := by
  subst hwinner
  rw [payOut_ok hpay]
  refine ⟨?_, rfl, rfl, rfl, rfl⟩
  simp [closeGame, setGame, truncate]

theorem settle_ok {block : Block}
    (h : c.settle rcfg gcfg reg block registryLocked gameId finalStatus = .ok (c', reg', effs)) :
    SettledRegistry rcfg reg block (c.games gameId).disputedLogIndex reg' effs ∧
      ∃ delta, SettledGame gcfg c gameId finalStatus delta c' ∧
        (delta = 0 ∨ reg.MaySlash (c.games gameId).disputedLogIndex) := by
  unfold settle at h
  split_ifs at h with hwins
  · simp only [checked_eq_ok, Except.ok.injEq, Prod.mk.injEq] at h
    obtain ⟨booked, hbook, _, hpay, rfl, rfl, rfl⟩ := h
    have hwinner : (c.games gameId).challenger = (c.games gameId).winner finalStatus := by
      simp [Game.winner, hwins]
    rw [tryRevert_eq]
    rcases trySlash_cases rcfg reg registryLocked (c.games gameId).disputedLogIndex with
      hslash | ⟨rfl, hmay, hslash⟩
    · rw [hslash] at hbook ⊢
      refine ⟨?_, _, payOut_booked hwinner hbook hpay, Or.inl rfl⟩
      cases registryLocked with
      | true => exact .untouched
      | false => exact .swept
    · rw [hslash] at hbook ⊢
      exact ⟨.slashed hmay, _, payOut_booked hwinner hbook hpay, Or.inr hmay⟩
  · simp only [checked_eq_ok, Except.ok.injEq, Prod.mk.injEq] at h
    obtain ⟨_, hpay, rfl, rfl, rfl⟩ := h
    have hwinner : (c.games gameId).sequencer = (c.games gameId).winner finalStatus := by
      simp [Game.winner, hwins]
    refine ⟨?_, _, payOut_closed hwinner hpay, Or.inl rfl⟩
    rcases tryClear_cases rcfg reg registryLocked (c.games gameId).disputedLogIndex with
      hclear | ⟨hex, hclear⟩
    · rw [hclear]
      exact .untouched
    · rw [hclear]
      exact .cleared hex

/-- Both ways to settle a game require it to be in progress. -/
theorem terminateOnSingleStep_ok {τ : Type} {adjudicate : Adjudicator τ}
    {args : τ}
    (h : c.terminateOnSingleStep adjudicate rcfg gcfg reg msg registryLocked gameId args =
      .ok (c', reg', effs)) :
    (c.games gameId).status = .inProgress ∧ ∃ finalStatus, finalStatus ≠ .inProgress ∧
      c.settle rcfg gcfg reg msg.block registryLocked gameId finalStatus =
        .ok (c', reg', effs) := by
  simp only [terminateOnSingleStep, guard_eq_ok, checked_eq_ok, not_not] at h
  obtain ⟨hstatus, _, _, _, _, computed, _, hsettle⟩ := h
  refine ⟨hstatus, _, ?_, hsettle⟩
  unfold Game.terminalStatus
  split_ifs <;> simp

theorem claimTimeout_ok
    (h : c.claimTimeout rcfg gcfg reg msg registryLocked gameId = .ok (c', reg', effs)) :
    (c.games gameId).status = .inProgress ∧ ∃ finalStatus, finalStatus ≠ .inProgress ∧
      c.settle rcfg gcfg reg msg.block registryLocked gameId finalStatus =
        .ok (c', reg', effs) := by
  simp only [claimTimeout, guard_eq_ok, not_not] at h
  obtain ⟨hstatus, _, hsettle⟩ := h
  refine ⟨hstatus, _, ?_, hsettle⟩
  unfold Game.timeoutStatus
  split_ifs <;> simp

theorem withdraw_ok {sender : Address} (h : c.withdraw sender = .ok c') :
    c.pendingWithdrawals sender ≤ c.balance ∧ c' = { c with
        pendingWithdrawals := Function.update c.pendingWithdrawals sender 0
        balance := c.balance - c.pendingWithdrawals sender } := by
  simp only [withdraw, guard_eq_ok, not_lt, Except.ok.injEq] at h
  exact ⟨h.2.1, h.2.2.symm⟩

end Accepted

end GameContract

end Knomosis.Contracts
