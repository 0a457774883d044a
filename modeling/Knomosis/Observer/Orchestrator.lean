import Knomosis.Contracts.GameEvents
import Knomosis.Observer.Game
import Knomosis.Lib.Keyed

/-!
# The observer and the chain

The observer follows the games of the contract in two ways.  Its watcher delivers
the events of confirmed blocks, in their order.  Its reader asks the contract for
one game, and is answered from the head of the chain, which is ahead of the
confirmed blocks.  An event that opens a game leaves a record without its state; the
next iteration reads the state, and the events of moves are applied to it from then
on.  Each iteration ends with a look at the games in which the opponent may have let
its turn lapse, and these are read again.

The chain grows between any two steps of an iteration.  There are no re-orgs, and
every read and every fetch of logs succeeds.  The moves that the observer itself
makes reach its records through their events only, and are left out, except for the
claims of timeouts: a game whose timeout was claimed is not read again.
-/

namespace Knomosis.Observer

open Lib Contracts Kernel

structure GameRecord where
  gameId : ℕ
  state : GameState
  me : TurnSide
  lastUpdatedBlock : ℕ
  stateKnown : Bool
  turnDeadline : Option ℕ
  disputedLogIndex : Option ℕ
deriving DecidableEq

structure BatchRecord where
  endIndex : ℕ
  prevEndIndex : ℕ
  actionsRoot : Bytes32
  stateCommit : Bytes32
  blockNumber : ℕ
deriving DecidableEq

/-- A game as it was read from the contract. -/
structure ObservedGame where
  state : GameState
  turnDeadline : ℕ
  disputedLogIndex : ℕ
deriving DecidableEq

inductive GameStateReadError where
  | depthOutOfRange
  | deploymentIdMismatch
  | degenerateRange
  | zeroSequencer
  | zeroChallenger
  | sequencerChallengerCollision
deriving DecidableEq

def Claim.decode (c : Contracts.Claim) : Claim where
  idx := UInt64.ofNat c.idx
  commit := c.commit

def TurnSide.decode : Contracts.TurnSide → TurnSide
  | .sequencer => sequencer
  | .challenger => challenger

def GameStatus.decode : Contracts.GameStatus → GameStatus
  | .inProgress => inProgress
  | .sequencerWon => sequencerWon
  | .challengerWon => challengerWon
  | .timedOutSequencer => timedOutSequencer
  | .timedOutChallenger => timedOutChallenger

/-- The answer of the contract, with addresses cut to actor ids. -/
def decodeGameState (g : Game) : Except GameStateReadError ObservedGame :=
  if 2 ^ 32 ≤ truncate 64 g.depth then .error .depthOutOfRange
  else
    .ok
      { state :=
          { sequencer := UInt64.ofNat g.sequencer
            challenger := UInt64.ofNat g.challenger
            range := { low := .decode g.low, high := .decode g.high }
            pendingMidpoint :=
              if g.hasPendingMidpoint then some (.decode g.pendingMidpoint) else none
            depth := UInt32.ofNat (truncate 64 g.depth)
            turn := .decode g.turn
            sequencerBond := BitVec.ofNat 128 g.sequencerBond
            challengerBond := BitVec.ofNat 128 g.challengerBond
            status := .decode g.status
            deploymentId := g.deploymentId
            actionsRoot := 0 }
        turnDeadline := truncate 64 g.turnDeadline
        disputedLogIndex := truncate 64 g.disputedLogIndex }

def readAndValidate (g : Game) (expectedDeploymentId : Bytes32) :
    Except GameStateReadError ObservedGame :=
  (decodeGameState g).bind fun observed =>
    if observed.state.deploymentId ≠ expectedDeploymentId then .error .deploymentIdMismatch
    else if observed.state.range.low.idx ≥ observed.state.range.high.idx then
      .error .degenerateRange
    else if g.sequencer = 0 then .error .zeroSequencer
    else if g.challenger = 0 then .error .zeroChallenger
    else if g.sequencer = g.challenger then .error .sequencerChallengerCollision
    else .ok observed

def MAX_CONFIRMATION_DEPTH : ℕ := 4096

def MAX_BLOCKS_PER_ITERATION : ℕ := 4096

/-- The configuration of the watcher, as its validation admits it. -/
structure WatcherConfig where
  confirmationDepth : ℕ
  blocksPerIteration : ℕ
  depth_pos : 0 < confirmationDepth
  depth_le : confirmationDepth ≤ MAX_CONFIRMATION_DEPTH
  blocks_pos : 0 < blocksPerIteration
  blocks_le : blocksPerIteration ≤ MAX_BLOCKS_PER_ITERATION

/-- The configuration, and whether a reader is attached. -/
structure ObserverConfig where
  watcher : WatcherConfig
  playAs : TurnSide
  deploymentId : Bytes32
  stateReader : Bool

/-- The memory of the observer; of the pivots it has submitted, the timeouts. -/
structure ObserverMemory where
  games : Keyed ℕ GameRecord
  batches : Keyed ℕ BatchRecord
  submittedTimeouts : Finset ℕ
  lastConfirmedBlock : Option ℕ

namespace GameRecord

/-- A record of a game of which only the event of its opening is known. -/
def skeleton (cfg : ObserverConfig) (gameId : ℕ) (disputedStateRoot : Bytes32)
    (blockNumber : ℕ) : GameRecord where
  gameId := gameId
  state :=
    { sequencer := 0
      challenger := 0
      range := { low := ⟨0, 0⟩, high := ⟨0, disputedStateRoot⟩ }
      pendingMidpoint := none
      depth := 0
      turn := .sequencer
      sequencerBond := 0
      challengerBond := 0
      status := .inProgress
      deploymentId := cfg.deploymentId
      actionsRoot := 0 }
  me := cfg.playAs
  lastUpdatedBlock := blockNumber
  stateKnown := false
  turnDeadline := none
  disputedLogIndex := none

/-- Any deadline that was read is stale after a move. -/
def moved (rec : GameRecord) (state : GameState) (blockNumber : ℕ) : GameRecord :=
  { rec with state := state, lastUpdatedBlock := blockNumber, turnDeadline := none }

/-- The result of a transition, if it was legal. -/
def advance (rec : GameRecord) (r : Except GameError GameState) (blockNumber : ℕ) : GameRecord :=
  match r with
  | .ok state => rec.moved state blockNumber
  | .error _ => rec

def midpointSubmitted (rec : GameRecord) (idx : UInt64) (commit : Bytes32) (blockNumber : ℕ) :
    GameRecord :=
  if rec.stateKnown then
    if idx ≠ rec.state.range.midpointIdx then rec
    else rec.advance (applyTransition rec.state (.submitMidpoint commit)) blockNumber
  else if rec.state.status.isInProgress then
    -- without the range the midpoint is recorded unchecked
    { rec with
      state := { rec.state with pendingMidpoint := some ⟨idx, commit⟩, turn := rec.state.turn.flip }
      lastUpdatedBlock := blockNumber }
  else rec

def responseSubmitted (rec : GameRecord) (agree : Bool) (blockNumber : ℕ) : GameRecord :=
  if rec.stateKnown then
    rec.advance
      (applyTransition rec.state (if agree then .respondAgree else .respondDisagree)) blockNumber
  else if rec.state.status.isInProgress then
    { rec with
      state :=
        { rec.state with
          pendingMidpoint := none
          turn := rec.state.turn.flip
          depth := min (saturatingSucc rec.state.depth) (MAX_BISECTION_DEPTH + 1) }
      lastUpdatedBlock := blockNumber }
  else rec

def settled (rec : GameRecord) (status : GameStatus) (blockNumber : ℕ) : GameRecord :=
  if status.isInProgress then rec
  else rec.advance (applySettlement rec.state status) blockNumber

/-- The record after the read that makes its state known. -/
def known (rec : GameRecord) (observed : ObservedGame) (blockNumber : ℕ) : GameRecord :=
  { rec with
    state := observed.state
    lastUpdatedBlock := blockNumber
    stateKnown := true
    turnDeadline := some observed.turnDeadline
    disputedLogIndex := some observed.disputedLogIndex }

/-- The record after the read that comes before a claim. -/
def confirmed (rec : GameRecord) (observed : ObservedGame) (blockNumber : ℕ) : GameRecord :=
  { rec with
    state := observed.state
    turnDeadline := some observed.turnDeadline
    lastUpdatedBlock := blockNumber }

end GameRecord

namespace ObserverMemory

def start : ObserverMemory where
  games := ∅
  batches := ∅
  submittedTimeouts := ∅
  lastConfirmedBlock := none

/-- The last confirmed block, and zero before the first. -/
def now (o : ObserverMemory) : ℕ := o.lastConfirmedBlock.getD 0

/-- Move the cursor on to a block. -/
def confirm (o : ObserverMemory) (last : ℕ) : ObserverMemory :=
  { o with lastConfirmedBlock := some last }

def put (o : ObserverMemory) (gameId : ℕ) (rec : GameRecord) : ObserverMemory :=
  { o with games := o.games.insert gameId rec }

/-- Rewrite the record of a game that is followed. -/
def update (o : ObserverMemory) (gameId : ℕ) (f : GameRecord → GameRecord) : ObserverMemory :=
  match o.games.lookup gameId with
  | none => o
  | some rec => o.put gameId (f rec)

def handleGameOpened (cfg : ObserverConfig) (o : ObserverMemory) (gameId : ℕ)
    (disputedStateRoot : Bytes32) (blockNumber : ℕ) : ObserverMemory :=
  match o.games.lookup gameId with
  | some _ => o
  | none => o.put gameId (.skeleton cfg gameId disputedStateRoot blockNumber)

def handleEvent (cfg : ObserverConfig) (o : ObserverMemory) (e : LoggedEvent) : ObserverMemory :=
  match e.event with
  | .gameOpened gameId disputedStateRoot _ =>
    o.handleGameOpened cfg gameId disputedStateRoot e.blockNumber
  | .midpointSubmitted gameId idx commit =>
    o.update gameId (·.midpointSubmitted (UInt64.ofNat idx) commit e.blockNumber)
  | .responseSubmitted gameId agree => o.update gameId (·.responseSubmitted agree e.blockNumber)
  | .gameSettled gameId status => o.update gameId (·.settled (.decode status) e.blockNumber)
  | .stateRootSubmitted logIndex stateCommit prevEndIndex actionsRoot =>
    { o with
      batches := o.batches.insert logIndex
        { endIndex := logIndex
          prevEndIndex := prevEndIndex
          actionsRoot := actionsRoot
          stateCommit := stateCommit
          blockNumber := e.blockNumber } }

inductive MarkError where
  | deploymentIdMismatch
  | settledGame
  | degenerateRange
deriving DecidableEq

def markStateKnown (cfg : ObserverConfig) (o : ObserverMemory) (gameId : ℕ)
    (observed : ObservedGame) (blockNumber : ℕ) : Except MarkError ObserverMemory :=
  match o.games.lookup gameId with
  | none => .ok o
  | some rec =>
    if observed.state.deploymentId ≠ cfg.deploymentId then .error .deploymentIdMismatch
    else if ¬ rec.state.status.isInProgress ∧ observed.state.status.isInProgress then
      .error .settledGame
    else if observed.state.range.low.idx ≥ observed.state.range.high.idx then
      .error .degenerateRange
    else .ok (o.put gameId (rec.known observed blockNumber))

/-- The games whose state was never read. -/
def coldStartIds (cfg : ObserverConfig) (o : ObserverMemory) : Finset ℕ :=
  if cfg.stateReader then o.games.keys.filter fun id => (o.games.lookup id).any (!·.stateKnown)
  else ∅

/-- Read the state of one game; a failure is skipped. -/
def hydrate (cfg : ObserverConfig) (o : ObserverMemory) (g : Game) (gameId : ℕ) : ObserverMemory :=
  match readAndValidate g cfg.deploymentId with
  | .error _ => o
  | .ok observed =>
    match o.markStateKnown cfg gameId observed o.now with
    | .error _ => o
    | .ok o' => o'

/-- The opponent is on turn, and the deadline is unknown or looks lapsed. -/
def timeoutCandidates (cfg : ObserverConfig) (o : ObserverMemory) : Finset ℕ :=
  if cfg.stateReader then
    o.games.keys.filter fun id =>
      (o.games.lookup id).any (fun rec =>
        rec.stateKnown && rec.state.status.isInProgress && rec.state.turn ≠ rec.me &&
          rec.turnDeadline.all (· < o.now)) ∧
      id ∉ o.submittedTimeouts
  else ∅

/-- What the confirming read must show before the timeout is claimed. -/
def mayClaim (o : ObserverMemory) (rec : GameRecord) (observed : ObservedGame) : Bool :=
  rec.state.status.isInProgress && rec.state.turn ≠ rec.me && observed.turnDeadline < o.now

/-- Read one candidate again and claim its timeout, unless signing fails. -/
def confirmTimeout (cfg : ObserverConfig) (o : ObserverMemory) (g : Game) (gameId : ℕ)
    (signed : Bool) : ObserverMemory :=
  match readAndValidate g cfg.deploymentId with
  | .error _ => o
  | .ok observed =>
    match o.games.lookup gameId with
    | none => o
    | some rec =>
      { o.put gameId (rec.confirmed observed o.now) with
        submittedTimeouts :=
          if o.mayClaim (rec.confirmed observed o.now) observed && signed then
            insert gameId o.submittedTimeouts
          else o.submittedTimeouts }

end ObserverMemory

inductive Phase where
  | idle
  | hydrating (todo : Finset ℕ)
  | handling (events : List LoggedEvent)
  | sweeping (todo : Finset ℕ)
deriving DecidableEq

/-- The blocks since the deployment, oldest first, and the observer. -/
structure ObserverHost (τ : Type) where
  chain : List (List (Tx τ))
  observer : ObserverMemory
  phase : Phase

inductive ObserverOp (τ : Type) where
  | mine (txs : List (Tx τ))
  | startIteration
  | hydrate (gameId : ℕ)
  | watch
  | handle
  | startSweep
  | confirmTimeout (gameId : ℕ) (signed : Bool)
  | finish

/-- The first run of the watcher jumps to the confirmed head. -/
def watchStart (confirmedHead : ℕ) : Option ℕ → ℕ
  | none => confirmedHead
  | some last => last + 1

/-- The blocks that the watcher fetches, first and last. -/
def watchRange (cfg : WatcherConfig) (head : ℕ) (lastConfirmed : Option ℕ) : Option (ℕ × ℕ) :=
  if head < cfg.confirmationDepth then none
  else if head - cfg.confirmationDepth <
      watchStart (head - cfg.confirmationDepth) lastConfirmed then
    none
  else
    some (watchStart (head - cfg.confirmationDepth) lastConfirmed,
      min (head - cfg.confirmationDepth)
        (watchStart (head - cfg.confirmationDepth) lastConfirmed + (cfg.blocksPerIteration - 1)))

namespace ObserverHost

variable {τ : Type}

def start : ObserverHost τ where
  chain := []
  observer := .start
  phase := .idle

section Chain

variable (d : Deployment) (s : ObserverHost τ)

def head : ℕ := d.block.number + s.chain.length

/-- The transactions of all blocks up to one. -/
def txsAt (n : ℕ) : List (Tx τ) := (s.chain.take (n - d.block.number)).flatten

def blockTxs (n : ℕ) : List (Tx τ) :=
  if n ≤ d.block.number then [] else s.chain.getD (n - d.block.number - 1) []

end Chain

variable [Keccak] (adjudicate : Adjudicator τ) (d : Deployment)
variable (cfg : ObserverConfig)

/-- A game of the contract in a block. -/
def gameAt (s : ObserverHost τ) (n : ℕ) (gameId : ℕ) : Game :=
  World.gameAfter adjudicate d (s.txsAt d n) gameId

def logsInBlock (s : ObserverHost τ) (n : ℕ) : List LoggedEvent :=
  World.logsAlong adjudicate d (s.txsAt d (n - 1)) (s.blockTxs d n)

def watch (s : ObserverHost τ) : ObserverHost τ :=
  match watchRange cfg.watcher (s.head d) s.observer.lastConfirmedBlock with
  | none => { s with phase := .handling [] }
  | some (first, last) =>
    { s with
      observer := s.observer.confirm last
      phase := .handling
        ((List.range' first (last + 1 - first)).flatMap (s.logsInBlock adjudicate d)) }

def step (s : ObserverHost τ) : ObserverOp τ → Option (ObserverHost τ × Unit)
  | .mine txs =>
    -- the counters of the observer saturate at the largest number of a block
    if (∀ tx ∈ txs, tx.msg.block.number = s.head d + 1) ∧ s.head d + 2 < 2 ^ 64 then
      some ({ s with chain := s.chain ++ [txs] }, ())
    else none
  | .startIteration =>
    match s.phase with
    | .idle => some ({ s with phase := .hydrating (s.observer.coldStartIds cfg) }, ())
    | _ => none
  | .hydrate gameId =>
    match s.phase with
    | .hydrating todo =>
      if gameId ∈ todo then
        some (
          { s with
            observer := s.observer.hydrate cfg (s.gameAt adjudicate d (s.head d) gameId) gameId
            phase := .hydrating (todo.erase gameId) }, ())
      else none
    | _ => none
  | .watch =>
    match s.phase with
    | .hydrating todo => if todo = ∅ then some (s.watch adjudicate d cfg, ()) else none
    | _ => none
  | .handle =>
    match s.phase with
    | .handling (e :: events) =>
      some (
        { s with
          observer := s.observer.handleEvent cfg e
          phase := .handling events }, ())
    | _ => none
  | .startSweep =>
    match s.phase with
    | .handling [] => some ({ s with phase := .sweeping (s.observer.timeoutCandidates cfg) }, ())
    | _ => none
  | .confirmTimeout gameId signed =>
    match s.phase with
    | .sweeping todo =>
      if gameId ∈ todo then
        some (
          { s with
            observer := s.observer.confirmTimeout cfg
              (s.gameAt adjudicate d (s.head d) gameId) gameId signed
            phase := .sweeping (todo.erase gameId) }, ())
      else none
    | _ => none
  | .finish =>
    match s.phase with
    | .sweeping todo => if todo = ∅ then some ({ s with phase := .idle }, ()) else none
    | _ => none

end ObserverHost

def observerHost [Keccak] {τ : Type} (adjudicate : Adjudicator τ) (d : Deployment)
    (cfg : ObserverConfig) : Machine (ObserverHost τ) (ObserverOp τ) Unit where
  step := ObserverHost.step adjudicate d cfg

end Knomosis.Observer
