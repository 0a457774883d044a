import Knomosis.Contracts.FaultProofGame
import Knomosis.Lib.Machine

/-!
# The registry and the game as one system

Both contracts, driven by the transactions of everyone else.  A transaction
calls any entry point of either contract in the current block or a later one;
the callers are accounts other than the two contracts, so the game-only entry
points of the registry are reached through the game alone.

The step of the system answers with the effects on the registry.  `Transition`
lists what an accepted transaction can do; every invariant of the system is
proved from it.
-/

namespace Knomosis.Contracts

open Lib GameContract

/-- The two deployed contracts and the block of the deployment. -/
structure Deployment where
  registry : RegistryConfig
  game : GameConfig
  block : Block

/-- Both storages and the number of the last block. -/
structure World where
  registry : Registry
  game : GameContract
  block : ℕ

/-- The entry points, with the arguments of the terminal step of type `τ`. -/
inductive Call (τ : Type) where
  | submitStateRoot (endIndex prevEndIndex : ℕ) (stateCommit actionsRoot : Bytes32)
  | finaliseStateRoot (logIndex : ℕ)
  | markDisputed (logIndex : ℕ)
  | clearDisputed (logIndex : ℕ)
  | slashSequencerBond (logIndex : ℕ) (recipient : Address)
  | revertStateRootsFrom (fromIdx : ℕ)
  | reclaimRevertedBond (logIndex : ℕ)
  | haltSubmissions
  | resumeSubmissions
  | initiateChallenge (registryLocked : Bool) (disputedLogIndex : ℕ)
      (challengerCommit lowCommit : Bytes32) (lowLogIndex : ℕ)
  | submitMidpoint (gameId : ℕ) (midpointCommit : Bytes32)
  | respondToMidpoint (gameId : ℕ) (agree : Bool)
  | terminateOnSingleStep (registryLocked : Bool) (gameId : ℕ) (args : τ)
  | claimTimeout (registryLocked : Bool) (gameId : ℕ)
  | withdraw
  | receive

def Call.payable {τ : Type} : Call τ → Bool
  | .submitStateRoot .. => true
  | .initiateChallenge .. => true
  | .receive => true
  | _ => false

def Call.settles {τ : Type} : Call τ → Option ℕ
  | .terminateOnSingleStep _ gameId _ => some gameId
  | .claimTimeout _ gameId => some gameId
  | _ => none

structure Tx (τ : Type) where
  msg : Msg
  call : Call τ

namespace World

variable [Keccak]

def deploy (d : Deployment) : World where
  registry := Registry.construct d.registry d.block
  game := construct
  block := d.block.number

/-- The world after an accepted call of the registry. -/
def ofRegistry (w : World) (msg : Msg) (r : RegistryResult) :
    Option (World × List RegistryEffect) :=
  r.toOption.map fun p => (⟨p.1, w.game, msg.block.number⟩, [p.2])

/-- The world after an accepted call of the game that reaches the registry. -/
def ofGame (msg : Msg) (r : GameResult) : Option (World × List RegistryEffect) :=
  r.toOption.map fun p => (⟨p.2.1, p.1, msg.block.number⟩, p.2.2)

/-- The world after an accepted call that stays inside the game. -/
def ofLocal (w : World) (msg : Msg) (r : Except GameError GameContract) :
    Option (World × List RegistryEffect) :=
  r.toOption.map fun c => (⟨w.registry, c, msg.block.number⟩, [])

section Step

variable {τ : Type} (adjudicate : Adjudicator τ) (d : Deployment)

def dispatch (w : World) (msg : Msg) : Call τ → Option (World × List RegistryEffect)
  | .submitStateRoot endIndex prevEndIndex stateCommit actionsRoot =>
    w.ofRegistry msg (w.registry.submitStateRoot d.registry msg endIndex prevEndIndex
      stateCommit actionsRoot)
  | .finaliseStateRoot logIndex =>
    w.ofRegistry msg (w.registry.finaliseStateRoot d.registry msg logIndex)
  | .markDisputed logIndex =>
    w.ofRegistry msg (w.registry.markDisputed d.registry msg.sender logIndex)
  | .clearDisputed logIndex =>
    w.ofRegistry msg (w.registry.clearDisputed d.registry msg.sender logIndex)
  | .slashSequencerBond logIndex recipient =>
    w.ofRegistry msg (w.registry.slashSequencerBond d.registry msg.sender logIndex recipient)
  | .revertStateRootsFrom fromIdx =>
    w.ofRegistry msg (w.registry.revertStateRootsFrom d.registry msg.sender msg.block fromIdx)
  | .reclaimRevertedBond logIndex => w.ofRegistry msg (w.registry.reclaimRevertedBond logIndex)
  | .haltSubmissions => w.ofRegistry msg (w.registry.haltSubmissions d.registry msg.sender)
  | .resumeSubmissions => w.ofRegistry msg (w.registry.resumeSubmissions d.registry msg.sender)
  | .initiateChallenge registryLocked disputedLogIndex challengerCommit lowCommit
      lowLogIndex =>
      ofGame msg (w.game.initiateChallenge d.registry d.game w.registry msg registryLocked
        disputedLogIndex challengerCommit lowCommit lowLogIndex)
  | .submitMidpoint gameId midpointCommit =>
    w.ofLocal msg (w.game.liftMove gameId
      ((w.game.games gameId).submitMidpoint d.game msg midpointCommit))
  | .respondToMidpoint gameId agree =>
    w.ofLocal msg (w.game.liftMove gameId
      ((w.game.games gameId).respondToMidpoint d.game msg agree))
  | .terminateOnSingleStep registryLocked gameId args =>
    ofGame msg (w.game.terminateOnSingleStep adjudicate d.registry d.game w.registry
      msg registryLocked gameId args)
  | .claimTimeout registryLocked gameId =>
    ofGame msg (w.game.claimTimeout d.registry d.game w.registry msg registryLocked gameId)
  | .withdraw => w.ofLocal msg (w.game.withdraw msg.sender)
  | .receive => w.ofLocal msg (.ok (w.game.receive msg.value))

def step (w : World) (tx : Tx τ) : Option (World × List RegistryEffect) :=
  if tx.msg.sender = d.registry.faultProofGame ∨
      tx.msg.sender = d.game.stateRootSubmission then none
  else if tx.msg.block.number < w.block then none
  else if tx.call.payable = false ∧ tx.msg.value ≠ 0 then none
  else dispatch adjudicate d w tx.msg tx.call

end Step

end World

def system [Keccak] {τ : Type} (adjudicate : Adjudicator τ) (d : Deployment) :
    Machine World (Tx τ) (List RegistryEffect) where
  step := World.step adjudicate d

/-- One accepted transaction in a history of the system. -/
abbrev HistoryEntry (τ : Type) := Entry World (Tx τ) (List RegistryEffect)

namespace World

/-- What an accepted transaction can do, with what the code has checked and the
game that it settles. -/
inductive Transition [Keccak] (d : Deployment) (w : World) (msg : Msg) :
    Option ℕ → List RegistryEffect → World → Prop
  | submit {endIndex prevEndIndex : ℕ} (stateCommit actionsRoot : Bytes32)
      (hmay : w.registry.MaySubmit d.registry msg endIndex prevEndIndex) :
      Transition d w msg none
        [.submitted endIndex msg.sender d.registry.stateRootSubmissionBond]
        ⟨w.registry.recordSubmission msg endIndex prevEndIndex stateCommit actionsRoot,
          w.game, msg.block.number⟩
  | finalise {logIndex : ℕ}
      (hmay : w.registry.MayFinalise d.registry msg.block logIndex) :
      Transition d w msg none
        [.finalised logIndex (w.registry.roots logIndex).sequencer (w.registry.roots logIndex).bond]
        ⟨(w.registry.setFinalised logIndex).payOutBond logIndex, w.game, msg.block.number⟩
  | reclaim {logIndex : ℕ} (hmay : w.registry.MayReclaim logIndex) :
      Transition d w msg none
        [.reclaimed logIndex (w.registry.roots logIndex).sequencer (w.registry.roots logIndex).bond]
        ⟨w.registry.payOutBond logIndex, w.game, msg.block.number⟩
  | breaker (halted : Bool) :
      Transition d w msg none [if halted then .halted else .resumed]
        ⟨{ w.registry with submissionsHalted := halted }, w.game, msg.block.number⟩
  | challenge {disputedLogIndex lowLogIndex deadline : ℕ}
      {challengerCommit lowCommit : Bytes32}
      (hmay : w.game.MayOpen d.game w.registry msg disputedLogIndex challengerCommit
        lowCommit lowLogIndex)
      (hdeadline : Game.nextDeadline d.game msg.block = some deadline) :
      Transition d w msg none [.disputed disputedLogIndex]
        ⟨w.registry.setDisputed disputedLogIndex true,
          w.game.openGame (openedGame d.registry w.registry msg
            disputedLogIndex lowCommit lowLogIndex deadline) msg.value,
          msg.block.number⟩
  | move {gameId : ℕ} {g' : Game}
      (hstatus : (w.game.games gameId).status = .inProgress)
      (hdeadline : msg.block.number ≤ (w.game.games gameId).turnDeadline)
      (hstakes : (w.game.games gameId).SameStakes g') :
      Transition d w msg none [] ⟨w.registry, w.game.setGame gameId g', msg.block.number⟩
  | settle {gameId delta : ℕ} {finalStatus : GameStatus} {effs : List RegistryEffect}
      {registry' : Registry} {game' : GameContract}
      (hstatus : (w.game.games gameId).status = .inProgress)
      (hfinal : finalStatus ≠ .inProgress)
      (hregistry : SettledRegistry d.registry w.registry msg.block
        (w.game.games gameId).disputedLogIndex registry' effs)
      (hgame : SettledGame d.game w.game gameId finalStatus delta game')
      (hdelta : delta = 0 ∨ w.registry.MaySlash (w.game.games gameId).disputedLogIndex) :
      Transition d w msg (some gameId) effs ⟨registry', game', msg.block.number⟩
  | withdraw
      (hfunded : w.game.pendingWithdrawals msg.sender ≤ w.game.balance) :
      Transition d w msg none []
        ⟨w.registry,
          { w.game with
            pendingWithdrawals := Function.update w.game.pendingWithdrawals msg.sender 0
            balance := w.game.balance - w.game.pendingWithdrawals msg.sender },
          msg.block.number⟩
  | receive : Transition d w msg none [] ⟨w.registry, w.game.receive msg.value, msg.block.number⟩

section Inversion

variable [Keccak] {τ : Type} {adjudicate : Adjudicator τ}
variable {d : Deployment} {w w' : World} {effs : List RegistryEffect}

omit [Keccak] in
theorem ofRegistry_some {msg : Msg} {r : RegistryResult}
    (h : w.ofRegistry msg r = some (w', effs)) :
    ∃ reg eff, r = .ok (reg, eff) ∧ w' = ⟨reg, w.game, msg.block.number⟩ ∧ effs = [eff] := by
  simp only [ofRegistry, Option.map_eq_some_iff, toOption_eq_some, Prod.exists, Prod.mk.injEq] at h
  obtain ⟨reg, eff, hr, rfl, rfl⟩ := h
  exact ⟨reg, eff, hr, rfl, rfl⟩

omit [Keccak] in
theorem ofGame_some {msg : Msg} {r : GameResult} (h : ofGame msg r = some (w', effs)) :
    ∃ c reg, r = .ok (c, reg, effs) ∧ w' = ⟨reg, c, msg.block.number⟩ := by
  simp only [ofGame, Option.map_eq_some_iff, toOption_eq_some, Prod.exists, Prod.mk.injEq] at h
  obtain ⟨c, reg, _, hr, rfl, rfl⟩ := h
  exact ⟨c, reg, hr, rfl⟩

omit [Keccak] in
theorem ofLocal_some {msg : Msg} {r : Except GameError GameContract}
    (h : w.ofLocal msg r = some (w', effs)) :
    ∃ c, r = .ok c ∧ w' = ⟨w.registry, c, msg.block.number⟩ ∧ effs = [] := by
  simp only [ofLocal, Option.map_eq_some_iff, toOption_eq_some, Prod.mk.injEq] at h
  obtain ⟨c, hr, rfl, rfl⟩ := h
  exact ⟨c, hr, rfl, rfl⟩

omit [Keccak] in
theorem liftMove_eq_ok {c c' : GameContract} {gameId : ℕ} {r : Except GameError Game} :
    c.liftMove gameId r = .ok c' ↔ ∃ g, r = .ok g ∧ c' = c.setGame gameId g := by
  cases r <;> simp [liftMove, eq_comm]

theorem dispatch_transition {msg : Msg} {call : Call τ}
    (hsender : msg.sender ≠ d.registry.faultProofGame)
    (h : dispatch adjudicate d w msg call = some (w', effs)) :
    Transition d w msg call.settles effs w' := by
  cases call with
  | submitStateRoot _ _ stateCommit actionsRoot =>
    obtain ⟨reg, eff, hr, rfl, rfl⟩ := ofRegistry_some h
    obtain ⟨hmay, rfl, rfl⟩ := Registry.submitStateRoot_ok hr
    exact .submit stateCommit actionsRoot hmay
  | finaliseStateRoot =>
    obtain ⟨reg, eff, hr, rfl, rfl⟩ := ofRegistry_some h
    obtain ⟨hmay, rfl, rfl⟩ := Registry.finaliseStateRoot_ok hr
    exact .finalise hmay
  | markDisputed =>
    obtain ⟨reg, eff, hr, rfl, rfl⟩ := ofRegistry_some h
    exact absurd (Registry.markDisputed_ok hr).1 hsender
  | clearDisputed =>
    obtain ⟨reg, eff, hr, rfl, rfl⟩ := ofRegistry_some h
    exact absurd (Registry.clearDisputed_ok hr).1 hsender
  | slashSequencerBond =>
    obtain ⟨reg, eff, hr, rfl, rfl⟩ := ofRegistry_some h
    exact absurd (Registry.slashSequencerBond_ok hr).1 hsender
  | revertStateRootsFrom =>
    obtain ⟨reg, eff, hr, rfl, rfl⟩ := ofRegistry_some h
    exact absurd (Registry.revertStateRootsFrom_ok hr).1 hsender
  | reclaimRevertedBond =>
    obtain ⟨reg, eff, hr, rfl, rfl⟩ := ofRegistry_some h
    obtain ⟨hmay, rfl, rfl⟩ := Registry.reclaimRevertedBond_ok hr
    exact .reclaim hmay
  | haltSubmissions =>
    obtain ⟨reg, eff, hr, rfl, rfl⟩ := ofRegistry_some h
    obtain ⟨rfl, rfl⟩ := Registry.haltSubmissions_ok hr
    exact .breaker true
  | resumeSubmissions =>
    obtain ⟨reg, eff, hr, rfl, rfl⟩ := ofRegistry_some h
    obtain ⟨rfl, rfl⟩ := Registry.resumeSubmissions_ok hr
    exact .breaker false
  | initiateChallenge registryLocked disputedLogIndex challengerCommit lowCommit
      lowLogIndex =>
      obtain ⟨c, reg, hr, rfl⟩ := ofGame_some h
      obtain ⟨hmay, deadline, hdeadline, rfl, rfl, rfl⟩ := initiateChallenge_ok hr
      exact .challenge hmay hdeadline
  | submitMidpoint =>
    obtain ⟨c, hr, rfl, rfl⟩ := ofLocal_some h
    obtain ⟨g, hg, rfl⟩ := liftMove_eq_ok.mp hr
    obtain ⟨hstatus, hdeadline, _⟩ := Game.submitMidpoint_ok hg
    exact .move hstatus hdeadline (Game.submitMidpoint_sameStakes hg)
  | respondToMidpoint =>
    obtain ⟨c, hr, rfl, rfl⟩ := ofLocal_some h
    obtain ⟨g, hg, rfl⟩ := liftMove_eq_ok.mp hr
    obtain ⟨hstatus, hdeadline, _⟩ := Game.respondToMidpoint_ok hg
    exact .move hstatus hdeadline (Game.respondToMidpoint_sameStakes hg)
  | terminateOnSingleStep =>
    obtain ⟨c, reg, hr, rfl⟩ := ofGame_some h
    obtain ⟨hstatus, finalStatus, hfinal, hsettle⟩ := terminateOnSingleStep_ok hr
    obtain ⟨hregistry, delta, hgame, hdelta⟩ := settle_ok hsettle
    exact .settle hstatus hfinal hregistry hgame hdelta
  | claimTimeout =>
    obtain ⟨c, reg, hr, rfl⟩ := ofGame_some h
    obtain ⟨hstatus, finalStatus, hfinal, hsettle⟩ := claimTimeout_ok hr
    obtain ⟨hregistry, delta, hgame, hdelta⟩ := settle_ok hsettle
    exact .settle hstatus hfinal hregistry hgame hdelta
  | withdraw =>
    obtain ⟨c, hr, rfl, rfl⟩ := ofLocal_some h
    obtain ⟨hfunded, rfl⟩ := withdraw_ok hr
    exact .withdraw hfunded
  | receive =>
    obtain ⟨c, hr, rfl, rfl⟩ := ofLocal_some h
    cases hr
    exact .receive

theorem step_transition {tx : Tx τ} (h : step adjudicate d w tx = some (w', effs)) :
    w.block ≤ tx.msg.block.number ∧ Transition d w tx.msg tx.call.settles effs w' := by
  unfold step at h
  split_ifs at h with hsender hblock hvalue
  exact ⟨not_lt.mp hblock, dispatch_transition (fun he => hsender (Or.inl he)) h⟩

end Inversion

end World

/-- A deployment with short windows. -/
def sampleDeployment : Deployment where
  registry :=
    { stateRootSubmissionBond := 10
      faultProofDisputeWindow := 10
      minSubmissionIntervalBlocks := 1
      maxOutstandingRootsPerSequencer := 8
      sequencer := 1
      faultProofGame := 2
      submissionBreaker := 3
      deploymentId := 0
      maxActionsPerBatch := 2 ^ 64 - 1
      withdrawalFinalisationWindow := 10
      genesisStateCommit := 1
      sequencer_ne_zero := by decide
      faultProofGame_ne_zero := by decide
      submissionBreaker_ne_zero := by decide
      submissionBreaker_ne_sequencer := by decide
      sequencer_ne_faultProofGame := by decide
      bond_pos := by decide
      bond_lt := by decide
      window_pos := by decide
      window_lt := by decide
      window_ge := by decide
      interval_pos := by decide
      interval_lt := by decide
      outstanding_pos := by decide
      outstanding_lt := by decide
      genesis_ne_zero := by decide
      batch_pos := by decide
      batch_lt := by decide }
  game :=
    { bisectionResponseTimeout := 5
      minChallengeBond := 10
      minBisectionStepIntervalBlocks := 1
      treasury := 5
      stateRootSubmission := 4
      treasury_ne_zero := by decide
      stateRootSubmission_ne_zero := by decide
      interval_lt_timeout := by decide
      timeout_lt := by decide
      bond_pos := by decide
      bond_lt := by decide }
  block := ⟨1, by decide, by decide⟩

/-- The system of the sample deployment, without a step verifier. -/
def sampleSystem : Machine World (Tx Unit) (List RegistryEffect) :=
  @system zeroKeccak Unit (fun _ _ _ => none) sampleDeployment

def sampleStart : World := @World.deploy zeroKeccak sampleDeployment

/-- A transaction in a block given by its number, which is one if out of range. -/
def sampleTx (sender : Address) (value n : ℕ) (call : Call Unit) : Tx Unit where
  msg :=
    { sender := sender
      value := value
      block := if h : 0 < n ∧ n < 2 ^ 64 then ⟨n, h.1, h.2⟩ else sampleDeployment.block }
  call := call

end Knomosis.Contracts
