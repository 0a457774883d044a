import Knomosis.Observer.TrackingRuns

/-!
# The observer that plays the sequencer

A midpoint, its answer and the next midpoint are on the chain when the observer reads
the game, and the confirmed events of all three are still to come.  The old answer is
then taken for an answer to the new midpoint.  An observer that plays the sequencer
believes to be on turn, does not read the game again, and keeps a range that the
contract never had.
-/

namespace Knomosis.Observer

open Lib Contracts Kernel List ObserverHost

section Schedules

variable {τ : Type} [Keccak] {adjudicate : Adjudicator τ} {d : Deployment}
variable {cfg : ObserverConfig} {s : ObserverHost τ}

theorem step_mine {txs : List (Tx τ)} (htxs : ∀ tx ∈ txs, tx.msg.block.number = s.head d + 1)
    (hroom : s.head d + 2 < 2 ^ 64) :
    (observerHost adjudicate d cfg).step s (.mine txs) =
      some ({ s with chain := s.chain ++ [txs] }, ()) :=
  if_pos ⟨htxs, hroom⟩

theorem run_mine_empty (k : ℕ) (hroom : s.head d + k + 1 < 2 ^ 64) :
    ∃ h, Run (observerHost adjudicate d cfg) s h
      { s with chain := s.chain ++ List.replicate k [] } := by
  induction k with
  | zero =>
    refine ⟨[], ?_⟩
    rw [replicate_zero, append_nil]
    exact .nil
  | succ k ih =>
    obtain ⟨h, hrun⟩ := ih (by omega)
    refine ⟨_, .snoc (c := .mine []) (o := ()) hrun ?_⟩
    have hhead : ObserverHost.head d { s with chain := s.chain ++ List.replicate k [] } =
        s.head d + k := by
      simp [ObserverHost.head, Nat.add_assoc]
    rw [step_mine (forall_mem_nil _) (by rw [hhead]; omega), replicate_succ', ← append_assoc]

theorem run_handle (chain : List (List (Tx τ))) (o : ObserverMemory) (events : List LoggedEvent) :
    ∃ h, Run (observerHost adjudicate d cfg) ⟨chain, o, .handling events⟩ h
      ⟨chain, events.foldl (·.handleEvent cfg ·) o, .handling []⟩ := by
  induction events generalizing o with
  | nil => exact ⟨[], .nil⟩
  | cons e events ih =>
    obtain ⟨h, hrun⟩ := ih (o.handleEvent cfg e)
    refine ⟨h ++ [⟨⟨chain, o, .handling (e :: events)⟩, .handle, ()⟩], ?_⟩
    exact Run.append (.snoc .nil rfl) hrun

/-- The rest of an iteration without a confirming read, from the watcher on. -/
theorem run_watch {chain : List (List (Tx τ))} {o o' : ObserverMemory} {first last : ℕ}
    {events : List LoggedEvent}
    (hrange : watchRange cfg.watcher (d.block.number + chain.length) o.lastConfirmedBlock =
      some (first, last)) (hevents : (List.range' first (last + 1 - first)).flatMap
      (ObserverHost.logsInBlock adjudicate d ⟨chain, o, .hydrating ∅⟩) = events)
    (ho : events.foldl (·.handleEvent cfg ·) (o.confirm last) = o')
    (hquiet : o'.timeoutCandidates cfg = ∅) :
    ∃ h, Run (observerHost adjudicate d cfg) ⟨chain, o, .hydrating ∅⟩ h ⟨chain, o', .idle⟩ := by
  obtain ⟨h, hrun⟩ := @run_handle τ _ adjudicate d cfg chain (o.confirm last) events
  rw [ho] at hrun
  have hwatch : (observerHost adjudicate d cfg).step ⟨chain, o, .hydrating ∅⟩ .watch =
      some (⟨chain, o.confirm last, .handling events⟩, ()) := by
    simp only [observerHost, ObserverHost.step, if_true, ObserverHost.watch, ObserverHost.head,
      hrange, hevents]
  have hsweep : (observerHost adjudicate d cfg).step ⟨chain, o', .handling []⟩ .startSweep =
      some (⟨chain, o', .sweeping ∅⟩, ()) := by
    simp only [observerHost, ObserverHost.step, hquiet]
  have hswept := Run.snoc (Run.append (Run.snoc .nil hwatch) hrun) hsweep
  exact ⟨_, .snoc (c := .finish) (o := ()) hswept rfl⟩

end Schedules

/-- A deployment in which moves need not wait for a block. -/
def promptDeployment : Deployment :=
  { sampleDeployment with
    game :=
      { sampleDeployment.game with
        minBisectionStepIntervalBlocks := 0
        interval_lt_timeout := by decide } }

/-- A root over eight entries and its challenge. -/
def openingBlock : List (Tx Unit) :=
  [ sampleTx 1 10 2 (.submitStateRoot 8 0 2 0), sampleTx 6 10 2 (.initiateChallenge false 8 9 1 0) ]

/-- A midpoint, the agreement with it, and the next midpoint. -/
def movesBlock : List (Tx Unit) :=
  [ sampleTx 1 0 3 (.submitMidpoint 1 5),
    sampleTx 6 0 3 (.respondToMidpoint 1 true),
    sampleTx 1 0 3 (.submitMidpoint 1 7) ]

def noAdjudication : Adjudicator Unit := fun _ _ _ => none

def sequencerConfig (w : WatcherConfig) : ObserverConfig where
  watcher := w
  playAs := .sequencer
  deploymentId := 0
  stateReader := true

def sampleWatcher : WatcherConfig where
  confirmationDepth := 2
  blocksPerIteration := 64
  depth_pos := by decide
  depth_le := by decide
  blocks_pos := by decide
  blocks_le := by decide

def openingEvents : List LoggedEvent :=
  [⟨.stateRootSubmitted 8 2 0 0, 2, 0⟩, ⟨.gameOpened 1 2 9, 2, 1⟩]

def movesEvents : List LoggedEvent :=
  [⟨.midpointSubmitted 1 4 5, 3, 2⟩, ⟨.responseSubmitted 1 true, 3, 3⟩,
    ⟨.midpointSubmitted 1 6 7, 3, 4⟩]

/-- The game of the opening block after the moves. -/
def movedGame : Game :=
  @World.gameAfter zeroKeccak Unit noAdjudication promptDeployment (openingBlock ++ movesBlock) 1

/-- The memory of the observer after the iteration that handles the opening block. -/
def adoptedMemory (cfg : ObserverConfig) : ObserverMemory :=
  openingEvents.foldl (·.handleEvent cfg ·) (ObserverMemory.start.confirm 2)

def readMemory (cfg : ObserverConfig) : ObserverMemory :=
  (adoptedMemory cfg).hydrate cfg movedGame 1

def staleMemory (cfg : ObserverConfig) : ObserverMemory :=
  movesEvents.foldl (·.handleEvent cfg ·) ((readMemory cfg).confirm 3)

theorem openingBlock_logs :
    @World.logsAlong zeroKeccak Unit noAdjudication promptDeployment [] openingBlock =
      openingEvents := by
  decide +kernel

theorem movesBlock_logs :
    @World.logsAlong zeroKeccak Unit noAdjudication promptDeployment openingBlock movesBlock =
      movesEvents := by
  decide +kernel

theorem adoptedMemory_watcher (w : WatcherConfig) :
    (adoptedMemory (sequencerConfig w)).coldStartIds (sequencerConfig w) = {1} ∧
      (adoptedMemory (sequencerConfig w)).timeoutCandidates (sequencerConfig w) = ∅ := by
  have hsample :
      (adoptedMemory (sequencerConfig sampleWatcher)).coldStartIds
          (sequencerConfig sampleWatcher) = {1} ∧
        (adoptedMemory (sequencerConfig sampleWatcher)).timeoutCandidates
          (sequencerConfig sampleWatcher) = ∅ := by
    decide +kernel
  exact hsample

theorem staleMemory_watcher (w : WatcherConfig) :
    (staleMemory (sequencerConfig w)).timeoutCandidates (sequencerConfig w) = ∅ ∧
      ((staleMemory (sequencerConfig w)).games.lookup 1).any (fun rec =>
        rec.stateKnown && rec.state.status.isInProgress &&
          rec.state.view.low.idx ≠ movedGame.view.low.idx) = true := by
  have hsample :
      (staleMemory (sequencerConfig sampleWatcher)).timeoutCandidates
          (sequencerConfig sampleWatcher) = ∅ ∧
        ((staleMemory (sequencerConfig sampleWatcher)).games.lookup 1).any (fun rec =>
          rec.stateKnown && rec.state.status.isInProgress &&
            rec.state.view.low.idx ≠ movedGame.view.low.idx) = true := by
    decide +kernel
  exact hsample

/-- The opening, the moves, and empty blocks. -/
def staleChain (k : ℕ) : List (List (Tx Unit)) := openingBlock :: movesBlock :: List.replicate k []

theorem staleChain_txsAt {k n : ℕ} {o : ObserverMemory} {phase : Phase} (hn : 3 ≤ n) :
    txsAt promptDeployment ⟨staleChain k, o, phase⟩ n =
      openingBlock ++ movesBlock := by
  obtain ⟨m, rfl⟩ : ∃ m, n = m + 3 := ⟨n - 3, by omega⟩
  have hindex : m + 3 - promptDeployment.block.number = m + 2 := by
    change m + 3 - 1 = m + 2
    omega
  simp [txsAt, staleChain, hindex, take_replicate]

/-- The observer follows the chain into a range that the contract never had. -/
theorem run_stale {w : WatcherConfig} {k : ℕ} (hdepth : w.confirmationDepth = k + 1) :
    ∃ h, Run (@observerHost zeroKeccak Unit noAdjudication promptDeployment (sequencerConfig w))
      .start h ⟨staleChain (k + 1), staleMemory (sequencerConfig w), .idle⟩ := by
  have hle : k + 1 ≤ 4096 := hdepth ▸ w.depth_le
  obtain ⟨hcold, hquiet⟩ := adoptedMemory_watcher w
  obtain ⟨hquiet', _⟩ := staleMemory_watcher w
  -- the chain, until the opening block is the confirmed head
  have hopening := @step_mine Unit zeroKeccak noAdjudication promptDeployment (sequencerConfig w)
    .start openingBlock (by decide) (by decide)
  have hmoves := @step_mine Unit zeroKeccak noAdjudication promptDeployment (sequencerConfig w)
    ⟨[openingBlock], .start, .idle⟩ movesBlock (by decide) (by decide)
  obtain ⟨h₁, hrun₁⟩ := @run_mine_empty Unit zeroKeccak noAdjudication promptDeployment
    (sequencerConfig w) ⟨[openingBlock, movesBlock], .start, .idle⟩ k (by
      change 3 + k + 1 < 2 ^ 64
      omega)
  have hmined := Run.append (Run.snoc (Run.snoc .nil hopening) hmoves) hrun₁
  -- the first iteration adopts the game
  have hlen : 1 + (staleChain k).length = k + 3 := by
    simp [staleChain]
    omega
  have hrange₁ : watchRange w (1 + (staleChain k).length) none = some (2, 2) := by
    have hsub : k + 3 - (k + 1) = 2 := by omega
    rw [hlen, watchRange, hdepth, hsub, if_neg (by omega), watchStart, if_neg (by omega)]
    simp
  obtain ⟨h₂, hrun₂⟩ := @run_watch Unit zeroKeccak noAdjudication promptDeployment
    (sequencerConfig w) (staleChain k) .start (adoptedMemory (sequencerConfig w)) 2 2
    openingEvents hrange₁
    ((append_nil _).trans openingBlock_logs) rfl hquiet
  have hadopted := Run.append (Run.snoc (c := .startIteration) (o := ()) hmined rfl) hrun₂
  -- the next one reads it and hears the moves
  have hmine := @step_mine Unit zeroKeccak noAdjudication promptDeployment (sequencerConfig w)
    ⟨staleChain k, adoptedMemory (sequencerConfig w), .idle⟩ [] (forall_mem_nil _) (by
      change 1 + (staleChain k).length + 2 < 2 ^ 64
      rw [hlen]
      omega)
  have hchain : staleChain k ++ [[]] = staleChain (k + 1) := by simp [staleChain, replicate_succ']
  rw [hchain] at hmine
  have hread : (@observerHost zeroKeccak Unit noAdjudication promptDeployment
      (sequencerConfig w)).step
        ⟨staleChain (k + 1), adoptedMemory (sequencerConfig w), .hydrating {1}⟩ (.hydrate 1) =
      some (⟨staleChain (k + 1), readMemory (sequencerConfig w), .hydrating ∅⟩, ()) := by
    have hhead : 3 ≤ 1 + (staleChain (k + 1)).length := by
      simp [staleChain]
      omega
    have hgame : @ObserverHost.gameAt Unit zeroKeccak noAdjudication promptDeployment
        ⟨staleChain (k + 1), adoptedMemory (sequencerConfig w), .hydrating {1}⟩
        (head promptDeployment
          ⟨staleChain (k + 1), adoptedMemory (sequencerConfig w), .hydrating {1}⟩) 1 =
        movedGame :=
      congrArg (fun txs => @World.gameAfter zeroKeccak Unit noAdjudication promptDeployment txs 1)
        (staleChain_txsAt hhead)
    have herase : ({1} : Finset ℕ).erase 1 = ∅ := by decide
    simp only [observerHost, step, Finset.mem_singleton, if_true, hgame, herase]
    rfl
  have hrange₂ : watchRange w (1 + (staleChain (k + 1)).length) (some 2) = some (3, 3) := by
    have hlen' : 1 + (staleChain (k + 1)).length = k + 4 := by
      simp [staleChain]
      omega
    have hsub : k + 4 - (k + 1) = 3 := by omega
    rw [hlen', watchRange, hdepth, hsub, if_neg (by omega), watchStart, if_neg (by omega)]
    simp
  obtain ⟨h₃, hrun₃⟩ := @run_watch Unit zeroKeccak noAdjudication promptDeployment
    (sequencerConfig w) (staleChain (k + 1)) (readMemory (sequencerConfig w))
    (staleMemory (sequencerConfig w)) 3 3 movesEvents hrange₂
    ((append_nil _).trans movesBlock_logs) rfl hquiet'
  have hstart : (@observerHost zeroKeccak Unit noAdjudication promptDeployment
      (sequencerConfig w)).step
        ⟨staleChain (k + 1), adoptedMemory (sequencerConfig w), .idle⟩ .startIteration =
      some (⟨staleChain (k + 1), adoptedMemory (sequencerConfig w), .hydrating {1}⟩, ()) := by
    simp only [observerHost, step, hcold]
  exact ⟨_, Run.append (Run.snoc (Run.snoc (Run.snoc hadopted hmine) hstart) hread) hrun₃⟩

theorem stale_not_tracks (w : WatcherConfig) (k : ℕ) :
    ¬ @Tracks Unit zeroKeccak noAdjudication promptDeployment
      ⟨staleChain k, staleMemory (sequencerConfig w), .idle⟩ := by
  intro htracks
  obtain ⟨_, hany⟩ := staleMemory_watcher w
  cases hlookup : (staleMemory (sequencerConfig w)).games.lookup 1 with
  | none =>
    rw [hlookup] at hany
    cases hany
  | some rec =>
    rw [hlookup] at hany
    simp only [Option.any_some, Bool.and_eq_true, decide_eq_true_eq] at hany
    obtain ⟨⟨hknown, hprogress⟩, hlow⟩ := hany
    obtain ⟨last, n, hlast, hle, _, hview⟩ := htracks 1 rec hlookup hknown hprogress
    have hthree : last = 3 := (Option.some.inj hlast).symm
    have hgame : @ObserverHost.gameAt Unit zeroKeccak noAdjudication promptDeployment
        ⟨staleChain k, staleMemory (sequencerConfig w), .idle⟩ n 1 = movedGame :=
      congrArg (fun txs => @World.gameAfter zeroKeccak Unit noAdjudication promptDeployment txs 1)
        (staleChain_txsAt (hthree ▸ hle))
    rw [hview, hgame] at hlow
    exact hlow rfl

/-- An observer tracks the contract after every iteration, for every history and every schedule,
exactly when it plays the challenger or has no reader; and it does so in every run in which no
answer is handled that is older than the midpoint its record has pending. -/
theorem observer_tracks_iff (w : WatcherConfig) (playAs : TurnSide) (stateReader : Bool) :
    ((∀ (_ : Keccak) (τ : Type) (adjudicate : Adjudicator τ)
        (d : Deployment) (deploymentId : Bytes32)
        (h : List (Entry (ObserverHost τ) (ObserverOp τ) Unit)) (s : ObserverHost τ),
        Run (observerHost adjudicate d ⟨w, playAs, deploymentId, stateReader⟩) .start h s →
          s.phase = .idle → Tracks adjudicate d s) ↔ (stateReader = true → playAs = .challenger)) ∧
    ∀ (_ : Keccak) (τ : Type) (adjudicate : Adjudicator τ)
      (d : Deployment) (deploymentId : Bytes32)
      (h : List (Entry (ObserverHost τ) (ObserverOp τ) Unit)) (s : ObserverHost τ),
      Run (observerHost adjudicate d ⟨w, playAs, deploymentId, stateReader⟩) .start h s →
        (∀ e ∈ h, AnswersPending adjudicate d e.pre e.call) →
          s.phase = .idle → Tracks adjudicate d s := by
  refine ⟨⟨fun htracks hreader => ?_, fun hchallenger => ?_⟩, ?_⟩
  · cases playAs with
    | challenger => rfl
    | sequencer =>
      subst hreader
      obtain ⟨k, hk⟩ : ∃ k, w.confirmationDepth = k + 1 :=
        ⟨w.confirmationDepth - 1, by have := w.depth_pos; omega⟩
      obtain ⟨h, hrun⟩ := run_stale hk
      exact absurd (htracks zeroKeccak Unit noAdjudication promptDeployment 0 h _ hrun rfl)
        (stale_not_tracks w (k + 1))
  · intro keccak τ adjudicate d deploymentId h s hrun hphase
    exact tracks_of_run hrun (fun _ _ => .inl hchallenger) hphase
  · intro keccak τ adjudicate d deploymentId h s hrun hanswers hphase
    exact tracks_of_run hrun (fun e he => .inr (hanswers e he)) hphase

/-- Two midpoints and an answer in blocks of their own, with a read of the game before the
answer is confirmed; `sweep` is what the last iteration reads again. -/
def sampleSchedule (sweep : List (ObserverOp Unit)) : List (ObserverOp Unit) :=
  [ .mine [sampleTx 1 10 2 (.submitStateRoot 8 0 2 0)],
    .mine [sampleTx 6 10 3 (.initiateChallenge false 8 9 1 0)],
    .mine [sampleTx 1 0 4 (.submitMidpoint 1 5)],
    .mine [sampleTx 6 0 5 (.respondToMidpoint 1 true)],
    .startIteration, .watch, .handle, .startSweep, .finish,
    .mine [sampleTx 1 0 6 (.submitMidpoint 1 7)],
    .startIteration, .hydrate 1, .watch, .handle, .startSweep, .finish,
    .mine [],
    .startIteration, .watch, .handle, .startSweep ] ++ sweep ++ [.finish]

def sampleHost (playAs : TurnSide) : Machine (ObserverHost Unit) (ObserverOp Unit) Unit :=
  @observerHost zeroKeccak Unit noAdjudication sampleDeployment ⟨sampleWatcher, playAs, 0, true⟩

/-- The challenger's observer reads the game again and is right. -/
theorem observer_tracks_sample :
    ∃ h s rec,
      Run (sampleHost .challenger) .start h s ∧
      s.observer.games.lookup 1 = some rec ∧
      rec.stateKnown = true ∧
      @Tracks Unit zeroKeccak noAdjudication sampleDeployment s := by
  obtain ⟨h, s, hrun, hphase, hany⟩ :=
    Run.exists_of_decide (sampleHost .challenger) .start (sampleSchedule [.confirmTimeout 1 true])
      (fun _ s => s.phase = .idle ∧
        (s.observer.games.lookup 1).any (fun rec : GameRecord => rec.stateKnown) = true)
      (by decide +kernel)
  obtain ⟨rec, hlookup, hknown⟩ := (Option.any_eq_true _ _).mp hany
  refine ⟨h, s, rec, hrun, hlookup, hknown, ?_⟩
  exact (observer_tracks_iff sampleWatcher .challenger true).1.mpr (fun _ => rfl) zeroKeccak
    Unit noAdjudication sampleDeployment 0 h s hrun hphase

/-- The sequencer's observer holds the range from six to eight; in every block the contract's
range begins at zero or at four. -/
theorem stale_answer_misleads :
    ∃ h s rec,
      Run (sampleHost .sequencer) .start h s ∧
      s.phase = .idle ∧
      s.observer.games.lookup 1 = some rec ∧
      rec.stateKnown = true ∧
      rec.state.status.isInProgress = true ∧
      rec.state.view.low.idx = 6 ∧
      ∀ n ≤ s.head sampleDeployment,
        (@ObserverHost.gameAt Unit zeroKeccak noAdjudication sampleDeployment s n 1).view.low.idx ≠
          6 := by
  obtain ⟨h, s, hrun, hphase, hany, hnever⟩ :=
    Run.exists_of_decide (sampleHost .sequencer) .start (sampleSchedule [])
      (fun _ s => s.phase = .idle ∧
        (s.observer.games.lookup 1).any (fun rec : GameRecord => decide (rec.stateKnown = true ∧
          rec.state.status.isInProgress = true ∧ rec.state.view.low.idx = 6)) = true ∧
        ∀ n < s.head sampleDeployment + 1,
          (@ObserverHost.gameAt Unit zeroKeccak noAdjudication sampleDeployment s n
            1).view.low.idx ≠ 6) (by decide +kernel)
  obtain ⟨rec, hlookup, hrec⟩ := (Option.any_eq_true _ _).mp hany
  obtain ⟨hknown, hprogress, hlow⟩ := of_decide_eq_true hrec
  exact ⟨h, s, rec, hrun, hphase, hlookup, hknown, hprogress, hlow,
    fun n hn => hnever n (Nat.lt_succ_of_le hn)⟩

end Knomosis.Observer
