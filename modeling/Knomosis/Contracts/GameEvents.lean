import Knomosis.Contracts.Invariants
import Knomosis.Lib.Bisection

/-!
# What the contracts announce

The events of both contracts that an observer follows, and the chain as a list of
transactions.  A transaction that reverts changes nothing and announces nothing; an
accepted one announces at most one of these events.

Seen from one opened game, a transaction makes a move of the bisection and
announces it, or leaves the bisection as it is.  A move comes before the deadline of
the turn and sets the next one.
-/

namespace Knomosis.Contracts

open Lib List Function GameContract

inductive GameEvent where
  | gameOpened (gameId : ℕ) (disputedStateRoot challengerStateRoot : Bytes32)
  | midpointSubmitted (gameId idx : ℕ) (commit : Bytes32)
  | responseSubmitted (gameId : ℕ) (agree : Bool)
  | gameSettled (gameId : ℕ) (status : GameStatus)
  | stateRootSubmitted (logIndex : ℕ) (stateCommit : Bytes32) (prevEndIndex : ℕ)
      (actionsRoot : Bytes32)
deriving DecidableEq

/-- An event with its block and the place of its transaction in the chain. -/
structure LoggedEvent where
  event : GameEvent
  blockNumber : ℕ
  txIndex : ℕ
deriving DecidableEq

/-- The notice of a move in one game. -/
def GameEvent.noticeOf (gameId : ℕ) : GameEvent → Option (Notice Bytes32)
  | .midpointSubmitted id idx commit => if id = gameId then some (.proposed idx commit) else none
  | .responseSubmitted id agree => if id = gameId then some (.answered agree) else none
  | _ => none

namespace Game

def mark (c : Claim) : Mark Bytes32 := ⟨c.idx, c.commit⟩

def view (g : Game) : Bisection Bytes32 where
  low := mark g.low
  high := mark g.high
  pending := if g.hasPendingMidpoint then some (mark g.pendingMidpoint) else none
  depth := g.depth
  turn := decide (g.turn = .challenger)

structure Placed (g : Game) : Prop where
  sound : g.view.Sound
  high_lt : g.high.idx < 2 ^ 64
  depth_le : g.depth ≤ maxBisectionDepth
  deadline_lt : g.turnDeadline < 2 ^ 64

/-- What one transaction does to a game, with the notice of its move. -/
inductive Change (cfg : GameConfig) (msg : Msg) (g : Game) : Option (Notice Bytes32) → Game → Prop
  | kept : Change cfg msg g none g
  | midpoint {midpointCommit : Bytes32} {g' : Game}
      (h : g.submitMidpoint cfg msg midpointCommit = .ok g') :
      Change cfg msg g (some (.proposed g'.pendingMidpoint.idx midpointCommit)) g'
  | response {agree : Bool} {g' : Game}
      (h : g.respondToMidpoint cfg msg agree = .ok g') :
      Change cfg msg g (some (.answered agree)) g'
  | settled (finalStatus : GameStatus) (sequencerBond : ℕ) :
      Change cfg msg g none { g with status := finalStatus, sequencerBond := sequencerBond }

section Moves

variable {cfg : GameConfig} {msg : Msg} {g g' : Game} {n : Notice Bytes32}
variable {notice : Option (Notice Bytes32)}

theorem nextDeadline_eq_some {b : Block} {deadline : ℕ} (h : nextDeadline cfg b = some deadline) :
    deadline = b.number + cfg.bisectionResponseTimeout ∧ deadline < 2 ^ 64 := by
  rw [nextDeadline, truncate_of_lt b.lt, checkedAdd_eq_some] at h
  obtain ⟨hlt, rfl⟩ := h
  exact ⟨rfl, hlt⟩

variable {midpointCommit : Bytes32} {agree : Bool}

theorem submitMidpoint_deadline (h : g.submitMidpoint cfg msg midpointCommit = .ok g') :
    nextDeadline cfg msg.block = some g'.turnDeadline := by
  simp only [submitMidpoint, guard_eq_ok, checked_eq_ok, Except.ok.injEq] at h
  obtain ⟨_, _, _, _, _, _, _, _, _, _, _, deadline, hdeadline, rfl⟩ := h
  exact hdeadline

theorem respondToMidpoint_deadline (h : g.respondToMidpoint cfg msg agree = .ok g') :
    nextDeadline cfg msg.block = some g'.turnDeadline := by
  simp only [respondToMidpoint, guard_eq_ok, checked_eq_ok, Except.ok.injEq] at h
  obtain ⟨_, _, _, _, _, _, _, _, deadline, hdeadline, rfl⟩ := h
  exact hdeadline

theorem view_flip (turn : TurnSide) :
    decide (turn.flip = .challenger) = !decide (turn = .challenger) := by
  cases turn <;> rfl

theorem submitMidpoint_moves (h : g.submitMidpoint cfg msg midpointCommit = .ok g') :
    Bisection.Moves maxBisectionDepth g.view
      (.proposed g'.pendingMidpoint.idx midpointCommit) g'.view := by
  obtain ⟨_, _, hpending, hdepth, _, hlow, hhigh, deadline, rfl⟩ := submitMidpoint_ok h
  have hview : (passTurn (g.propose ⟨(g.low.idx + g.high.idx) / 2, midpointCommit⟩)
      deadline msg.block).view = g.view.propose midpointCommit :=
    Bisection.ext rfl rfl rfl rfl (view_flip g.turn)
  rw [hview]
  refine .propose midpointCommit ?_ hdepth ⟨hlow, hhigh⟩
  simp [view, hpending]

theorem respondToMidpoint_moves (h : g.respondToMidpoint cfg msg agree = .ok g') :
    Bisection.Moves maxBisectionDepth g.view (.answered agree) g'.view := by
  obtain ⟨_, _, hpending, hdepth, deadline, rfl⟩ := respondToMidpoint_ok h
  have hview : ((g.narrow agree).passTurn deadline msg.block).view =
      g.view.answer agree (mark g.pendingMidpoint) := by
    cases agree <;> exact Bisection.ext rfl rfl rfl rfl (view_flip g.turn)
  rw [hview]
  refine .answer agree _ ?_ hdepth
  simp [view, hpending]

theorem Change.deadline (h : Change cfg msg g (some n) g') :
    msg.block.number ≤ g.turnDeadline ∧ msg.block.number ≤ g'.turnDeadline ∧
      g'.turnDeadline < 2 ^ 64 := by
  cases h with
  | midpoint h =>
    obtain ⟨_, htime, _⟩ := submitMidpoint_ok h
    obtain ⟨hset, hlt⟩ := nextDeadline_eq_some (submitMidpoint_deadline h)
    exact ⟨htime, by omega, hlt⟩
  | response h =>
    obtain ⟨_, htime, _⟩ := respondToMidpoint_ok h
    obtain ⟨hset, hlt⟩ := nextDeadline_eq_some (respondToMidpoint_deadline h)
    exact ⟨htime, by omega, hlt⟩

theorem Change.moves (h : Change cfg msg g (some n) g') :
    Bisection.Moves maxBisectionDepth g.view n g'.view := by
  cases h with
  | midpoint h => exact submitMidpoint_moves h
  | response h => exact respondToMidpoint_moves h

theorem Change.pending_eq (h : Change cfg msg g (some (.answered agree)) g') :
    g.view.pending = some (mark g.pendingMidpoint) := by
  cases h with
  | response h =>
    obtain ⟨_, _, hpending, _⟩ := respondToMidpoint_ok h
    exact if_pos hpending

theorem Change.silent (h : Change cfg msg g none g') :
    g'.view = g.view ∧ g'.turnDeadline = g.turnDeadline := by
  cases h with
  | kept | settled => exact ⟨rfl, rfl⟩

/-- The deployment and the parties of a game are fixed when it is opened. -/
structure SameIdentity (g g' : Game) : Prop where
  deploymentId_eq : g'.deploymentId = g.deploymentId
  sequencer_eq : g'.sequencer = g.sequencer
  challenger_eq : g'.challenger = g.challenger

theorem SameIdentity.trans {g'' : Game} (h : g.SameIdentity g') (h' : g'.SameIdentity g'') :
    g.SameIdentity g'' :=
  ⟨h'.deploymentId_eq.trans h.deploymentId_eq, h'.sequencer_eq.trans h.sequencer_eq,
    h'.challenger_eq.trans h.challenger_eq⟩

theorem Change.sameIdentity (h : Change cfg msg g notice g') : g.SameIdentity g' := by
  cases h with
  | kept | settled => exact ⟨rfl, rfl, rfl⟩
  | midpoint h =>
    obtain ⟨_, _, _, _, _, _, _, _, rfl⟩ := submitMidpoint_ok h
    exact ⟨rfl, rfl, rfl⟩
  | response h =>
    obtain ⟨_, _, _, _, _, rfl⟩ := respondToMidpoint_ok h
    exact ⟨rfl, rfl, rfl⟩

theorem Change.placed (h : Change cfg msg g notice g') (hg : g.Placed) : g'.Placed := by
  cases notice with
  | none =>
    obtain ⟨hview, hdeadline⟩ := h.silent
    have hhigh : g'.high.idx = g.high.idx := congrArg (fun v => v.high.idx) hview
    have hdepth : g'.depth = g.depth := congrArg (fun v => v.depth) hview
    exact ⟨hview ▸ hg.sound, hhigh ▸ hg.high_lt, hdepth ▸ hg.depth_le, hdeadline ▸ hg.deadline_lt⟩
  | some =>
    have hmoves := h.moves
    have hhigh : g'.high.idx ≤ g.high.idx := (hmoves.ordered_shrinks hg.sound).2
    exact ⟨hmoves.sound hg.sound, hhigh.trans_lt hg.high_lt, hmoves.depth_le, h.deadline.2.2⟩

end Moves

end Game

namespace World

variable [Keccak] {τ : Type}

def emitted (w w' : World) : Call τ → Option GameEvent
  | .submitStateRoot endIndex prevEndIndex stateCommit actionsRoot =>
    some (.stateRootSubmitted endIndex stateCommit prevEndIndex actionsRoot)
  | .initiateChallenge _ disputedLogIndex challengerCommit _ _ =>
    some (.gameOpened w'.game.nextGameId (w.registry.roots disputedLogIndex).stateCommit
      challengerCommit)
  | .submitMidpoint gameId midpointCommit =>
    some (.midpointSubmitted gameId (w'.game.games gameId).pendingMidpoint.idx midpointCommit)
  | .respondToMidpoint gameId agree => some (.responseSubmitted gameId agree)
  | .terminateOnSingleStep _ gameId _ => some (.gameSettled gameId (w'.game.games gameId).status)
  | .claimTimeout _ gameId => some (.gameSettled gameId (w'.game.games gameId).status)
  | _ => none

section Chain

variable (adjudicate : Adjudicator τ) (d : Deployment)

/-- A transaction in a block: a refused one reverts. -/
def runTx (w : World) (tx : Tx τ) : World × Option GameEvent :=
  match step adjudicate d w tx with
  | none => (w, none)
  | some (w', _) => (w', emitted w w' tx.call)

def afterTxs (txs : List (Tx τ)) : World :=
  txs.foldl (fun w tx => (runTx adjudicate d w tx).1) (deploy d)

def gameAfter (txs : List (Tx τ)) (gameId : ℕ) : Game :=
  (afterTxs adjudicate d txs).game.games gameId

/-- The events of transactions that follow others in the chain. -/
def logsAlong (past : List (Tx τ)) : List (Tx τ) → List LoggedEvent
  | [] => []
  | tx :: txs =>
    ((runTx adjudicate d (afterTxs adjudicate d past) tx).2.map fun event =>
      ⟨event, tx.msg.block.number, past.length⟩).toList ++ logsAlong (past ++ [tx]) txs

theorem afterTxs_snoc (txs : List (Tx τ)) (tx : Tx τ) :
    afterTxs adjudicate d (txs ++ [tx]) =
      (runTx adjudicate d (afterTxs adjudicate d txs) tx).1 := by
  rw [afterTxs, foldl_append]
  rfl

theorem logsAlong_append (past txs txs' : List (Tx τ)) :
    logsAlong adjudicate d past (txs ++ txs') =
      logsAlong adjudicate d past txs ++ logsAlong adjudicate d (past ++ txs) txs' := by
  induction txs generalizing past with
  | nil => simp [logsAlong]
  | cons _ _ ih =>
    rw [cons_append, logsAlong, logsAlong, ih, append_assoc, append_assoc, singleton_append]

end Chain

section Step

variable {adjudicate : Adjudicator τ} {d : Deployment}
variable {w w' : World} {tx : Tx τ} {effs : List RegistryEffect} {gameId : ℕ}

omit [Keccak] in
theorem change_setGame {msg : Msg} {cfg : GameConfig} {c : GameContract} {id : ℕ} {g' : Game}
    {n : Option (Notice Bytes32)} (hself : id = gameId → Game.Change cfg msg (c.games gameId) n g')
    (hother : id ≠ gameId → n = none) :
    Game.Change cfg msg (c.games gameId) n ((c.setGame id g').games gameId) := by
  by_cases hid : id = gameId
  · subst hid
    have hset : (c.setGame id g').games id = g' := update_self _ _ _
    rw [hset]
    exact hself rfl
  · have hset : (c.setGame id g').games gameId = c.games gameId :=
      update_of_ne (Ne.symm hid) _ _
    rw [hset, hother hid]
    exact .kept

omit [Keccak] in
theorem change_settled
    {msg : Msg} {cfg : GameConfig} {c c' : GameContract} {id delta : ℕ} {finalStatus : GameStatus}
    (h : SettledGame cfg c id finalStatus delta c') :
    Game.Change cfg msg (c.games gameId) none (c'.games gameId) := by
  rw [h.games_eq]
  by_cases hid : gameId = id
  · subst hid
    rw [update_self]
    exact .settled finalStatus _
  · rw [update_of_ne hid]
    exact .kept

/-- An accepted transaction, seen from an opened game. -/
theorem step_change (hopened : w.game.Opened gameId)
    (h : step adjudicate d w tx = some (w', effs)) :
    Game.Change d.game tx.msg (w.game.games gameId)
        ((emitted w w' tx.call).bind (GameEvent.noticeOf gameId)) (w'.game.games gameId) ∧
      w'.game.Opened gameId := by
  unfold step at h
  split_ifs at h
  cases hcall : tx.call with
  | initiateChallenge =>
    rw [hcall] at h
    obtain ⟨c, reg, hr, rfl⟩ := ofGame_some h
    obtain ⟨_, deadline, _, rfl, _, _⟩ := initiateChallenge_ok hr
    obtain ⟨hpos, hle⟩ := hopened
    refine ⟨?_, hpos, hle.trans (Nat.le_succ _)⟩
    have hne : gameId ≠ w.game.nextGameId + 1 := by omega
    simp only [openGame, setGame, update_of_ne hne]
    exact .kept
  | submitMidpoint =>
    rw [hcall] at h
    obtain ⟨c, hr, rfl, _⟩ := ofLocal_some h
    obtain ⟨g, hg, rfl⟩ := liftMove_eq_ok.mp hr
    refine ⟨change_setGame ?_ ?_, hopened⟩
    · rintro rfl
      simp only [emitted, Option.bind_some, GameEvent.noticeOf, if_true, setGame,
        update_self]
      exact .midpoint hg
    · intro hne
      exact if_neg hne
  | respondToMidpoint =>
    rw [hcall] at h
    obtain ⟨c, hr, rfl, _⟩ := ofLocal_some h
    obtain ⟨g, hg, rfl⟩ := liftMove_eq_ok.mp hr
    refine ⟨change_setGame ?_ ?_, hopened⟩
    · rintro rfl
      simp only [emitted, Option.bind_some, GameEvent.noticeOf, if_true]
      exact .response hg
    · intro hne
      exact if_neg hne
  | terminateOnSingleStep =>
    rw [hcall] at h
    obtain ⟨c, reg, hr, rfl⟩ := ofGame_some h
    obtain ⟨_, finalStatus, _, hsettle⟩ := terminateOnSingleStep_ok hr
    obtain ⟨_, delta, hgame, _⟩ := settle_ok hsettle
    refine ⟨change_settled hgame, ?_⟩
    rw [Opened, hgame.nextGameId_eq]
    exact hopened
  | claimTimeout =>
    rw [hcall] at h
    obtain ⟨c, reg, hr, rfl⟩ := ofGame_some h
    obtain ⟨_, finalStatus, _, hsettle⟩ := claimTimeout_ok hr
    obtain ⟨_, delta, hgame, _⟩ := settle_ok hsettle
    refine ⟨change_settled hgame, ?_⟩
    rw [Opened, hgame.nextGameId_eq]
    exact hopened
  | withdraw =>
    rw [hcall] at h
    obtain ⟨c, hr, rfl, _⟩ := ofLocal_some h
    obtain ⟨_, rfl⟩ := withdraw_ok hr
    exact ⟨.kept, hopened⟩
  | receive =>
    rw [hcall] at h
    obtain ⟨c, hr, rfl, _⟩ := ofLocal_some h
    cases hr
    exact ⟨.kept, hopened⟩
  -- the calls of the registry leave the game contract alone
  | _ =>
    rw [hcall] at h
    obtain ⟨reg, eff, _, rfl, _⟩ := ofRegistry_some h
    exact ⟨.kept, hopened⟩

theorem placed_of_opens (hclosed : ¬ w.game.Opened gameId) (hopened : w'.game.Opened gameId)
    (h : step adjudicate d w tx = some (w', effs)) : (w'.game.games gameId).Placed := by
  obtain ⟨_, htransition⟩ := step_transition h
  obtain ⟨hpos, hle⟩ := hopened
  have hlt : w.game.nextGameId < gameId := by
    by_contra hge
    exact hclosed ⟨hpos, not_lt.mp hge⟩
  generalize tx.call.settles = settled at htransition
  cases htransition with
  | challenge hmay hdeadline =>
    have hid : gameId = w.game.nextGameId + 1 := by
      have : gameId ≤ w.game.nextGameId + 1 := hle
      omega
    subst hid
    simp only [openGame, setGame, update_self]
    obtain ⟨_, hlt⟩ := Game.nextDeadline_eq_some hdeadline
    exact ⟨⟨hmay.low_lt, (fun _ hm => by cases hm), rfl⟩, hmay.disputed_lt, Nat.zero_le _, hlt⟩
  | settle _ _ _ hgame =>
    rw [hgame.nextGameId_eq] at hle
    exact absurd hle (not_le.mpr hlt)
  | _ => exact absurd hle (not_le.mpr hlt)

end Step

section Prefixes

variable {adjudicate : Adjudicator τ} {d : Deployment}
variable {w : World} {tx : Tx τ} {gameId : ℕ}

/-- A transaction in a block, seen from an opened game. -/
theorem runTx_change (hopened : w.game.Opened gameId) :
    Game.Change d.game tx.msg (w.game.games gameId)
        ((runTx adjudicate d w tx).2.bind (GameEvent.noticeOf gameId))
        ((runTx adjudicate d w tx).1.game.games gameId) ∧
      (runTx adjudicate d w tx).1.game.Opened gameId := by
  unfold runTx
  cases hstep : step adjudicate d w tx with
  | none => exact ⟨.kept, hopened⟩
  | some => exact step_change hopened hstep

theorem runTx_opens {id : ℕ} {root root' : Bytes32}
    (h : (runTx adjudicate d w tx).2 = some (.gameOpened id root root')) :
    (runTx adjudicate d w tx).1.game.Opened id := by
  unfold runTx at h ⊢
  cases hstep : step adjudicate d w tx with
  | none =>
    rw [hstep] at h
    cases h
  | some r =>
    obtain ⟨w', effs⟩ := r
    rw [hstep] at h
    have hev : emitted w w' tx.call = some (.gameOpened id root root') := h
    cases hcall : tx.call with
    | initiateChallenge registryLocked disputedLogIndex challengerCommit lowCommit
        lowLogIndex =>
        rw [hcall] at hev
        cases hev
        unfold step at hstep
        split_ifs at hstep
        rw [hcall] at hstep
        obtain ⟨c, reg, hr, rfl⟩ := ofGame_some hstep
        obtain ⟨_, deadline, _, rfl, _, _⟩ := initiateChallenge_ok hr
        exact ⟨Nat.succ_pos _, le_rfl⟩
    | _ =>
      rw [hcall] at hev
      cases hev

theorem placed_afterTxs (adjudicate : Adjudicator τ) (d : Deployment)
    (txs : List (Tx τ)) :
    ∀ gameId, (afterTxs adjudicate d txs).game.Opened gameId →
      (gameAfter adjudicate d txs gameId).Placed := by
  induction txs using List.reverseRecOn with
  | nil =>
    rintro gameId ⟨hpos, hle⟩
    exact absurd hle (not_le.mpr hpos)
  | append_singleton txs tx ih =>
    intro gameId hopened
    rw [gameAfter, afterTxs_snoc] at *
    by_cases hbefore : (afterTxs adjudicate d txs).game.Opened gameId
    · exact (runTx_change hbefore).1.placed (ih gameId hbefore)
    unfold runTx at hopened ⊢
    cases hstep : step adjudicate d (afterTxs adjudicate d txs) tx with
    | none =>
      rw [hstep] at hopened
      exact absurd hopened hbefore
    | some =>
      rw [hstep] at hopened
      exact placed_of_opens hbefore hopened hstep

variable {txs : List (Tx τ)}

section

variable (hopened : (afterTxs adjudicate d txs).game.Opened gameId)
include hopened

/-- One more transaction, seen from an opened game. -/
theorem gameAfter_snoc (tx : Tx τ) :
    Game.Change d.game tx.msg (gameAfter adjudicate d txs gameId)
      ((runTx adjudicate d (afterTxs adjudicate d txs) tx).2.bind (GameEvent.noticeOf gameId))
      (gameAfter adjudicate d (txs ++ [tx]) gameId) := by
  rw [gameAfter, gameAfter, afterTxs_snoc]
  exact (runTx_change hopened).1

theorem opened_append (more : List (Tx τ)) :
    (afterTxs adjudicate d (txs ++ more)).game.Opened gameId := by
  induction more using List.reverseRecOn with
  | nil => rwa [append_nil]
  | append_singleton _ _ ih =>
    rw [← append_assoc, afterTxs_snoc]
    exact (runTx_change ih).2

theorem reaches_append (more : List (Tx τ)) :
    Bisection.Reaches maxBisectionDepth (gameAfter adjudicate d txs gameId).view
      (gameAfter adjudicate d (txs ++ more) gameId).view := by
  induction more using List.reverseRecOn with
  | nil =>
    rw [append_nil]
    exact .refl
  | append_singleton more tx ih =>
    have hchange := gameAfter_snoc (opened_append hopened more) tx
    rw [← append_assoc]
    generalize (runTx adjudicate d _ tx).2.bind _ = notice at hchange
    cases notice with
    | none =>
      rw [hchange.silent.1]
      exact ih
    | some n => exact ih.tail ⟨n, hchange.moves⟩

theorem sameIdentity_append (more : List (Tx τ)) :
    (gameAfter adjudicate d txs gameId).SameIdentity
      (gameAfter adjudicate d (txs ++ more) gameId) := by
  induction more using List.reverseRecOn with
  | nil =>
    rw [append_nil]
    exact ⟨rfl, rfl, rfl⟩
  | append_singleton more tx ih =>
    rw [← append_assoc]
    exact ih.trans (gameAfter_snoc (opened_append hopened more) tx).sameIdentity

/-- A deadline before a block says that no move was made from that block on. -/
theorem deadline_append {n : ℕ} (more : List (Tx τ))
    (hlate : ∀ tx ∈ more, n ≤ tx.msg.block.number) :
    (gameAfter adjudicate d (txs ++ more) gameId).turnDeadline =
        (gameAfter adjudicate d txs gameId).turnDeadline ∨
      n ≤ (gameAfter adjudicate d (txs ++ more) gameId).turnDeadline := by
  induction more using List.reverseRecOn with
  | nil =>
    rw [append_nil]
    exact .inl rfl
  | append_singleton more tx ih =>
    have hchange := gameAfter_snoc (opened_append hopened more) tx
    rw [← append_assoc]
    generalize (runTx adjudicate d _ tx).2.bind _ = notice at hchange
    cases notice with
    | none =>
      rw [hchange.silent.2]
      exact ih fun tx htx => hlate tx (mem_append_left _ htx)
    | some => exact .inr ((hlate tx (by simp)).trans hchange.deadline.2.1)

end

end Prefixes

end World

end Knomosis.Contracts
