import Knomosis.Observer.Tracking

/-!
# What the records of the observer follow

In every run each record that is known and in progress is right at the place up to
which events were handled, or it belongs to an observer that plays the challenger
and has gone astray in the iteration that is under way.  Such a record shows the turn
of the opponent and no deadline, so the iteration reads it again before it ends.

A game whose timeout was claimed is not read again, and needs no reading: its
deadline had passed in a confirmed block, so all of its moves are handled.
-/

namespace Knomosis.Observer

open Lib Contracts Kernel List World

section Invariant

variable {τ : Type} [Keccak] (adjudicate : Adjudicator τ) (d : Deployment)
variable (cfg : ObserverConfig)

/-- The iteration under way reads the game again, unless its record says otherwise. -/
def Phase.Revisits (gameId : ℕ) : Phase → Prop
  | .handling _ => True
  | .sweeping todo => gameId ∈ todo
  | _ => False

/-- The events between two places are still to be handled. -/
def Phase.Stands (past place : List (Tx τ)) : Phase → Prop
  | .handling events => ∃ txs, past ++ txs = place ∧ events = logsAlong adjudicate d past txs
  | _ => past = place

/-- A record that the iteration under way will correct. -/
structure Strays (s : ObserverHost τ) (past : List (Tx τ)) (gameId : ℕ) (rec : GameRecord) :
    Prop where
  challenger : cfg.playAs = .challenger
  astray : Astray adjudicate d s past gameId rec.state.view
  deadline : rec.turnDeadline = none
  unclaimed : gameId ∉ s.observer.submittedTimeouts
  revisited : s.phase.Revisits gameId

/-- What holds of every record. -/
structure FollowsGame (s : ObserverHost τ) (past : List (Tx τ)) (gameId : ℕ) (rec : GameRecord) :
    Prop where
  opened : (afterTxs adjudicate d past).game.Opened gameId
  me_eq : rec.me = cfg.playAs
  reader : rec.stateKnown = true → cfg.stateReader = true
  readable : rec.stateKnown = true →
    Readable cfg.deploymentId (gameAfter adjudicate d past gameId)
  tracked : rec.stateKnown = true → rec.state.status.isInProgress = true →
    Right adjudicate d s past gameId rec.state.view ∨ Strays adjudicate d cfg s past gameId rec

/-- The deadline of the game had passed in a block that is behind. -/
def Lapsed (s : ObserverHost τ) (past : List (Tx τ)) (gameId : ℕ) : Prop :=
  ∃ n ≤ s.head d, s.txsAt d n <+: past ∧ (gameAfter adjudicate d past gameId).turnDeadline < n

structure Follows (s : ObserverHost τ) (past : List (Tx τ)) : Prop where
  mined : WellMined d s
  place : past <+: s.chain.flatten
  games : ∀ gameId rec, s.observer.games.lookup gameId = some rec →
    FollowsGame adjudicate d cfg s past gameId rec
  lapsed : ∀ gameId ∈ s.observer.submittedTimeouts,
    (∃ rec, s.observer.games.lookup gameId = some rec) ∧ Lapsed adjudicate d s past gameId

/-- The place is the one after the confirmed blocks, but for the events that are waiting. -/
def StandsAt (s : ObserverHost τ) (past : List (Tx τ)) : Prop :=
  match s.observer.lastConfirmedBlock with
  | none => s.observer.games = ∅ ∧ ∀ events, s.phase = .handling events → events = []
  | some last => last ≤ s.head d ∧ s.phase.Stands adjudicate d past (s.txsAt d last)

/-- The invariant of the observer. -/
structure Invariant (s : ObserverHost τ) (past : List (Tx τ)) : Prop where
  follows : Follows adjudicate d cfg s past
  stands : StandsAt adjudicate d s past
  reading : ∀ todo, s.phase = .hydrating todo ∨ s.phase = .sweeping todo → todo.Nonempty →
    cfg.stateReader = true

end Invariant

section Transport

variable {τ : Type} [Keccak] {adjudicate : Adjudicator τ} {d : Deployment}
variable {cfg : ObserverConfig} {s s' : ObserverHost τ} {past : List (Tx τ)} {gameId : ℕ}
variable {rec : GameRecord} {u : Bisection Bytes32}

theorem Right.of_chain_eq (h : Right adjudicate d s past gameId u) (hchain : s'.chain = s.chain) :
    Right adjudicate d s' past gameId u := by
  simpa only [Right, ObserverHost.head, ObserverHost.gameAt, ObserverHost.txsAt, hchain] using h

theorem Right.mine (h : Right adjudicate d s past gameId u) (txs : List (Tx τ)) :
    Right adjudicate d { s with chain := s.chain ++ [txs] } past gameId u := by
  rcases h with hlevel | ⟨n, hn, hpast, rfl⟩
  · exact .inl hlevel
  right
  have hhead : s.head d ≤ ObserverHost.head d { s with chain := s.chain ++ [txs] } := by
    simp [ObserverHost.head]
  refine ⟨n, hn.trans hhead, ?_, ?_⟩
  · rw [txsAt_mine hn]
    exact hpast
  · rw [ObserverHost.gameAt, ObserverHost.gameAt, txsAt_mine hn]

theorem Astray.imp (h : Astray adjudicate d s past gameId u)
    (hright : ∀ v, Right adjudicate d s past gameId v → Right adjudicate d s' past gameId v) :
    Astray adjudicate d s' past gameId u := by
  cases h with
  | misled agree h hsound hpending => exact .misled agree (hright _ h) hsound hpending
  | beside hbeside hpending hturn => exact .beside hbeside hpending hturn

/-- A record that stays as it is follows its game under any change that leaves right copies
right. -/
theorem FollowsGame.imp (h : FollowsGame adjudicate d cfg s past gameId rec)
    (hright : ∀ v, Right adjudicate d s past gameId v → Right adjudicate d s' past gameId v)
    (hstrays : Strays adjudicate d cfg s past gameId rec →
      gameId ∉ s'.observer.submittedTimeouts ∧ s'.phase.Revisits gameId) :
    FollowsGame adjudicate d cfg s' past gameId rec := by
  refine ⟨h.opened, h.me_eq, h.reader, h.readable, fun hknown hprogress => ?_⟩
  rcases h.tracked hknown hprogress with hr | hs
  · exact .inl (hright _ hr)
  · obtain ⟨hunclaimed, hrevisited⟩ := hstrays hs
    exact .inr ⟨hs.challenger, hs.astray.imp hright, hs.deadline, hunclaimed, hrevisited⟩

theorem Lapsed.of_chain_eq (h : Lapsed adjudicate d s past gameId) (hchain : s'.chain = s.chain) :
    Lapsed adjudicate d s' past gameId := by
  simpa only [Lapsed, ObserverHost.head, ObserverHost.txsAt, hchain] using h

/-- A step that changes only the phase, and forgets no record that strays. -/
theorem Follows.rephase (h : Follows adjudicate d cfg s past) (phase : Phase)
    (hstrays : ∀ gameId rec, s.observer.games.lookup gameId = some rec → rec.stateKnown = true →
      rec.state.status.isInProgress = true →
      Strays adjudicate d cfg s past gameId rec → phase.Revisits gameId) :
    Follows adjudicate d cfg { s with phase := phase } past := by
  refine ⟨h.mined, h.place, fun gameId rec hlookup => ?_, h.lapsed⟩
  have hgame := h.games gameId rec hlookup
  refine ⟨hgame.opened, hgame.me_eq, hgame.reader, hgame.readable, fun hknown hprogress => ?_⟩
  rcases hgame.tracked hknown hprogress with hr | hs
  · exact .inl hr
  · exact .inr ⟨hs.challenger, hs.astray.imp fun _ hv => hv, hs.deadline, hs.unclaimed,
      hstrays gameId rec hlookup hknown hprogress hs⟩

end Transport

section Events

variable {τ : Type} [Keccak] {adjudicate : Adjudicator τ} {d : Deployment}
variable {cfg : ObserverConfig} {s : ObserverHost τ} {past : List (Tx τ)} {tx : Tx τ}
variable {gameId : ℕ} {rec rec' : GameRecord} {n : Notice Bytes32}

theorem opened_snoc (hopened : (afterTxs adjudicate d past).game.Opened gameId) (tx : Tx τ) :
    (afterTxs adjudicate d (past ++ [tx])).game.Opened gameId :=
  opened_onward hopened (prefix_append past [tx])

theorem readable_snoc (hopened : (afterTxs adjudicate d past).game.Opened gameId) (tx : Tx τ)
    (h : Readable cfg.deploymentId (gameAfter adjudicate d past gameId)) :
    Readable cfg.deploymentId (gameAfter adjudicate d (past ++ [tx]) gameId) :=
  (Readable.congr (change_noticeAt hopened tx).sameIdentity).mpr h

/-- A transaction that makes no move in the game. -/
theorem FollowsGame.silent (h : FollowsGame adjudicate d cfg s past gameId rec)
    (htx : past ++ [tx] <+: s.chain.flatten)
    (hnotice : noticeAt adjudicate d past tx gameId = none) :
    FollowsGame adjudicate d cfg s (past ++ [tx]) gameId rec := by
  refine ⟨opened_snoc h.opened tx, h.me_eq, h.reader,
    fun hknown => readable_snoc h.opened tx (h.readable hknown), fun hknown hprogress => ?_⟩
  rcases h.tracked hknown hprogress with hr | hs
  · exact .inl (hr.silent h.opened htx hnotice)
  · exact .inr { hs with astray := hs.astray.silent h.opened htx hnotice }

/-- A game whose deadline has lapsed makes no move. -/
theorem Lapsed.step (h : Lapsed adjudicate d s past gameId) (hmined : WellMined d s)
    (hopened : (afterTxs adjudicate d past).game.Opened gameId)
    (htx : past ++ [tx] <+: s.chain.flatten) :
    noticeAt adjudicate d past tx gameId = none ∧ Lapsed adjudicate d s (past ++ [tx]) gameId := by
  obtain ⟨k, hk, hpast, hdeadline⟩ := h
  have hlate := hmined.number_gt hpast htx
  have hchange := change_noticeAt hopened tx
  cases hnotice : noticeAt adjudicate d past tx gameId with
  | some =>
    rw [hnotice] at hchange
    have htime := hchange.deadline.1
    omega
  | none =>
    rw [hnotice] at hchange
    refine ⟨rfl, k, hk, hpast.trans (prefix_append past [tx]), ?_⟩
    rw [hchange.silent.2]
    exact hdeadline

/-- The observer plays the challenger, or the answer is to the midpoint that the record has
pending. -/
def Answers (adjudicate : Adjudicator τ) (d : Deployment)
    (cfg : ObserverConfig) (past : List (Tx τ)) (gameId : ℕ) (rec : GameRecord) : Prop :=
  cfg.playAs = .challenger ∨ ∀ m, rec.state.pendingMidpoint = some m →
    m.idx.toNat = (gameAfter adjudicate d past gameId).pendingMidpoint.idx

/-- A move of the game is heard by its record. -/
theorem FollowsGame.hears (h : FollowsGame adjudicate d cfg s past gameId rec)
    (htx : past ++ [tx] <+: s.chain.flatten)
    (hnotice : noticeAt adjudicate d past tx gameId = some n) (hkeeps : rec.Keeps rec')
    (hhears : rec.stateKnown = true → rec.state.status.isInProgress = true → rec.Hears n rec')
    (hanswers : ∀ agree, n = .answered agree → rec.stateKnown = true →
      rec.state.status.isInProgress = true → Answers adjudicate d cfg past gameId rec)
    (hunclaimed : gameId ∉ s.observer.submittedTimeouts) (hrevisited : s.phase.Revisits gameId) :
    FollowsGame adjudicate d cfg s (past ++ [tx]) gameId rec' := by
  have hknown' := hkeeps.stateKnown_eq
  refine ⟨opened_snoc h.opened tx, hkeeps.me_eq.trans h.me_eq, fun hk => h.reader (hknown' ▸ hk),
    fun hk => readable_snoc h.opened tx (h.readable (hknown' ▸ hk)), fun hk hp => ?_⟩
  have hknown : rec.stateKnown = true := hknown' ▸ hk
  have hprogress := hkeeps.inProgress hp
  obtain ⟨hview, hchanged⟩ := hhears hknown hprogress
  rcases h.tracked hknown hprogress with hr | hs
  · rcases hr.hear h.opened htx hnotice with hright | ⟨k, hk, hahead, hu, agree, m, rfl, hm, hans⟩
    · rw [hview]
      exact .inl hright
    · have hopened' := opened_snoc h.opened tx
      have hsound : rec.state.view.Sound := by
        rw [hu]
        exact sound_gameAfter (opened_onward hopened' hahead)
      have hright : Right adjudicate d s (past ++ [tx]) gameId rec.state.view :=
        .inr ⟨k, hk, hahead, hu⟩
      rcases hchanged with rfl | hdeadline
      · exact .inl hright
      · rcases hanswers agree rfl hknown hprogress with hchallenger | hanswers
        · refine .inr ⟨hchallenger, ?_, hdeadline, hunclaimed, hrevisited⟩
          rw [hview, hans]
          exact .misled agree hright hsound hm
        · -- the record's midpoint is newer than the one that was answered
          exfalso
          have hchange := change_snoc h.opened hnotice
          have hreach := reaches_onward hopened' hahead
          obtain ⟨c, hc, rfl⟩ := Option.map_eq_some_iff.mp hm
          rw [hu] at hm
          exact Bisection.pending_ne_of_ahead (sound_gameAfter h.opened) hchange.moves
            hchange.pending_eq hreach hm (hanswers c hc)
  · obtain ⟨hsame, hnext⟩ := hs.astray.hear h.opened htx hnotice
    rw [hsame] at hview
    rcases hnext with hright | hastray
    · rw [hview]
      exact .inl hright
    · have hdeadline : rec'.turnDeadline = none := by
        rcases hchanged with rfl | hdeadline
        · exact hs.deadline
        · exact hdeadline
      refine .inr ⟨hs.challenger, ?_, hdeadline, hunclaimed, hrevisited⟩
      rw [hview]
      exact hastray

/-- A settlement ends the record or leaves it alone. -/
theorem FollowsGame.settles (h : FollowsGame adjudicate d cfg s past gameId rec)
    (hkeeps : rec.Keeps rec') (hsame : rec'.state.status.isInProgress = true → rec' = rec) :
    FollowsGame adjudicate d cfg s past gameId rec' := by
  have hknown' := hkeeps.stateKnown_eq
  refine ⟨h.opened, hkeeps.me_eq.trans h.me_eq, fun hk => h.reader (hknown' ▸ hk),
    fun hk => h.readable (hknown' ▸ hk), fun hk hp => ?_⟩
  obtain rfl := hsame hp
  exact h.tracked hk hp

variable {e : LoggedEvent} {txs : List (Tx τ)}

/-- Every record follows its game through an event. -/
theorem Follows.handle_game (h : Follows adjudicate d cfg s past)
    (htx : past ++ [tx] <+: s.chain.flatten)
    (hevent : (runTx adjudicate d (afterTxs adjudicate d past) tx).2 = some e.event)
    (hrevisits : ∀ id, s.phase.Revisits id)
    (hanswers : ∀ id agree rec, e.event = .responseSubmitted id agree →
      s.observer.games.lookup id = some rec → rec.stateKnown = true →
      rec.state.status.isInProgress = true → Answers adjudicate d cfg past id rec)
    (hlookup : (s.observer.handleEvent cfg e).games.lookup gameId = some rec') :
    FollowsGame adjudicate d cfg s (past ++ [tx]) gameId rec' := by
  have hnotice : ∀ id, noticeAt adjudicate d past tx id = e.event.noticeOf id := by
    intro id
    rw [noticeAt, hevent]
    rfl
  -- a game that moves was not given up
  have hunclaimed : ∀ id n, noticeAt adjudicate d past tx id = some n →
      id ∉ s.observer.submittedTimeouts := by
    intro id n hsome hmem
    obtain ⟨⟨rec, hrec⟩, hlapsed⟩ := h.lapsed id hmem
    have hnone := (hlapsed.step h.mined (h.games id rec hrec).opened htx).1
    rw [hsome] at hnone
    cases hnone
  unfold ObserverMemory.handleEvent at hlookup
  cases hev : e.event with
  | gameOpened =>
    rw [hev] at hlookup hevent
    have hsilent : noticeAt adjudicate d past tx gameId = none := by
      rw [hnotice, hev]
      rfl
    rcases lookup_handleGameOpened hlookup with hold | ⟨rfl, rfl⟩
    · exact (h.games gameId rec' hold).silent htx hsilent
    · have hopened := runTx_opens hevent
      rw [← afterTxs_snoc] at hopened
      exact ⟨hopened, rfl, nofun, nofun, nofun⟩
  | midpointSubmitted _ idx commit =>
    rw [hev] at hlookup
    rcases lookup_update hlookup with ⟨rfl, rec, hold, rfl⟩ | ⟨hne, hold⟩
    · have hgame := h.games gameId rec hold
      have hsome : noticeAt adjudicate d past tx gameId = some (.proposed idx commit) := by
        rw [hnotice, hev]
        exact if_pos rfl
      have hidx : idx < 2 ^ 64 := by
        have hplaced := placed_afterTxs adjudicate d past gameId hgame.opened
        exact (change_snoc hgame.opened hsome).moves.proposed_lt.trans hplaced.high_lt
      obtain ⟨hkeeps, hhears⟩ := midpointSubmitted_hears hidx rec commit e.blockNumber
      exact hgame.hears htx hsome hkeeps hhears nofun (hunclaimed gameId _ hsome) (hrevisits gameId)
    · refine (h.games gameId rec' hold).silent htx ?_
      rw [hnotice, hev]
      exact if_neg (Ne.symm hne)
  | responseSubmitted _ agree =>
    rw [hev] at hlookup
    rcases lookup_update hlookup with ⟨rfl, rec, hold, rfl⟩ | ⟨hne, hold⟩
    · have hsome : noticeAt adjudicate d past tx gameId = some (.answered agree) := by
        rw [hnotice, hev]
        exact if_pos rfl
      obtain ⟨hkeeps, hhears⟩ := responseSubmitted_hears rec agree e.blockNumber
      exact (h.games gameId rec hold).hears htx hsome hkeeps hhears
        (fun _ _ => hanswers gameId agree rec hev hold) (hunclaimed gameId _ hsome)
        (hrevisits gameId)
    · refine (h.games gameId rec' hold).silent htx ?_
      rw [hnotice, hev]
      exact if_neg (Ne.symm hne)
  | gameSettled _ status =>
    rw [hev] at hlookup
    have hsilent : noticeAt adjudicate d past tx gameId = none := by
      rw [hnotice, hev]
      rfl
    rcases lookup_update hlookup with ⟨rfl, rec, hold, rfl⟩ | ⟨_, hold⟩
    · obtain ⟨hkeeps, hsame⟩ := settled_keeps rec (.decode status) e.blockNumber
      exact ((h.games gameId rec hold).silent htx hsilent).settles hkeeps hsame
    · exact (h.games gameId rec' hold).silent htx hsilent
  | stateRootSubmitted =>
    rw [hev] at hlookup
    refine (h.games gameId rec' hlookup).silent htx ?_
    rw [hnotice, hev]
    rfl

/-- The place moves on by a transaction of which the observer has handled the event. -/
theorem Follows.handle (h : Follows adjudicate d cfg s past)
    (htx : past ++ [tx] <+: s.chain.flatten)
    (hevent : (runTx adjudicate d (afterTxs adjudicate d past) tx).2 = some e.event)
    (hrevisits : ∀ id, s.phase.Revisits id)
    (hanswers : ∀ id agree rec, e.event = .responseSubmitted id agree →
      s.observer.games.lookup id = some rec → rec.stateKnown = true →
      rec.state.status.isInProgress = true → Answers adjudicate d cfg past id rec)
    (events : List LoggedEvent) :
    Follows adjudicate d cfg
      { s with observer := s.observer.handleEvent cfg e, phase := .handling events }
      (past ++ [tx]) := by
  refine ⟨h.mined, htx, fun id rec' hlookup => ?_, fun id hmem => ?_⟩
  · refine (h.handle_game htx hevent hrevisits hanswers hlookup).imp
      (fun _ hright => hright.of_chain_eq rfl) fun hs => ⟨?_, trivial⟩
    exact (handleEvent_submittedTimeouts s.observer e).symm ▸ hs.unclaimed
  have hmem' : id ∈ s.observer.submittedTimeouts :=
    handleEvent_submittedTimeouts s.observer e ▸ hmem
  obtain ⟨hsome, hlapsed⟩ := h.lapsed id hmem'
  refine ⟨lookup_handleEvent_isSome e hsome, ?_⟩
  obtain ⟨rec, hrec⟩ := hsome
  exact (hlapsed.step h.mined (h.games id rec hrec).opened htx).2.of_chain_eq rfl

/-- The place moves on by a transaction without an event. -/
theorem Follows.pass (h : Follows adjudicate d cfg s past) (htx : past ++ [tx] <+: s.chain.flatten)
    (hevent : (runTx adjudicate d (afterTxs adjudicate d past) tx).2 = none) :
    Follows adjudicate d cfg s (past ++ [tx]) := by
  have hnotice : ∀ id, noticeAt adjudicate d past tx id = none := by
    intro id
    rw [noticeAt, hevent]
    rfl
  refine ⟨h.mined, htx, fun id rec hlookup => ?_, fun id hmem => ?_⟩
  · exact (h.games id rec hlookup).silent htx (hnotice id)
  · obtain ⟨⟨rec, hrec⟩, hlapsed⟩ := h.lapsed id hmem
    exact ⟨⟨rec, hrec⟩, (hlapsed.step h.mined (h.games id rec hrec).opened htx).2⟩

/-- The place moves on to the transaction of the next event. -/
theorem Follows.next {events : List LoggedEvent} (h : Follows adjudicate d cfg s past)
    (htxs : past ++ txs <+: s.chain.flatten)
    (hlogs : logsAlong adjudicate d past txs = e :: events) :
    ∃ past' tx txs', Follows adjudicate d cfg s past' ∧ past' ++ tx :: txs' = past ++ txs ∧
      (runTx adjudicate d (afterTxs adjudicate d past') tx).2 = some e.event ∧
      e.txIndex = past'.length ∧ events = logsAlong adjudicate d (past' ++ [tx]) txs' := by
  induction txs generalizing past with
  | nil => cases hlogs
  | cons tx txs ih =>
    have htx : past ++ [tx] <+: s.chain.flatten := by
      refine List.IsPrefix.trans ⟨txs, ?_⟩ htxs
      rw [append_assoc, singleton_append]
    rw [logsAlong] at hlogs
    cases hevent : (runTx adjudicate d (afterTxs adjudicate d past) tx).2 with
    | some =>
      rw [hevent] at hlogs
      cases hlogs
      exact ⟨past, tx, txs, h, rfl, hevent, rfl, rfl⟩
    | none =>
      rw [hevent] at hlogs
      have htxs' : past ++ [tx] ++ txs <+: s.chain.flatten := by
        rwa [append_assoc, singleton_append]
      obtain ⟨past', tx', txs', hfollows, heq, hrest⟩ := ih (h.pass htx hevent) htxs' hlogs
      rw [append_assoc, singleton_append] at heq
      exact ⟨past', tx', txs', hfollows, heq, hrest⟩

theorem Follows.rest (h : Follows adjudicate d cfg s past) (htxs : past ++ txs <+: s.chain.flatten)
    (hlogs : logsAlong adjudicate d past txs = []) :
    Follows adjudicate d cfg s (past ++ txs) := by
  induction txs generalizing past with
  | nil => rwa [append_nil]
  | cons tx txs ih =>
    have htxs' : past ++ [tx] ++ txs <+: s.chain.flatten := by rwa [append_assoc, singleton_append]
    have htx : past ++ [tx] <+: s.chain.flatten := List.IsPrefix.trans ⟨txs, rfl⟩ htxs'
    rw [logsAlong, append_eq_nil_iff] at hlogs
    have hevent : (runTx adjudicate d (afterTxs adjudicate d past) tx).2 = none := by
      simpa using hlogs.1
    have hnext := ih (h.pass htx hevent) htxs' hlogs.2
    rwa [append_assoc, singleton_append] at hnext

end Events

end Knomosis.Observer
