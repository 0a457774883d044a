import Knomosis.Observer.Orchestrator

/-!
# The records of the observer as copies of bisections

What a record holds of a game is a copy of the game's bisection.  A read of the
contract takes a copy of the game as it stands, and succeeds for every game of the
deployment whose parties are two accounts.  The events of moves reach the copy as
notices: a record that is known and in progress hears them as a copy does, and drops
its deadline whenever it changes.
-/

namespace Knomosis.Observer

open Lib Contracts Kernel ObserverMemory

def Claim.mark (c : Claim) : Mark Bytes32 := ⟨c.idx.toNat, c.commit⟩

/-- The bisection that a state of the observer's game holds. -/
def GameState.view (gs : GameState) : Bisection Bytes32 where
  low := gs.range.low.mark
  high := gs.range.high.mark
  pending := gs.pendingMidpoint.map Claim.mark
  depth := gs.depth.toNat
  turn := decide (gs.turn = .challenger)

theorem view_flip (turn : TurnSide) :
    decide (turn.flip = .challenger) = !decide (turn = .challenger) := by
  cases turn <;> rfl

theorem view_mid (gs : GameState) : gs.view.mid = gs.range.midpointIdx.toNat := by
  rw [midpointIdx_toNat]
  rfl

theorem view_wide_iff (gs : GameState) :
    gs.view.Wide ↔ ¬ (gs.range.midpointIdx ≤ gs.range.low.idx ∨
      gs.range.high.idx ≤ gs.range.midpointIdx) := by
  rw [Bisection.Wide, view_mid, UInt64.le_iff_toNat_le, UInt64.le_iff_toNat_le, not_or, not_le,
    not_le]
  rfl

theorem view_depth_iff (gs : GameState) :
    gs.view.depth < maxBisectionDepth ↔ ¬ gs.depth ≥ MAX_BISECTION_DEPTH := by
  rw [ge_iff_le, UInt32.le_iff_toNat_le, not_le]
  rfl

section Reads

variable {g : Game} {deploymentId : Bytes32} {observed : ObservedGame}

/-- The game belongs to the deployment, and two accounts play it. -/
structure Readable (deploymentId : Bytes32) (g : Game) : Prop where
  deploymentId_eq : g.deploymentId = deploymentId
  sequencer_ne : g.sequencer ≠ 0
  challenger_ne : g.challenger ≠ 0
  distinct : g.sequencer ≠ g.challenger

theorem Readable.congr {g' : Game} (hsame : g.SameIdentity g') :
    Readable deploymentId g' ↔ Readable deploymentId g := by
  constructor
  · rintro ⟨h₁, h₂, h₃, h₄⟩
    rw [hsame.deploymentId_eq] at h₁
    rw [hsame.sequencer_eq] at h₂ h₄
    rw [hsame.challenger_eq] at h₃ h₄
    exact ⟨h₁, h₂, h₃, h₄⟩
  · rintro ⟨h₁, h₂, h₃, h₄⟩
    rw [← hsame.deploymentId_eq] at h₁
    rw [← hsame.sequencer_eq] at h₂ h₄
    rw [← hsame.challenger_eq] at h₃ h₄
    exact ⟨h₁, h₂, h₃, h₄⟩

theorem mark_decode {c : Contracts.Claim} (hidx : c.idx < 2 ^ 64) :
    (Claim.decode c).mark = Game.mark c := by
  rw [Claim.mark, Claim.decode, UInt64.toNat_ofNat_of_lt' hidx]
  rfl

theorem Placed.low_lt (hg : g.Placed) : g.low.idx < 2 ^ 64 := lt_trans hg.sound.ordered hg.high_lt

theorem Placed.pending_lt (hg : g.Placed) (hpending : g.hasPendingMidpoint = true) :
    g.pendingMidpoint.idx < 2 ^ 64 := by
  have hmem : g.view.pending = some (Game.mark g.pendingMidpoint) := if_pos hpending
  exact lt_trans (hg.sound.inside _ hmem).2 hg.high_lt

theorem decode_turn (turn : Contracts.TurnSide) :
    decide (TurnSide.decode turn = .challenger) =
      decide (turn = Contracts.TurnSide.challenger) := by
  cases turn <;> rfl

/-- A read of an opened game takes a copy of its bisection. -/
theorem decodeGameState_placed (hg : g.Placed) :
    ∃ observed, decodeGameState g = .ok observed ∧ observed.state.view = g.view ∧
      observed.turnDeadline = g.turnDeadline ∧ observed.state.deploymentId = g.deploymentId := by
  have hdepth : g.depth ≤ 64 := hg.depth_le
  have htrunc : truncate 64 g.depth = g.depth := truncate_of_lt (by omega)
  refine ⟨_, if_neg (by omega), ?_, truncate_of_lt hg.deadline_lt, rfl⟩
  refine Bisection.ext (mark_decode (Placed.low_lt hg)) (mark_decode hg.high_lt) ?_ ?_
    (decode_turn g.turn)
  · cases hpending : g.hasPendingMidpoint with
    | false => simp [GameState.view, Game.view, hpending]
    | true =>
      simp [GameState.view, Game.view, hpending, mark_decode (Placed.pending_lt hg hpending)]
  · show (UInt32.ofNat (truncate 64 g.depth)).toNat = g.depth
    rw [htrunc]
    exact UInt32.toNat_ofNat_of_lt' (hdepth.trans_lt (by decide))

theorem readAndValidate_ok (hg : g.Placed) (h : readAndValidate g deploymentId = .ok observed) :
    observed.state.view = g.view ∧ observed.turnDeadline = g.turnDeadline ∧
      Readable deploymentId g := by
  obtain ⟨observed', hdecode, hview, hdeadline, hid⟩ := decodeGameState_placed hg
  rw [readAndValidate, hdecode] at h
  simp only [Except.bind, guard_eq_ok, Except.ok.injEq, not_not] at h
  obtain ⟨hdeployment, _, hsequencer, hchallenger, hdistinct, rfl⟩ := h
  exact ⟨hview, hdeadline, hid.symm.trans hdeployment, hsequencer, hchallenger, hdistinct⟩

/-- The reads of a game that was read once all succeed. -/
theorem readAndValidate_of_readable (hg : g.Placed) (hreadable : Readable deploymentId g) :
    ∃ observed, readAndValidate g deploymentId = .ok observed := by
  obtain ⟨observed, hdecode, hview, _, hid⟩ := decodeGameState_placed hg
  refine ⟨observed, ?_⟩
  have hordered : observed.state.view.low.idx < observed.state.view.high.idx := by
    rw [hview]
    exact hg.sound.ordered
  rw [readAndValidate, hdecode]
  simp only [Except.bind, guard_eq_ok, not_not]
  exact ⟨hid.trans hreadable.deploymentId_eq, not_le.mpr hordered, hreadable.sequencer_ne,
    hreadable.challenger_ne, hreadable.distinct, trivial⟩

end Reads

section Notices

variable {rec rec' : GameRecord} {n : Notice Bytes32} {blockNumber : ℕ}

/-- What events keep of a record. -/
structure GameRecord.Keeps (rec rec' : GameRecord) : Prop where
  stateKnown_eq : rec'.stateKnown = rec.stateKnown
  me_eq : rec'.me = rec.me
  inProgress : rec'.state.status.isInProgress → rec.state.status.isInProgress

/-- A record that hears a notice, and drops its deadline if that changes anything. -/
structure GameRecord.Hears (n : Notice Bytes32) (rec rec' : GameRecord) : Prop where
  view_eq : rec'.state.view = rec.state.view.hear maxBisectionDepth n
  changed : rec' = rec ∨ rec'.turnDeadline = none

theorem GameRecord.Keeps.refl (rec : GameRecord) : rec.Keeps rec := ⟨rfl, rfl, id⟩

/-- A legal transition is recorded, and an illegal one is skipped. -/
theorem advance_cases (rec : GameRecord) (r : Except GameError GameState) (blockNumber : ℕ) :
    (∃ state, r = .ok state ∧ rec.advance r blockNumber = rec.moved state blockNumber) ∨
      (∃ e, r = .error e) ∧ rec.advance r blockNumber = rec := by
  cases r with
  | error e => exact .inr ⟨⟨e, rfl⟩, rfl⟩
  | ok state => exact .inl ⟨state, rfl, rfl⟩

variable {gs gs' : GameState} {commit : Bytes32} {e : GameError} {agree : Bool}

theorem applySubmitMidpoint_view (h : applySubmitMidpoint gs commit = .ok gs') :
    gs.status.isInProgress = true ∧ gs'.status = gs.status ∧
      gs'.view = gs.view.hear maxBisectionDepth (.proposed gs.view.mid commit) := by
  simp only [applySubmitMidpoint, guard_eq_ok, not_not, Except.ok.injEq] at h
  obtain ⟨hstatus, hpending, hdepth, hwide, rfl⟩ := h
  refine ⟨hstatus, rfl, ?_⟩
  have hnone : gs.view.pending.isNone = true := by simpa [GameState.view] using hpending
  rw [Bisection.hear,
    if_pos ⟨rfl, hnone, (view_depth_iff gs).mpr hdepth, (view_wide_iff gs).mpr hwide⟩]
  have hmid : some (Mark.mk gs.range.midpointIdx.toNat commit) = some ⟨gs.view.mid, commit⟩ := by
    rw [view_mid]
  exact Bisection.ext rfl rfl hmid rfl (view_flip gs.turn)

theorem applySubmitMidpoint_error (hstatus : gs.status.isInProgress = true)
    (h : applySubmitMidpoint gs commit = .error e) :
    gs.view.hear maxBisectionDepth (.proposed gs.view.mid commit) = gs.view := by
  rw [Bisection.hear, if_neg]
  rintro ⟨_, hnone, hdepth, hwide⟩
  have hpending : ¬ gs.pendingMidpoint.isSome = true := by simpa [GameState.view] using hnone
  rw [applySubmitMidpoint, if_neg (not_not.mpr hstatus), if_neg hpending,
    if_neg ((view_depth_iff gs).mp hdepth), if_neg ((view_wide_iff gs).mp hwide)] at h
  cases h

theorem applyRespond_view (h : applyRespond gs agree = .ok gs') :
    gs.status.isInProgress = true ∧ gs'.status = gs.status ∧
      gs'.view = gs.view.hear maxBisectionDepth (.answered agree) := by
  simp only [applyRespond, guard_eq_ok, not_not] at h
  obtain ⟨hstatus, hdepth, h⟩ := h
  cases hpending : gs.pendingMidpoint with
  | none =>
    rw [hpending] at h
    cases h
  | some mp =>
    rw [hpending] at h
    cases h
    refine ⟨hstatus, rfl, ?_⟩
    have hmark : gs.view.pending = some mp.mark := by simp [GameState.view, hpending]
    rw [Bisection.hear, hmark]
    change _ = if gs.view.depth < maxBisectionDepth then gs.view.answer agree mp.mark else gs.view
    rw [if_pos ((view_depth_iff gs).mpr hdepth)]
    refine Bisection.ext ?_ ?_ rfl (saturatingSucc_toNat hdepth) (view_flip gs.turn)
    · cases agree <;> rfl
    · cases agree <;> rfl

theorem applyRespond_error (hstatus : gs.status.isInProgress = true)
    (h : applyRespond gs agree = .error e) :
    gs.view.hear maxBisectionDepth (.answered agree) = gs.view := by
  rw [applyRespond, if_neg (not_not.mpr hstatus)] at h
  cases hpending : gs.pendingMidpoint with
  | none => exact Bisection.hear_answered_of_none (by simp [GameState.view, hpending]) agree
  | some mp =>
    have hmark : gs.view.pending = some mp.mark := by simp [GameState.view, hpending]
    rw [Bisection.hear, hmark]
    refine if_neg fun hdepth => ?_
    rw [if_neg ((view_depth_iff gs).mp hdepth), hpending] at h
    cases h

theorem applyTransition_respond (gs : GameState) (agree : Bool) :
    applyTransition gs (if agree then .respondAgree else .respondDisagree) =
      applyRespond gs agree := by
  cases agree <;> rfl

/-- A transition of a record that is known. -/
theorem hears_advance {r : Except GameError GameState}
    (hok : ∀ gs', r = .ok gs' → rec.state.status.isInProgress = true ∧
      gs'.status = rec.state.status ∧ gs'.view = rec.state.view.hear maxBisectionDepth n)
    (herror : rec.state.status.isInProgress = true → ∀ e, r = .error e →
      rec.state.view.hear maxBisectionDepth n = rec.state.view) :
    rec.Keeps (rec.advance r blockNumber) ∧
      (rec.state.status.isInProgress = true → rec.Hears n (rec.advance r blockNumber)) := by
  rcases advance_cases rec r blockNumber with ⟨gs', hr, hrec⟩ | ⟨⟨e, hr⟩, hrec⟩
  · obtain ⟨hstatus, _, hview⟩ := hok gs' hr
    rw [hrec]
    exact ⟨⟨rfl, rfl, fun _ => hstatus⟩, fun _ => ⟨hview, .inr rfl⟩⟩
  · rw [hrec]
    exact ⟨.refl rec, fun hstatus => ⟨(herror hstatus e hr).symm, .inl rfl⟩⟩

theorem midpointSubmitted_hears {idx : ℕ}
    (hidx : idx < 2 ^ 64) (rec : GameRecord) (commit : Bytes32) (blockNumber : ℕ) :
    rec.Keeps (rec.midpointSubmitted (UInt64.ofNat idx) commit blockNumber) ∧
      (rec.stateKnown = true → rec.state.status.isInProgress = true →
        rec.Hears (.proposed idx commit)
          (rec.midpointSubmitted (UInt64.ofNat idx) commit blockNumber)) := by
  unfold GameRecord.midpointSubmitted
  cases hknown : rec.stateKnown with
  | false =>
    refine ⟨?_, nofun⟩
    rw [if_neg Bool.false_ne_true]
    split_ifs with hstatus
    · exact ⟨hknown.symm, rfl, fun _ => hstatus⟩
    · exact .refl rec
  | true =>
    rw [if_pos rfl]
    by_cases hmid : UInt64.ofNat idx = rec.state.range.midpointIdx
    · rw [if_neg (not_not.mpr hmid)]
      have hview : idx = rec.state.view.mid := by
        rw [view_mid, ← hmid, UInt64.toNat_ofNat_of_lt' hidx]
      subst hview
      obtain ⟨hkeeps, hhears⟩ := @hears_advance rec (.proposed rec.state.view.mid commit)
        blockNumber (applySubmitMidpoint rec.state commit) (fun _ => applySubmitMidpoint_view)
        (fun hstatus _ => applySubmitMidpoint_error hstatus)
      exact ⟨hkeeps, fun _ => hhears⟩
    · rw [if_pos hmid]
      refine ⟨.refl rec, fun _ _ => ⟨?_, .inl rfl⟩⟩
      rw [Bisection.hear, if_neg]
      rintro ⟨hidx', _⟩
      rw [view_mid] at hidx'
      exact hmid (hidx' ▸ UInt64.ofNat_toNat)

theorem responseSubmitted_hears (rec : GameRecord) (agree : Bool) (blockNumber : ℕ) :
    rec.Keeps (rec.responseSubmitted agree blockNumber) ∧
      (rec.stateKnown = true → rec.state.status.isInProgress = true →
        rec.Hears (.answered agree) (rec.responseSubmitted agree blockNumber)) := by
  unfold GameRecord.responseSubmitted
  cases hknown : rec.stateKnown with
  | false =>
    refine ⟨?_, nofun⟩
    rw [if_neg Bool.false_ne_true]
    split_ifs with hstatus
    · exact ⟨hknown.symm, rfl, fun _ => hstatus⟩
    · exact .refl rec
  | true =>
    rw [if_pos rfl, applyTransition_respond]
    obtain ⟨hkeeps, hhears⟩ := @hears_advance rec (.answered agree) blockNumber
      (applyRespond rec.state agree) (fun _ => applyRespond_view)
      (fun hstatus _ => applyRespond_error hstatus)
    exact ⟨hkeeps, fun _ => hhears⟩

/-- A settlement leaves a record alone or ends it. -/
theorem settled_keeps (rec : GameRecord) (status : GameStatus) (blockNumber : ℕ) :
    rec.Keeps (rec.settled status blockNumber) ∧
      ((rec.settled status blockNumber).state.status.isInProgress = true →
        rec.settled status blockNumber = rec) := by
  unfold GameRecord.settled
  split_ifs with hstatus
  · exact ⟨.refl rec, fun _ => rfl⟩
  rcases advance_cases rec (applySettlement rec.state status) blockNumber with
    ⟨gs', hr, hrec⟩ | ⟨_, hrec⟩
  · simp only [applySettlement, guard_eq_ok, not_not, Except.ok.injEq] at hr
    obtain ⟨hprogress, _, rfl⟩ := hr
    rw [hrec]
    exact ⟨⟨rfl, rfl, fun _ => hprogress⟩, fun h => absurd h hstatus⟩
  · rw [hrec]
    exact ⟨.refl rec, fun _ => rfl⟩

end Notices

section Memory

variable {cfg : ObserverConfig} {gameId : ℕ} {rec' : GameRecord}
variable {o : ObserverMemory} {id blockNumber : ℕ} {f : GameRecord → GameRecord} {root : Bytes32}

theorem lookup_update (h : (o.update id f).games.lookup gameId = some rec') :
    (gameId = id ∧ ∃ rec, o.games.lookup gameId = some rec ∧ rec' = f rec) ∨
      gameId ≠ id ∧ o.games.lookup gameId = some rec' := by
  unfold update at h
  by_cases hid : gameId = id
  · subst hid
    left
    cases hlookup : o.games.lookup gameId with
    | none =>
      rw [hlookup] at h
      rw [hlookup] at h
      cases h
    | some rec =>
      rw [hlookup] at h
      change (o.games.insert gameId (f rec)).lookup gameId = some rec' at h
      rw [Keyed.lookup_insert_eq, if_pos rfl] at h
      cases h
      exact ⟨rfl, rec, rfl, rfl⟩
  · right
    refine ⟨hid, ?_⟩
    cases hlookup : o.games.lookup id with
    | none =>
      rw [hlookup] at h
      exact h
    | some rec =>
      rw [hlookup] at h
      change (o.games.insert id (f rec)).lookup gameId = some rec' at h
      rwa [Keyed.lookup_insert_eq, if_neg hid] at h

theorem lookup_update_isSome (h : ∃ rec, o.games.lookup gameId = some rec) :
    ∃ rec, (o.update id f).games.lookup gameId = some rec := by
  unfold update
  cases hlookup : o.games.lookup id with
  | none => exact h
  | some rec =>
    change ∃ rec', (o.games.insert id (f rec)).lookup gameId = some rec'
    rw [Keyed.lookup_insert_eq]
    split_ifs
    · exact ⟨f rec, rfl⟩
    · exact h

theorem lookup_handleGameOpened
    (h : (o.handleGameOpened cfg id root blockNumber).games.lookup gameId = some rec') :
    o.games.lookup gameId = some rec' ∨ gameId = id ∧ rec' = .skeleton cfg id root blockNumber := by
  unfold handleGameOpened at h
  cases hlookup : o.games.lookup id with
  | some =>
    rw [hlookup] at h
    exact .inl h
  | none =>
    rw [hlookup] at h
    change (o.games.insert id _).lookup gameId = some rec' at h
    rw [Keyed.lookup_insert_eq] at h
    split_ifs at h with hid
    · cases h
      exact .inr ⟨hid, rfl⟩
    · exact .inl h

theorem lookup_handleGameOpened_isSome (h : ∃ rec, o.games.lookup gameId = some rec) :
    ∃ rec, (o.handleGameOpened cfg id root blockNumber).games.lookup gameId = some rec := by
  unfold handleGameOpened
  cases hlookup : o.games.lookup id with
  | some => exact h
  | none =>
    change ∃ rec', (o.games.insert id _).lookup gameId = some rec'
    rw [Keyed.lookup_insert_eq]
    split_ifs
    · exact ⟨_, rfl⟩
    · exact h

theorem lookup_handleEvent_isSome {o : ObserverMemory} (e : LoggedEvent)
    (h : ∃ rec, o.games.lookup gameId = some rec) :
    ∃ rec, (o.handleEvent cfg e).games.lookup gameId = some rec := by
  unfold handleEvent
  cases e.event with
  | gameOpened => exact lookup_handleGameOpened_isSome h
  | midpointSubmitted | responseSubmitted | gameSettled => exact lookup_update_isSome h
  | stateRootSubmitted => exact h

theorem handleEvent_submittedTimeouts (o : ObserverMemory) (e : LoggedEvent) :
    (o.handleEvent cfg e).submittedTimeouts = o.submittedTimeouts := by
  unfold handleEvent handleGameOpened update
  split
  · split <;> rfl
  · split <;> rfl
  · split <;> rfl
  · split <;> rfl
  · rfl

theorem handleEvent_lastConfirmedBlock (o : ObserverMemory) (e : LoggedEvent) :
    (o.handleEvent cfg e).lastConfirmedBlock = o.lastConfirmedBlock := by
  unfold handleEvent handleGameOpened update
  split
  · split <;> rfl
  · split <;> rfl
  · split <;> rfl
  · split <;> rfl
  · rfl

theorem hydrate_cases (cfg : ObserverConfig) (o : ObserverMemory) (g : Game) (gameId : ℕ) :
    o.hydrate cfg g gameId = o ∨ ∃ observed rec, readAndValidate g cfg.deploymentId = .ok observed ∧
        o.games.lookup gameId = some rec ∧
        o.hydrate cfg g gameId = o.put gameId (rec.known observed o.now) := by
  unfold hydrate
  cases hread : readAndValidate g cfg.deploymentId with
  | error => exact .inl rfl
  | ok observed =>
    cases hlookup : o.games.lookup gameId with
    | none =>
      left
      simp only [markStateKnown, hlookup]
    | some rec =>
      simp only [markStateKnown, hlookup]
      split_ifs
      · exact .inl rfl
      · exact .inl rfl
      · exact .inl rfl
      · exact .inr ⟨observed, rec, rfl, rfl, rfl⟩

theorem lookup_put {gameId : ℕ} {rec rec' : GameRecord}
    (h : (o.put id rec).games.lookup gameId = some rec') :
    gameId = id ∧ rec' = rec ∨ gameId ≠ id ∧ o.games.lookup gameId = some rec' := by
  change (o.games.insert id rec).lookup gameId = some rec' at h
  rw [Keyed.lookup_insert_eq] at h
  split_ifs at h with hid
  · cases h
    exact .inl ⟨hid, rfl⟩
  · exact .inr ⟨hid, h⟩

theorem confirmTimeout_cases (cfg : ObserverConfig) (o : ObserverMemory) (g : Game) (gameId : ℕ)
    (signed : Bool) :
    (o.confirmTimeout cfg g gameId signed = o ∧ ∀ observed rec,
        readAndValidate g cfg.deploymentId = .ok observed → o.games.lookup gameId ≠ some rec) ∨
      ∃ observed rec claimed, readAndValidate g cfg.deploymentId = .ok observed ∧
        o.games.lookup gameId = some rec ∧ o.confirmTimeout cfg g gameId signed =
          { o.put gameId (rec.confirmed observed o.now) with submittedTimeouts := claimed } ∧
        (claimed = o.submittedTimeouts ∨
          observed.turnDeadline < o.now ∧ claimed = insert gameId o.submittedTimeouts) := by
  unfold confirmTimeout
  cases hread : readAndValidate g cfg.deploymentId with
  | error =>
    refine .inl ⟨rfl, fun observed rec h => ?_⟩
    cases h
  | ok observed =>
    cases hlookup : o.games.lookup gameId with
    | none =>
      refine .inl ⟨rfl, fun observed rec _ h => ?_⟩
      cases h
    | some rec =>
      refine .inr ⟨observed, rec, _, rfl, rfl, rfl, ?_⟩
      split_ifs with hclaim
      · right
        simp only [mayClaim, Bool.and_eq_true, decide_eq_true_eq] at hclaim
        exact ⟨hclaim.1.2, rfl⟩
      · exact .inl rfl

theorem watchRange_some {w : WatcherConfig} {head first last : ℕ} {lastConfirmed : Option ℕ}
    (h : watchRange w head lastConfirmed = some (first, last)) :
    first ≤ last ∧ last ≤ head ∧ ∀ l, lastConfirmed = some l → first = l + 1 := by
  unfold watchRange at h
  split_ifs at h with hdepth hstart
  cases h
  refine ⟨?_, ?_, ?_⟩
  · omega
  · omega
  · rintro l rfl
    rfl

end Memory

end Knomosis.Observer
