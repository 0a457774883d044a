import Knomosis.Observer.Following

/-!
# Every run of the observer

One lemma for each step of the observer and of the chain, and what follows for the
records after every iteration.
-/

namespace Knomosis.Observer

open Lib Contracts Kernel List ObserverHost

section Steps

variable {τ : Type} [Keccak] {adjudicate : Adjudicator τ} {d : Deployment}
variable {cfg : ObserverConfig} {s : ObserverHost τ} {past : List (Tx τ)}

theorem invariant_start : Invariant adjudicate d cfg .start [] := by
  refine ⟨⟨?_, nil_prefix, ?_, ?_⟩, ⟨rfl, nofun⟩, by rintro todo (h | h) <;> cases h⟩
  · intro i txs hi
    cases hi
  · intro gameId rec hlookup
    rw [show start.observer.games.lookup gameId = none from
      Finmap.lookup_empty gameId] at hlookup
    cases hlookup
  · intro gameId hmem
    exact absurd hmem (Finset.notMem_empty gameId)

theorem Invariant.mine {txs : List (Tx τ)} (h : Invariant adjudicate d cfg s past)
    (htxs : ∀ tx ∈ txs, tx.msg.block.number = s.head d + 1) :
    Invariant adjudicate d cfg { s with chain := s.chain ++ [txs] } past := by
  have hhead : s.head d ≤ ObserverHost.head d { s with chain := s.chain ++ [txs] } := by
    simp [ObserverHost.head]
  have hplace : s.chain.flatten <+: (s.chain ++ [txs]).flatten := by
    rw [flatten_append]
    exact prefix_append _ _
  refine ⟨⟨h.follows.mined.mine htxs, h.follows.place.trans hplace, ?_, ?_⟩, ?_, h.reading⟩
  · intro gameId rec hlookup
    exact (h.follows.games gameId rec hlookup).imp (fun _ hright => hright.mine txs)
      fun hs => ⟨hs.unclaimed, hs.revisited⟩
  · intro gameId hmem
    obtain ⟨hsome, n, hn, hpast, hdeadline⟩ := h.follows.lapsed gameId hmem
    refine ⟨hsome, n, hn.trans hhead, ?_, hdeadline⟩
    rwa [txsAt_mine hn]
  · have hstands := h.stands
    unfold StandsAt at hstands ⊢
    cases hlast : s.observer.lastConfirmedBlock with
    | none =>
      rw [hlast] at hstands
      exact hstands
    | some =>
      rw [hlast] at hstands
      refine ⟨hstands.1.trans hhead, ?_⟩
      rw [txsAt_mine hstands.1]
      exact hstands.2

variable {phase : Phase} {gameId : ℕ} {rec : GameRecord} {todo : Finset ℕ}

/-- Outside the loop over the events the place is the one after the confirmed blocks. -/
theorem StandsAt.rephase (h : StandsAt adjudicate d s past)
    (hphase : ∀ events, s.phase ≠ .handling events) (hphase' : ∀ events, phase ≠ .handling events) :
    StandsAt adjudicate d { s with phase := phase } past := by
  unfold StandsAt at h ⊢
  cases hlast : s.observer.lastConfirmedBlock with
  | none =>
    rw [hlast] at h
    exact ⟨h.1, fun events hev => absurd hev (hphase' events)⟩
  | some last =>
    rw [hlast] at h
    refine ⟨h.1, ?_⟩
    have hplace : past = s.txsAt d last := by
      have hstands := h.2
      cases hs : s.phase with
      | handling events => exact absurd hs (hphase events)
      | _ =>
        rw [hs] at hstands
        exact hstands
    cases phase with
    | handling events => exact absurd rfl (hphase' events)
    | _ => exact hplace

theorem Invariant.startIteration (h : Invariant adjudicate d cfg s past)
    (hphase : s.phase = .idle) :
    Invariant adjudicate d cfg { s with phase := .hydrating (s.observer.coldStartIds cfg) }
      past := by
  refine ⟨h.follows.rephase _ ?_, h.stands.rephase (by simp [hphase]) nofun, ?_⟩
  · intro gameId rec _ _ _ hs
    have hrevisited := hs.revisited
    rw [hphase] at hrevisited
    exact hrevisited.elim
  · rintro todo (htodo | htodo) ⟨id, hid⟩
    · cases htodo
      by_contra hreader
      rw [ObserverMemory.coldStartIds, if_neg hreader] at hid
      exact absurd hid (Finset.notMem_empty id)
    · cases htodo

theorem Invariant.finish (h : Invariant adjudicate d cfg s past) (hphase : s.phase = .sweeping ∅) :
    Invariant adjudicate d cfg { s with phase := .idle } past := by
  refine ⟨h.follows.rephase _ ?_, h.stands.rephase (by simp [hphase]) nofun,
    by rintro todo (h | h) <;> cases h⟩
  intro gameId rec _ _ _ hs
  have hrevisited := hs.revisited
  rw [hphase] at hrevisited
  exact absurd hrevisited (Finset.notMem_empty gameId)

/-- A game of a record at the head of the chain. -/
theorem FollowsGame.at_head (h : FollowsGame adjudicate d cfg s past gameId rec)
    (hplace : past <+: s.chain.flatten) :
    (s.gameAt adjudicate d (s.head d) gameId).Placed ∧
    (World.gameAfter adjudicate d past gameId).SameIdentity
      (s.gameAt adjudicate d (s.head d) gameId) := by
  rw [gameAt, txsAt_head]
  obtain ⟨more, hmore⟩ := hplace
  rw [← hmore]
  exact ⟨World.placed_afterTxs _ _ _ _ (World.opened_append h.opened more),
    World.sameIdentity_append h.opened more⟩

/-- What was just read is right, and a timeout may be claimed that has lapsed. -/
theorem Follows.reread {rec' : GameRecord} {observed : ObservedGame} {claimed : Finset ℕ}
    (h : Follows adjudicate d cfg s past) (hlookup : s.observer.games.lookup gameId = some rec)
    (hread : readAndValidate (s.gameAt adjudicate d (s.head d) gameId) cfg.deploymentId =
      .ok observed) (hreader : cfg.stateReader = true) (hme : rec'.me = rec.me)
    (hstate : rec'.state = observed.state)
    (hclaimed : ∀ id ∈ claimed, id ∈ s.observer.submittedTimeouts ∨
      id = gameId ∧ Lapsed adjudicate d s past gameId)
    (hphase : ∀ id, id ≠ gameId → s.phase.Revisits id → phase.Revisits id) :
    Follows adjudicate d cfg { s with
        observer := { s.observer.put gameId rec' with submittedTimeouts := claimed }
        phase := phase } past := by
  have hgame := h.games gameId rec hlookup
  obtain ⟨hplaced, hsame⟩ := hgame.at_head h.place
  obtain ⟨hview, _, hreadable⟩ := readAndValidate_ok hplaced hread
  have hput : ∀ id r, (s.observer.put gameId rec').games.lookup id = some r →
      id = gameId ∧ r = rec' ∨ id ≠ gameId ∧ s.observer.games.lookup id = some r :=
    fun id r => lookup_put
  refine ⟨h.mined, h.place, fun id r hr => ?_, fun id hmem => ?_⟩
  · rcases hput id r hr with ⟨rfl, rfl⟩ | ⟨hne, hold⟩
    · refine ⟨hgame.opened, hme.trans hgame.me_eq, fun _ => hreader,
        fun _ => (Readable.congr hsame).mp hreadable, fun _ _ => .inl ?_⟩
      rw [hstate, hview]
      exact right_head h.place
    · refine (h.games id r hold).imp (fun _ hright => hright) fun hs => ⟨fun hmem => ?_, ?_⟩
      · rcases hclaimed id hmem with hmem | ⟨heq, _⟩
        · exact hs.unclaimed hmem
        · exact hne heq
      · exact hphase id hne hs.revisited
  · have hlapsed : Lapsed adjudicate d s past id := by
      rcases hclaimed id hmem with hmem | ⟨rfl, hlapsed⟩
      · exact (h.lapsed id hmem).2
      · exact hlapsed
    refine ⟨?_, hlapsed⟩
    have hsome : ∃ r, s.observer.games.lookup id = some r := by
      rcases hclaimed id hmem with hmem | ⟨rfl, _⟩
      · exact (h.lapsed id hmem).1
      · exact ⟨rec, hlookup⟩
    change ∃ r, (s.observer.games.insert gameId rec').lookup id = some r
    rw [Keyed.lookup_insert_eq]
    split_ifs
    · exact ⟨rec', rfl⟩
    · exact hsome

/-- An observer with records has confirmed a block. -/
theorem StandsAt.last (h : StandsAt adjudicate d s past)
    (hlookup : s.observer.games.lookup gameId = some rec) :
    ∃ last, s.observer.lastConfirmedBlock = some last ∧ last ≤ s.head d ∧
      s.phase.Stands adjudicate d past (s.txsAt d last) := by
  unfold StandsAt at h
  cases hlast : s.observer.lastConfirmedBlock with
  | none =>
    rw [hlast] at h
    rw [h.1, Finmap.lookup_empty] at hlookup
    cases hlookup
  | some last =>
    rw [hlast] at h
    exact ⟨last, rfl, h⟩

theorem standsAt_of_last {last : ℕ} (hlast : s.observer.lastConfirmedBlock = some last)
    (hle : last ≤ s.head d) (hstands : s.phase.Stands adjudicate d past (s.txsAt d last)) :
    StandsAt adjudicate d s past := by
  unfold StandsAt
  rw [hlast]
  exact ⟨hle, hstands⟩

theorem Invariant.hydrate (h : Invariant adjudicate d cfg s past)
    (hphase : s.phase = .hydrating todo) (hid : gameId ∈ todo) :
    Invariant adjudicate d cfg { s with
        observer := s.observer.hydrate cfg (s.gameAt adjudicate d (s.head d) gameId) gameId
        phase := .hydrating (todo.erase gameId) } past := by
  have hreader := h.reading todo (.inl hphase) ⟨gameId, hid⟩
  have hrevisits : ∀ id, s.phase.Revisits id →
      (Phase.hydrating (todo.erase gameId)).Revisits id := by
    rw [hphase]
    exact fun _ hrevisited => hrevisited
  rcases hydrate_cases cfg s.observer (s.gameAt adjudicate d (s.head d) gameId) gameId with
    hsame | ⟨observed, rec, hread, hlookup, hput⟩
  · rw [hsame]
    exact ⟨h.follows.rephase _ fun id _ _ _ _ hs => hrevisits id hs.revisited,
      h.stands.rephase (by simp [hphase]) nofun, fun _ _ _ => hreader⟩
  rw [hput]
  obtain ⟨last, hlast, hle, hstands⟩ := h.stands.last hlookup
  rw [hphase] at hstands
  refine ⟨?_, standsAt_of_last hlast hle hstands, fun _ _ _ => hreader⟩
  exact h.follows.reread hlookup hread hreader rfl rfl (fun id hmem => .inl hmem)
    fun id _ => hrevisits id

/-- A deadline that had passed in a confirmed block has passed for good. -/
theorem Follows.lapse {last : ℕ} (h : Follows adjudicate d cfg s past)
    (hlookup : s.observer.games.lookup gameId = some rec) (hlast : last ≤ s.head d)
    (hpast : past = s.txsAt d last)
    (hdeadline : (s.gameAt adjudicate d (s.head d) gameId).turnDeadline < last) :
    Lapsed adjudicate d s past gameId := by
  obtain ⟨more, hmore⟩ := h.place
  rw [gameAt, txsAt_head, ← hmore] at hdeadline
  have hlate : ∀ tx ∈ more, last ≤ tx.msg.block.number := by
    intro tx htx
    obtain ⟨before, after, rfl⟩ := append_of_mem htx
    have hplace : s.txsAt d last <+: past ++ before := hpast ▸ prefix_append past before
    refine (h.mined.number_gt hplace ⟨after, ?_⟩).le
    rw [← hmore]
    simp
  refine ⟨last, hlast, hpast ▸ prefix_refl _, ?_⟩
  rcases World.deadline_append (h.games gameId rec hlookup).opened more hlate with hsame | hge
  · rwa [← hsame]
  · exact absurd hdeadline (not_lt.mpr hge)

theorem Invariant.confirmTimeout (h : Invariant adjudicate d cfg s past)
    (hphase : s.phase = .sweeping todo) (hid : gameId ∈ todo) (signed : Bool) :
    Invariant adjudicate d cfg { s with
        observer := s.observer.confirmTimeout cfg (s.gameAt adjudicate d (s.head d) gameId) gameId
          signed
        phase := .sweeping (todo.erase gameId) } past := by
  have hreader := h.reading todo (.inr hphase) ⟨gameId, hid⟩
  have hrevisits : ∀ id, id ≠ gameId → s.phase.Revisits id →
      (Phase.sweeping (todo.erase gameId)).Revisits id := by
    intro id hne hrevisited
    rw [hphase] at hrevisited
    exact Finset.mem_erase.mpr ⟨hne, hrevisited⟩
  rcases confirmTimeout_cases cfg s.observer (s.gameAt adjudicate d (s.head d) gameId) gameId
    signed with ⟨hsame, hfailed⟩ | ⟨observed, rec, claimed, hread, hlookup, hput, hclaimed⟩
  · rw [hsame]
    refine ⟨h.follows.rephase _ fun id rec hlookup hknown _ hs => ?_,
      h.stands.rephase (by simp [hphase]) nofun, fun _ _ _ => hreader⟩
    -- a record that strays is known, and so is read without failure
    refine hrevisits id (fun heq => ?_) hs.revisited
    subst heq
    have hgame := h.follows.games id rec hlookup
    obtain ⟨hplaced, hident⟩ := hgame.at_head h.follows.place
    have hreadable := (Readable.congr hident).mpr (hgame.readable hknown)
    obtain ⟨observed, hread⟩ := readAndValidate_of_readable hplaced hreadable
    exact hfailed observed rec hread hlookup
  · rw [hput]
    obtain ⟨last, hlast, hle, hstands⟩ := h.stands.last hlookup
    rw [hphase] at hstands
    refine ⟨?_, standsAt_of_last hlast hle hstands, fun _ _ _ => hreader⟩
    refine h.follows.reread hlookup hread hreader rfl rfl (fun id hmem => ?_) hrevisits
    rcases hclaimed with rfl | ⟨hlate, rfl⟩
    · exact .inl hmem
    · rcases Finset.mem_insert.mp hmem with rfl | hmem
      · right
        refine ⟨rfl, h.follows.lapse hlookup hle hstands ?_⟩
        obtain ⟨hplaced, _⟩ := (h.follows.games id rec hlookup).at_head h.follows.place
        obtain ⟨_, hdeadline, _⟩ := readAndValidate_ok hplaced hread
        rw [← hdeadline]
        rwa [ObserverMemory.now, hlast] at hlate
      · exact .inl hmem

/-- The records that stray are candidates for a confirming read. -/
theorem mem_timeoutCandidates (hgame : FollowsGame adjudicate d cfg s past gameId rec)
    (hlookup : s.observer.games.lookup gameId = some rec) (hknown : rec.stateKnown = true)
    (hprogress : rec.state.status.isInProgress = true)
    (hs : Strays adjudicate d cfg s past gameId rec) :
    gameId ∈ s.observer.timeoutCandidates cfg := by
  have hturn : rec.state.turn ≠ rec.me := by
    rw [hgame.me_eq, hs.challenger]
    exact of_decide_eq_false hs.astray.turn_eq
  have hkey : gameId ∈ s.observer.games.keys :=
    Finmap.mem_keys.mpr (Finmap.mem_of_lookup_eq_some hlookup)
  rw [ObserverMemory.timeoutCandidates, if_pos (hgame.reader hknown), Finset.mem_filter]
  refine ⟨hkey, ?_, hs.unclaimed⟩
  simp [hlookup, hknown, hprogress, hturn, hs.deadline]

theorem Invariant.startSweep (h : Invariant adjudicate d cfg s past)
    (hphase : s.phase = .handling []) :
    ∃ past', Invariant adjudicate d cfg
      { s with phase := .sweeping (s.observer.timeoutCandidates cfg) } past' := by
  have hreading : ∀ todo, Phase.sweeping (s.observer.timeoutCandidates cfg) = .hydrating todo ∨
      Phase.sweeping (s.observer.timeoutCandidates cfg) = .sweeping todo → todo.Nonempty →
        cfg.stateReader = true := by
    rintro todo (htodo | htodo) ⟨id, hid⟩
    · cases htodo
    cases htodo
    by_contra hreader
    rw [ObserverMemory.timeoutCandidates, if_neg hreader] at hid
    exact absurd hid (Finset.notMem_empty id)
  have hrephase : ∀ {place}, Follows adjudicate d cfg s place → Follows adjudicate d cfg
      { s with phase := .sweeping (s.observer.timeoutCandidates cfg) } place := by
    intro place hplace
    refine hplace.rephase _ fun id rec hlookup hknown hprogress hs => ?_
    exact mem_timeoutCandidates (hplace.games id rec hlookup) hlookup hknown hprogress hs
  have hstands := h.stands
  unfold StandsAt at hstands
  cases hlast : s.observer.lastConfirmedBlock with
  | none =>
    rw [hlast] at hstands
    refine ⟨past, hrephase h.follows, ?_, hreading⟩
    unfold StandsAt
    rw [show _ = none from hlast]
    exact ⟨hstands.1, nofun⟩
  | some last =>
    rw [hlast, hphase] at hstands
    obtain ⟨hle, txs, htxs, hlogs⟩ := hstands
    have hplace : past ++ txs <+: s.chain.flatten := htxs ▸ txsAt_isPrefixOf last
    refine ⟨past ++ txs, hrephase (h.follows.rest hplace hlogs.symm), ?_, hreading⟩
    exact standsAt_of_last hlast hle htxs

theorem Invariant.handle {e : LoggedEvent} {events : List LoggedEvent}
    (h : Invariant adjudicate d cfg s past) (hphase : s.phase = .handling (e :: events))
    (hanswers : ∀ id agree rec, e.event = .responseSubmitted id agree →
      s.observer.games.lookup id = some rec → rec.stateKnown = true →
      rec.state.status.isInProgress = true →
      Answers adjudicate d cfg (s.chain.flatten.take e.txIndex) id rec) :
    ∃ past', Invariant adjudicate d cfg
      { s with observer := s.observer.handleEvent cfg e, phase := .handling events } past' := by
  have hstands := h.stands
  unfold StandsAt at hstands
  cases hlast : s.observer.lastConfirmedBlock with
  | none =>
    rw [hlast] at hstands
    cases hstands.2 _ hphase
  | some last =>
    rw [hlast, hphase] at hstands
    obtain ⟨hle, txs, htxs, hlogs⟩ := hstands
    have hplace : past ++ txs <+: s.chain.flatten := htxs ▸ txsAt_isPrefixOf last
    obtain ⟨past', tx, txs', hfollows, hpast', hevent, hindex, hrest⟩ :=
      h.follows.next hplace hlogs.symm
    have htx : past' ++ [tx] <+: s.chain.flatten := by
      refine List.IsPrefix.trans ⟨txs', ?_⟩ hplace
      rw [append_assoc, singleton_append, hpast']
    have htake : s.chain.flatten.take e.txIndex = past' := by
      rw [hindex]
      exact (prefix_iff_eq_take.mp hfollows.place).symm
    rw [htake] at hanswers
    have hrevisits : ∀ id, s.phase.Revisits id := by
      rw [hphase]
      exact fun _ => trivial
    refine ⟨past' ++ [tx], hfollows.handle htx hevent hrevisits hanswers events, ?_,
      by rintro todo (h | h) <;> cases h⟩
    refine standsAt_of_last ((handleEvent_lastConfirmedBlock s.observer e).trans hlast) hle ?_
    refine ⟨txs', ?_, hrest⟩
    rw [append_assoc, singleton_append, hpast', htxs]
    rfl

theorem Invariant.watch (h : Invariant adjudicate d cfg s past) (hphase : s.phase = .hydrating ∅) :
    ∃ past', Invariant adjudicate d cfg (s.watch adjudicate d cfg) past' := by
  have hreading : ∀ events todo, Phase.handling events = .hydrating todo ∨
      Phase.handling events = .sweeping todo → todo.Nonempty → cfg.stateReader = true := by
    rintro events todo (h | h) <;> cases h
  have hrephase : ∀ events, Follows adjudicate d cfg { s with phase := .handling events } past :=
    fun events => h.follows.rephase _ fun _ _ _ _ _ _ => trivial
  have hstands := h.stands
  unfold ObserverHost.watch
  cases hrange : watchRange cfg.watcher (s.head d) s.observer.lastConfirmedBlock with
  | none =>
    refine ⟨past, hrephase [], ?_, hreading []⟩
    unfold StandsAt at hstands ⊢
    cases hlast : s.observer.lastConfirmedBlock with
    | none =>
      rw [hlast] at hstands
      exact ⟨hstands.1, fun events hev => (Phase.handling.inj hev).symm⟩
    | some =>
      rw [hlast, hphase] at hstands
      exact ⟨hstands.1, [], (append_nil past).trans hstands.2, rfl⟩
  | some range =>
    obtain ⟨first, last⟩ := range
    obtain ⟨hfirst, hle, hnext⟩ := watchRange_some hrange
    obtain ⟨txs, htxs, hlogs⟩ := logs_range adjudicate d s first (last + 1 - first)
    have hend : first + (last + 1 - first) - 1 = last := by omega
    rw [hend] at htxs
    dsimp only
    rw [hlogs]
    refine ⟨s.txsAt d (first - 1), ?_, ?_, hreading _⟩
    · unfold StandsAt at hstands
      cases hlast : s.observer.lastConfirmedBlock with
      | none =>
        -- the first run of the watcher: nothing is followed yet
        rw [hlast] at hstands
        have hnone : ∀ id rec, s.observer.games.lookup id ≠ some rec := by
          intro id rec hlookup
          rw [hstands.1, Finmap.lookup_empty] at hlookup
          cases hlookup
        refine ⟨h.follows.mined, txsAt_isPrefixOf _, fun id rec hlookup => ?_, fun id hmem => ?_⟩
        · exact absurd hlookup (hnone id rec)
        · obtain ⟨⟨rec, hlookup⟩, _⟩ := h.follows.lapsed id hmem
          exact absurd hlookup (hnone id rec)
      | some last' =>
        rw [hlast, hphase] at hstands
        have hplace : s.txsAt d (first - 1) = past := by
          rw [hnext last' hlast]
          exact hstands.2.symm
        rw [hplace]
        refine ⟨h.follows.mined, h.follows.place, fun id rec hlookup => ?_, h.follows.lapsed⟩
        exact (h.follows.games id rec hlookup).imp (fun _ hright => hright)
          fun hs => ⟨hs.unclaimed, trivial⟩
    · exact standsAt_of_last rfl hle ⟨txs, htxs, rfl⟩

/-- Every answer that is handled for a game that is known and in progress is to the midpoint
that the record has pending. -/
def AnswersPending (adjudicate : Adjudicator τ) (d : Deployment)
    (s : ObserverHost τ) (op : ObserverOp τ) : Prop :=
  ∀ e events gameId agree rec m, op = .handle → s.phase = .handling (e :: events) →
    e.event = .responseSubmitted gameId agree → s.observer.games.lookup gameId = some rec →
    rec.stateKnown = true → rec.state.status.isInProgress = true →
    rec.state.pendingMidpoint = some m →
    m.idx.toNat =
      (World.gameAfter adjudicate d (s.chain.flatten.take e.txIndex) gameId).pendingMidpoint.idx

/-- One step of the observer or of the chain. -/
theorem Invariant.step {op : ObserverOp τ} {s' : ObserverHost τ} {out : Unit}
    (h : Invariant adjudicate d cfg s past)
    (hanswers : (cfg.stateReader = true → cfg.playAs = .challenger) ∨
      AnswersPending adjudicate d s op) (hstep : s.step adjudicate d cfg op = some (s', out)) :
    ∃ past', Invariant adjudicate d cfg s' past' := by
  cases op with
  | mine =>
    simp only [ObserverHost.step] at hstep
    split_ifs at hstep with hmine
    cases hstep
    exact ⟨past, h.mine hmine.1⟩
  | startIteration =>
    simp only [ObserverHost.step] at hstep
    split at hstep <;> cases hstep
    exact ⟨past, h.startIteration ‹_›⟩
  | hydrate =>
    simp only [ObserverHost.step] at hstep
    split at hstep
    next hphase =>
      split_ifs at hstep with hid
      cases hstep
      exact ⟨past, h.hydrate hphase hid⟩
    · cases hstep
  | watch =>
    simp only [ObserverHost.step] at hstep
    split at hstep
    next hphase =>
      split_ifs at hstep with htodo
      cases hstep
      exact h.watch (htodo ▸ hphase)
    · cases hstep
  | handle =>
    simp only [ObserverHost.step] at hstep
    split at hstep
    next e events hphase =>
      cases hstep
      refine h.handle hphase fun id agree rec hev hlookup hknown hprogress => ?_
      have hreader := (h.follows.games id rec hlookup).reader hknown
      exact hanswers.imp (fun hchallenger => hchallenger hreader) fun hpending m =>
        hpending e events id agree rec m rfl hphase hev hlookup hknown hprogress
    · cases hstep
  | startSweep =>
    simp only [ObserverHost.step] at hstep
    split at hstep <;> cases hstep
    exact h.startSweep ‹_›
  | confirmTimeout _ signed =>
    simp only [ObserverHost.step] at hstep
    split at hstep
    next hphase =>
      split_ifs at hstep with hid
      cases hstep
      exact ⟨past, h.confirmTimeout hphase hid signed⟩
    · cases hstep
  | finish =>
    simp only [ObserverHost.step] at hstep
    split at hstep
    next hphase =>
      split_ifs at hstep with htodo
      cases hstep
      exact ⟨past, h.finish (htodo ▸ hphase)⟩
    · cases hstep

end Steps

section Runs

variable {τ : Type} [Keccak] {adjudicate : Adjudicator τ} {d : Deployment}
variable {cfg : ObserverConfig} {s : ObserverHost τ}

/-- Every record that is known and in progress has the range, the pending midpoint, the depth and
the turn that the contract had in one block, at or after the last confirmed block and not after
the head. -/
def Tracks (adjudicate : Adjudicator τ) (d : Deployment)
    (s : ObserverHost τ) : Prop :=
  ∀ gameId rec, s.observer.games.lookup gameId = some rec → rec.stateKnown = true →
    rec.state.status.isInProgress = true →
      ∃ last n, s.observer.lastConfirmedBlock = some last ∧ last ≤ n ∧ n ≤ s.head d ∧
        rec.state.view = (s.gameAt adjudicate d n gameId).view

theorem Invariant.tracks {past : List (Tx τ)} (h : Invariant adjudicate d cfg s past)
    (hphase : s.phase = .idle) : Tracks adjudicate d s := by
  intro gameId rec hlookup hknown hprogress
  obtain ⟨last, hlast, hle, hstands⟩ := h.stands.last hlookup
  rw [hphase] at hstands
  have hpast : past = s.txsAt d last := hstands
  subst hpast
  rcases (h.follows.games gameId rec hlookup).tracked hknown hprogress with hr | hs
  · rcases hr with hlevel | ⟨n, hn, hahead, hview⟩
    · exact ⟨last, last, hlast, le_rfl, hle, hlevel⟩
    · rcases le_or_gt last n with hge | hlt
      · exact ⟨last, n, hlast, hge, hn, hview⟩
      · -- no transaction lies between the two blocks
        refine ⟨last, last, hlast, le_rfl, hle, ?_⟩
        have heq := hahead.eq_of_length_le (txsAt_mono (d := d) (s := s) hlt.le).length_le
        rw [hview, gameAt, gameAt, heq]
  · have hrevisited := hs.revisited
    rw [hphase] at hrevisited
    exact hrevisited.elim

theorem tracks_of_run {h : List (Entry (ObserverHost τ) (ObserverOp τ) Unit)}
    (hrun : Run (observerHost adjudicate d cfg) .start h s)
    (hanswers : ∀ e ∈ h, (cfg.stateReader = true → cfg.playAs = .challenger) ∨
      AnswersPending adjudicate d e.pre e.call) (hphase : s.phase = .idle) :
    Tracks adjudicate d s := by
  obtain ⟨past, hinv⟩ := Run.invariant_of_guard
    (fun e => (cfg.stateReader = true → cfg.playAs = .challenger) ∨
      AnswersPending adjudicate d e.pre e.call)
    (fun _ s => ∃ past, Invariant adjudicate d cfg s past) ⟨[], invariant_start⟩
    (fun _ _ _ _ _ _ hinv hstep hguard => hinv.elim fun _ h => h.step hguard hstep)
    hrun hanswers
  exact hinv.tracks hphase

end Runs

end Knomosis.Observer
