import Knomosis.Contracts.System

/-!
# What every run of the system keeps

The registry seen as a chain of records with one swept interval, the table of
games, and the link between the two: a key with an active game holds an
existing, disputed, unfinalised record whose bond is still there.

Game ids that were never opened stay blank, but not untouched: anyone can time
such an id out, and that settlement disputes log index zero.
-/

namespace Knomosis.Contracts

open Lib Function Registry

namespace Registry

def chain (s : Registry) : Chain where
  stamp k := (s.roots k).submittedAtBlock
  parent k := (s.roots k).prevEndIndex
  tip := s.canonicalTip
  latest := s.latestSubmittedLogIndex
  floor := s.lowestRevertedLogIndex
  ceiling := s.highestRevertedLogIndex
  lastSweep := s.lastRevertAtBlock

section ChainView

variable {s : Registry} {k : ℕ} {r : SubmittedRoot}

theorem chain_swept : s.chain.Swept k ↔ s.isRecordReverted k := Iff.rfl

theorem chain_exists : s.chain.Exists k ↔ s.Exists k := Iff.rfl

theorem chain_setRoot (hstamp : r.submittedAtBlock = (s.roots k).submittedAtBlock)
    (hprev : r.prevEndIndex = (s.roots k).prevEndIndex) : (s.setRoot k r).chain = s.chain := by
  simp only [chain, setRoot, apply_update_of_eq SubmittedRoot.submittedAtBlock hstamp,
    apply_update_of_eq SubmittedRoot.prevEndIndex hprev]

@[simp]
theorem chain_payOutBond : (s.payOutBond k).chain = s.chain :=
  chain_setRoot (r := { s.roots k with bond := 0 }) rfl rfl

@[simp]
theorem chain_setFinalised : (s.setFinalised k).chain = s.chain := chain_setRoot rfl rfl

@[simp]
theorem chain_setDisputed {b : Bool} : (s.setDisputed k b).chain = s.chain := chain_setRoot rfl rfl

theorem roots_finalise :
    ((s.setFinalised k).payOutBond k).roots =
      Function.update s.roots k { s.roots k with finalised := true, bond := 0 } := by
  simp [payOutBond, setFinalised, releaseOutstanding, setRoot]

theorem chain_recordSubmission
    [Keccak] {msg : Msg} {endIndex prevEndIndex : ℕ} {stateCommit actionsRoot : Bytes32}
    (hprev : prevEndIndex = s.canonicalTip) :
    (s.recordSubmission msg endIndex prevEndIndex stateCommit actionsRoot).chain =
      s.chain.append endIndex msg.block.number := by
  have hstamp := apply_update (fun _ => SubmittedRoot.submittedAtBlock) s.roots endIndex
    (s.freshRoot msg prevEndIndex stateCommit actionsRoot)
  have hparent := apply_update (fun _ => SubmittedRoot.prevEndIndex) s.roots endIndex
    (s.freshRoot msg prevEndIndex stateCommit actionsRoot)
  simp only [recordSubmission, setRoot, chain, Chain.append, hstamp, hparent]
  simp only [freshRoot, truncate_of_lt msg.block.lt, hprev]

theorem chain_sweepFrom {block : Block} {f : ℕ} :
    (s.sweepFrom block f).chain = s.chain.sweep f block.number := by
  simp only [sweepFrom, chain, Chain.sweep, truncate_of_lt block.lt]

end ChainView

end Registry

namespace GameContract

/-- The game id was handed out by `initiateChallenge`. -/
def Opened (c : GameContract) (gameId : ℕ) : Prop := 0 < gameId ∧ gameId ≤ c.nextGameId

/-- The table of games and the table of active games agree. -/
structure Tabled (c : GameContract) : Prop where
  game_of_active : ∀ k, c.activeGameForLogIndex k ≠ 0 →
    c.Opened (c.activeGameForLogIndex k) ∧
      (c.games (c.activeGameForLogIndex k)).status = .inProgress ∧
      (c.games (c.activeGameForLogIndex k)).disputedLogIndex = k
  disputed_pos : ∀ id, c.Opened id → 0 < (c.games id).disputedLogIndex
  active_of_game : ∀ id, c.Opened id → (c.games id).status = .inProgress →
    c.activeGameForLogIndex (c.games id).disputedLogIndex = id
  blank : ∀ id, ¬ c.Opened id →
    (c.games id).disputedLogIndex = 0 ∧ (c.games id).turnDeadline = 0 ∧
      (c.games id).sequencerBond = 0 ∧ (c.games id).challengerBond = 0

variable {c c' : GameContract} {gameId : ℕ} {g : Game}

theorem active_of_freed {active : ℕ → ℕ} {f k : ℕ} (hk : update active f 0 k ≠ 0) :
    active k ≠ 0 ∧ k ≠ f := by
  rw [update_apply] at hk
  grind

theorem tabled_construct : construct.Tabled := by
  have hnone : ∀ id, ¬ construct.Opened id := by
    rintro id ⟨hpos, hle⟩
    exact absurd hle (by simpa [construct] using hpos.ne')
  refine ⟨?_, ?_, ?_, ?_⟩
  · intro k hk
    exact absurd rfl hk
  · intro id hid
    exact absurd hid (hnone id)
  · intro id hid
    exact absurd hid (hnone id)
  · intro id _
    exact ⟨rfl, rfl, rfl, rfl⟩

theorem Tabled.openGame (hc : c.Tabled) (hfree : c.activeGameForLogIndex g.disputedLogIndex = 0)
    (hpos : 0 < g.disputedLogIndex) (hstatus : g.status = .inProgress) (value : ℕ) :
    (c.openGame g value).Tabled := by
  -- the fresh id is not opened before, so it clashes with no active game
  have hopen : ∀ {id}, (c.openGame g value).Opened id ↔ c.Opened id ∨ id = c.nextGameId + 1 := by
    intro id
    simp only [Opened, GameContract.openGame]
    omega
  have hne : ∀ {id}, c.Opened id → id ≠ c.nextGameId + 1 := by
    rintro id ⟨_, hle⟩
    omega
  refine ⟨?_, ?_, ?_, ?_⟩
  · intro k hk
    by_cases h : k = g.disputedLogIndex
    · subst h
      simp [GameContract.openGame, setGame, Opened, hstatus]
    · have hactive : (c.openGame g value).activeGameForLogIndex k = c.activeGameForLogIndex k := by
        simp [GameContract.openGame, update_of_ne h]
      rw [hactive] at hk ⊢
      obtain ⟨hop, hst, hdis⟩ := hc.game_of_active k hk
      refine ⟨hopen.mpr (Or.inl hop), ?_⟩
      simpa [GameContract.openGame, setGame, update_of_ne (hne hop)] using ⟨hst, hdis⟩
  · intro id hid
    rcases hopen.mp hid with hop | rfl
    · simpa [GameContract.openGame, setGame, update_of_ne (hne hop)] using hc.disputed_pos id hop
    · simpa [GameContract.openGame, setGame] using hpos
  · intro id hid hst
    rcases hopen.mp hid with hop | rfl
    · simp only [GameContract.openGame, setGame, update_of_ne (hne hop)] at hst ⊢
      have hact := hc.active_of_game id hop hst
      have hk : (c.games id).disputedLogIndex ≠ g.disputedLogIndex := by
        intro heq
        rw [heq, hfree] at hact
        exact hop.1.ne hact
      rw [update_of_ne hk]
      exact hact
    · simp [GameContract.openGame, setGame]
  · intro id hid
    have hnot : ¬ c.Opened id ∧ id ≠ c.nextGameId + 1 := by
      constructor
      · exact fun h => hid (hopen.mpr (Or.inl h))
      · exact fun h => hid (hopen.mpr (Or.inr h))
    simpa [GameContract.openGame, setGame, update_of_ne hnot.2] using hc.blank id hnot.1

theorem Tabled.setGame (hc : c.Tabled) (hopened : c.Opened gameId)
    (hsame : (c.games gameId).SameStakes g) : (c.setGame gameId g).Tabled := by
  have hstatus : ∀ id, ((c.setGame gameId g).games id).status = (c.games id).status :=
    apply_update_of_eq Game.status hsame.status_eq
  have hdis : ∀ id, ((c.setGame gameId g).games id).disputedLogIndex =
      (c.games id).disputedLogIndex :=
    apply_update_of_eq Game.disputedLogIndex hsame.disputedLogIndex_eq
  refine ⟨?_, ?_, ?_, ?_⟩
  · intro k hk
    rw [hstatus, hdis]
    exact hc.game_of_active k hk
  · intro id hid
    rw [hdis]
    exact hc.disputed_pos id hid
  · intro id hid hst
    rw [hstatus] at hst
    rw [hdis]
    exact hc.active_of_game id hid hst
  · intro id hid
    have hne : id ≠ gameId := fun h => hid (h ▸ hopened)
    simpa [GameContract.setGame, update_of_ne hne] using hc.blank id hid

theorem Tabled.settled (hc : c.Tabled) {gcfg : GameConfig} {delta : ℕ} {finalStatus : GameStatus}
    (hstatus : (c.games gameId).status = .inProgress) (hfinal : finalStatus ≠ .inProgress)
    (hdelta : c.Opened gameId ∨ delta = 0) (hset : SettledGame gcfg c gameId finalStatus delta c') :
    c'.Tabled := by
  have hopened : ∀ id, c'.Opened id ↔ c.Opened id := by
    intro id
    rw [Opened, Opened, hset.nextGameId_eq]
  have hne : ∀ {id}, id ≠ gameId → c'.games id = c.games id := by
    intro id h
    rw [hset.games_eq, update_of_ne h]
  have hself : (c'.games gameId).status = finalStatus := by rw [hset.games_eq, update_self]
  have hdis : ∀ id, (c'.games id).disputedLogIndex = (c.games id).disputedLogIndex := by
    rw [hset.games_eq]
    exact apply_update_of_eq Game.disputedLogIndex rfl
  refine ⟨?_, ?_, ?_, ?_⟩
  · intro k hk
    rw [hset.active_eq] at hk ⊢
    obtain ⟨hk, hkf⟩ := active_of_freed hk
    rw [update_of_ne hkf]
    obtain ⟨hop, hst, hdis⟩ := hc.game_of_active k hk
    have hid : c.activeGameForLogIndex k ≠ gameId := by
      intro h
      rw [h] at hdis
      exact hkf hdis.symm
    rw [hne hid]
    exact ⟨(hopened _).mpr hop, hst, hdis⟩
  · intro id hid
    rw [hdis]
    exact hc.disputed_pos id ((hopened id).mp hid)
  · intro id hid hst
    have hidne : id ≠ gameId := by
      rintro rfl
      exact hfinal (hself ▸ hst)
    rw [hne hidne] at hst ⊢
    have hact := hc.active_of_game id ((hopened id).mp hid) hst
    have hkf : (c.games id).disputedLogIndex ≠ (c.games gameId).disputedLogIndex := by
      intro heq
      by_cases hg : c.Opened gameId
      · have hact' := hc.active_of_game gameId hg hstatus
        rw [← heq, hact] at hact'
        exact hidne hact'
      · -- an id that was never opened disputes index zero, an opened one does not
        have hpos := hc.disputed_pos id ((hopened id).mp hid)
        rw [heq, (hc.blank gameId hg).1] at hpos
        exact hpos.false
    rw [hset.active_eq, update_of_ne hkf]
    exact hact
  · intro id hid
    rw [hopened] at hid
    by_cases h : id = gameId
    · subst h
      obtain ⟨hdis, hdl, hseq, hchal⟩ := hc.blank id hid
      have hzero := hdelta.resolve_left hid
      rw [hset.games_eq, update_self]
      simp [hdis, hdl, hseq, hchal, hzero, truncate]
    · rw [hne h]
      exact hc.blank id hid

end GameContract

namespace Registry

/-- Genesis is final, and a record loses its bond only when it is finalised or
reverted. -/
structure Bonded (s : Registry) : Prop where
  genesis_finalised : (s.roots 0).finalised = true
  unbonded : ∀ k, s.Exists k → (s.roots k).bond = 0 →
    (s.roots k).finalised = true ∨ s.isRecordReverted k

variable {s s' : Registry} {k : ℕ} {r : SubmittedRoot}

theorem Bonded.bond_ne (hs : s.Bonded) (hex : s.Exists k) (hfin : (s.roots k).finalised = false)
    (hrev : ¬ s.isRecordReverted k) : (s.roots k).bond ≠ 0 := fun hzero => by
  simpa [hfin, hrev] using hs.unbonded k hex hzero

/-- A write to one record, together with a sweep or without one. -/
theorem Bonded.update (hs : s.Bonded) (hroots : s'.roots = Function.update s.roots k r)
    (hgenesis : k = 0 → (s.roots k).finalised = true → r.finalised = true)
    (hmono : ∀ j, s.Exists j → j ≠ k → s.isRecordReverted j → s'.isRecordReverted j)
    (hself : r.bond = 0 → r.finalised = true ∨ s'.isRecordReverted k) : s'.Bonded := by
  refine ⟨?_, ?_⟩
  · by_cases h : 0 = k
    · rw [hroots, h, update_self]
      exact hgenesis h.symm (h ▸ hs.genesis_finalised)
    · rw [hroots, update_of_ne h]
      exact hs.genesis_finalised
  · intro j hj hbond
    by_cases h : j = k
    · subst h
      rw [hroots, update_self] at hbond ⊢
      exact hself hbond
    · have hrec : s'.roots j = s.roots j := by rw [hroots, update_of_ne h]
      have hex : s.Exists j := by simpa [Exists, hrec] using hj
      rw [hrec] at hbond ⊢
      rcases hs.unbonded j hex hbond with hfin | hrev
      · exact Or.inl hfin
      · exact Or.inr (hmono j hex h hrev)

theorem isRecordReverted_congr (h : s'.chain = s.chain) :
    s'.isRecordReverted k ↔ s.isRecordReverted k := by
  rw [← chain_swept, ← chain_swept, h]

/-- A write to one record that does not show in the chain. -/
theorem Bonded.update_of_chain_eq (hs : s.Bonded) (hroots : s'.roots = Function.update s.roots k r)
    (hchain : s'.chain = s.chain) (hgenesis : (s.roots k).finalised = true → r.finalised = true)
    (hself : r.bond = 0 → r.finalised = true ∨ s.isRecordReverted k) : s'.Bonded :=
  hs.update hroots (fun _ => hgenesis)
    (fun _ _ _ h => (isRecordReverted_congr hchain).mpr h)
    (fun h => (hself h).imp_right (isRecordReverted_congr hchain).mpr)

end Registry

structure SubmittedRoot.Locked (r : SubmittedRoot) : Prop where
  exist : r.submittedAtBlock ≠ 0
  disputed : r.disputed = true
  not_finalised : r.finalised = false
  bond_ne : r.bond ≠ 0

namespace World

structure Sound (w : World) : Prop where
  chain : w.registry.chain.Sound w.block
  table : w.game.Tabled
  bonded : w.registry.Bonded
  locked : ∀ k, w.game.activeGameForLogIndex k ≠ 0 → (w.registry.roots k).Locked

attribute [local simp] deploy construct SubmittedRoot.absent

theorem sound_deploy [Keccak] (d : Deployment) : (deploy d).Sound := by
  have hpos := d.block.pos
  have hex : ∀ k, (deploy d).registry.Exists k ↔ k = 0 := by
    intro k
    by_cases h : k = 0
    · subst h
      simp [Registry.Exists, truncate_of_lt d.block.lt, hpos.ne']
    · simp [Registry.Exists, h]
  have hzero : ((deploy d).registry.roots 0).prevEndIndex = 0 := by simp
  refine ⟨?_, GameContract.tabled_construct, ⟨?_, ?_⟩, ?_⟩
  · refine
      { root_exists := (hex 0).mpr rfl
        root_parent := hzero
        parent_lt := fun k hk hne => absurd ((hex k).mp hk) hne
        parent_exists := fun k hk hne => absurd ((hex k).mp hk) hne
        tip_exists := (hex 0).mpr rfl
        le_latest := fun k hk => ((hex k).mp hk).le
        stamp_le := ?_
        lastSweep_le := Nat.zero_le _ }
    intro k
    by_cases h : k = 0
    · subst h
      simp [Registry.chain, truncate_of_lt d.block.lt]
    · simp [Registry.chain, update_of_ne h]
  · simp
  · intro k hk _
    obtain rfl := (hex k).mp hk
    exact Or.inl (by simp)
  · intro k hk
    exact absurd rfl hk

section Preservation

variable {d : Deployment} {w w' : World} {msg : Msg} {effs : List RegistryEffect}
variable {settled : Option ℕ}

/-- The log index a settlement disputes has a record: genesis when the game id
was never opened. -/
theorem Sound.disputed_exists (hw : w.Sound) {gameId : ℕ}
    (hstatus : (w.game.games gameId).status = .inProgress) :
    w.registry.Exists (w.game.games gameId).disputedLogIndex := by
  by_cases hop : w.game.Opened gameId
  · have hact := hw.table.active_of_game gameId hop hstatus
    refine (hw.locked _ ?_).exist
    rw [hact]
    exact hop.1.ne'
  · rw [(hw.table.blank gameId hop).1]
    exact hw.chain.root_exists

/-- What a transaction does to the chain of records and to the active games. -/
inductive ChainStep (w : World) (msg : Msg) :
    List RegistryEffect → Chain → (ℕ → ℕ) → Prop
  | keep {effs : List RegistryEffect} {active : ℕ → ℕ}
      (hsubmit : ∀ k a b, RegistryEffect.submitted k a b ∉ effs)
      (hsweep : ∀ f, RegistryEffect.revertedFrom f ∉ effs)
      (hactive : ∀ k, active k ≠ 0 →
        w.game.activeGameForLogIndex k ≠ 0 ∨ ¬ w.registry.isRecordReverted k) :
      ChainStep w msg effs w.registry.chain active
  | append {e : ℕ} {a : Address} {b : ℕ}
      (hlt : w.registry.canonicalTip < e)
      (hreuse : w.registry.Exists e → w.registry.isRecordReverted e)
      (hfree : w.game.activeGameForLogIndex e = 0) :
      ChainStep w msg [.submitted e a b] (w.registry.chain.append e msg.block.number)
        w.game.activeGameForLogIndex
  | sweep {effs : List RegistryEffect} {active : ℕ → ℕ} {gameId f : ℕ}
      (hstatus : (w.game.games gameId).status = .inProgress)
      (hf : f = (w.game.games gameId).disputedLogIndex)
      (hsubmit : ∀ k a b, RegistryEffect.submitted k a b ∉ effs)
      (hsweep : ∀ j, RegistryEffect.revertedFrom j ∈ effs ↔ j = f)
      (hactive : ∀ k, active k ≠ 0 → w.game.activeGameForLogIndex k ≠ 0 ∧ k ≠ f) :
      ChainStep w msg effs (w.registry.chain.sweep f msg.block.number) active

/-- A sweep keeps what was reverted reverted, and reverts the record it starts
from. -/
theorem Sound.sweep_reverted (hw : w.Sound) (hblock : w.block ≤ msg.block.number) {f k : ℕ}
    (hk : w.registry.Exists k) :
    (w.registry.chain.sweep f msg.block.number).Swept k ↔
      w.registry.lowestRevertedLogIndex ≤ k ∨ f ≤ k :=
  (hw.chain.mono hblock).sweep_swept hk

theorem locked_of_ne {roots : ℕ → SubmittedRoot} {k j : ℕ} {r : SubmittedRoot}
    (hlock : (roots k).Locked) (hne : k ≠ j) : (Function.update roots j r k).Locked := by
  rwa [update_of_ne hne]

variable [Keccak]

theorem Transition.chainStep (hw : w.Sound) (h : Transition d w msg settled effs w') :
    ChainStep w msg effs w'.registry.chain w'.game.activeGameForLogIndex := by
  cases h with
  | @submit e p _ _ hmay =>
    rw [chain_recordSubmission hmay.prev_eq]
    refine .append (hmay.prev_eq ▸ hmay.prev_lt) (fun hex => (hmay.reuse hex).1) ?_
    by_contra hne
    have hlock := hw.locked e hne
    exact hlock.bond_ne (hmay.reuse hlock.exist).2
  | finalise =>
    rw [chain_payOutBond, chain_setFinalised]
    exact .keep (by simp) (by simp) (fun _ hk => Or.inl hk)
  | reclaim =>
    rw [chain_payOutBond]
    exact .keep (by simp) (by simp) (fun _ hk => Or.inl hk)
  | breaker halted =>
    exact .keep (by cases halted <;> simp) (by cases halted <;> simp) (fun _ hk => Or.inl hk)
  | @challenge j _ _ _ _ hmay =>
    rw [chain_setDisputed]
    refine .keep (by simp) (by simp) (fun k hk => ?_)
    by_cases hkj : k = j
    · subst hkj
      exact Or.inr hmay.record.not_reverted
    · refine Or.inl ?_
      simpa [GameContract.openGame, GameContract.openedGame, update_of_ne hkj] using hk
  | move | withdraw | receive => exact .keep (by simp) (by simp) (fun _ hk => Or.inl hk)
  | @settle gameId _ _ _ _ _ hstatus _ hregistry hgame =>
    have hactive := fun k => @GameContract.active_of_freed w.game.activeGameForLogIndex
      (w.game.games gameId).disputedLogIndex k
    rw [hgame.active_eq]
    cases hregistry with
    | untouched => exact .keep (by simp) (by simp) (fun k hk => Or.inl (hactive k hk).1)
    | cleared =>
      rw [chain_setDisputed]
      exact .keep (by simp) (by simp) (fun k hk => Or.inl (hactive k hk).1)
    | swept =>
      rw [chain_sweepFrom]
      exact .sweep hstatus rfl (by simp) (by simp) hactive
    | slashed =>
      rw [chain_sweepFrom, chain_payOutBond]
      exact .sweep hstatus rfl (by simp) (by simp) hactive

theorem Transition.block_eq (h : Transition d w msg settled effs w') :
    w'.block = msg.block.number := by
  cases h <;> rfl

theorem Transition.chain_sound (hw : w.Sound) (hblock : w.block ≤ msg.block.number)
    (h : Transition d w msg settled effs w') : w'.registry.chain.Sound w'.block := by
  have hsound := hw.chain.mono hblock
  rw [h.block_eq]
  have hstep := h.chainStep hw
  generalize w'.registry.chain = c', w'.game.activeGameForLogIndex = active at hstep ⊢
  cases hstep with
  | keep => exact hsound
  | append hlt => exact hsound.append msg.block.pos hlt
  | sweep hstatus hf =>
    subst hf
    exact hsound.sweep (hw.disputed_exists hstatus)

theorem Transition.tabled (hw : w.Sound) (h : Transition d w msg settled effs w') :
    w'.game.Tabled := by
  cases h with
  | submit | finalise | reclaim | breaker => exact hw.table
  | challenge hmay =>
    exact hw.table.openGame hmay.no_game (Nat.zero_le _ |>.trans_lt hmay.low_lt) rfl _
  | @move gameId _ _ hdeadline hstakes =>
    -- a blank game has deadline zero, so only opened games move
    refine hw.table.setGame ?_ hstakes
    by_contra hop
    rw [(hw.table.blank gameId hop).2.1] at hdeadline
    exact absurd msg.block.pos (by omega)
  | @settle gameId _ _ _ _ _ hstatus hfinal _ hgame hdelta =>
    refine hw.table.settled hstatus hfinal ?_ hgame
    by_cases hop : w.game.Opened gameId
    · exact Or.inl hop
    refine Or.inr (hdelta.resolve_right fun hmay => ?_)
    have hfin := hmay.not_finalised
    rw [(hw.table.blank gameId hop).1, hw.bonded.genesis_finalised] at hfin
    exact absurd hfin (by simp)
  | withdraw | receive => exact ⟨hw.table.1, hw.table.2, hw.table.3, hw.table.4⟩

theorem Transition.bonded (hw : w.Sound) (hblock : w.block ≤ msg.block.number)
    (h : Transition d w msg settled effs w') : w'.registry.Bonded := by
  have hb := hw.bonded
  cases h with
  | @submit e _ _ _ hmay =>
    refine hb.update (k := e) rfl ?_ ?_ ?_
    · have := hmay.prev_lt
      omega
    · intro j _ hne hrev
      simpa [isRecordReverted, recordSubmission, setRoot,
        update_of_ne hne] using hrev
    intro hzero
    have hvalue := hmay.value_eq
    have hlt := d.registry.bond_lt
    have hpos := d.registry.bond_pos
    simp only [freshRoot, hvalue, truncate_of_lt hlt] at hzero
    omega
  | @finalise k =>
    exact hb.update_of_chain_eq (k := k) roots_finalise (by simp)
      (fun _ => rfl) (fun _ => Or.inl rfl)
  | @reclaim k hmay =>
    exact hb.update_of_chain_eq (k := k) rfl chain_payOutBond id
      (fun _ => Or.inr hmay.reverted)
  | breaker => exact ⟨hb.1, hb.2⟩
  | @challenge k _ _ _ _ hmay =>
    exact hb.update_of_chain_eq (k := k) rfl chain_setDisputed id
      (fun h => hb.unbonded k hmay.record.exist h)
  | move | withdraw | receive => exact hb
  | @settle gameId _ _ _ _ _ hstatus _ hregistry =>
    have hf := hw.disputed_exists hstatus
    revert hregistry hf
    generalize (w.game.games gameId).disputedLogIndex = f
    intro hregistry hf
    cases hregistry with
    | untouched => exact hb
    | cleared hex =>
      exact hb.update_of_chain_eq (k := f) rfl chain_setDisputed id
        (fun h => hb.unbonded f hex h)
    | swept =>
      have hrev := fun j hj => (hw.sweep_reverted hblock (f := f) (k := j) hj).mpr
      rw [← chain_sweepFrom] at hrev
      exact hb.update (k := f) (r := w.registry.roots f) (by simp [sweepFrom])
        (fun _ => id) (fun j hj _ h => hrev j hj (.inl h.1))
        (fun _ => Or.inr (hrev f hf (.inr le_rfl)))
    | slashed =>
      have hrev := fun j hj => (hw.sweep_reverted hblock (f := f) (k := j) hj).mpr
      rw [← chain_payOutBond, ← chain_sweepFrom] at hrev
      exact hb.update (k := f) rfl (fun _ => id) (fun j hj _ h => hrev j hj (.inl h.1))
        (fun _ => Or.inr (hrev f hf (.inr le_rfl)))

theorem Transition.locked (hw : w.Sound) (h : Transition d w msg settled effs w') :
    ∀ k, w'.game.activeGameForLogIndex k ≠ 0 → (w'.registry.roots k).Locked := by
  intro k hk
  cases h with
  | @submit e _ _ _ hmay =>
    have hlock := hw.locked k hk
    refine locked_of_ne hlock ?_
    rintro rfl
    exact hlock.bond_ne (hmay.reuse hlock.exist).2
  | @finalise j hmay =>
    have hlock := hw.locked k hk
    simp only [roots_finalise]
    refine locked_of_ne hlock ?_
    rintro rfl
    exact absurd hmay.not_disputed (by simp [hlock.disputed])
  | @reclaim j hmay =>
    have hlock := hw.locked k hk
    refine locked_of_ne hlock ?_
    rintro rfl
    exact absurd hmay.not_disputed (by simp [hlock.disputed])
  | breaker | move | withdraw | receive => exact hw.locked k hk
  | @challenge j _ _ _ _ hmay =>
    by_cases hkj : k = j
    · subst hkj
      have hrec := hmay.record
      have hbond := hw.bonded.bond_ne hrec.exist hrec.not_finalised hrec.not_reverted
      simp only [setDisputed, setRoot, update_self]
      exact ⟨hrec.exist, rfl, hrec.not_finalised, hbond⟩
    · have hactive : w.game.activeGameForLogIndex k ≠ 0 := by
        simpa [GameContract.openGame, GameContract.openedGame, update_of_ne hkj] using hk
      exact locked_of_ne (hw.locked k hactive) hkj
  | @settle gameId _ _ _ _ _ _ _ hregistry hgame =>
    rw [hgame.active_eq] at hk
    obtain ⟨hactive, hkf⟩ := GameContract.active_of_freed hk
    have hlock := hw.locked k hactive
    cases hregistry with
    | untouched | swept => exact hlock
    | cleared | slashed => exact locked_of_ne hlock hkf

theorem Transition.sound (hw : w.Sound) (hblock : w.block ≤ msg.block.number)
    (h : Transition d w msg settled effs w') : w'.Sound :=
  ⟨h.chain_sound hw hblock, h.tabled hw, h.bonded hw hblock, h.locked hw⟩

end Preservation

theorem sound_of_run [Keccak] {τ : Type} {adjudicate : Adjudicator τ} {d : Deployment}
    {h : List (HistoryEntry τ)} {w : World}
    (hrun : Run (system adjudicate d) (deploy d) h w) : w.Sound := by
  refine hrun.invariant (sound_deploy d) ?_
  intro h w tx w' effs _ hw hstep
  obtain ⟨hblock, htrans⟩ := step_transition hstep
  exact htrans.sound hw hblock

end World

end Knomosis.Contracts
