import Knomosis.Contracts.Invariants
import Knomosis.Lib.Escrow

/-!
# Solvency of the game contract

All games share one balance.  It covers what was credited and not yet withdrawn
and the challenger bonds of the games in play, in every state of every run: a
game brings its bond when it opens, a settlement turns the bond and the slashed
amount into credits, and a withdrawal lowers credits and balance alike.
-/

namespace Knomosis.Contracts

open Lib Function GameContract Finset

namespace Game

def stake (g : Game) : ℕ := if g.status = .inProgress then g.challengerBond else 0

end Game

namespace GameContract

/-- The challenger bonds of all opened games in progress. -/
def inPlay (c : GameContract) : ℕ := ∑ id ∈ range (c.nextGameId + 1), (c.games id).stake

def owed (c : GameContract) : ℕ := ∑ a, c.pendingWithdrawals a

/-- The balance covers credits and bonds in play, and nothing is booked as
slashed before the settlement. -/
structure Solvent (c : GameContract) : Prop where
  covered : c.owed + c.inPlay ≤ c.balance
  unslashed : ∀ id, (c.games id).status = .inProgress → (c.games id).sequencerBond = 0

variable {c c' : GameContract} {gameId : ℕ} {g : Game}

theorem sum_creditTo (pending : Address → ℕ) (a : Address) (amount : ℕ) :
    ∑ b, creditTo pending a amount b = ∑ b, pending b + amount := by
  have h := sum_update_exchange (mem_univ a) id pending (pending a + amount)
  simp only [id] at h
  unfold creditTo
  omega

theorem inPlay_update (hgames : c'.games = Function.update c.games gameId g)
    (hnext : c'.nextGameId = c.nextGameId) (hmem : gameId ≤ c.nextGameId) :
    c'.inPlay + (c.games gameId).stake = c.inPlay + g.stake := by
  have hin : gameId ∈ range (c.nextGameId + 1) := mem_range.mpr (by omega)
  unfold inPlay
  rw [hgames, hnext]
  exact sum_update_exchange hin Game.stake c.games g

theorem solvent_construct : construct.Solvent := by
  refine ⟨?_, fun _ _ => rfl⟩
  have howed : construct.owed = 0 := sum_eq_zero fun _ _ => rfl
  have hplay : construct.inPlay = 0 := sum_eq_zero fun _ _ => rfl
  rw [howed, hplay]
  exact le_rfl

attribute [local simp] openGame setGame

theorem Solvent.openGame (hc : c.Solvent) {value : ℕ} (hbond : g.challengerBond = value)
    (hseq : g.sequencerBond = 0) : (c.openGame g value).Solvent := by
  refine ⟨?_, ?_⟩
  · have hold : ∀ id ∈ range (c.nextGameId + 1),
        ((c.openGame g value).games id).stake = (c.games id).stake := by
      intro id hid
      have hne : id ≠ c.nextGameId + 1 := (mem_range.mp hid).ne
      simp [update_of_ne hne]
    have hnew : ((c.openGame g value).games (c.nextGameId + 1)).stake ≤ value := by
      have hself : (c.openGame g value).games (c.nextGameId + 1) =
          { g with pendingMidpoint := (c.games (c.nextGameId + 1)).pendingMidpoint } := by
        simp
      rw [hself, Game.stake]
      split_ifs
      · exact hbond.le
      · exact Nat.zero_le _
    have hsum : (c.openGame g value).inPlay ≤ c.inPlay + value := by
      show ∑ id ∈ range (c.nextGameId + 1 + 1), _ ≤ _
      rw [sum_range_succ, sum_congr rfl hold]
      exact Nat.add_le_add_left hnew _
    have hcov := hc.covered
    have hbal : (c.openGame g value).balance = c.balance + value := rfl
    have howed : (c.openGame g value).owed = c.owed := rfl
    omega
  · intro id hid
    by_cases hne : id = c.nextGameId + 1
    · subst hne
      simpa using hseq
    · simp only [GameContract.openGame, setGame, update_of_ne hne] at hid ⊢
      exact hc.unslashed id hid

theorem Solvent.setGame (hc : c.Solvent) (hmem : gameId ≤ c.nextGameId)
    (hsame : (c.games gameId).SameStakes g) : (c.setGame gameId g).Solvent := by
  refine ⟨?_, ?_⟩
  · have hstake : g.stake = (c.games gameId).stake := by
      simp [Game.stake, hsame.status_eq, hsame.challengerBond_eq]
    have hplay : (c.setGame gameId g).inPlay + (c.games gameId).stake = c.inPlay + g.stake :=
      inPlay_update rfl rfl hmem
    have hcov := hc.covered
    have howed : (c.setGame gameId g).owed = c.owed := rfl
    have hbal : (c.setGame gameId g).balance = c.balance := rfl
    omega
  · intro id hid
    by_cases hne : id = gameId
    · subst hne
      simp only [GameContract.setGame, update_self] at hid ⊢
      rw [hsame.sequencerBond_eq]
      exact hc.unslashed id (hsame.status_eq ▸ hid)
    · simp only [GameContract.setGame, update_of_ne hne] at hid ⊢
      exact hc.unslashed id hid

variable {gcfg : GameConfig} {delta : ℕ} {finalStatus : GameStatus}

theorem SettledGame.owed_eq (hset : SettledGame gcfg c gameId finalStatus delta c') :
    c'.owed = c.owed + (c'.games gameId).totalBonds := by
  unfold owed
  rw [hset.pending_eq, sum_creditTo, sum_creditTo]
  omega

theorem Solvent.settled (hc : c.Solvent) (htable : c.Tabled)
    (hstatus : (c.games gameId).status = .inProgress) (hfinal : finalStatus ≠ .inProgress)
    (hset : SettledGame gcfg c gameId finalStatus delta c') : c'.Solvent := by
  have hself : (c'.games gameId).totalBonds =
      truncate 128 delta + (c.games gameId).challengerBond := by
    rw [hset.games_eq, update_self]
    simp [Game.totalBonds, hc.unslashed gameId hstatus]
  have hle : truncate 128 delta ≤ delta := Nat.mod_le _ _
  refine ⟨?_, ?_⟩
  · have howed := hset.owed_eq
    have hbal := hset.balance_eq
    have hcov := hc.covered
    by_cases hmem : gameId ≤ c.nextGameId
    · have hplay := inPlay_update hset.games_eq hset.nextGameId_eq hmem
      simp only [Game.stake, hstatus, hfinal, if_true, if_false] at hplay
      omega
    · -- an id beyond the opened ones is blank and counts for nothing
      have hblank := htable.blank gameId (fun hop => hmem hop.2)
      have hplay : c'.inPlay = c.inPlay := by
        unfold inPlay
        rw [hset.nextGameId_eq, hset.games_eq]
        refine sum_congr rfl fun id hid => ?_
        have hne : id ≠ gameId := by
          have := mem_range.mp hid
          omega
        rw [update_of_ne hne]
      rw [hblank.2.2.2] at hself
      omega
  · intro id hid
    by_cases hne : id = gameId
    · subst hne
      rw [hset.games_eq, update_self] at hid
      exact absurd hid hfinal
    · rw [hset.games_eq, update_of_ne hne] at hid ⊢
      exact hc.unslashed id hid

theorem Solvent.withdraw (hc : c.Solvent) {a : Address}
    (hfunded : c.pendingWithdrawals a ≤ c.balance) :
    Solvent { c with
      pendingWithdrawals := Function.update c.pendingWithdrawals a 0
      balance := c.balance - c.pendingWithdrawals a } := by
  refine ⟨?_, hc.unslashed⟩
  have hsum := sum_update_exchange (mem_univ a) id c.pendingWithdrawals 0
  have hcov := hc.covered
  simp only [id, add_zero] at hsum
  show ∑ b, Function.update c.pendingWithdrawals a 0 b + c.inPlay ≤
    c.balance - c.pendingWithdrawals a
  unfold owed at hcov
  omega

end GameContract

instance (c : GameContract) (gameId : ℕ) : Decidable (c.Opened gameId) :=
  inferInstanceAs (Decidable (_ ∧ _))

/-- How often the transactions of a history settled the opened game `gameId`. -/
def settlements {τ : Type} (h : List (HistoryEntry τ)) (gameId : ℕ) : ℕ :=
  h.countP fun e => decide (e.call.call.settles = some gameId ∧ e.pre.game.Opened gameId)

namespace World

section Step

variable [Keccak] {d : Deployment} {w w' : World} {msg : Msg}
variable {effs : List RegistryEffect} {settled : Option ℕ}

theorem Transition.solvent (hw : w.Sound) (hc : w.game.Solvent)
    (h : Transition d w msg settled effs w') : w'.game.Solvent := by
  cases h with
  | submit | finalise | reclaim | breaker => exact hc
  | challenge hmay =>
    refine hc.openGame ?_ rfl
    show truncate 128 msg.value = msg.value
    rw [hmay.value_eq, truncate_of_lt d.game.bond_lt]
  | @move gameId _ _ _ hstakes =>
    refine hc.setGame ?_ hstakes
    by_contra hlt
    have hblank := (hw.table.blank gameId (fun hop => hlt hop.2)).2.1
    have hpos := msg.block.pos
    omega
  | settle hstatus hfinal _ hgame => exact hc.settled hw.table hstatus hfinal hgame
  | withdraw hfunded => exact hc.withdraw hfunded
  | receive => exact ⟨hc.covered.trans (Nat.le_add_right _ _), hc.unslashed⟩

def Ended (w : World) (gameId : ℕ) : Prop :=
  w.game.Opened gameId ∧ (w.game.games gameId).status ≠ .inProgress

theorem Transition.ended_iff (h : Transition d w msg settled effs w') (id : ℕ) :
    w'.Ended id ↔ w.Ended id ∨ settled = some id ∧ w.game.Opened id := by
  cases h with
  | submit | finalise | reclaim | breaker | withdraw | receive =>
    simp [Ended, GameContract.Opened, GameContract.receive]
  | challenge =>
    by_cases hid : id = w.game.nextGameId + 1
    · subst hid
      simp [Ended, GameContract.Opened, GameContract.openGame, GameContract.setGame,
        GameContract.openedGame]
    · have hopen : id ≤ w.game.nextGameId + 1 ↔ id ≤ w.game.nextGameId := by omega
      simp [Ended, GameContract.Opened, GameContract.openGame, GameContract.setGame,
        update_of_ne hid, hopen]
  | @move gameId _ _ _ hstakes =>
    by_cases hid : id = gameId
    · subst hid
      simp [Ended, GameContract.Opened, GameContract.setGame, hstakes.status_eq]
    · simp [Ended, GameContract.Opened, GameContract.setGame, update_of_ne hid]
  | @settle gameId _ _ _ _ _ hstatus hfinal _ hgame =>
    simp only [Ended, GameContract.Opened, hgame.nextGameId_eq, hgame.games_eq, Option.some.injEq]
    by_cases hid : id = gameId
    · subst hid
      simp [hfinal, hstatus]
    · simp [update_of_ne hid, Ne.symm hid]

theorem Transition.not_ended_of_settled {id : ℕ} (h : Transition d w msg (some id) effs w') :
    ¬ w.Ended id := by
  cases h with
  | settle hstatus => exact fun hended => hended.2 hstatus

theorem Transition.credits {id : ℕ} (h : Transition d w msg (some id) effs w') :
    ∃ winner winnerPayout treasuryPayout, winnerPayout + treasuryPayout =
          (w'.game.games id).sequencerBond + (w'.game.games id).challengerBond ∧
        w'.game.pendingWithdrawals = creditTo
            (creditTo w.game.pendingWithdrawals winner winnerPayout)
            d.game.treasury treasuryPayout := by
  cases h with
  | settle _ _ _ hgame =>
    refine ⟨_, _, _, ?_, hgame.pending_eq⟩
    have hsplit : ∀ n : ℕ, n * 95 / 100 + (n - n * 95 / 100) = n := by
      intro n
      omega
    exact hsplit _

end Step

end World

section Runs

variable [Keccak] {τ : Type} {adjudicate : Adjudicator τ}
variable {d : Deployment} {h : List (HistoryEntry τ)} {w : World}

theorem solvent_of_run (hrun : Run (system adjudicate d) (World.deploy d) h w) :
    w.game.Solvent := by
  refine hrun.invariant solvent_construct ?_
  intro h w tx w' effs hrun hc hstep
  obtain ⟨_, htrans⟩ := World.step_transition hstep
  exact htrans.solvent (World.sound_of_run hrun) hc

/-- A game was settled once if it has ended, and never otherwise. -/
theorem settlements_of_run (hrun : Run (system adjudicate d) (World.deploy d) h w) (id : ℕ) :
    (w.Ended id → settlements h id = 1) ∧ (¬ w.Ended id → settlements h id = 0) := by
  refine hrun.invariant ?_ ?_
  · refine ⟨?_, fun _ => rfl⟩
    rintro ⟨⟨hpos, hle⟩, _⟩
    exact absurd hle (by simpa [World.deploy, construct] using hpos.ne')
  rintro h w tx w' effs _ ⟨hone, hzero⟩ hstep
  obtain ⟨_, htrans⟩ := World.step_transition hstep
  have hiff := htrans.ended_iff id
  by_cases hsettle : tx.call.settles = some id ∧ w.game.Opened id
  · have hcount : settlements (⟨w, tx, effs⟩ :: h) id = settlements h id + 1 := by
      simp [settlements, hsettle]
    have hnot : ¬ w.Ended id := by
      rw [hsettle.1] at htrans
      exact htrans.not_ended_of_settled
    refine ⟨fun _ => ?_, fun hne => absurd (hiff.mpr (Or.inr hsettle)) hne⟩
    rw [hcount, hzero hnot]
  · have hcount : settlements (⟨w, tx, effs⟩ :: h) id = settlements h id := by
      simp only [settlements]
      rw [List.countP_cons_of_neg (by simpa using hsettle)]
    have hsame : w'.Ended id ↔ w.Ended id := by
      rw [hiff]
      exact or_iff_left hsettle
    rw [hcount, hsame]
    exact ⟨hone, hzero⟩

/--
In every run the balance of the game contract covers all credits and all
challenger bonds in play, a settling transaction credits exactly the bonds of its
game, and no opened game is settled twice.
-/
theorem game_contract_solvent (hrun : Run (system adjudicate d) (World.deploy d) h w) :
    ∑ a, w.game.pendingWithdrawals a +
        ∑ id ∈ range (w.game.nextGameId + 1) with (w.game.games id).status = .inProgress,
          (w.game.games id).challengerBond ≤
      w.game.balance ∧
    (∀ tx w' effs id,
      (system adjudicate d).step w tx = some (w', effs) →
      tx.call.settles = some id →
      ∃ winner winnerPayout treasuryPayout,
        winnerPayout + treasuryPayout =
          (w'.game.games id).sequencerBond + (w'.game.games id).challengerBond ∧
        w'.game.pendingWithdrawals =
          creditTo (creditTo w.game.pendingWithdrawals winner winnerPayout)
            d.game.treasury treasuryPayout) ∧
    ∀ id, settlements h id ≤ 1 := by
  refine ⟨?_, ?_, ?_⟩
  · have hcov := (solvent_of_run hrun).covered
    rw [sum_filter]
    exact hcov
  · intro tx w' effs id hstep hsettle
    obtain ⟨_, htrans⟩ := World.step_transition hstep
    rw [hsettle] at htrans
    exact htrans.credits
  · intro id
    obtain ⟨hone, hzero⟩ := settlements_of_run hrun id
    by_cases hended : w.Ended id
    · exact (hone hended).le
    · exact (hzero hended).le.trans (Nat.zero_le 1)

end Runs

/-- The sequencer loses a game by timeout and the challenger is paid. -/
def timedOutRun : List (Tx Unit) :=
  [ sampleTx 1 10 2 (.submitStateRoot 1 0 2 0),
    sampleTx 6 10 3 (.initiateChallenge false 1 9 1 0),
    sampleTx 6 0 20 (.claimTimeout false 1),
    sampleTx 6 0 21 .withdraw ]

theorem game_contract_solvent_timeout :
    ∃ (h : List (HistoryEntry Unit)) (w : World), Run sampleSystem sampleStart h w ∧
      w.game.balance = 1 ∧ w.game.pendingWithdrawals 5 = 1 ∧
      ∑ a, w.game.pendingWithdrawals a + ∑ id ∈ range (w.game.nextGameId + 1) with
            (w.game.games id).status = .inProgress, (w.game.games id).challengerBond ≤
        w.game.balance := by
  obtain ⟨h, w, hrun, hbal, hpend⟩ := Run.exists_of_decide sampleSystem sampleStart timedOutRun
    (fun _ w => w.game.balance = 1 ∧ w.game.pendingWithdrawals 5 = 1) (by decide)
  exact ⟨h, w, hrun, hbal, hpend, (@game_contract_solvent zeroKeccak _ _ _ _ _ hrun).1⟩

end Knomosis.Contracts
