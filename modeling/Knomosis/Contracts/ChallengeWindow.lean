import Knomosis.Contracts.Invariants
import Mathlib.Data.Set.Card

/-!
# The time to challenge a record

A record can be challenged while it is neither reverted nor finalised and no game
on it is open.  Its finalisation waits for the dispute window, counted from the
submission; the blocks that a game on the record takes are not given back when
the sequencer wins it.
-/

namespace Knomosis.Contracts

open Lib Function Registry RegistryEffect Finset

/-- The effect is the submission of the record. -/
def RegistryEffect.submits (k : ℕ) : RegistryEffect → Bool
  | .submitted endIndex _ _ => decide (endIndex = k)
  | _ => false

section Blocks

variable {τ : Type}

/-- The transactions since the last submission of the record. -/
def sinceSubmission (k : ℕ) (h : List (HistoryEntry τ)) : List (HistoryEntry τ) :=
  h.takeWhile (fun e => !e.out.any (submits k))

/-- The first block in which the deadline of a new game does not fit its field. -/
def openingEnd (cfg : GameConfig) : ℕ := 2 ^ 64 - cfg.bisectionResponseTimeout

/-- The games on a record: the blocks that settled games have taken, and the block in which the
last one was opened. -/
structure GameTime where
  taken : Finset ℕ
  openedAt : ℕ

/-- The time that games on the record take since its submission.  A game takes the blocks
strictly between its opening and its settlement. -/
def gameTime (cfg : GameConfig) (k : ℕ) : List (HistoryEntry τ) → GameTime
  | [] => ⟨∅, 0⟩
  | e :: h =>
    let before := gameTime cfg k h
    if e.out.any (submits k) then ⟨∅, 0⟩
    else if .disputed k ∈ e.out then ⟨before.taken, e.call.msg.block.number⟩
    else if .disputeCleared k ∈ e.out then
      ⟨before.taken ∪
        Ico (before.openedAt + 1) (min e.call.msg.block.number (openingEnd cfg)), 0⟩
    else before

variable [Keccak] (adjudicate : Adjudicator τ) (d : Deployment)

/-- In block `n` everyone could challenge the record, with the bond, the anchor that the record
stands on and any other commit. -/
def Challengeable (w : World) (n k : ℕ) : Prop :=
  ∃ block : Block, block.number = n ∧ ∀ (sender : Address) (commit : Bytes32),
    sender ≠ d.registry.faultProofGame → sender ≠ d.game.stateRootSubmission →
    commit ≠ (w.registry.roots k).stateCommit →
    ∃ r, World.step adjudicate d w
      ⟨⟨sender, d.game.minChallengeBond, block⟩,
        .initiateChallenge false k commit
          (w.registry.roots (w.registry.roots k).prevEndIndex).stateCommit
          (w.registry.roots k).prevEndIndex⟩ = some r

/-- The blocks since the submission in which the record could be challenged, before one of the
transactions of that time. -/
def challengeableBlocks (k : ℕ) (h : List (HistoryEntry τ)) : Set ℕ :=
  {n | ∃ e ∈ sinceSubmission k h, e.pre.block ≤ n ∧ n ≤ e.call.msg.block.number ∧
    Challengeable adjudicate d e.pre n k}

end Blocks

namespace Registry

/-- The record is neither reverted nor finalised. -/
structure Pending (s : Registry) (k : ℕ) : Prop where
  exist : s.Exists k
  not_reverted : ¬ s.isRecordReverted k
  not_finalised : (s.roots k).finalised = false

variable {s : Registry} {k : ℕ}

theorem Pending.mayDispute (h : s.Pending k) (hfree : (s.roots k).disputed = false) :
    s.MayDispute k :=
  ⟨h.exist, h.not_reverted, h.not_finalised, hfree⟩

theorem MayDispute.pending (h : s.MayDispute k) : s.Pending k :=
  ⟨h.exist, h.not_reverted, h.not_finalised⟩

theorem pending_congr {s' : Registry} (hchain : s'.chain = s.chain)
    (hfinalised : (s'.roots k).finalised = (s.roots k).finalised) : s'.Pending k ↔ s.Pending k := by
  constructor
  · intro h
    exact ⟨chain_exists.mp (hchain ▸ chain_exists.mpr h.exist),
      fun hrev => h.not_reverted ((isRecordReverted_congr hchain).mpr hrev),
      hfinalised ▸ h.not_finalised⟩
  · intro h
    exact ⟨chain_exists.mp (hchain ▸ chain_exists.mpr h.exist),
      fun hrev => h.not_reverted ((isRecordReverted_congr hchain).mp hrev),
      hfinalised ▸ h.not_finalised⟩

end Registry

namespace World

section Records

variable {d : Deployment} {w w' : World} {msg : Msg} {effs : List RegistryEffect}
variable {settled : Option ℕ} {k : ℕ}

/-- What a transaction does to a record that is pending after it. -/
inductive RecordStep (d : Deployment) (w : World) (msg : Msg) (effs : List RegistryEffect)
    (w' : World) (k : ℕ) : Prop
  | submitted
      (heff : effs.any (submits k) = true)
      (hstamp : (w'.registry.roots k).submittedAtBlock = msg.block.number)
      (hfree : (w'.registry.roots k).disputed = false)
  | kept
      (heff : effs.any (submits k) = false)
      (hnone : .disputed k ∉ effs ∧ .disputeCleared k ∉ effs)
      (hpending : w.registry.Pending k)
      (hstamp : (w'.registry.roots k).submittedAtBlock = (w.registry.roots k).submittedAtBlock)
      (hsame : (w'.registry.roots k).disputed = (w.registry.roots k).disputed)
  | challenged
      (heff : effs = [.disputed k])
      (hpending : w.registry.Pending k)
      (hstamp : (w'.registry.roots k).submittedAtBlock = (w.registry.roots k).submittedAtBlock)
      (hfree : (w.registry.roots k).disputed = false)
      (hbusy : (w'.registry.roots k).disputed = true)
      (hblock : msg.block.number < openingEnd d.game)
  | cleared
      (heff : effs = [.disputeCleared k])
      (hpending : w.registry.Pending k)
      (hstamp : (w'.registry.roots k).submittedAtBlock = (w.registry.roots k).submittedAtBlock)
      (hbusy : (w.registry.roots k).disputed = true)
      (hfree : (w'.registry.roots k).disputed = false)

theorem nextDeadline_eq_some {cfg : GameConfig} {block : Block} {deadline : ℕ} :
    Game.nextDeadline cfg block = some deadline ↔
      block.number < openingEnd cfg ∧ deadline = block.number + cfg.bisectionResponseTimeout := by
  rw [Game.nextDeadline, truncate_of_lt block.lt, checkedAdd_eq_some, openingEnd]
  constructor
  · rintro ⟨hsum, rfl⟩
    exact ⟨by omega, rfl⟩
  · rintro ⟨hend, rfl⟩
    exact ⟨by omega, rfl⟩

/-- A transaction that leaves the record and the reverted interval alone. -/
theorem RecordStep.of_same (heff : effs.any (submits k) = false)
    (hnone : .disputed k ∉ effs ∧ .disputeCleared k ∉ effs)
    (hchain : w'.registry.chain = w.registry.chain)
    (hrecord : (w'.registry.roots k).finalised = (w.registry.roots k).finalised ∧
      (w'.registry.roots k).disputed = (w.registry.roots k).disputed) (hk : w'.registry.Pending k) :
    RecordStep d w msg effs w' k :=
  .kept heff hnone ((pending_congr hchain hrecord.1).mp hk)
    (congrArg (fun c : Chain => c.stamp k) hchain) hrecord.2

/-- A write to the record `j` that keeps its flags. -/
theorem update_flags {roots : ℕ → SubmittedRoot} {j : ℕ} {r : SubmittedRoot}
    (hr : r.finalised = (roots j).finalised ∧ r.disputed = (roots j).disputed) :
    (Function.update roots j r k).finalised = (roots k).finalised ∧
      (Function.update roots j r k).disputed = (roots k).disputed := by
  by_cases hkj : k = j
  · subst hkj
    rwa [update_self]
  · rw [update_of_ne hkj]
    exact ⟨rfl, rfl⟩

/-- A sweep that leaves a record pending has left it alone. -/
theorem Sound.pending_of_sweep (hw : w.Sound) (hblock : w.block ≤ msg.block.number)
    {registry' : Registry} {f : ℕ}
    (hchain : registry'.chain = w.registry.chain.sweep f msg.block.number)
    (hfinalised : (registry'.roots k).finalised = (w.registry.roots k).finalised)
    (hk : registry'.Pending k) : k ≠ f ∧ w.registry.Pending k := by
  have hex : w.registry.Exists k := by
    have hex' := chain_exists.mpr hk.exist
    rw [hchain, Chain.sweep_exists] at hex'
    exact chain_exists.mp hex'
  have hnot : ¬ (w.registry.lowestRevertedLogIndex ≤ k ∨ f ≤ k) := by
    rw [← hw.sweep_reverted hblock hex, ← hchain, chain_swept]
    exact hk.not_reverted
  obtain ⟨hfloor, hfrom⟩ := not_or.mp hnot
  exact ⟨fun h => hfrom h.ge, hex, fun hrev => hfloor hrev.1, hfinalised ▸ hk.not_finalised⟩

attribute [local simp] recordSubmission setRoot freshRoot

theorem Transition.recordStep [Keccak] (hw : w.Sound) (hblock : w.block ≤ msg.block.number)
    (h : Transition d w msg settled effs w') (hk : w'.registry.Pending k) :
    RecordStep d w msg effs w' k := by
  cases h with
  | @submit e p stateCommit actionsRoot =>
    by_cases hke : k = e
    · subst hke
      refine .submitted (by simp [submits]) ?_ ?_
      · simp [truncate_of_lt msg.block.lt]
      · simp
    · have hroots : (w.registry.recordSubmission msg e p stateCommit actionsRoot).roots k =
          w.registry.roots k := by
        simp [update_of_ne hke]
      refine .kept (by simp [submits, Ne.symm hke]) (by simp) ?_ ?_ ?_
      · refine ⟨?_, ?_, ?_⟩
        · have hex := hk.exist
          rwa [Registry.Exists, hroots] at hex
        · have hnot := hk.not_reverted
          rwa [Registry.isRecordReverted, hroots] at hnot
        · have hfin := hk.not_finalised
          rwa [hroots] at hfin
      · rw [hroots]
      · rw [hroots]
  | @finalise j =>
    have hkj : k ≠ j := by
      rintro rfl
      have hfin := hk.not_finalised
      rw [Registry.roots_finalise, update_self] at hfin
      cases hfin
    refine .of_same rfl (by simp) (by simp) ?_ hk
    rw [Registry.roots_finalise, update_of_ne hkj]
    exact ⟨rfl, rfl⟩
  | @reclaim j =>
    exact .of_same rfl (by simp) (by simp)
      (update_flags (r := { w.registry.roots j with bond := 0 }) ⟨rfl, rfl⟩) hk
  | breaker halted => cases halted <;> exact .of_same rfl (by simp) rfl ⟨rfl, rfl⟩ hk
  | @challenge j _ _ _ _ hmay hdeadline =>
    by_cases hkj : k = j
    · subst hkj
      refine .challenged rfl hmay.record.pending ?_ hmay.record.not_disputed ?_
        (nextDeadline_eq_some.mp hdeadline).1
      · simp [Registry.setDisputed]
      · simp [Registry.setDisputed]
    · refine .of_same rfl (by simp [hkj]) (by simp) ?_ hk
      simp [Registry.setDisputed, update_of_ne hkj]
  | move | withdraw | receive => exact .of_same rfl (by simp) rfl ⟨rfl, rfl⟩ hk
  | @settle gameId _ _ _ _ _ hstatus _ hregistry =>
    cases hregistry with
    | untouched => exact .of_same rfl (by simp) rfl ⟨rfl, rfl⟩ hk
    | cleared =>
      by_cases hkf : k = (w.game.games gameId).disputedLogIndex
      · have hpending : w.registry.Pending k := by
          refine (Registry.pending_congr (by simp) ?_).mp hk
          simp [Registry.setDisputed, hkf]
        have hopened : w.game.Opened gameId := by
          by_contra hnot
          rw [(hw.table.blank gameId hnot).1] at hkf
          have hfin := hpending.not_finalised
          rw [hkf, hw.bonded.genesis_finalised] at hfin
          cases hfin
        have hactive := hw.table.active_of_game gameId hopened hstatus
        have hlock := hw.locked k (by rw [hkf, hactive]; exact hopened.1.ne')
        refine .cleared (by rw [hkf]) hpending ?_ hlock.disputed ?_
        · simp [Registry.setDisputed, hkf]
        · simp [Registry.setDisputed, hkf]
      · refine .of_same rfl (by simp [hkf]) (by simp) ?_ hk
        simp [Registry.setDisputed, update_of_ne hkf]
    | swept =>
      obtain ⟨-, hpending⟩ := hw.pending_of_sweep hblock Registry.chain_sweepFrom rfl hk
      exact .kept rfl (by simp) hpending rfl rfl
    | slashed =>
      have hflags := @update_flags k w.registry.roots
        (w.game.games gameId).disputedLogIndex
        { w.registry.roots (w.game.games gameId).disputedLogIndex with bond := 0 } ⟨rfl, rfl⟩
      obtain ⟨hkf, hpending⟩ := hw.pending_of_sweep hblock
        (by rw [Registry.chain_sweepFrom, Registry.chain_payOutBond]) hflags.1 hk
      refine .kept rfl (by simp) hpending ?_ hflags.2
      change (Function.update w.registry.roots _ _ k).submittedAtBlock = _
      rw [update_of_ne hkf]

end Records

section Challenges

theorem Sound.block_pos {w : World} (hw : w.Sound) : 0 < w.block :=
  lt_of_lt_of_le (Nat.pos_of_ne_zero hw.chain.root_exists) (hw.chain.stamp_le 0)

theorem exists_outsider (a b : Address) : ∃ c : Address, c ≠ a ∧ c ≠ b := by
  have hcard : ({a, b} : Finset Address).card < ({0, 1, 2} : Finset Address).card :=
    card_le_two.trans_lt (by decide)
  obtain ⟨c, -, hc⟩ := exists_mem_notMem_of_card_lt_card hcard
  exact ⟨c, by simpa using hc⟩

variable [Keccak] {τ : Type} {adjudicate : Adjudicator τ}
variable {d : Deployment} {w : World} {n k : ℕ}

theorem Sound.challengeable_iff (hw : w.Sound) (hk : k < 2 ^ 64) (hn : w.block ≤ n) :
    Challengeable adjudicate d w n k ↔ n < openingEnd d.game ∧ w.registry.MayDispute k := by
  constructor
  · rintro ⟨block, rfl, haccept⟩
    obtain ⟨sender, hgame, hregistry⟩ :=
      exists_outsider d.registry.faultProofGame d.game.stateRootSubmission
    obtain ⟨commit, hcommit⟩ : ∃ commit, commit ≠ (w.registry.roots k).stateCommit :=
      ⟨(w.registry.roots k).stateCommit + 1, by simp⟩
    obtain ⟨⟨w', effs⟩, hstep⟩ := haccept sender commit hgame hregistry hcommit
    unfold step at hstep
    split_ifs at hstep
    obtain ⟨c, reg, hopen, -⟩ := ofGame_some hstep
    obtain ⟨hmay, deadline, hdeadline, -⟩ := GameContract.initiateChallenge_ok hopen
    exact ⟨(nextDeadline_eq_some.mp hdeadline).1, hmay.record⟩
  · rintro ⟨hend, hmay⟩
    have hlt : n < 2 ^ 64 := by
      rw [openingEnd] at hend
      omega
    have hzero : k ≠ 0 := by
      rintro rfl
      have hfin := hmay.not_finalised
      rw [hw.bonded.genesis_finalised] at hfin
      cases hfin
    have hfree : w.game.activeGameForLogIndex k = 0 := by
      by_contra hactive
      have hbusy := (hw.locked k hactive).disputed
      rw [hmay.not_disputed] at hbusy
      cases hbusy
    have hparent := hw.chain.parent_lt k (chain_exists.mpr hmay.exist) hzero
    have hexists := hw.chain.parent_exists k (chain_exists.mpr hmay.exist) hzero
    let block : Block := ⟨n, lt_of_lt_of_le hw.block_pos hn, hlt⟩
    refine ⟨block, rfl, ?_⟩
    intro sender commit hgame hregistry hcommit
    have hopen : w.game.MayOpen d.game w.registry ⟨sender, d.game.minChallengeBond, block⟩ k commit
        (w.registry.roots (w.registry.roots k).prevEndIndex).stateCommit
        (w.registry.roots k).prevEndIndex :=
      { disputed_lt := hk
        value_eq := rfl
        no_game := hfree
        low_lt := hparent
        record := hmay
        commit_ne := hcommit
        low_eq := rfl
        low_exists := chain_exists.mp hexists
        lowCommit_eq := rfl }
    obtain ⟨⟨c, reg, effs⟩, hr⟩ := @GameContract.MayOpen.initiateChallenge d.registry
      _ _ _ _ _ _ _ _ _ hopen (nextDeadline_eq_some.mpr ⟨hend, rfl⟩)
    refine ⟨(⟨reg, c, n⟩, effs), ?_⟩
    rw [step, if_neg (by simp [hgame, hregistry]), if_neg (not_lt.mpr hn),
      if_neg (by simp [Call.payable])]
    simp only [dispatch, hr]
    rfl

end Challenges

end World

section Law

variable [Keccak] {τ : Type} {adjudicate : Adjudicator τ}
variable {d : Deployment} {w : World} {h : List (HistoryEntry τ)} {e : HistoryEntry τ} {n k : ℕ}

theorem challengeableBlocks_of_submits (heff : e.out.any (submits k) = true) :
    challengeableBlocks adjudicate d k (e :: h) = ∅ := by
  rw [challengeableBlocks, sinceSubmission, List.takeWhile_cons_of_neg (by simp [heff])]
  simp

theorem mem_challengeableBlocks_cons (heff : e.out.any (submits k) = false) :
    n ∈ challengeableBlocks adjudicate d k (e :: h) ↔
      (e.pre.block ≤ n ∧ n ≤ e.call.msg.block.number ∧ Challengeable adjudicate d e.pre n k) ∨
        n ∈ challengeableBlocks adjudicate d k h := by
  simp only [challengeableBlocks, sinceSubmission, Set.mem_ofPred_eq]
  rw [List.takeWhile_cons_of_pos (by simp [heff])]
  simp only [List.mem_cons, exists_eq_or_imp]

/-- Where the blocks since the submission of a pending record went.  In a block in which the
record is free a challenge was possible, and the rest was taken by games. -/
structure WindowLaw (adjudicate : Adjudicator τ) (d : Deployment) (k : ℕ)
    (h : List (HistoryEntry τ)) (w : World) : Prop where
  taken : ∀ n ∈ (gameTime d.game k h).taken,
    (w.registry.roots k).submittedAtBlock ≤ n ∧ n < openingEnd d.game ∧
      n < if (w.registry.roots k).disputed then (gameTime d.game k h).openedAt else w.block
  free : (w.registry.roots k).disputed = false → ∀ n,
    (n ∈ challengeableBlocks adjudicate d k h ∨ n = w.block ∧ n < openingEnd d.game) ↔
      (w.registry.roots k).submittedAtBlock ≤ n ∧ n ≤ w.block ∧ n < openingEnd d.game ∧
        n ∉ (gameTime d.game k h).taken
  busy : (w.registry.roots k).disputed = true →
    (w.registry.roots k).submittedAtBlock ≤ (gameTime d.game k h).openedAt ∧
      (gameTime d.game k h).openedAt ≤ w.block ∧
      (gameTime d.game k h).openedAt < openingEnd d.game ∧ ∀ n,
      n ∈ challengeableBlocks adjudicate d k h ↔
        (w.registry.roots k).submittedAtBlock ≤ n ∧ n ≤ (gameTime d.game k h).openedAt ∧
          n ∉ (gameTime d.game k h).taken

/-- A record that is free until the next transaction could be challenged until then. -/
theorem WindowLaw.mem_of_free (hlaw : WindowLaw adjudicate d k h e.pre) (hw : e.pre.Sound)
    (hk : k < 2 ^ 64) (hmay : e.pre.registry.MayDispute k)
    (hblock : e.pre.block ≤ e.call.msg.block.number)
    (heff : e.out.any (submits k) = false) :
    n ∈ challengeableBlocks adjudicate d k (e :: h) ↔
      (e.pre.registry.roots k).submittedAtBlock ≤ n ∧ n ≤ e.call.msg.block.number ∧
        n < openingEnd d.game ∧ n ∉ (gameTime d.game k h).taken := by
  have hfree := hlaw.free hmay.not_disputed n
  have htaken := hlaw.taken n
  have hstamp : (e.pre.registry.roots k).submittedAtBlock ≤ e.pre.block := hw.chain.stamp_le k
  rw [hmay.not_disputed] at htaken
  rw [mem_challengeableBlocks_cons heff]
  rcases le_or_gt e.pre.block n with hn | hn
  · rw [hw.challengeable_iff hk hn]
    constructor
    · rintro (⟨-, hle, hend, -⟩ | hmem)
      · exact ⟨hstamp.trans hn, hle, hend, fun hin => by simpa [hn.not_gt] using (htaken hin).2.2⟩
      · obtain ⟨hs, hle, hend, hnot⟩ := hfree.mp (Or.inl hmem)
        exact ⟨hs, hle.trans hblock, hend, hnot⟩
    · rintro ⟨-, hle, hend, -⟩
      exact Or.inl ⟨hn, hle, hend, hmay⟩
  · constructor
    · rintro (⟨hle, -, -⟩ | hmem)
      · omega
      · obtain ⟨hs, hle, hend, hnot⟩ := hfree.mp (Or.inl hmem)
        exact ⟨hs, hle.trans hblock, hend, hnot⟩
    · rintro ⟨hs, -, hend, hnot⟩
      rcases hfree.mpr ⟨hs, hn.le, hend, hnot⟩ with hmem | ⟨heq, -⟩
      · exact Or.inr hmem
      · omega

/-- A disputed record cannot be challenged until the next transaction. -/
theorem mem_of_busy (hw : e.pre.Sound) (hk : k < 2 ^ 64)
    (hbusy : (e.pre.registry.roots k).disputed = true)
    (heff : e.out.any (submits k) = false) :
    n ∈ challengeableBlocks adjudicate d k (e :: h) ↔ n ∈ challengeableBlocks adjudicate d k h := by
  rw [mem_challengeableBlocks_cons heff, or_iff_right]
  rintro ⟨hle, -, hchallenge⟩
  have hfree := ((hw.challengeable_iff hk hle).mp hchallenge).2.not_disputed
  rw [hbusy] at hfree
  cases hfree

theorem WindowLaw.of_free (hfree : (w.registry.roots k).disputed = false)
    (htaken : ∀ n ∈ (gameTime d.game k h).taken,
      (w.registry.roots k).submittedAtBlock ≤ n ∧ n < openingEnd d.game ∧ n < w.block)
    (hmem : ∀ n, (n ∈ challengeableBlocks adjudicate d k h ∨ n = w.block ∧ n < openingEnd d.game) ↔
      (w.registry.roots k).submittedAtBlock ≤ n ∧ n ≤ w.block ∧ n < openingEnd d.game ∧
        n ∉ (gameTime d.game k h).taken) : WindowLaw adjudicate d k h w where
  taken := by rwa [hfree]
  free := fun _ => hmem
  busy := by simp [hfree]

section Step

variable {tx : Tx τ} {w' : World} {effs : List RegistryEffect}
variable (hw : w.Sound) (hk : k < 2 ^ 64) (hblock : w.block ≤ tx.msg.block.number)
variable (hnow : w'.block = tx.msg.block.number)

include hnow in
theorem windowLaw_submitted (heff : effs.any (submits k) = true)
    (hstamp : (w'.registry.roots k).submittedAtBlock = tx.msg.block.number)
    (hfree : (w'.registry.roots k).disputed = false) :
    WindowLaw adjudicate d k (⟨w, tx, effs⟩ :: h) w' := by
  have htime : gameTime d.game k (⟨w, tx, effs⟩ :: h) = ⟨∅, 0⟩ := if_pos heff
  refine .of_free hfree (by simp [htime]) fun n => ?_
  rw [challengeableBlocks_of_submits heff, htime, hstamp, hnow]
  simp
  omega

variable (hlaw : WindowLaw adjudicate d k h w)
variable (hstamp : (w'.registry.roots k).submittedAtBlock = (w.registry.roots k).submittedAtBlock)

include hw hk hblock hnow hlaw hstamp

theorem WindowLaw.kept_free (hpending : w.registry.Pending k)
    (heff : effs.any (submits k) = false)
    (htime : gameTime d.game k (⟨w, tx, effs⟩ :: h) = gameTime d.game k h)
    (hfree : (w.registry.roots k).disputed = false)
    (hfree' : (w'.registry.roots k).disputed = false) :
    WindowLaw adjudicate d k (⟨w, tx, effs⟩ :: h) w' := by
  have htaken : ∀ n ∈ (gameTime d.game k h).taken,
      (w.registry.roots k).submittedAtBlock ≤ n ∧ n < openingEnd d.game ∧ n < w.block := by
    simpa [hfree] using hlaw.taken
  have hstampLe : (w.registry.roots k).submittedAtBlock ≤ w.block := hw.chain.stamp_le k
  refine .of_free hfree' ?_ fun n => ?_
  · intro n hn
    rw [htime] at hn
    obtain ⟨hs, hend, hlt⟩ := htaken n hn
    rw [hstamp, hnow]
    exact ⟨hs, hend, hlt.trans_le hblock⟩
  rw [hlaw.mem_of_free (e := ⟨w, tx, effs⟩) hw hk (hpending.mayDispute hfree) hblock heff, htime,
    hstamp, hnow]
  constructor
  · rintro (hin | ⟨rfl, hend⟩)
    · exact hin
    · refine ⟨hstampLe.trans hblock, le_rfl, hend, fun hin => ?_⟩
      exact absurd (htaken _ hin).2.2 (not_lt.mpr hblock)
  · exact Or.inl

theorem WindowLaw.kept_busy (heff : effs.any (submits k) = false)
    (htime : gameTime d.game k (⟨w, tx, effs⟩ :: h) = gameTime d.game k h)
    (hbusy : (w.registry.roots k).disputed = true)
    (hbusy' : (w'.registry.roots k).disputed = true) :
    WindowLaw adjudicate d k (⟨w, tx, effs⟩ :: h) w' := by
  obtain ⟨hs, hle, hend, hopen⟩ := hlaw.busy hbusy
  refine ⟨?_, by simp [hbusy'], fun _ => ?_⟩
  · have htaken := hlaw.taken
    rw [hbusy] at htaken
    rwa [htime, hstamp, hbusy']
  · rw [htime, hstamp, hnow]
    exact ⟨hs, hle.trans hblock, hend, fun n => (mem_of_busy hw hk hbusy heff).trans (hopen n)⟩

theorem WindowLaw.challenged (hpending : w.registry.Pending k)
    (hfree : (w.registry.roots k).disputed = false)
    (hbusy : (w'.registry.roots k).disputed = true)
    (hend : tx.msg.block.number < openingEnd d.game) :
    WindowLaw adjudicate d k (⟨w, tx, [.disputed k]⟩ :: h) w' := by
  have htime : gameTime d.game k (⟨w, tx, [.disputed k]⟩ :: h) =
      ⟨(gameTime d.game k h).taken, tx.msg.block.number⟩ := by
    simp [gameTime, submits]
  have hstampLe : (w.registry.roots k).submittedAtBlock ≤ w.block := hw.chain.stamp_le k
  refine ⟨?_, by simp [hbusy], fun _ => ?_⟩
  · intro n hn
    rw [htime] at hn
    obtain ⟨hs, hlast, hlt⟩ := hlaw.taken n hn
    rw [hfree] at hlt
    rw [hstamp, hbusy, htime]
    exact ⟨hs, hlast, hlt.trans_le hblock⟩
  rw [htime, hstamp, hnow]
  refine ⟨hstampLe.trans hblock, le_rfl, hend, fun n => ?_⟩
  rw [hlaw.mem_of_free (e := ⟨w, tx, [.disputed k]⟩) hw hk (hpending.mayDispute hfree) hblock rfl]
  constructor
  · rintro ⟨hs, hle, -, hnot⟩
    exact ⟨hs, hle, hnot⟩
  · rintro ⟨hs, hle, hnot⟩
    exact ⟨hs, hle, hle.trans_lt hend, hnot⟩

theorem WindowLaw.cleared (hbusy : (w.registry.roots k).disputed = true)
    (hfree : (w'.registry.roots k).disputed = false) :
    WindowLaw adjudicate d k (⟨w, tx, [.disputeCleared k]⟩ :: h) w' := by
  have htime : gameTime d.game k (⟨w, tx, [.disputeCleared k]⟩ :: h) =
      ⟨(gameTime d.game k h).taken ∪ Ico ((gameTime d.game k h).openedAt + 1)
        (min tx.msg.block.number (openingEnd d.game)), 0⟩ := by
    simp [gameTime, submits]
  obtain ⟨hs, hle, hend, hopen⟩ := hlaw.busy hbusy
  have htaken := hlaw.taken
  rw [hbusy] at htaken
  refine .of_free hfree ?_ fun n => ?_
  · intro n hn
    rw [htime, mem_union, mem_Ico, lt_min_iff] at hn
    rw [hstamp, hnow]
    rcases hn with hn | ⟨hlow, hhigh, hlast⟩
    · obtain ⟨hsn, hlast, hlt⟩ := htaken n hn
      exact ⟨hsn, hlast, hlt.trans_le (hle.trans hblock)⟩
    · exact ⟨by omega, hlast, hhigh⟩
  rw [mem_of_busy hw hk hbusy rfl, hopen n, htime, hstamp, hnow, mem_union,
    mem_Ico, lt_min_iff, not_or]
  have htakenn : n ∈ (gameTime d.game k h).taken → n < (gameTime d.game k h).openedAt :=
    fun hin => (htaken n hin).2.2
  constructor
  · rintro (⟨hsn, hlen, hnot⟩ | ⟨rfl, hlast⟩)
    · exact ⟨hsn, by omega, by omega, hnot, by omega⟩
    · exact ⟨by omega, le_rfl, hlast, fun hin => by have := htakenn hin; omega, by omega⟩
  · rintro ⟨hsn, hlen, hlast, hnot, hout⟩
    rcases eq_or_lt_of_le hlen with rfl | hlt
    · exact Or.inr ⟨rfl, hlast⟩
    · exact Or.inl ⟨hsn, by omega, hnot⟩

omit hlaw hstamp in
theorem WindowLaw.step (hlaw : w.registry.Pending k → WindowLaw adjudicate d k h w)
    (hstep : World.RecordStep d w tx.msg effs w' k) :
    WindowLaw adjudicate d k (⟨w, tx, effs⟩ :: h) w' := by
  cases hstep with
  | submitted heff hstamp hfree => exact windowLaw_submitted hnow heff hstamp hfree
  | kept heff hnone hpending hstamp hsame =>
    have htime : gameTime d.game k (⟨w, tx, effs⟩ :: h) = gameTime d.game k h := by
      simp only [gameTime, heff, hnone.1, hnone.2]
      rfl
    cases hflag : (w.registry.roots k).disputed with
    | false =>
      exact (hlaw hpending).kept_free hw hk hblock hnow hstamp hpending heff htime hflag
        (hsame.trans hflag)
    | true =>
      exact (hlaw hpending).kept_busy hw hk hblock hnow hstamp heff htime hflag (hsame.trans hflag)
  | challenged heff hpending hstamp hfree hbusy hend =>
    subst heff
    exact (hlaw hpending).challenged hw hk hblock hnow hstamp hpending hfree hbusy hend
  | cleared heff hpending hstamp hbusy hfree =>
    subst heff
    exact (hlaw hpending).cleared hw hk hblock hnow hstamp hbusy hfree

end Step

variable {tx : Tx τ} {w' : World} {effs : List RegistryEffect}

theorem windowLaw_of_run (hk : k < 2 ^ 64) (hrun : Run (system adjudicate d) (World.deploy d) h w)
    (hpending : w.registry.Pending k) : WindowLaw adjudicate d k h w := by
  refine hrun.invariant ?_ ?_ hpending
  · -- before the first submission there is only genesis, which is final
    intro hgenesis
    exfalso
    by_cases hzero : k = 0
    · have hfin := hgenesis.not_finalised
      rw [hzero, (World.sound_deploy d).bonded.genesis_finalised] at hfin
      cases hfin
    · apply hgenesis.exist
      simp [World.deploy, construct, update_of_ne hzero, SubmittedRoot.absent]
  · intro h w tx w' effs hrun hlaw hstep hpending'
    have hw := World.sound_of_run hrun
    obtain ⟨hblock, htrans⟩ := World.step_transition hstep
    exact WindowLaw.step hw hk hblock htrans.block_eq hlaw (htrans.recordStep hw hblock hpending')

/-- The blocks in which a finalised record could be challenged. -/
theorem challengeableBlocks_of_finalise (hrun : Run (system adjudicate d) (World.deploy d) h w)
    (hstep : World.step adjudicate d w tx = some (w', effs))
    (hcall : tx.call = .finaliseStateRoot k) :
    challengeableBlocks adjudicate d k (⟨w, tx, effs⟩ :: h) =
        ↑(Ico (w.registry.roots k).submittedAtBlock
          (min (tx.msg.block.number + 1) (openingEnd d.game)) \ (gameTime d.game k h).taken) ∧
      (gameTime d.game k h).taken ⊆ Ico (w.registry.roots k).submittedAtBlock
        (min (tx.msg.block.number + 1) (openingEnd d.game)) := by
  have hw := World.sound_of_run hrun
  obtain ⟨hblock, -⟩ := World.step_transition hstep
  unfold World.step at hstep
  split_ifs at hstep
  rw [hcall] at hstep
  obtain ⟨reg, eff, hr, -, rfl⟩ := World.ofRegistry_some hstep
  obtain ⟨hmay, -, rfl⟩ := finaliseStateRoot_ok hr
  have hpending : w.registry.Pending k := ⟨hmay.exist, hmay.not_reverted, hmay.not_finalised⟩
  have hlaw := windowLaw_of_run hmay.logIndex_lt hrun hpending
  constructor
  · ext n
    rw [hlaw.mem_of_free (e := ⟨w, tx, _⟩) hw hmay.logIndex_lt
      (hpending.mayDispute hmay.not_disputed) hblock rfl]
    simp only [coe_sdiff, coe_Ico, Set.mem_sdiff, Set.mem_Ico, lt_min_iff,
      mem_coe, Nat.lt_succ_iff, and_assoc]
  · intro n hn
    obtain ⟨hs, hend, hlt⟩ := hlaw.taken n hn
    rw [hmay.not_disputed] at hlt
    simp only [Bool.false_eq_true, if_false] at hlt
    rw [mem_Ico, lt_min_iff]
    omega

/--
A finalised record could be challenged in as many blocks as the dispute window has, if and only if
the finalisation waited for the window and, on top of it, for the blocks that games on the record
took.
-/
theorem finalised_was_challengeable_iff
    {tx : Tx τ}
    {w' : World}
    {effs : List RegistryEffect}
    (hrun : Run (system adjudicate d) (World.deploy d) h w)
    (hstep : World.step adjudicate d w tx = some (w', effs))
    (hcall : tx.call = .finaliseStateRoot k) :
    d.registry.faultProofDisputeWindow ≤
      (challengeableBlocks adjudicate d k (⟨w, tx, effs⟩ :: h)).ncard ↔
    (w.registry.roots k).submittedAtBlock + d.registry.faultProofDisputeWindow +
        (gameTime d.game k h).taken.card ≤
      min (tx.msg.block.number + 1) (openingEnd d.game) := by
  obtain ⟨hblocks, hsubset⟩ := challengeableBlocks_of_finalise hrun hstep hcall
  have hpos := d.registry.window_pos
  rw [hblocks, Set.ncard_coe_finset, card_sdiff_of_subset hsubset, Nat.card_Ico]
  omega

end Law

/-- The challenger opens a game at once, and the two parties let it run out. -/
def colludingRun : List (Tx Unit) :=
  [ sampleTx 1 10 2 (.submitStateRoot 2 0 2 0),
    sampleTx 6 10 2 (.initiateChallenge false 2 9 1 0),
    sampleTx 1 0 7 (.submitMidpoint 1 3),
    sampleTx 6 0 13 (.claimTimeout false 1) ]

/-- The record is finalised in the block of the settlement, and nobody else could challenge it in
more than two blocks. -/
theorem game_uses_up_window :
    ∃ (h : List (HistoryEntry Unit)) (w w' : World) (effs : List RegistryEffect),
      Run sampleSystem sampleStart h w ∧
      sampleSystem.step w (sampleTx 1 0 13 (.finaliseStateRoot 2)) = some (w', effs) ∧
      (@challengeableBlocks _ zeroKeccak (fun _ _ _ => none) sampleDeployment 2
        (⟨w, sampleTx 1 0 13 (.finaliseStateRoot 2), effs⟩ :: h)).ncard = 2 ∧
      sampleDeployment.registry.faultProofDisputeWindow = 10 := by
  obtain ⟨h, w, hrun, hsome, hstamp, htaken⟩ :=
    Run.exists_of_decide sampleSystem sampleStart colludingRun
      (fun h w => (sampleSystem.step w (sampleTx 1 0 13 (.finaliseStateRoot 2))).isSome ∧
        (w.registry.roots 2).submittedAtBlock = 2 ∧
        (gameTime sampleDeployment.game 2 h).taken = Ico 3 13) (by decide)
  obtain ⟨⟨w', effs⟩, hstep⟩ := Option.isSome_iff_exists.mp hsome
  refine ⟨h, w, w', effs, hrun, hstep, ?_, rfl⟩
  obtain ⟨hblocks, -⟩ := @challengeableBlocks_of_finalise zeroKeccak Unit (fun _ _ _ => none)
    sampleDeployment w h 2 (sampleTx 1 0 13 (.finaliseStateRoot 2)) w' effs hrun hstep rfl
  rw [hblocks, Set.ncard_coe_finset, hstamp, htaken]
  decide

/-- A finalisation that waits for the window and the ten blocks of the game. -/
theorem finalised_was_challengeable_after_game :
    ∃ (h : List (HistoryEntry Unit)) (w : World) (effs : List RegistryEffect),
      Run sampleSystem sampleStart h w ∧
      (gameTime sampleDeployment.game 2 h).taken.card = 10 ∧
      10 ≤ (@challengeableBlocks _ zeroKeccak (fun _ _ _ => none) sampleDeployment 2
        (⟨w, sampleTx 1 0 22 (.finaliseStateRoot 2), effs⟩ :: h)).ncard := by
  obtain ⟨h, w, hrun, hsome, hstamp, htaken⟩ :=
    Run.exists_of_decide sampleSystem sampleStart colludingRun
      (fun h w => (sampleSystem.step w (sampleTx 1 0 22 (.finaliseStateRoot 2))).isSome ∧
        (w.registry.roots 2).submittedAtBlock = 2 ∧
        (gameTime sampleDeployment.game 2 h).taken.card = 10) (by decide)
  obtain ⟨⟨w', effs⟩, hstep⟩ := Option.isSome_iff_exists.mp hsome
  refine ⟨h, w, effs, hrun, htaken, (@finalised_was_challengeable_iff zeroKeccak Unit
    (fun _ _ _ => none) sampleDeployment w h 2 (sampleTx 1 0 22 (.finaliseStateRoot 2)) w' effs hrun
    hstep rfl).mpr ?_⟩
  rw [hstamp, htaken]
  decide

end Knomosis.Contracts
