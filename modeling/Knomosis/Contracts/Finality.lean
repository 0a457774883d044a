import Knomosis.Contracts.RevertedStatus

/-!
# Finalised records

A record is finalised after its own window, when no game of its own is open.
A revert sweeps everything from its start to the latest record, finalised or
not.  So an open game on an ancestor of a finalised record, and the timeout of a
game id that was never opened, break finality.
-/

namespace Knomosis.Contracts

open Lib Function Registry

def FinalityLaw (w : World) : Prop :=
  ∀ k, (w.registry.roots k).finalised = true → ¬ w.registry.isRecordReverted k

/-- Every revert of the transaction starts above all finalised records and finds
them below the reverted interval. -/
def RevertsAboveFinalised {τ : Type} (e : HistoryEntry τ) : Prop :=
  ∀ f, .revertedFrom f ∈ e.out → ∀ k, (e.pre.registry.roots k).finalised = true →
    k < f ∧ k < e.pre.registry.lowestRevertedLogIndex

namespace World

/-- Only submitted records are final. -/
def FinalisedExist (w : World) : Prop :=
  ∀ k, (w.registry.roots k).finalised = true → w.registry.Exists k

section Step

variable [Keccak] {d : Deployment} {w w' : World} {msg : Msg}
variable {effs : List RegistryEffect} {settled : Option ℕ}

/-- A finalised record was final before, or this transaction finalised it. -/
theorem Transition.finalised_cases (h : Transition d w msg settled effs w') {k : ℕ}
    (hk : (w'.registry.roots k).finalised = true) :
    (w.registry.roots k).finalised = true ∧
      (∀ a b, RegistryEffect.submitted k a b ∉ effs) ∨
    w.registry.MayFinalise d.registry msg.block k ∧ w'.registry.chain = w.registry.chain := by
  have hwrite : ∀ {j : ℕ} {r : SubmittedRoot},
      (Function.update w.registry.roots j r k).finalised = true →
      r.finalised = (w.registry.roots j).finalised →
      (w.registry.roots k).finalised = true := by
    intro j r hfin hr
    by_cases hkj : k = j
    · subst hkj
      rwa [update_self, hr] at hfin
    · rwa [update_of_ne hkj] at hfin
  cases h with
  | @submit e _ _ _ =>
    have hne : k ≠ e := by
      rintro rfl
      simp [recordSubmission, setRoot, freshRoot] at hk
    refine Or.inl ⟨?_, by simp [hne]⟩
    simpa [recordSubmission, setRoot, update_of_ne hne] using hk
  | @finalise j hmay =>
    by_cases hkj : k = j
    · subst hkj
      exact Or.inr ⟨hmay, by simp⟩
    · simp only [roots_finalise, update_of_ne hkj] at hk
      exact Or.inl ⟨hk, by simp⟩
  | reclaim | challenge => exact Or.inl ⟨hwrite hk rfl, by simp⟩
  | breaker halted => exact Or.inl ⟨hk, by cases halted <;> simp⟩
  | move | withdraw | receive => exact Or.inl ⟨hk, by simp⟩
  | settle _ _ hregistry =>
    cases hregistry with
    | untouched | swept => exact Or.inl ⟨hk, by simp⟩
    | cleared | slashed => exact Or.inl ⟨hwrite hk rfl, by simp⟩

theorem Transition.finalised_of_revert (h : Transition d w msg settled effs w') {f k : ℕ}
    (hf : .revertedFrom f ∈ effs) (hk : (w.registry.roots k).finalised = true) :
    (w'.registry.roots k).finalised = true := by
  cases h with
  | @settle gameId _ _ _ _ _ _ _ hregistry =>
    cases hregistry with
    | untouched | cleared => simp at hf
    | swept => exact hk
    | slashed hmay =>
      have hne : k ≠ (w.game.games gameId).disputedLogIndex := by
        rintro rfl
        exact absurd hmay.not_finalised (by simp [hk])
      simpa [sweepFrom, payOutBond, releaseOutstanding,
        setRoot, update_of_ne hne] using hk
  | breaker halted => cases halted <;> simp at hf
  | _ => simp at hf

variable {τ : Type} {tx : Tx τ}

theorem Transition.finalisedExist (hw : w.Sound) (hold : w.FinalisedExist)
    (h : Transition d w msg settled effs w') : w'.FinalisedExist := by
  intro k hk
  rw [← chain_exists]
  rcases h.finalised_cases hk with ⟨hfin, _⟩ | ⟨hmay, hchain⟩
  · have hex : w.registry.chain.Exists k := hold k hfin
    have hstep := h.chainStep hw
    generalize w'.registry.chain = c', w'.game.activeGameForLogIndex = active at hstep ⊢
    cases hstep with
    | keep | sweep => exact hex
    | append => exact Chain.append_exists_of_exists msg.block.pos hex
  · rw [hchain]
    exact hmay.exist

/-- A transaction that reverts above the finalised records reverts none of them. -/
theorem Transition.finalityLaw (hw : w.Sound) (hblock : w.block ≤ tx.msg.block.number)
    (hexist : w.FinalisedExist) (hlaw : FinalityLaw w)
    (hguard : RevertsAboveFinalised (⟨w, tx, effs⟩ : HistoryEntry τ))
    (h : Transition d w tx.msg settled effs w') : FinalityLaw w' := by
  intro k hk
  have hs := hw.chain.mono hblock
  rw [← chain_swept]
  rcases h.finalised_cases hk with ⟨hold, hself⟩ | ⟨hmay, hchain⟩
  · have hlive : w.registry.chain.Live k := ⟨hexist k hold, hlaw k hold⟩
    have hstep := h.chainStep hw
    generalize w'.registry.chain = c', w'.game.activeGameForLogIndex = active at hstep ⊢
    cases hstep with
    | keep => exact hlive.2
    | @append e a b =>
      have hne : k ≠ e := by
        rintro rfl
        exact hself a b (by simp)
      exact ((Chain.append_live_of_ne hne).mpr hlive).2
    | @sweep _ _ _ f _ _ _ hsweep =>
      obtain ⟨hlt, hfloor⟩ := hguard f ((hsweep f).mpr rfl) k hold
      exact (hs.sweep_live.mpr ⟨hlive.1, hfloor, hlt⟩).2
  · rw [hchain]
    exact hmay.not_reverted

/-- A transaction after which no finalised record reads as reverted reverted
above the finalised records only. -/
theorem Transition.above_of_finalityLaw (hw : w.Sound) (hblock : w.block ≤ tx.msg.block.number)
    (hexist : w.FinalisedExist) (h : Transition d w tx.msg settled effs w')
    (hlaw : FinalityLaw w') :
    RevertsAboveFinalised (⟨w, tx, effs⟩ : HistoryEntry τ) := by
  intro f hf k hk
  have hs := hw.chain.mono hblock
  have hnot : ¬ w'.registry.chain.Swept k := hlaw k (h.finalised_of_revert hf hk)
  have hstep := h.chainStep hw
  generalize w'.registry.chain = c', w'.game.activeGameForLogIndex = active at hstep hnot
  cases hstep with
  | keep _ hsweep => exact absurd hf (hsweep f)
  | append => exact absurd hf (by simp)
  | @sweep _ _ _ _ _ _ _ hsweep =>
    obtain rfl := (hsweep f).mp hf
    rw [hs.sweep_swept (hexist k hk)] at hnot
    push Not at hnot
    exact ⟨hnot.2, hnot.1⟩

end Step

theorem finalised_deploy [Keccak] {d : Deployment} {k : ℕ}
    (hk : ((deploy d).registry.roots k).finalised = true) : k = 0 := by
  by_contra h
  simp [deploy, construct, SubmittedRoot.absent, h] at hk

theorem finalisedExist_of_run [Keccak] {adjudicate : Adjudicator τ} {d : Deployment}
    {h : List (HistoryEntry τ)} {w : World}
    (hrun : Run (system adjudicate d) (deploy d) h w) : w.FinalisedExist := by
  refine hrun.invariant (fun k hk => finalised_deploy hk ▸ (sound_deploy d).chain.root_exists) ?_
  intro h w tx w' effs hprev hold hstep
  obtain ⟨_, htrans⟩ := step_transition hstep
  exact htrans.finalisedExist (sound_of_run hprev) hold

end World

section Runs

variable [Keccak] {τ : Type} {adjudicate : Adjudicator τ}
variable {d : Deployment} {h : List (HistoryEntry τ)} {w : World}

/--
In a run no finalised record ever reads as reverted if and only if every revert
starts above all finalised records and finds them below the reverted interval.
-/
theorem finality_permanent_iff (hrun : Run (system adjudicate d) (World.deploy d) h w) :
    Run.Always (fun _ w => FinalityLaw w) h w ↔ ∀ e ∈ h, RevertsAboveFinalised e := by
  refine Run.always_iff_guard RevertsAboveFinalised (fun _ w => FinalityLaw w)
    (fun _ w => FinalityLaw w) ?_ (fun _ _ _ hlaw => hlaw) ?_ ?_ hrun
  · intro k hk hreverted
    obtain rfl := World.finalised_deploy hk
    exact absurd hreverted.1 (by simp [World.deploy, construct, noRevertedFloor])
  · intro h w tx w' effs hrun hlaw hstep hguard
    obtain ⟨hblock, htrans⟩ := World.step_transition hstep
    exact htrans.finalityLaw (World.sound_of_run hrun) hblock (World.finalisedExist_of_run hrun)
      hlaw hguard
  · intro h w tx w' effs hrun _ hstep hlaw
    obtain ⟨hblock, htrans⟩ := World.step_transition hstep
    exact htrans.above_of_finalityLaw (World.sound_of_run hrun) hblock
      (World.finalisedExist_of_run hrun) hlaw

end Runs

/-- The second batch is finalised while the game on the first is open, and the
sequencer then times out. -/
def openAncestorRun : List (Tx Unit) :=
  [ sampleTx 1 10 2 (.submitStateRoot 1 0 2 0),
    sampleTx 1 10 3 (.submitStateRoot 2 1 2 0),
    sampleTx 6 10 4 (.initiateChallenge false 1 9 1 0),
    sampleTx 1 0 14 (.finaliseStateRoot 2),
    sampleTx 6 0 15 (.claimTimeout false 1) ]

/-- A finalised record reads as reverted after its ancestor lost its game. -/
theorem finalised_record_reads_reverted :
    ∃ (h : List (HistoryEntry Unit)) (w : World),
      Run sampleSystem sampleStart h w ∧
        (w.registry.roots 2).finalised = true ∧
        w.registry.isRecordReverted 2 :=
  Run.exists_of_decide _ _ openAncestorRun _ (by decide)

/-- The first batch is finalised while the game on the second is open, and the
sequencer then times out. -/
def openDescendantRun : List (Tx Unit) :=
  [ sampleTx 1 10 2 (.submitStateRoot 1 0 2 0),
    sampleTx 1 10 3 (.submitStateRoot 2 1 2 0),
    sampleTx 6 10 4 (.initiateChallenge false 2 9 2 1),
    sampleTx 1 0 14 (.finaliseStateRoot 1),
    sampleTx 6 0 15 (.claimTimeout false 1) ]

/-- The first batch stays final when the second loses its game. -/
theorem finality_permanent_second_reverted :
    ∃ (h : List (HistoryEntry Unit)) (w : World),
      Run sampleSystem sampleStart h w ∧
        (∃ e ∈ h, .revertedFrom 2 ∈ e.out ∧ (e.pre.registry.roots 1).finalised = true) ∧
        Run.Always (fun _ w => FinalityLaw w) h w := by
  obtain ⟨h, w, hrun, hreverted, htest⟩ :=
    Run.exists_of_decide sampleSystem sampleStart openDescendantRun
      (fun h _ =>
        (∃ e ∈ h, .revertedFrom 2 ∈ e.out ∧ (e.pre.registry.roots 1).finalised = true) ∧
        ∀ e ∈ h, ∀ f ∈ e.out.filterMap RegistryEffect.revert?,
          ∀ k ≤ e.pre.registry.latestSubmittedLogIndex,
            (e.pre.registry.roots k).finalised = true →
              k < f ∧ k < e.pre.registry.lowestRevertedLogIndex) (by decide)
  refine ⟨h, w, hrun, hreverted, (@finality_permanent_iff zeroKeccak _ _ _ _ _ hrun).mpr ?_⟩
  intro e he f hf k hk
  obtain ⟨_, _, hbefore, _⟩ := hrun.step_of_mem he
  have hex := @World.finalisedExist_of_run _ zeroKeccak _ _ _ _ hbefore k hk
  have hle := (@World.sound_of_run zeroKeccak _ _ _ _ _ hbefore).chain.le_latest k hex
  exact htest e he f (List.mem_filterMap.mpr ⟨_, hf, rfl⟩) k hle hk

end Knomosis.Contracts
