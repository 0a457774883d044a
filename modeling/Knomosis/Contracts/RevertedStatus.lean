import Knomosis.Contracts.Invariants

/-!
# When a record reads as reverted

`_isRecordReverted` decides from one interval and one block number, shared by
all reverts, what the history says about one record: whether the record or an
ancestor of it was reverted after its submission.  The two agree in a run
exactly when every step of it is well behaved in two ways.

* A revert from `f` is confined: the live records in the interval after it are
  descendants of `f`.  A corrected record resubmitted into the interval of an
  earlier revert is caught by any later revert of a record above it.
* A submission into the interval does not share its block with the last revert.
-/

namespace Knomosis.Contracts

open Lib

section History

variable {τ : Type}

/-- After its submission the record at `k` or an ancestor of it was reverted,
the ancestors taken as they were at that time. -/
def revertedSince : List (HistoryEntry τ) → ℕ → Prop
  | [], _ => False
  | e :: h, k =>
    (∀ a b, RegistryEffect.submitted k a b ∉ e.out) ∧
      ((∃ f, .revertedFrom f ∈ e.out ∧ e.pre.registry.chain.Ancestor f k) ∨ revertedSince h k)

/-- Every revert of the transaction is confined to the descendants of the record
it starts from. -/
def ConfinedReverts (e : HistoryEntry τ) : Prop :=
  ∀ f, .revertedFrom f ∈ e.out → e.pre.registry.chain.Confined f

/-- No submission of the transaction enters the reverted interval in the block
of the last revert. -/
def FreshSubmissions (e : HistoryEntry τ) : Prop :=
  ∀ k a b, .submitted k a b ∈ e.out →
    ¬ (e.pre.registry.lowestRevertedLogIndex ≤ k ∧
      k ≤ e.pre.registry.highestRevertedLogIndex ∧
      e.call.msg.block.number = e.pre.registry.lastRevertAtBlock)

/-- The reverted status of every record is what the history says. -/
def StatusLaw (h : List (HistoryEntry τ)) (w : World) : Prop :=
  ∀ k, w.registry.Exists k → (w.registry.isRecordReverted k ↔ revertedSince h k)

end History

namespace World

/-- The live records are the canonical ones, and a game on a reverted record has
its whole batch above the floor. -/
structure Tidy (w : World) : Prop where
  canonical : w.registry.chain.Canonical
  stale : ∀ k, w.game.activeGameForLogIndex k ≠ 0 → w.registry.isRecordReverted k →
    w.registry.lowestRevertedLogIndex ≤ (w.registry.roots k).prevEndIndex

theorem tidy_deploy [Keccak] (d : Deployment) : (deploy d).Tidy := by
  refine ⟨⟨?_, ?_⟩, ?_⟩
  · rintro k ⟨hk, _⟩
    by_cases h : k = 0
    · subst h
      exact .refl
    · exact absurd hk (by
        simp [deploy, Registry.construct, Registry.chain, Chain.Exists, SubmittedRoot.absent, h])
  · intro k hk hne
    have hle := (sound_deploy d).chain.ancestor_le hk
    exact absurd (Nat.le_zero.mp hle) hne
  · intro k hk
    exact absurd rfl hk

section Step

variable [Keccak] {d : Deployment} {w w' : World} {msg : Msg}
variable {effs : List RegistryEffect} {settled : Option ℕ}

omit [Keccak] in
/-- The record a settlement reverts from was live, or its batch lies above the
floor. -/
theorem Tidy.stale_disputed (hw : w.Sound) (ht : w.Tidy) {gameId : ℕ}
    (hstatus : (w.game.games gameId).status = .inProgress)
    (hrev : w.registry.isRecordReverted (w.game.games gameId).disputedLogIndex) :
    w.registry.chain.floor ≤ w.registry.chain.parent (w.game.games gameId).disputedLogIndex := by
  by_cases hop : w.game.Opened gameId
  · refine ht.stale _ ?_ hrev
    rw [hw.table.active_of_game gameId hop hstatus]
    exact hop.1.ne'
  · rw [(hw.table.blank gameId hop).1] at hrev ⊢
    rw [hw.chain.root_parent]
    exact hrev.1

theorem Transition.tidy (hw : w.Sound) (ht : w.Tidy) (hblock : w.block ≤ msg.block.number)
    (hconf : ∀ f, .revertedFrom f ∈ effs → w.registry.chain.Confined f)
    (hfresh : ∀ k a b, .submitted k a b ∈ effs →
      ¬ (w.registry.chain.append k msg.block.number).Swept k)
    (h : Transition d w msg settled effs w') : w'.Tidy := by
  have hs := hw.chain.mono hblock
  have hstep := h.chainStep hw
  suffices hgoal : w'.registry.chain.Canonical ∧
      ∀ k, w'.game.activeGameForLogIndex k ≠ 0 → w'.registry.chain.Swept k →
        w'.registry.chain.floor ≤ w'.registry.chain.parent k from
    ⟨hgoal.1, hgoal.2⟩
  generalize w'.registry.chain = c', w'.game.activeGameForLogIndex = active at hstep ⊢
  cases hstep with
  | keep _ _ hactive =>
    refine ⟨ht.canonical, ?_⟩
    intro k hk hrev
    rcases hactive k hk with hold | hnot
    · exact ht.stale k hold hrev
    · exact absurd hrev hnot
  | @append e a b hlt _ hfree =>
    refine ⟨ht.canonical.append hs msg.block.pos hlt (hfresh e a b (by simp)), ?_⟩
    intro k hk hrev
    have hne : k ≠ e := by
      rintro rfl
      exact hk hfree
    have hold : w.registry.chain.Swept k := by
      simpa [Chain.Swept, Chain.append, Function.update_of_ne hne] using hrev
    have hfloor : w.registry.chain.floor ≤ w.registry.chain.parent k := ht.stale k hk hold
    simpa [Chain.append, Function.update_of_ne hne] using hfloor
  | @sweep _ _ _ f hstatus hf _ hsweep hactive =>
    have hfex : w.registry.chain.Exists f := hf ▸ hw.disputed_exists hstatus
    have hc : w.registry.chain.Confined f := hconf f ((hsweep f).mpr rfl)
    have hstale : w.registry.chain.Swept f →
        w.registry.chain.floor ≤ w.registry.chain.parent f := by
      subst hf
      exact ht.stale_disputed hw hstatus
    refine ⟨ht.canonical.sweep hs hfex hc hstale, ?_⟩
    intro k hk hrev
    obtain ⟨hold, hne⟩ := hactive k hk
    have hkex : w.registry.chain.Exists k := (hw.locked k hold).exist
    show min w.registry.chain.floor f ≤ w.registry.chain.parent k
    rcases (ht.canonical.sweep_swept_iff hs hfex hc hkex).mp hrev with hrev | hanc
    · have hfloor : w.registry.chain.floor ≤ w.registry.chain.parent k :=
        ht.stale k hold hrev
      exact (min_le_left _ _).trans hfloor
    · have hle := hs.ancestor_le (Chain.ancestor_parent hanc hne.symm)
      exact (min_le_right _ _).trans hle

variable {τ : Type} {hist : List (HistoryEntry τ)} {tx : Tx τ}

omit [Keccak] in
/-- A submission is fresh when its record is live at once. -/
theorem Sound.fresh_iff (hw : w.Sound) (hblock : w.block ≤ tx.msg.block.number) :
    FreshSubmissions ⟨w, tx, effs⟩ ↔ ∀ k a b, .submitted k a b ∈ effs →
        ¬ (w.registry.chain.append k tx.msg.block.number).Swept k := by
  have hs := hw.chain.mono hblock
  constructor
  · intro h k a b hk hswept
    exact h k a b hk (hs.append_swept_self.mp hswept)
  · intro h k a b hk hbad
    exact h k a b hk (hs.append_swept_self.mpr hbad)

/-- A well behaved transaction keeps the status law. -/
theorem Transition.statusLaw (hw : w.Sound) (ht : w.Tidy) (hblock : w.block ≤ tx.msg.block.number)
    (hlaw : StatusLaw hist w) (hconf : ConfinedReverts (⟨w, tx, effs⟩ : HistoryEntry τ))
    (hfresh : FreshSubmissions (⟨w, tx, effs⟩ : HistoryEntry τ))
    (h : Transition d w tx.msg settled effs w') : StatusLaw (⟨w, tx, effs⟩ :: hist) w' := by
  have hs := hw.chain.mono hblock
  have hstep := h.chainStep hw
  show ∀ k, w'.registry.chain.Exists k →
    (w'.registry.chain.Swept k ↔ revertedSince (⟨w, tx, effs⟩ :: hist) k)
  generalize w'.registry.chain = c', w'.game.activeGameForLogIndex = active at hstep ⊢
  intro k hk
  simp only [revertedSince]
  cases hstep with
  | keep hsubmit hsweep =>
    simp only [hsubmit, hsweep, not_false_eq_true, implies_true, true_and, false_and,
      exists_false, false_or]
    exact hlaw k hk
  | @append e a b =>
    by_cases hne : k = e
    · subst hne
      have hnot := (hw.fresh_iff hblock).mp hfresh k a b (by simp)
      simp [hnot]
    have hold : w.registry.chain.Exists k := by
      simpa [Chain.Exists, Chain.append, Function.update_of_ne hne] using hk
    have hsame : (w.registry.chain.append e tx.msg.block.number).Swept k ↔
        w.registry.chain.Swept k := by
      simp [Chain.Swept, Chain.append, Function.update_of_ne hne]
    have hiff : w.registry.chain.Swept k ↔ revertedSince hist k := hlaw k hold
    simpa [hsame, hne] using hiff
  | @sweep _ _ _ f hstatus hf hsubmit hsweep =>
    have hfex : w.registry.chain.Exists f := hf ▸ hw.disputed_exists hstatus
    have hc : w.registry.chain.Confined f := hconf f ((hsweep f).mpr rfl)
    rw [ht.canonical.sweep_swept_iff hs hfex hc hk]
    simp only [hsubmit, hsweep, not_false_eq_true, implies_true, true_and, exists_eq_left]
    rw [or_comm]
    exact or_congr Iff.rfl (hlaw k hk)

/-- A transaction that keeps the status law is well behaved. -/
theorem Transition.wellBehaved_of_statusLaw (hw : w.Sound) (hblock : w.block ≤ tx.msg.block.number)
    (hlaw : StatusLaw hist w) (h : Transition d w tx.msg settled effs w')
    (hlaw' : StatusLaw (⟨w, tx, effs⟩ :: hist) w') :
    ConfinedReverts (⟨w, tx, effs⟩ : HistoryEntry τ) ∧
      FreshSubmissions (⟨w, tx, effs⟩ : HistoryEntry τ) := by
  have hs := hw.chain.mono hblock
  have hstep := h.chainStep hw
  have hlaw'' : ∀ k, w'.registry.chain.Exists k →
    (w'.registry.chain.Swept k ↔ revertedSince (⟨w, tx, effs⟩ :: hist) k) := hlaw'
  rw [hw.fresh_iff hblock]
  generalize w'.registry.chain = c', w'.game.activeGameForLogIndex = active at hstep hlaw''
  simp only [revertedSince] at hlaw''
  cases hstep with
  | keep hsubmit hsweep =>
    exact ⟨fun f hf => absurd hf (hsweep f), fun k a b hk => absurd hk (hsubmit k a b)⟩
  | @append e a b =>
    refine ⟨fun f hf => absurd hf (by simp), ?_⟩
    intro k a' b' hk hswept
    obtain ⟨rfl, _, _⟩ : k = e ∧ a' = a ∧ b' = b := by simpa using hk
    have hbad := (hlaw'' k (Chain.append_exists_self tx.msg.block.pos)).mp hswept
    exact hbad.1 a b (by simp)
  | @sweep _ _ _ _ _ _ hsubmit hsweep =>
    refine ⟨?_, fun k a b hk => absurd hk (hsubmit k a b)⟩
    intro f' hf'
    obtain rfl := (hsweep f').mp hf'
    refine hs.confined_of_sweep_swept (fun k hk hswept => ?_)
    rcases ((hlaw'' k hk).mp hswept).2 with ⟨j, hj, hanc⟩ | hsince
    · rw [(hsweep j).mp hj] at hanc
      exact Or.inr hanc
    · exact Or.inl ((hlaw k hk).mpr hsince)

end Step

end World

section Runs

variable [Keccak] {τ : Type} {adjudicate : Adjudicator τ}
variable {d : Deployment} {h : List (HistoryEntry τ)} {w : World}

/--
In a run the reverted status of every record is at all times what the history
says if and only if every step reverts only descendants of the record it starts
from and submits nothing into the reverted interval in the block of the last
revert.
-/
theorem reverted_status_law_iff (hrun : Run (system adjudicate d) (World.deploy d) h w) :
    Run.Always StatusLaw h w ↔ ∀ e ∈ h, ConfinedReverts e ∧ FreshSubmissions e := by
  refine Run.always_iff_guard (fun e => ConfinedReverts e ∧ FreshSubmissions e) StatusLaw
    (fun h w => w.Tidy ∧ StatusLaw h w) ?_ ?_ ?_ ?_ hrun
  · refine ⟨World.tidy_deploy d, ?_⟩
    intro k _
    have hfloor : ¬ (World.deploy d).registry.isRecordReverted k := by
      rintro ⟨h₁, h₂, _⟩
      exact absurd (h₁.trans h₂) (by simp [World.deploy, Registry.construct, noRevertedFloor])
    simp [revertedSince, hfloor]
  · intro h w _ hinv
    exact hinv.2
  · rintro h w tx w' effs hrun ⟨ht, hlaw⟩ hstep ⟨hconf, hfresh⟩
    have hw := World.sound_of_run hrun
    obtain ⟨hblock, htrans⟩ := World.step_transition hstep
    exact ⟨htrans.tidy hw ht hblock hconf ((hw.fresh_iff hblock).mp hfresh),
      htrans.statusLaw hw ht hblock hlaw hconf hfresh⟩
  · rintro h w tx w' effs hrun ⟨_, hlaw⟩ hstep hlaw'
    have hw := World.sound_of_run hrun
    obtain ⟨hblock, htrans⟩ := World.step_transition hstep
    exact htrans.wellBehaved_of_statusLaw hw hblock hlaw hlaw'

/-- The record an effect submits. -/
def RegistryEffect.submission? : RegistryEffect → Option ℕ
  | .submitted k _ _ => some k
  | _ => none

/-- The record an effect reverts from. -/
def RegistryEffect.revert? : RegistryEffect → Option ℕ
  | .revertedFrom f => some f
  | _ => none

/-- Whether a revert from `k` or below followed the submission of `k`, read off
the effects alone. -/
def revertBelow : List (List RegistryEffect) → ℕ → Bool
  | [], _ => false
  | effs :: rest, k =>
    effs.all (fun eff => match eff with
      | .submitted j _ _ => j != k
      | _ => true) &&
    (effs.any (fun eff => match eff with
      | .revertedFrom f => decide (f ≤ k)
      | _ => false) || revertBelow rest k)

/-- Ancestors have smaller keys, so the effects bound what was reverted. -/
theorem revertBelow_of_revertedSince (hrun : Run (system adjudicate d) (World.deploy d) h w) {k : ℕ}
    (hk : revertedSince h k) : revertBelow (h.map (fun e => e.out)) k = true := by
  induction hrun with
  | nil => exact hk.elim
  | @snoc _ _ _ _ _ prev _ ih =>
    obtain ⟨hnot, hrev⟩ := hk
    simp only [List.map_cons, revertBelow, Bool.and_eq_true, Bool.or_eq_true,
      List.all_eq_true, List.any_eq_true]
    refine ⟨?_, ?_⟩
    · intro eff heff
      cases eff with
      | submitted j a b =>
        have hne : j ≠ k := by
          rintro rfl
          exact hnot a b heff
        simpa using hne
      | _ => rfl
    · rcases hrev with ⟨f, hf, hanc⟩ | hsince
      · refine Or.inl ⟨_, hf, ?_⟩
        simpa using (World.sound_of_run prev).chain.ancestor_le hanc
      · exact Or.inr (ih hsince)

end Runs

/-- Two batches; the first loses its game; both are corrected. -/
def correctedRun : List (Tx Unit) :=
  [ sampleTx 1 10 2 (.submitStateRoot 1 0 2 0),
    sampleTx 1 10 3 (.submitStateRoot 2 1 2 0),
    sampleTx 6 10 4 (.initiateChallenge false 1 9 1 0),
    sampleTx 6 0 20 (.claimTimeout false 1),
    sampleTx 1 0 21 (.reclaimRevertedBond 2),
    sampleTx 1 10 22 (.submitStateRoot 1 0 3 0),
    sampleTx 1 10 23 (.submitStateRoot 2 1 3 0) ]

/-- The corrected second batch loses its game. -/
def recoveredRun : List (Tx Unit) :=
  correctedRun ++
    [ sampleTx 6 10 24 (.initiateChallenge false 2 9 3 1),
      sampleTx 6 0 40 (.claimTimeout false 2) ]

/-- The corrected first batch reads as reverted although neither it nor an
ancestor of it was reverted after its submission. -/
theorem recovered_record_reads_reverted :
    ∃ (h : List (HistoryEntry Unit)) (w : World),
      Run sampleSystem sampleStart h w ∧
        w.registry.Exists 1 ∧
        w.registry.isRecordReverted 1 ∧
        ¬ revertedSince h 1 := by
  obtain ⟨h, w, hrun, hex, hrev, hbelow⟩ :=
    Run.exists_of_decide sampleSystem sampleStart recoveredRun
      (fun h w => w.registry.Exists 1 ∧ w.registry.isRecordReverted 1 ∧
        revertBelow (h.map (fun e => e.out)) 1 = false) (by decide)
  refine ⟨h, w, hrun, hex, hrev, ?_⟩
  intro hsince
  have := @revertBelow_of_revertedSince zeroKeccak _ _ _ _ _ hrun 1 hsince
  simp [hbelow] at this

/-- The live records of the interval are the one at `f` and its children. -/
def Registry.OnlyChildren (s : Registry) (f : ℕ) : Prop :=
  ∀ k ≤ s.latestSubmittedLogIndex,
    s.Exists k ∧ ¬ s.isRecordReverted k ∧ s.lowestRevertedLogIndex ≤ k →
      k = f ∨ (s.roots k).prevEndIndex = f

instance (s : Registry) (f : ℕ) : Decidable (s.OnlyChildren f) := by
  unfold Registry.OnlyChildren
  infer_instance

theorem World.Sound.confined_of_onlyChildren {w : World} {f : ℕ} (hw : w.Sound) (hne : f ≠ 0)
    (h : w.registry.OnlyChildren f) : w.registry.chain.Confined f := by
  intro k hlive hfloor
  rcases h k (hw.chain.le_latest k hlive.1) ⟨hlive.1, hlive.2, hfloor⟩ with rfl | rfl
  · exact .refl
  · have hk : k ≠ 0 := by
      rintro rfl
      exact hne hw.chain.root_parent
    exact Chain.Ancestor.of_parent .refl hlive.1 hk

/-- The corrected first batch loses its game too.  Both reverts of the run are
confined: the second finds the two corrected batches in the interval. -/
theorem run_reverted_twice :
    ∃ (h : List (HistoryEntry Unit)) (w : World),
      Run sampleSystem sampleStart h w ∧
        h.countP (fun e => .revertedFrom 1 ∈ e.out) = 2 ∧
        ∀ e ∈ h,
          (∀ f, .revertedFrom f ∈ e.out → f ≠ 0 ∧ e.pre.registry.chain.Confined f) ∧
          FreshSubmissions e := by
  obtain ⟨h, w, hrun, hcount, htest⟩ :=
    Run.exists_of_decide sampleSystem sampleStart
      (correctedRun ++
        [ sampleTx 6 10 24 (.initiateChallenge false 1 9 1 0),
          sampleTx 6 0 40 (.claimTimeout false 2) ])
      (fun h _ => h.countP (fun e => .revertedFrom 1 ∈ e.out) = 2 ∧ ∀ e ∈ h,
        (∀ f ∈ e.out.filterMap RegistryEffect.revert?,
          f ≠ 0 ∧ e.pre.registry.OnlyChildren f) ∧
        ∀ k ∈ e.out.filterMap RegistryEffect.submission?,
          e.call.msg.block.number ≠ e.pre.registry.lastRevertAtBlock) (by decide)
  refine ⟨h, w, hrun, hcount, ?_⟩
  intro e he
  obtain ⟨hrevert, hsubmit⟩ := htest e he
  refine ⟨?_, fun k a b hk hold => hsubmit k (List.mem_filterMap.mpr ⟨_, hk, rfl⟩) hold.2.2⟩
  intro f hf
  obtain ⟨hne, honly⟩ := hrevert f (List.mem_filterMap.mpr ⟨_, hf, rfl⟩)
  obtain ⟨_, _, hbefore, _⟩ := hrun.step_of_mem he
  exact ⟨hne, (@World.sound_of_run zeroKeccak _ _ _ _ _ hbefore).confined_of_onlyChildren hne honly⟩

/-- The status law at work in a run with two confined reverts. -/
theorem reverted_status_law_reverted_twice :
    ∃ (h : List (HistoryEntry Unit)) (w : World),
      Run sampleSystem sampleStart h w ∧
        h.countP (fun e => .revertedFrom 1 ∈ e.out) = 2 ∧
        Run.Always StatusLaw h w := by
  obtain ⟨h, w, hrun, hcount, hall⟩ := run_reverted_twice
  refine ⟨h, w, hrun, hcount, (@reverted_status_law_iff zeroKeccak _ _ _ _ _ hrun).mpr ?_⟩
  intro e he
  exact ⟨fun f hf => ((hall e he).1 f hf).2, (hall e he).2⟩

end Knomosis.Contracts
