import Knomosis.Contracts.RevertedStatus

/-!
# The chain below the canonical tip

A submission hangs its record on `canonicalTip`.  The walk from there along
`prevEndIndex` should meet only live records, each chained by hash to its
parent, and end at genesis.

A revert from genesis is not far-fetched: the timeout of a game id that was
never opened is one.
-/

namespace Knomosis.Contracts

open Lib Registry

namespace Registry

/-- The record at `k` carries the hash its parent expects. -/
def HashLinked (s : Registry) (k : ℕ) : Prop :=
  (s.roots k).prevLogEntryHash = (s.roots (s.roots k).prevEndIndex).expectedNextHash

/-- The walk from the tip: live records, strictly down, chained by hash, to
genesis. -/
structure CanonicalWalk (s : Registry) : Prop where
  tip_exists : s.Exists s.canonicalTip
  tip_not_reverted : ¬ s.isRecordReverted s.canonicalTip
  walk_exists : ∀ k, s.chain.Ancestor k s.canonicalTip → s.Exists k
  walk_not_reverted : ∀ k, s.chain.Ancestor k s.canonicalTip → ¬ s.isRecordReverted k
  walk_lt : ∀ k, s.chain.Ancestor k s.canonicalTip → k ≠ 0 → (s.roots k).prevEndIndex < k
  walk_linked : ∀ k, s.chain.Ancestor k s.canonicalTip → k ≠ 0 → s.HashLinked k
  walk_root : s.chain.Ancestor 0 s.canonicalTip

end Registry

/-- Every revert of the transaction is confined and spares genesis. -/
def SafeReverts {τ : Type} (e : HistoryEntry τ) : Prop :=
  ∀ f, .revertedFrom f ∈ e.out → f ≠ 0 ∧ e.pre.registry.chain.Confined f

namespace World

/-- Genesis is below the reverted interval and the canonical records are chained
by hash. -/
structure Chained (w : World) : Prop where
  tidy : w.Tidy
  floor_pos : 0 < w.registry.lowestRevertedLogIndex
  linked : ∀ k, w.registry.chain.Ancestor k w.registry.canonicalTip → k ≠ 0 →
    w.registry.HashLinked k

theorem chained_deploy [Keccak] (d : Deployment) : (deploy d).Chained := by
  refine ⟨tidy_deploy d, by simp [deploy, construct, noRevertedFloor], ?_⟩
  intro k hk hne
  exact absurd (Nat.le_zero.mp ((sound_deploy d).chain.ancestor_le hk)) hne

section Step

variable {w w' : World} {msg : Msg} {effs : List RegistryEffect} {settled : Option ℕ}

theorem Chained.canonicalWalk (hw : w.Sound) (hc : w.Chained) : w.registry.CanonicalWalk := by
  have hlive : ∀ k, w.registry.chain.Ancestor k w.registry.canonicalTip →
      w.registry.chain.Live k := by
    intro k hk
    by_cases hne : k = 0
    · subst hne
      exact Chain.live_of_lt_floor hw.chain.root_exists hc.floor_pos
    · exact hc.tidy.canonical.live_of_ancestor k hk hne
  exact
    { tip_exists := hw.chain.tip_exists
      tip_not_reverted := (hlive _ .refl).2
      walk_exists := fun k hk => (hlive k hk).1
      walk_not_reverted := fun k hk => (hlive k hk).2
      walk_lt := fun k hk hne => hw.chain.parent_lt k (hlive k hk).1 hne
      walk_linked := hc.linked
      walk_root := hw.chain.root_ancestor hw.chain.tip_exists }

variable [Keccak] {d : Deployment}

/-- The hashes of a record change only when it is submitted. -/
theorem Transition.hashes_eq (h : Transition d w msg settled effs w') {k : ℕ}
    (hk : ∀ a b, RegistryEffect.submitted k a b ∉ effs) :
    (w'.registry.roots k).prevLogEntryHash = (w.registry.roots k).prevLogEntryHash ∧
      (w'.registry.roots k).expectedNextHash = (w.registry.roots k).expectedNextHash := by
  have hwrite : ∀ {j : ℕ} {r : SubmittedRoot},
      r.prevLogEntryHash = (w.registry.roots j).prevLogEntryHash →
      r.expectedNextHash = (w.registry.roots j).expectedNextHash →
      (Function.update w.registry.roots j r k).prevLogEntryHash =
          (w.registry.roots k).prevLogEntryHash ∧
        (Function.update w.registry.roots j r k).expectedNextHash =
          (w.registry.roots k).expectedNextHash := by
    intro j r h₁ h₂
    by_cases hkj : k = j
    · subst hkj
      simpa using ⟨h₁, h₂⟩
    · simp [Function.update_of_ne hkj]
  cases h with
  | @submit e _ _ _ =>
    have hne : k ≠ e := by
      rintro rfl
      exact hk _ _ (List.mem_singleton.mpr rfl)
    simp [recordSubmission, setRoot, Function.update_of_ne hne]
  | finalise =>
    simp only [roots_finalise]
    exact hwrite rfl rfl
  | reclaim => exact hwrite (r := { w.registry.roots _ with bond := 0 }) rfl rfl
  | challenge => exact hwrite rfl rfl
  | breaker | move | withdraw | receive => exact ⟨rfl, rfl⟩
  | settle _ _ hregistry =>
    cases hregistry with
    | untouched | swept => exact ⟨rfl, rfl⟩
    | cleared => exact hwrite rfl rfl
    | slashed => exact hwrite (r := { w.registry.roots _ with bond := 0 }) rfl rfl

theorem Transition.submitted_linked (h : Transition d w msg settled effs w') {k b : ℕ} {a : Address}
    (hk : .submitted k a b ∈ effs) : w'.registry.HashLinked k := by
  cases h with
  | @submit e p _ _ hmay =>
    obtain ⟨rfl, _, _⟩ : k = e ∧ _ := by simpa using hk
    have hne : p ≠ k := hmay.prev_lt.ne
    simp [HashLinked, recordSubmission, setRoot,
      freshRoot, Function.update_of_ne hne]
  | settle _ _ hregistry => cases hregistry <;> simp at hk
  | breaker halted => cases halted <;> simp at hk
  | _ => simp at hk

/-- The records below the new tip were below the old one, a new record apart. -/
theorem Transition.ancestor_tip (hw : w.Sound) (ht : w.Tidy) (hblock : w.block ≤ msg.block.number)
    (hconf : ∀ f, .revertedFrom f ∈ effs → w.registry.chain.Confined f)
    (h : Transition d w msg settled effs w') {k : ℕ}
    (hk : w'.registry.chain.Ancestor k w'.registry.chain.tip) (hne : k ≠ 0) :
    (∃ a b, .submitted k a b ∈ effs) ∨ w.registry.chain.Ancestor k w.registry.chain.tip ∧
        (∀ a b, .submitted k a b ∉ effs) ∧ w'.registry.chain.parent k = w.registry.chain.parent k ∧
        ∀ a b, .submitted (w.registry.chain.parent k) a b ∉ effs := by
  have hs := hw.chain.mono hblock
  have hstep := h.chainStep hw
  generalize w'.registry.chain = c', w'.game.activeGameForLogIndex = active at hstep hk ⊢
  cases hstep with
  | keep hsubmit => exact Or.inr ⟨hk, hsubmit k, rfl, hsubmit _⟩
  | @append e a b hlt =>
    by_cases hke : k = e
    · subst hke
      exact Or.inl ⟨a, b, by simp⟩
    refine Or.inr ?_
    have hup := Chain.ancestor_parent hk hke
    rw [show (w.registry.chain.append e msg.block.number).parent
      (w.registry.chain.append e msg.block.number).tip = w.registry.chain.tip by
        simp [Chain.append]] at hup
    have hnot : ¬ w.registry.chain.Ancestor e w.registry.chain.tip := by
      intro hanc
      have hle := hs.ancestor_le hanc
      exact absurd hlt (not_lt.mpr hle)
    have hold := (Chain.ancestor_append_of_not hnot).mp hup
    have hkex := hs.ancestor_exists hold hs.tip_exists
    have hplt : w.registry.chain.parent k < e :=
      (hs.parent_lt k hkex hne).trans ((hs.ancestor_le hold).trans_lt hlt)
    refine ⟨hold, ?_, ?_, ?_⟩
    · simp [hke]
    · simp [Chain.append, Function.update_of_ne hke]
    · simp [hplt.ne]
  | @sweep _ _ _ f hstatus hf hsubmit hsweep =>
    refine Or.inr ⟨?_, hsubmit k, rfl, hsubmit _⟩
    have hfex : w.registry.chain.Exists f := hf ▸ hw.disputed_exists hstatus
    have hstale : w.registry.chain.Swept f →
        w.registry.chain.floor ≤ w.registry.chain.parent f := by
      subst hf
      exact ht.stale_disputed hw hstatus
    have hanc : w.registry.chain.Ancestor k (w.registry.chain.sweep f msg.block.number).tip := hk
    rcases ht.canonical.sweep_tip hs hfex (hconf f ((hsweep f).mpr rfl)) hstale with
      ⟨htip, hlive | rfl⟩ | ⟨htip, _⟩
    · rw [htip] at hanc
      by_cases hf0 : f = 0
      · rw [hf0, hs.root_parent] at hanc
        exact absurd (Nat.le_zero.mp (hs.ancestor_le hanc)) hne
      · exact (ht.canonical.ancestor_of_live f hlive).trans (Chain.Ancestor.of_parent hanc hfex hf0)
    · rw [htip, hs.root_parent] at hanc
      exact absurd (Nat.le_zero.mp (hs.ancestor_le hanc)) hne
    · rw [htip] at hanc
      exact hanc

theorem Transition.floor_pos (hw : w.Sound) (hpos : 0 < w.registry.chain.floor)
    (hsafe : ∀ f, .revertedFrom f ∈ effs → f ≠ 0) (h : Transition d w msg settled effs w') :
    0 < w'.registry.chain.floor := by
  have hstep := h.chainStep hw
  generalize w'.registry.chain = c', w'.game.activeGameForLogIndex = active at hstep ⊢
  cases hstep with
  | keep | append => exact hpos
  | @sweep _ _ _ f _ _ _ hsweep =>
    have hne := hsafe f ((hsweep f).mpr rfl)
    exact lt_min hpos (Nat.pos_of_ne_zero hne)

variable {τ : Type} {tx : Tx τ}

/-- A safe transaction keeps the canonical records chained. -/
theorem Transition.chained (hw : w.Sound) (hc : w.Chained) (hblock : w.block ≤ tx.msg.block.number)
    (hsafe : SafeReverts (⟨w, tx, effs⟩ : HistoryEntry τ))
    (hfresh : FreshSubmissions (⟨w, tx, effs⟩ : HistoryEntry τ))
    (h : Transition d w tx.msg settled effs w') : w'.Chained := by
  have hconf : ∀ f, .revertedFrom f ∈ effs → w.registry.chain.Confined f :=
    fun f hf => (hsafe f hf).2
  refine ⟨h.tidy hw hc.tidy hblock hconf ((hw.fresh_iff hblock).mp hfresh), ?_, ?_⟩
  · exact h.floor_pos hw hc.floor_pos (fun f hf => (hsafe f hf).1)
  intro k hk hne
  rcases h.ancestor_tip hw hc.tidy hblock hconf hk hne with
    ⟨a, b, hsub⟩ | ⟨hold, hself, hparent, hup⟩
  · exact h.submitted_linked hsub
  have hlink := hc.linked k hold hne
  have hp : (w'.registry.roots k).prevEndIndex = (w.registry.roots k).prevEndIndex := hparent
  have hexp : (w'.registry.roots (w.registry.roots k).prevEndIndex).expectedNextHash =
      (w.registry.roots (w.registry.roots k).prevEndIndex).expectedNextHash :=
    (h.hashes_eq hup).2
  unfold HashLinked at hlink ⊢
  rw [hp, (h.hashes_eq hself).1, hexp, hlink]

/-- A transaction after which the tip is live was safe. -/
theorem Transition.safe_of_tip_live (hw : w.Sound) (hc : w.Chained)
    (hblock : w.block ≤ tx.msg.block.number) (h : Transition d w tx.msg settled effs w')
    (htip : w'.registry.chain.Live w'.registry.chain.tip) :
    SafeReverts (⟨w, tx, effs⟩ : HistoryEntry τ) ∧
      FreshSubmissions (⟨w, tx, effs⟩ : HistoryEntry τ) := by
  have hs := hw.chain.mono hblock
  have hstep := h.chainStep hw
  rw [hw.fresh_iff hblock]
  generalize w'.registry.chain = c', w'.game.activeGameForLogIndex = active at hstep htip
  cases hstep with
  | keep hsubmit hsweep =>
    exact ⟨fun f hf => absurd hf (hsweep f), fun k a b hk => absurd hk (hsubmit k a b)⟩
  | @append e a b =>
    refine ⟨fun f hf => absurd hf (by simp), ?_⟩
    intro k a' b' hk
    obtain ⟨rfl, _, _⟩ : k = e ∧ a' = a ∧ b' = b := by simpa using hk
    exact htip.2
  | @sweep _ _ _ _ hstatus hf hsubmit hsweep =>
    refine ⟨?_, fun k a b hk => absurd hk (hsubmit k a b)⟩
    intro f' hf'
    obtain rfl := (hsweep f').mp hf'
    have hfex : w.registry.chain.Exists f' := hf ▸ hw.disputed_exists hstatus
    refine ⟨?_, ?_⟩
    · rintro rfl
      exact absurd (hs.sweep_live.mp htip).2.2 (Nat.not_lt_zero _)
    · refine hc.tidy.canonical.confined_of_tip_live hs hfex ?_ htip
      subst hf
      exact hc.tidy.stale_disputed hw hstatus

end Step

end World

section Runs

variable [Keccak] {τ : Type} {adjudicate : Adjudicator τ}
variable {d : Deployment} {h : List (HistoryEntry τ)} {w : World}

/--
In a run the walk from the tip is canonical at all times if and only if every
step reverts only descendants of the record it starts from, never genesis, and
submits nothing into the reverted interval in the block of the last revert.
-/
theorem canonical_walk_iff (hrun : Run (system adjudicate d) (World.deploy d) h w) :
    Run.Always (fun _ w => w.registry.CanonicalWalk) h w ↔
      ∀ e ∈ h, SafeReverts e ∧ FreshSubmissions e := by
  refine Run.always_iff_guard (fun e => SafeReverts e ∧ FreshSubmissions e)
    (fun _ w => w.registry.CanonicalWalk) (fun _ w => w.Chained)
    (World.chained_deploy d) ?_ ?_ ?_ hrun
  · intro h w hrun hc
    exact hc.canonicalWalk (World.sound_of_run hrun)
  · rintro h w tx w' effs hrun hc hstep ⟨hsafe, hfresh⟩
    obtain ⟨hblock, htrans⟩ := World.step_transition hstep
    exact htrans.chained (World.sound_of_run hrun) hc hblock hsafe hfresh
  rintro h w tx w' effs hrun hc hstep hwalk
  obtain ⟨hblock, htrans⟩ := World.step_transition hstep
  exact htrans.safe_of_tip_live (World.sound_of_run hrun) hc hblock
    ⟨hwalk.tip_exists, hwalk.tip_not_reverted⟩

end Runs

/-- After the run of a corrected chain the tip itself reads as reverted. -/
theorem recovered_tip_reads_reverted :
    ∃ (h : List (HistoryEntry Unit)) (w : World),
      Run sampleSystem sampleStart h w ∧ ¬ w.registry.CanonicalWalk := by
  obtain ⟨h, w, hrun, hreverted⟩ := Run.exists_of_decide sampleSystem sampleStart recoveredRun
    (fun _ w => w.registry.isRecordReverted w.registry.canonicalTip) (by decide)
  exact ⟨h, w, hrun, fun hwalk => hwalk.tip_not_reverted hreverted⟩

/-- The walk is canonical in a run with two confined reverts. -/
theorem canonical_walk_reverted_twice :
    ∃ (h : List (HistoryEntry Unit)) (w : World),
      Run sampleSystem sampleStart h w ∧
        h.countP (fun e => .revertedFrom 1 ∈ e.out) = 2 ∧
        Run.Always (fun _ w => w.registry.CanonicalWalk) h w := by
  obtain ⟨h, w, hrun, hcount, hall⟩ := run_reverted_twice
  exact ⟨h, w, hrun, hcount, (@canonical_walk_iff zeroKeccak _ _ _ _ _ hrun).mpr hall⟩

end Knomosis.Contracts
