import Knomosis.Contracts.KnomosisBridge
import Knomosis.Lib.Machine

/-!
# Reverted roots of the bridge

A root should read as reverted exactly if some revert after its submission starts
at or below it.  The bridge has one floor and one ceiling for all reverts, and every
revert moves the ceiling up to the last root: roots that were submitted after an
earlier revert and lie below a later one are caught in between.
-/

namespace Knomosis.Contracts

open Lib

/-- Calls that submit and revert roots, and the change of the locked values by any other call. -/
inductive RootCall where
  | submitStateRoot (block : Block) (migrated : Bool) (root : Bytes32)
      (logIndexHigh : Fin (2 ^ 64)) (attestorSig : List UInt8)
  | revertToPriorRoot (sender : Address) (block : Block) (disputedLogIndexHigh : Fin (2 ^ 64))
  | lock (totalLockedValue boldTotalLockedValue : ℕ)

section Machine

variable [Keccak] [Ecdsa] (cfg : BridgeConfig)

/-- What a call does to the bridge. -/
def stepRoots (b : Bridge) : RootCall → Except BridgeError Bridge
  | .submitStateRoot block migrated root logIndexHigh sig =>
    b.submitStateRoot cfg block migrated root logIndexHigh.val sig
  | .revertToPriorRoot sender block disputed => b.revertToPriorRoot cfg sender block disputed.val
  | .lock value bold => .ok { b with totalLockedValue := value, boldTotalLockedValue := bold }

/-- The bridge under such calls. -/
def rootMachine : Machine Bridge RootCall Unit where
  step b c := (stepRoots cfg b c).toOption.map (·, ())

end Machine

/-- The history of the bridge, newest call first. -/
abbrev RootHistory := List (Entry Bridge RootCall Unit)

/-- Since its submission some revert started at or below the root. -/
def RootHistory.RevertedSince : RootHistory → ℕ → Prop
  | [], _ => False
  | e :: h, k =>
    match e.call with
    | .submitStateRoot _ _ _ k' _ => k'.val ≠ k ∧ RevertedSince h k
    | .revertToPriorRoot _ _ f => f.val ≤ k ∨ RevertedSince h k
    | .lock _ _ => RevertedSince h k

instance RootHistory.decidableRevertedSince :
    (h : RootHistory) → (k : ℕ) → Decidable (h.RevertedSince k)
  | [], _ => isFalse (fun hfalse => hfalse)
  | ⟨_, .submitStateRoot _ _ _ k' _, _⟩ :: h, k =>
    @instDecidableAnd (k'.val ≠ k) (RootHistory.RevertedSince h k) _ (decidableRevertedSince h k)
  | ⟨_, .revertToPriorRoot _ _ f, _⟩ :: h, k =>
    @instDecidableOr (f.val ≤ k) (RootHistory.RevertedSince h k) _ (decidableRevertedSince h k)
  | ⟨_, .lock _ _, _⟩ :: h, k => decidableRevertedSince h k

/-- A submitted root reads as reverted exactly if it was reverted since. -/
def RangeLaw (h : RootHistory) (b : Bridge) : Prop :=
  ∀ k, b.stateRoots k ≠ none → (b.isStateRootReverted k = true ↔ h.RevertedSince k)

/-- A revert leaves no root out that lies above the floor and has not been reverted before. -/
def RevertsAll (e : Entry Bridge RootCall Unit) : Prop :=
  ∀ sender block f, e.call = .revertToPriorRoot sender block f →
    ∀ k, e.pre.stateRoots k ≠ none → e.pre.lowestRevertedLogIndexHigh ≤ k →
      e.pre.revertedThroughLogIndexHigh < k → f.val ≤ k

section Steps

variable {cfg : BridgeConfig} {b b' : Bridge}

theorem isStateRootReverted_iff (k : ℕ) :
    b.isStateRootReverted k = true ↔
      b.lowestRevertedLogIndexHigh ≤ k ∧ k ≤ b.revertedThroughLogIndexHigh := by
  rw [Bridge.isStateRootReverted, Bool.and_eq_true, decide_eq_true_iff, decide_eq_true_iff]

variable {sender : Address} {block : Block} {f : ℕ} {h : RootHistory}

/-- After a revert everything from the lower of the two floors up reads as reverted. -/
theorem revertToPriorRoot_eq_ok (h : b.revertToPriorRoot cfg sender block f = .ok b') :
    b'.stateRoots = b.stateRoots ∧ b'.latestSubmittedLogIndexHigh = b.latestSubmittedLogIndexHigh ∧
      b'.lowestRevertedLogIndexHigh = min f b.lowestRevertedLogIndexHigh ∧
      b'.revertedThroughLogIndexHigh =
        max b.revertedThroughLogIndexHigh b.latestSubmittedLogIndexHigh := by
  obtain ⟨-, h⟩ := guard_eq_ok.mp h
  cases h
  refine ⟨rfl, rfl, ?_, ?_⟩
  · dsimp only
    split_ifs <;> omega
  · dsimp only
    split_ifs <;> omega

/-- Submitted roots and the ceiling are at most the last index. -/
structure Recorded (b : Bridge) : Prop where
  root_le : ∀ k, b.stateRoots k ≠ none → k ≤ b.latestSubmittedLogIndexHigh
  ceiling_le : b.revertedThroughLogIndexHigh ≤ b.latestSubmittedLogIndexHigh

theorem Recorded.step [Keccak] [Ecdsa] {c : RootCall} (hrec : Recorded b)
    (hstep : stepRoots cfg b c = .ok b') : Recorded b' := by
  cases c with
  | submitStateRoot _ _ _ j =>
    obtain ⟨hlt, rfl⟩ := Bridge.submitStateRoot_eq_ok hstep
    refine ⟨?_, hrec.ceiling_le.trans hlt.le⟩
    intro k hk
    by_cases hj : k = j.val
    · exact hj.le
    · dsimp only at hk
      rw [Function.update_of_ne hj] at hk
      exact (hrec.root_le k hk).trans hlt.le
  | revertToPriorRoot =>
    obtain ⟨hroots, hlatest, -, hceiling⟩ := revertToPriorRoot_eq_ok hstep
    refine ⟨fun k hk => ?_, ?_⟩
    · rw [hlatest]
      exact hrec.root_le k (hroots ▸ hk)
    · rw [hceiling, hlatest]
      exact max_le hrec.ceiling_le le_rfl
  | lock =>
    cases hstep
    exact ⟨hrec.root_le, hrec.ceiling_le⟩

theorem RangeLaw.submit [Keccak] [Ecdsa] {migrated : Bool} {root : Bytes32} {j : Fin (2 ^ 64)}
    {sig : List UInt8} (hlaw : RangeLaw h b) (hrec : Recorded b)
    (hstep : b.submitStateRoot cfg block migrated root j.val sig = .ok b') :
    RangeLaw (⟨b, .submitStateRoot block migrated root j sig, ()⟩ :: h) b' := by
  obtain ⟨hlt, rfl⟩ := Bridge.submitStateRoot_eq_ok hstep
  intro k hk
  by_cases hj : j.val = k
  · subst hj
    refine iff_of_false ?_ (fun hsince => hsince.1 rfl)
    rw [isStateRootReverted_iff]
    rintro ⟨-, hle⟩
    exact absurd (hle.trans hrec.ceiling_le) (not_le.mpr hlt)
  · dsimp only at hk
    rw [Function.update_of_ne (Ne.symm hj)] at hk
    refine (hlaw k hk).trans ⟨fun hsince => ⟨hj, hsince⟩, fun hsince => hsince.2⟩

theorem reverted_after {k : ℕ} (hrec : Recorded b)
    (hstep : b.revertToPriorRoot cfg sender block f = .ok b') (hk : b.stateRoots k ≠ none) :
    b'.isStateRootReverted k = true ↔ min f b.lowestRevertedLogIndexHigh ≤ k := by
  obtain ⟨-, -, hfloor, hceiling⟩ := revertToPriorRoot_eq_ok hstep
  have hle := hrec.root_le k hk
  rw [isStateRootReverted_iff, hfloor, hceiling]
  exact ⟨fun h => h.1, fun h => ⟨h, hle.trans (le_max_right _ _)⟩⟩

theorem RangeLaw.revert {f : Fin (2 ^ 64)} (hlaw : RangeLaw h b) (hrec : Recorded b)
    (hstep : b.revertToPriorRoot cfg sender block f.val = .ok b')
    (hall : RevertsAll ⟨b, .revertToPriorRoot sender block f, ()⟩) :
    RangeLaw (⟨b, .revertToPriorRoot sender block f, ()⟩ :: h) b' := by
  intro k hk
  rw [(revertToPriorRoot_eq_ok hstep).1] at hk
  have hbefore := hlaw k hk
  rw [isStateRootReverted_iff] at hbefore
  rw [reverted_after hrec hstep hk]
  constructor
  · intro hmin
    by_cases hf : f.val ≤ k
    · exact Or.inl hf
    · -- the root is above the old floor, so it is at or below the old ceiling
      have hfloor : b.lowestRevertedLogIndexHigh ≤ k := by omega
      refine Or.inr (hbefore.mp ⟨hfloor, ?_⟩)
      by_contra hlt
      exact hf (hall sender block f rfl k hk hfloor (not_le.mp hlt))
  · rintro (hf | hsince)
    · exact (min_le_left _ _).trans hf
    · exact (min_le_right _ _).trans (hbefore.mpr hsince).1

/-- A revert after which the law still holds has left no root out. -/
theorem RangeLaw.revertsAll {f : Fin (2 ^ 64)} (hlaw : RangeLaw h b) (hrec : Recorded b)
    (hstep : b.revertToPriorRoot cfg sender block f.val = .ok b')
    (hlaw' : RangeLaw (⟨b, .revertToPriorRoot sender block f, ()⟩ :: h) b') :
    RevertsAll ⟨b, .revertToPriorRoot sender block f, ()⟩ := by
  intro sender' block' f' heq k hk hfloor hceiling
  obtain ⟨-, -, rfl⟩ := RootCall.revertToPriorRoot.inj heq
  have hroots := (revertToPriorRoot_eq_ok hstep).1
  have hreverted := (reverted_after hrec hstep hk).mpr ((min_le_right _ _).trans hfloor)
  rcases (hlaw' k (hroots ▸ hk)).mp hreverted with hf | hsince
  · exact hf
  · have hbefore := (isStateRootReverted_iff k).mp ((hlaw k hk).mpr hsince)
    exact absurd hbefore.2 (not_le.mpr hceiling)

theorem stepRoots_redeemed [Keccak] [Ecdsa] {c : RootCall} (hstep : stepRoots cfg b c = .ok b') :
    b'.withdrawalLeafRedeemed = b.withdrawalLeafRedeemed := by
  cases c with
  | submitStateRoot =>
    obtain ⟨-, rfl⟩ := Bridge.submitStateRoot_eq_ok hstep
    rfl
  | revertToPriorRoot =>
    obtain ⟨-, hstep⟩ := guard_eq_ok.mp hstep
    cases hstep
    rfl
  | lock =>
    cases hstep
    rfl

end Steps

section Runs

variable [Keccak] [Ecdsa] {cfg : BridgeConfig} {h : RootHistory} {b b' : Bridge} {c : RootCall}

theorem rootMachine_step {o : Unit} (hstep : (rootMachine cfg).step b c = some (b', o)) :
    stepRoots cfg b c = .ok b' := by
  obtain ⟨b₁, hb, heq⟩ := Option.map_eq_some_iff.mp hstep
  obtain ⟨rfl, -⟩ := Prod.mk.inj heq
  exact toOption_eq_some.mp hb

theorem recorded_of_run (hrun : Run (rootMachine cfg) Bridge.deployed h b) : Recorded b :=
  hrun.invariant ⟨fun _ hk => absurd rfl hk, le_rfl⟩
    fun _ _ _ _ _ _ hrec hstep => hrec.step (rootMachine_step hstep)

/-- Submitted roots read as they should at every point of a run exactly if no revert of the run
leaves a root out that lies above the floor and has not been reverted before. -/
theorem bridge_reverted_range_iff (hrun : Run (rootMachine cfg) Bridge.deployed h b) :
    Run.Always RangeLaw h b ↔ ∀ e ∈ h, RevertsAll e := by
  refine Run.always_iff_guard RevertsAll RangeLaw RangeLaw (fun k hk => absurd rfl hk)
    (fun _ _ _ hlaw => hlaw) ?_ ?_ hrun
  · intro h b c b' o hrun hlaw hstep hall
    have hrec := recorded_of_run hrun
    have hb := rootMachine_step hstep
    cases c with
    | submitStateRoot => exact hlaw.submit hrec hb
    | revertToPriorRoot => exact hlaw.revert hrec hb hall
    | lock =>
      cases hb
      exact hlaw
  · intro h b c b' o hrun hlaw hstep hlaw'
    cases c with
    | submitStateRoot | lock =>
      intro sender block' f heq
      cases heq
    | revertToPriorRoot =>
      exact hlaw.revertsAll (recorded_of_run hrun) (rootMachine_step hstep) hlaw'

end Runs

/-- A bridge with attestor `1` and dispute verifier `2`. -/
abbrev sampleBridge : BridgeConfig where
  chainId := 1
  self := 9
  deploymentId := 0
  attestor := 1
  disputeVerifier := 2
  faultProofRollbackAuthority := 0
  disputeWindowBlocks := 10
  cooldownBlocks := 2
  tvlCap := 100
  boldEnabled := false
  resourceTokens := fun _ => 0

/-- The block with the number `n + 1`. -/
def sampleBlock (n : UInt8) : Block :=
  ⟨n.toNat + 1, n.toNat.succ_pos, by have := n.toNat_lt; omega⟩

def sampleIndex (k : UInt8) : Fin (2 ^ 64) := ⟨k.toNat, by have := k.toNat_lt; omega⟩

def sampleSubmit (n k : UInt8) : RootCall :=
  .submitStateRoot (sampleBlock n) false 0 (sampleIndex k) (1 :: List.replicate 64 0)

def sampleRevert (n f : UInt8) : RootCall :=
  .revertToPriorRoot 2 (sampleBlock n) (sampleIndex f)

/-- A bad root is reverted, and two good ones follow. -/
def goodRoots : List RootCall :=
  [sampleSubmit 0 1, sampleRevert 1 1, sampleSubmit 3 2, sampleSubmit 19 3]

abbrev sampleRoots : Machine Bridge RootCall Unit :=
  @rootMachine zeroKeccak firstByteEcdsa sampleBridge

/-- A good root that is finalised before the second revert reads as reverted after it, although no
revert since its submission starts at or below it. -/
theorem good_root_reads_reverted :
    ∃ h b h' b',
      Run sampleRoots Bridge.deployed h b ∧
      b.isStateRootFinalised sampleBridge ⟨21, by decide, by decide⟩ 2 = true ∧
      Run sampleRoots b h' b' ∧
      b'.stateRoots 2 ≠ none ∧
      b'.isStateRootReverted 2 = true ∧
      ¬ RootHistory.RevertedSince (h' ++ h) 2 := by
  have htest : ((sampleRoots.exec Bridge.deployed goodRoots).any fun p =>
      (sampleRoots.exec p.2 [sampleRevert 20 3]).any fun q =>
        decide (p.2.isStateRootFinalised sampleBridge ⟨21, by decide, by decide⟩ 2 = true ∧
          q.2.stateRoots 2 ≠ none ∧ q.2.isStateRootReverted 2 = true ∧
          ¬ RootHistory.RevertedSince (q.1 ++ p.1) 2)) = true := by
    decide +kernel
  obtain ⟨h, b, hrun, hfacts⟩ := Run.exists_of_exec htest
  obtain ⟨h', b', hrun', hfacts'⟩ := Run.exists_of_exec hfacts
  obtain ⟨hfinal, hroot, hreverted, hnot⟩ := of_decide_eq_true hfacts'
  exact ⟨h, b, h', b', hrun, hfinal, hrun', hroot, hreverted, hnot⟩

/-- A second revert, of both good roots. -/
theorem bridge_reverted_range_two_reverts :
    ∃ h b,
      Run sampleRoots Bridge.deployed h b ∧
      b.isStateRootReverted 1 = true ∧
      b.isStateRootReverted 2 = true ∧
      Run.Always RangeLaw h b := by
  obtain ⟨h, b, hrun, h1, h2, htest⟩ := Run.exists_of_decide sampleRoots Bridge.deployed
    (goodRoots ++ [sampleRevert 20 2])
    (fun h b => b.isStateRootReverted 1 = true ∧ b.isStateRootReverted 2 = true ∧
      ∀ e ∈ h, (match e.call with
        | .revertToPriorRoot _ _ f => decide (∀ k ≤ e.pre.latestSubmittedLogIndexHigh,
          e.pre.stateRoots k ≠ none → e.pre.lowestRevertedLogIndexHigh ≤ k →
          e.pre.revertedThroughLogIndexHigh < k → f.val ≤ k)
        | _ => true) = true) (by decide +kernel)
  refine ⟨h, b, hrun, h1, h2,
    (@bridge_reverted_range_iff zeroKeccak firstByteEcdsa _ _ _ hrun).mpr ?_⟩
  intro e he sender block f hcall k hk
  obtain ⟨_, _, hbefore, _⟩ := hrun.step_of_mem he
  have hle := (@recorded_of_run zeroKeccak firstByteEcdsa _ _ _ hbefore).root_le k hk
  have hall := htest e he
  simp only [hcall] at hall
  exact of_decide_eq_true hall k hle hk

end Knomosis.Contracts
