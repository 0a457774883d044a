import Knomosis.Disputes.Ledger

/-!
# The ledgers of disputes and stakes over whole runs

Whatever is called in whatever order, also from inside a transfer, the counter of
open disputes counts them, both contracts hold at least what they owe, every bond
is credited once at most, and the stake is paid out only while no dispute is open.
-/

namespace Knomosis.Disputes

open Lib Contracts Kernel

section Verdicts

variable [Keccak] [Ecdsa] {D : Deployment} {v : Verifier} {w w' : World}
variable {id : ℕ} {blob : List UInt8} {hint : Address} {signers : List Address}
  {sigs : List (List UInt8)}

def HasQuorum (D : Deployment) (id : ℕ) (outcome : EvidenceVerdict) (signers : List Address)
    (sigs : List (List UInt8)) : Prop :=
  signers.length ≤ MAX_VERDICT_SIGNERS ∧
    ∃ n, countVerifiedSignatures D.approvedAdjudicator (verdictDigest D id (verdictCode outcome))
      signers sigs = .ok n ∧ D.quorumThreshold ≤ n

theorem requireVerdict_eq_ok
    {outcome : EvidenceVerdict} {wrong : DisputeError} {identities : Address → IdentityRecord} :
    requireVerdict D outcome wrong identities id blob hint signers sigs v = .ok () ↔
      v.entered = false ∧ (v.disputes id).challenger ≠ 0 ∧ (v.disputes id).status = .opened ∧
      HasQuorum D id outcome signers sigs ∧
      runClaimVerifier D identities (v.disputes id).claimVariant (v.disputes id).impugnedLogIndex
        blob hint = .ok outcome := by
  rw [requireVerdict, guard_eq_ok, guard_eq_ok, guard_eq_ok, guard_eq_ok, Bool.not_eq_true,
    not_not, not_lt, HasQuorum, and_assoc]
  refine and_congr_right fun _ => and_congr_right fun _ => and_congr_right fun _ =>
    and_congr_right fun _ => ?_
  simp only [bind_eq_ok, guard_eq_ok, mapError_eq_ok, not_lt, not_not, and_true]
  constructor
  · rintro ⟨n, hn, hle, verdict, hverdict, rfl⟩
    exact ⟨⟨n, hn, hle⟩, hverdict⟩
  · rintro ⟨⟨n, hn, hle⟩, hverdict⟩
    exact ⟨n, hn, hle, outcome, hverdict, rfl⟩

theorem finalizeUpheld_eq_ok {bridgeReverts : Bool} {t : Option Pending} :
    finalizeUpheld D id blob hint signers sigs bridgeReverts w = .ok (w', t) ↔
      requireVerdict D .upheld .evidenceNotUpheld w.identities id blob hint signers sigs
        w.verifier = .ok () ∧ ∃ v s burning,
        closeDispute D id (w.verifier.disputes id).challenger true
          (setStatus id .upheld w.verifier) = .ok v ∧
        slash D D.verifier id (w.verifier.disputes id).challenger w.stake = .ok (s, burning) ∧
        ((burning = true ∧ t = some (.burn bridgeReverts) ∧
            w' = { w with verifier := { v with entered := true }, stake := s }) ∨
          (burning = false ∧ bridgeReverts = false ∧ t = none ∧
            w' = { w with verifier := v, stake := s })) := by
  simp only [finalizeUpheld, bind_eq_ok]
  constructor
  · rintro ⟨⟨⟩, hverdict, v, hv, ⟨s, burning⟩, hs, h⟩
    refine ⟨hverdict, v, s, burning, hv, hs, ?_⟩
    cases burning with
    | true =>
      rw [if_pos rfl, Except.ok.injEq, Prod.mk.injEq] at h
      exact Or.inl ⟨rfl, h.2.symm, h.1.symm⟩
    | false =>
      rw [if_neg Bool.false_ne_true, guard_eq_ok, Except.ok.injEq, Prod.mk.injEq] at h
      exact Or.inr ⟨rfl, Bool.not_eq_true _ ▸ h.1, h.2.2.symm, h.2.1.symm⟩
  · rintro ⟨hverdict, v, s, burning, hv, hs, h⟩
    refine ⟨(), hverdict, v, hv, (s, burning), hs, ?_⟩
    rcases h with ⟨rfl, rfl, rfl⟩ | ⟨rfl, rfl, rfl, rfl⟩
    · rfl
    · rfl

theorem finalizeRejected_eq_ok :
    finalizeRejected D id blob hint signers sigs w = .ok w' ↔
      requireVerdict D .rejected .evidenceNotRejected w.identities id blob hint signers sigs
        w.verifier = .ok () ∧ ∃ v, closeDispute D id (w.verifier.disputes id).challenger false
          (setStatus id .rejected w.verifier) = .ok v ∧ w' = { w with verifier := v } := by
  simp only [finalizeRejected, bind_eq_ok, Except.ok.injEq]
  constructor
  · rintro ⟨⟨⟩, hverdict, v, hv, rfl⟩
    exact ⟨hverdict, v, hv, rfl⟩
  · rintro ⟨hverdict, v, hv, rfl⟩
    exact ⟨(), hverdict, v, hv, rfl⟩

end Verdicts

section World

variable {D : Deployment} {w w' : World} {ts : List Pending}

def Pending.holdsVerifier : Pending → Bool
  | .claimBond => true
  | .burn _ => true
  | _ => false

def Pending.holdsStake : Pending → Bool
  | .claimBond => false
  | .outside => false
  | _ => true

def Verifier.Decided (v : Verifier) (id : ℕ) : Prop :=
  id < v.nextDisputeId ∧ (v.disputes id).status ≠ .opened

/-- The books of both contracts, and the guards, which are up exactly while a call waits. -/
structure WorldLaw (D : Deployment) (w : World) (ts : List Pending) : Prop where
  verifier : VerifierLaw D w.verifier
  stake : StakeLaw w.stake
  verifierGuard : ts.countP Pending.holdsVerifier = w.verifier.entered.toNat
  stakeGuard : ts.countP Pending.holdsStake = w.stake.entered.toNat
  slashed : ∀ id, w.stake.slashedDispute id = true → w.verifier.Decided id

variable {v : Verifier} {id : ℕ} {p : Pending → Bool} {t : Pending} {held : Bool}
variable {blob : List UInt8} {hint : Address} {signers : List Address} {sigs : List (List UInt8)}

theorem Verifier.Decided.settled
    {j : ℕ} {status : DisputeStatus} {challenger : Address} {refund : Bool}
    (hstatus : status ≠ .opened) (h : v.Decided j ∨ (j = id ∧ id < v.nextDisputeId)) :
    ((setStatus id status v).settled D id challenger refund).Decided j := by
  by_cases hj : j = id
  · subst hj
    have hlt : j < v.nextDisputeId := by
      rcases h with h | h
      · exact h.1
      · exact h.2
    exact ⟨hlt, by simpa [Verifier.settled, setStatus] using hstatus⟩
  · obtain ⟨hlt, hclosed⟩ := h.resolve_right (fun h => hj h.1)
    exact ⟨hlt, by simpa [Verifier.settled, setStatus, hj] using hclosed⟩

theorem worldLaw_genesis : WorldLaw D World.genesis [] := by
  have hcredits : ∑ a, World.genesis.verifier.bondCredit a = 0 := Finset.sum_const_zero
  have hrewards : ∑ a, World.genesis.stake.slashCredit a = 0 := Finset.sum_const_zero
  have hempty : World.genesis.verifier.openIds = ∅ := rfl
  refine ⟨⟨?_, ?_, rfl, ?_, ?_, Nat.two_pow_pos 256, List.nodup_nil, ?_, ?_⟩,
    ⟨?_, Nat.two_pow_pos 256⟩, rfl, rfl, ?_⟩
  · exact fun _ _ => ⟨rfl, rfl⟩
  · exact fun id hid => absurd hid (Nat.not_lt_zero id)
  · exact fun id hid => absurd hid (Nat.not_lt_zero id)
  · rw [hcredits, hempty, Finset.sum_empty]
    exact Nat.zero_le _
  · exact fun c hc => absurd hc List.not_mem_nil
  · exact fun _ => rfl
  · rw [hrewards]
    exact Nat.zero_le _
  · exact fun id hid => absurd hid Bool.false_ne_true

theorem guard_taken (hguard : ts.countP p = held.toNat) (hfree : held = false) (hp : p t = true) :
    (t :: ts).countP p = true.toNat := by
  rw [List.countP_cons, hguard, hfree, hp]
  rfl

theorem guard_released (hguard : (t :: ts).countP p = held.toNat) :
    ts.countP p = (if p t then false else held).toNat := by
  rw [List.countP_cons] at hguard
  cases hp : p t with
  | false => simpa [hp] using hguard
  | true =>
    have hle := Bool.toNat_le held
    rw [hp, if_pos rfl] at hguard
    simp only [if_true, Bool.toNat_false]
    omega

theorem WorldLaw.fileDispute {caller : Address} {value idx variant block : ℕ}
    (hlaw : WorldLaw D w ts) (hcaller : caller ≠ 0)
    (h : Disputes.fileDispute D caller value idx variant blob block w.verifier = .ok v) :
    WorldLaw D { w with verifier := v } ts := by
  refine ⟨hlaw.verifier.fileDispute hcaller h, hlaw.stake, ?_, hlaw.stakeGuard, ?_⟩
  · obtain ⟨-, -, -, rfl⟩ := fileDispute_eq_ok h
    exact hlaw.verifierGuard
  intro id hid
  obtain ⟨hlt, hclosed⟩ := hlaw.slashed id hid
  obtain ⟨-, -, -, rfl⟩ := fileDispute_eq_ok h
  refine ⟨Nat.lt_succ_of_lt hlt, ?_⟩
  simp only [Function.update_of_ne hlt.ne]
  exact hclosed

theorem WorldLaw.rest (hlaw : WorldLaw D w (t :: ts)) (h : Disputes.rest t w = some w') :
    WorldLaw D w' ts := by
  have hverifier := guard_released hlaw.verifierGuard
  have hstake := guard_released hlaw.stakeGuard
  cases t with
  | claimBond =>
    cases h
    exact ⟨hlaw.verifier.setEntered false, hlaw.stake, hverifier, hstake, hlaw.slashed⟩
  | burn bridgeReverts =>
    cases bridgeReverts with
    | true => cases h
    | false =>
      cases h
      exact ⟨hlaw.verifier.setEntered false, hlaw.stake.receive false le_rfl hlaw.stake.bounded,
        hverifier, hstake, hlaw.slashed⟩
  | withdraw | slash | claimSlashReward =>
    cases h
    exact ⟨hlaw.verifier, hlaw.stake.receive false le_rfl hlaw.stake.bounded, hverifier, hstake,
      hlaw.slashed⟩
  | outside =>
    cases h
    exact ⟨hlaw.verifier, hlaw.stake, hverifier, hstake, hlaw.slashed⟩

variable [Keccak] [Ecdsa]

theorem WorldLaw.finalizeUpheld {bridgeReverts : Bool} {t : Option Pending} (hlaw : WorldLaw D w ts)
    (h : Disputes.finalizeUpheld D id blob hint signers sigs bridgeReverts w = .ok (w', t)) :
    WorldLaw D w' (t.toList ++ ts) := by
  obtain ⟨hverdict, v, s, burning, hv, hs, hend⟩ := finalizeUpheld_eq_ok.mp h
  obtain ⟨hfree, hchallenger, hopened, -, -⟩ := requireVerdict_eq_ok.mp hverdict
  have hmem := hlaw.verifier.mem_openIds hchallenger hopened
  obtain ⟨-, rfl⟩ := closeDispute_eq_ok.mp hv
  obtain ⟨hstakeFree, -, -, -, -, -, -, rfl, rfl⟩ := slash_eq_ok.mp hs
  have hstatus : DisputeStatus.upheld ≠ .opened := by decide
  have hbooks : VerifierLaw D ((setStatus id .upheld w.verifier).settled D id
      (w.verifier.disputes id).challenger true) := hlaw.verifier.close hmem hstatus
  have hslashed : ∀ j, Function.update w.stake.slashedDispute id true j = true →
      ((setStatus id .upheld w.verifier).settled D id (w.verifier.disputes id).challenger
        true).Decided j := by
    intro j hj
    refine Verifier.Decided.settled hstatus ?_
    by_cases hne : j = id
    · exact Or.inr ⟨hne, (Verifier.mem_openIds.mp hmem).1⟩
    · rw [Function.update_of_ne hne] at hj
      exact Or.inl (hlaw.slashed j hj)
  rcases hend with ⟨hburning, rfl, rfl⟩ | ⟨hburning, -, rfl, rfl⟩
  · refine ⟨hbooks.setEntered true, hlaw.stake.slash, ?_, ?_, hslashed⟩
    · exact guard_taken hlaw.verifierGuard hfree rfl
    · change List.countP _ (_ :: ts) = (w.stake.burned D != 0).toNat
      rw [hburning]
      exact guard_taken hlaw.stakeGuard hstakeFree rfl
  · refine ⟨hbooks, hlaw.stake.slash, hlaw.verifierGuard, ?_, hslashed⟩
    change List.countP _ ts = (w.stake.burned D != 0).toNat
    rw [hlaw.stakeGuard, hburning, hstakeFree]

theorem WorldLaw.finalizeRejected (hlaw : WorldLaw D w ts)
    (h : Disputes.finalizeRejected D id blob hint signers sigs w = .ok w') : WorldLaw D w' ts := by
  obtain ⟨hverdict, v, hv, rfl⟩ := finalizeRejected_eq_ok.mp h
  obtain ⟨-, hchallenger, hopened, -, -⟩ := requireVerdict_eq_ok.mp hverdict
  obtain ⟨-, rfl⟩ := closeDispute_eq_ok.mp hv
  have hstatus : DisputeStatus.rejected ≠ .opened := by decide
  have hmem := hlaw.verifier.mem_openIds hchallenger hopened
  exact ⟨hlaw.verifier.close hmem hstatus, hlaw.stake, hlaw.verifierGuard, hlaw.stakeGuard,
    fun j hj => Verifier.Decided.settled hstatus (Or.inl (hlaw.slashed j hj))⟩

theorem WorldLaw.act {c : Call} {t : Option Pending} (hlaw : WorldLaw D w ts)
    (h : Disputes.act D w c = .ok (w', t)) : WorldLaw D w' (t.toList ++ ts) := by
  cases c with
  | fileDispute =>
    obtain ⟨hcaller, h⟩ := guard_eq_ok.mp h
    obtain ⟨v, hv, h⟩ := bind_eq_ok.mp h
    cases h
    exact hlaw.fileDispute hcaller hv
  | finalizeUpheld => exact hlaw.finalizeUpheld h
  | finalizeRejected =>
    obtain ⟨w₁, hw, h⟩ := bind_eq_ok.mp h
    cases h
    exact hlaw.finalizeRejected hw
  | claimBond =>
    obtain ⟨v, hv, h⟩ := bind_eq_ok.mp h
    cases h
    have hbooks := hlaw.verifier.claimBond hv
    obtain ⟨hfree, -, rfl⟩ := claimBond_eq_ok hv
    exact ⟨hbooks, hlaw.stake, guard_taken hlaw.verifierGuard hfree rfl, hlaw.stakeGuard,
      hlaw.slashed⟩
  | deposit =>
    obtain ⟨s, hs, h⟩ := bind_eq_ok.mp h
    cases h
    obtain ⟨hbooks, hguard, hslashed⟩ := hlaw.stake.deposit hs
    exact ⟨hlaw.verifier, hbooks, hlaw.verifierGuard, hguard ▸ hlaw.stakeGuard,
      hslashed ▸ hlaw.slashed⟩
  | withdraw =>
    obtain ⟨s, hs, h⟩ := bind_eq_ok.mp h
    cases h
    obtain ⟨hbooks, hfree, hheld, hslashed, -⟩ := hlaw.stake.withdraw hs
    refine ⟨hlaw.verifier, hbooks, hlaw.verifierGuard, ?_, hslashed ▸ hlaw.slashed⟩
    change List.countP _ (_ :: ts) = s.entered.toNat
    rw [hheld]
    exact guard_taken hlaw.stakeGuard hfree rfl
  | slash =>
    obtain ⟨hcaller, h⟩ := guard_eq_ok.mp h
    obtain ⟨⟨s, burning⟩, hs, -⟩ := bind_eq_ok.mp h
    exact absurd (slash_eq_ok.mp hs).2.1 hcaller
  | claimSlashReward =>
    obtain ⟨s, hs, h⟩ := bind_eq_ok.mp h
    cases h
    obtain ⟨hbooks, hfree, hheld, hslashed⟩ := hlaw.stake.claimSlashReward hs
    refine ⟨hlaw.verifier, hbooks, hlaw.verifierGuard, ?_, hslashed ▸ hlaw.slashed⟩
    change List.countP _ (_ :: ts) = s.entered.toNat
    rw [hheld]
    exact guard_taken hlaw.stakeGuard hfree rfl
  | registerECDSA | registerEIP1271 | revoke =>
    obtain ⟨identities, -, h⟩ := bind_eq_ok.mp h
    cases h
    exact ⟨hlaw.verifier, hlaw.stake, hlaw.verifierGuard, hlaw.stakeGuard, hlaw.slashed⟩
  | forceVerifier =>
    obtain ⟨balance, hbalance, h⟩ := bind_eq_ok.mp h
    cases h
    obtain ⟨hlt, rfl⟩ := receiveValue_eq_ok.mp hbalance
    exact ⟨hlaw.verifier.receive _ (Nat.le_add_right _ _) hlt, hlaw.stake, hlaw.verifierGuard,
      hlaw.stakeGuard, hlaw.slashed⟩
  | forceStake =>
    obtain ⟨balance, hbalance, h⟩ := bind_eq_ok.mp h
    cases h
    obtain ⟨hlt, rfl⟩ := receiveValue_eq_ok.mp hbalance
    exact ⟨hlaw.verifier, hlaw.stake.receive _ (Nat.le_add_right _ _) hlt, hlaw.verifierGuard,
      hlaw.stakeGuard, hlaw.slashed⟩
  | outside =>
    cases h
    exact ⟨hlaw.verifier, hlaw.stake, hlaw.verifierGuard, hlaw.stakeGuard, hlaw.slashed⟩

/-- The books are right in every state of every run, with any calls during any transfer. -/
theorem worldLaw_of_run
    {h : List (Entry (Reentrant.Config World Pending) (Reentrant.Event Call) Unit)}
    {cfg : Reentrant.Config World Pending}
    (hrun : Run (system D).machine ⟨World.genesis, []⟩ h cfg) :
    WorldLaw D cfg.world (cfg.waiting.map Prod.snd) :=
  (Reentrant.invariant (I := WorldLaw D) worldLaw_genesis
    (fun _ _ _ _ _ hlaw hact => hlaw.act (toOption_eq_some.mp hact))
    (fun _ _ _ _ hlaw hrest => hlaw.rest hrest) hrun).1

end World

section Ledgers

structure LedgersHold (D : Deployment) (w : World) : Prop where
  counts : w.verifier.openDisputeCount = w.verifier.openIds.card
  bonds : ∑ id ∈ w.verifier.openIds, w.verifier.disputeBond id + ∑ a, w.verifier.bondCredit a ≤
    w.verifier.balance
  stakes : w.stake.totalStaked + ∑ a, w.stake.slashCredit a ≤ w.stake.balance
  /-- No bond is credited twice, whoever gets it, -/
  once : (w.verifier.credits.map (fun c => c.1)).Nodup
  /-- a credit is the bond of a dispute that is decided, -/
  whole : ∀ c ∈ w.verifier.credits, c.2.2 = D.challengerBond ∧ w.verifier.Decided c.1
  /-- and what is credited but not claimed is what the contract owes. -/
  owed : ∀ a, w.verifier.bondCredit a + w.verifier.claimedBy a = w.verifier.creditedTo a

theorem WorldLaw.ledgersHold {D : Deployment} {w : World} {ts : List Pending}
    (hlaw : WorldLaw D w ts) : LedgersHold D w :=
  ⟨hlaw.verifier.count, hlaw.verifier.solvent, hlaw.stake.solvent, hlaw.verifier.creditedOnce,
    hlaw.verifier.creditedBond, hlaw.verifier.credit⟩

variable [Keccak] [Ecdsa] {D : Deployment}

/-- In every run the ledgers hold, and no stake is paid out while a dispute is open. -/
theorem dispute_ledgers_hold
    {h : List (Entry (Reentrant.Config World Pending) (Reentrant.Event Call) Unit)}
    {cfg : Reentrant.Config World Pending}
    (hrun : Run (system D).machine ⟨World.genesis, []⟩ h cfg) :
    LedgersHold D cfg.world ∧
    ∀ e ∈ h, ∀ caller amount rootInWindow,
      e.call = .call (.withdraw caller amount rootInWindow) →
      e.pre.world.verifier.openIds = ∅ := by
  refine ⟨(worldLaw_of_run hrun).ledgersHold, ?_⟩
  rintro ⟨pre, call, out⟩ he caller amount rootInWindow rfl
  obtain ⟨h', cfg', hbefore, hstep⟩ := hrun.step_of_mem he
  obtain ⟨⟨w, t⟩, hact, -⟩ := Option.map_eq_some_iff.mp hstep
  obtain ⟨s, hs, -⟩ := bind_eq_ok.mp (toOption_eq_some.mp hact)
  have hlaw := worldLaw_of_run hbefore
  obtain ⟨-, -, -, -, hzero⟩ := hlaw.stake.withdraw hs
  rw [hlaw.verifier.count] at hzero
  exact Finset.card_eq_zero.mp hzero

end Ledgers

/-- A deployment with one adjudicator and a bond of five wei. -/
abbrev sampleDeployment : Deployment where
  chainId := 1
  verifier := 2
  deploymentId := 0
  bridge := 3
  bridgeDeploymentId := 0
  sequencer := 1
  quorumThreshold := 1
  approvedAdjudicator := fun a => a = 9
  challengerBond := 5
  slashRatioBps := 5000
  slashRatioBps_le := by decide

abbrev sampleSystem : Reentrant World Call Pending :=
  @system zeroKeccak firstByteEcdsa sampleDeployment

/-- The sequencer withdraws, and a dispute is filed before the transfer is over. -/
def filedDuringWithdraw : List (Reentrant.Event Call) :=
  [ .call (.deposit 1 10),
    .call (.withdraw 1 4 false),
    .call (.fileDispute 7 5 0 CLAIM_DOUBLE_APPLY [] 3),
    .resume true ]

/-- The ledgers with a dispute that was filed during a withdrawal. -/
theorem dispute_ledgers_hold_filed_during_withdraw :
    ∃ h cfg, Run sampleSystem.machine ⟨World.genesis, []⟩ h cfg ∧
      cfg.world.verifier.openDisputeCount = 1 ∧ cfg.world.stake.totalStaked = 6 ∧
      LedgersHold sampleDeployment cfg.world := by
  obtain ⟨h, cfg, hrun, hcount, hstaked⟩ := Run.exists_of_decide sampleSystem.machine
    ⟨World.genesis, []⟩ filedDuringWithdraw (fun _ cfg => cfg.world.verifier.openDisputeCount = 1 ∧
      cfg.world.stake.totalStaked = 6) (by decide)
  exact ⟨h, cfg, hrun, hcount, hstaked,
    (@dispute_ledgers_hold zeroKeccak firstByteEcdsa _ _ _ hrun).1⟩

end Knomosis.Disputes
