import Knomosis.Disputes.LedgerRuns

/-!
# Which disputes can be closed

A dispute is closed by a verdict that its claim verifier gives on some evidence.
Evidence that decides can be made up for any double-apply claim, for any signature
claim as long as somebody is registered with a key, and for a nonce claim about one
of the first entries of the log.  A nonce claim about a later entry is never decided,
whatever evidence and signatures are put forward.
-/

namespace Knomosis.Disputes

open Lib Contracts Kernel List

section Evidence

/-- An entry with a wrong nonce and no signature. -/
def wrongEntry : LogEntry := ⟨[], ⟨.freezeResource 0, 1, 1, []⟩, []⟩

/-- The entry as a blob, with zero hashes. -/
def wrongEntryBlob : List UInt8 := encodeEntry (fun _ => (0, 0)) wrongEntry

theorem wrongEntry_fits : EntryFits wrongEntry := ⟨by decide, by decide⟩

theorem lastBy_replicate (n : ℕ) :
    lastBy wrongEntry.signedAction.signer (List.replicate n wrongEntry) =
      if n = 0 then none else some wrongEntry := by
  have hsigned : signedBy wrongEntry.signedAction.signer wrongEntry = true := by decide
  rw [lastBy, filter_replicate_of_pos hsigned, List.getLast?_replicate]

variable {idx : ℕ} {blob : List UInt8} {verdict : EvidenceVerdict}

theorem checkNonceMismatch_wrong (hidx : idx < MAX_PREFIX_LEN) :
    checkNonceMismatch idx
      (encodePrefix (fun _ => (0, 0)) (List.replicate (idx + 1) wrongEntry)) = .ok .upheld := by
  have hlen : (List.replicate (idx + 1) wrongEntry).length ≤ MAX_PREFIX_LEN := by
    rw [length_replicate]
    exact hidx
  have hfits : ∀ e ∈ List.replicate (idx + 1) wrongEntry, EntryFits e := by
    intro e he
    rw [eq_of_mem_replicate he]
    exact wrongEntry_fits
  have hget : (List.replicate (idx + 1) wrongEntry)[idx]? = some wrongEntry := by
    rw [List.getElem?_replicate, if_pos (Nat.lt_succ_self idx)]
  have htake : (List.replicate (idx + 1) wrongEntry).take idx = List.replicate idx wrongEntry := by
    rw [take_replicate, Nat.min_eq_left (Nat.le_succ idx)]
  rw [checkNonceMismatch_encodePrefix hlen hfits, hget, htake, answer, expectedAfter,
    lastBy_replicate]
  -- the contract expects nonce zero first and nonce two after it
  split_ifs with hfirst hnonce hnonce
  · cases hnonce
  · rfl
  · cases hnonce
  · rfl

theorem nonceLoop_late {count i off : ℕ} {table : List (ℕ × ℕ)} (hlate : i + count ≤ idx)
    (h : nonceLoop idx blob count i off table = .ok verdict) : verdict = .inconclusive := by
  induction count generalizing i off table with
  | zero => exact (Except.ok.inj h).symm
  | succ _ ih =>
    obtain ⟨⟨e, sig, off'⟩, -, h⟩ := bind_eq_ok.mp h
    have hne : i ≠ idx := by omega
    simp only [if_neg hne] at h
    split_ifs at h with hfits
    exact ih (by omega) h

theorem checkNonceMismatch_late (hidx : MAX_PREFIX_LEN ≤ idx)
    (h : checkNonceMismatch idx blob = .ok verdict) : verdict = .inconclusive := by
  obtain ⟨⟨count, off⟩, -, h⟩ := bind_eq_ok.mp h
  obtain ⟨hcount, h⟩ := guard_eq_ok.mp h
  exact nonceLoop_late (by omega) h

/-- An entry next to itself convicts. -/
def doubleBlob (secondary : ℕ) : List UInt8 :=
  encodeNat secondary ++ (cborHeadEncode cbeTagArray 2 ++
    (encodeBytes wrongEntryBlob ++ encodeBytes wrongEntryBlob))

theorem runDoubleApplyFromConcat_double {secondary : ℕ} (hne : idx ≠ secondary)
    (hlt : secondary < 2 ^ 64) :
    runDoubleApplyFromConcat idx (doubleBlob secondary) = .ok .upheld := by
  have hlen : wrongEntryBlob.length < 2 ^ 64 := by decide
  obtain ⟨hsecondary, h⟩ := CBEDecode.readUint_of_drop hlt
    (show (doubleBlob secondary).drop 0 = _ from rfl)
  obtain ⟨hcount, h⟩ := CBEDecode.readArrayHead_of_drop (by decide) h
  obtain ⟨hfirst, h⟩ := CBEDecode.readBytes_of_drop hlen h
  have hlast := h.trans (append_nil _).symm
  obtain ⟨hsecond, -⟩ := CBEDecode.readBytes_of_drop hlen hlast
  have hend := CBEDecode.length_of_drop hlast (by simp [encodeBytes, cborHeadEncode, headEncode_eq])
  rw [encodeBytes_length, length_nil, Nat.add_zero] at hend
  obtain ⟨off, hfields, -⟩ := @readEntryFields_of_drop (fun _ => (0, 0)) wrongEntryBlob []
    wrongEntry 0 wrongEntry_fits (append_nil _).symm
  rw [runDoubleApplyFromConcat, hsecondary]
  simp only [reading, Except.mapError, ok_bind, hcount, hfirst, hsecond, ne_eq, not_true_eq_false,
    if_false]
  rw [CBEDecode.assertFullyConsumed, if_neg (not_not.mpr hend)]
  simp only [ok_bind]
  rw [checkDoubleApply, if_neg hne, hfields]
  rfl

/-- A signature of the wrong length convicts whoever is registered with a key. -/
theorem checkSignatureInvalid_wrong
    [Keccak] [Ecdsa] {D : Deployment} {identities : Address → IdentityRecord} {a : Address}
    (ha : a ≠ 0) (howns : ownsKey identities a) :
    checkSignatureInvalid D identities wrongEntryBlob a = .ok .upheld := by
  obtain ⟨off, hread, -⟩ := @readEntry_of_drop (fun _ => (0, 0)) wrongEntryBlob [] wrongEntry 0
    wrongEntry_fits (append_nil _).symm
  rw [checkSignatureInvalid, hread]
  simp only [ok_bind]
  rw [if_neg ha, howns]
  rfl

theorem checkSignatureInvalid_unowned
    [Keccak] [Ecdsa] {D : Deployment} {identities : Address → IdentityRecord} {a : Address}
    (howns : ¬ (a ≠ 0 ∧ ownsKey identities a))
    (h : checkSignatureInvalid D identities blob a = .ok verdict) : verdict = .inconclusive := by
  obtain ⟨⟨fields, sig, off⟩, -, h⟩ := bind_eq_ok.mp h
  dsimp only at h
  by_cases ha : a = 0
  · rw [if_pos ha] at h
    exact (Except.ok.inj h).symm
  have hnot : ownsKey identities a = false := by
    rw [← Bool.not_eq_true]
    exact fun howns' => howns ⟨ha, howns'⟩
  rw [if_neg ha, hnot] at h
  exact (Except.ok.inj h).symm

end Evidence

section Decisions

variable [Keccak] [Ecdsa] {D : Deployment} {identities : Address → IdentityRecord}

/-- Some evidence decides the dispute: a nonce claim is about one of the first entries, and for a
signature claim somebody is registered with a key. -/
def CanBeDecided (identities : Address → IdentityRecord) (d : DisputeRecord) : Prop :=
  (d.claimVariant = CLAIM_NONCE_MISMATCH → d.impugnedLogIndex < MAX_PREFIX_LEN) ∧
    (d.claimVariant = CLAIM_SIGNATURE_INVALID → ∃ a, a ≠ 0 ∧ ownsKey identities a)

/-- A claim that can be decided can be upheld. -/
theorem CanBeDecided.upheld {d : DisputeRecord} (hcan : CanBeDecided identities d)
    (hvariant : d.claimVariant = CLAIM_SIGNATURE_INVALID ∨ d.claimVariant = CLAIM_NONCE_MISMATCH ∨
      d.claimVariant = CLAIM_DOUBLE_APPLY) :
    ∃ blob hint,
      runClaimVerifier D identities d.claimVariant d.impugnedLogIndex blob hint = .ok .upheld := by
  rcases hvariant with hsig | hnonce | hdouble
  · obtain ⟨a, ha, howns⟩ := hcan.2 hsig
    refine ⟨wrongEntryBlob, a, ?_⟩
    rw [runClaimVerifier, if_pos hsig, if_neg ha]
    exact checkSignatureInvalid_wrong ha howns
  · refine ⟨encodePrefix (fun _ => (0, 0))
      (List.replicate (d.impugnedLogIndex + 1) wrongEntry), 0, ?_⟩
    rw [runClaimVerifier, hnonce, if_neg (by decide), if_pos rfl]
    exact checkNonceMismatch_wrong (hcan.1 hnonce)
  · -- the second entry may be anywhere but at the index of the first
    obtain ⟨secondary, hne, hlt⟩ : ∃ secondary, d.impugnedLogIndex ≠ secondary ∧
        secondary < 2 ^ 64 := by
      by_cases hzero : d.impugnedLogIndex = 0
      · exact ⟨1, by omega, by decide⟩
      · exact ⟨0, hzero, by decide⟩
    refine ⟨doubleBlob secondary, 0, ?_⟩
    rw [runClaimVerifier, hdouble, if_neg (by decide), if_neg (by decide), if_pos rfl]
    exact runDoubleApplyFromConcat_double hne hlt

/-- A verdict other than an inconclusive one needs a claim that can be decided. -/
theorem canBeDecided_of_verdict
    {d : DisputeRecord} {blob : List UInt8} {hint : Address} {verdict : EvidenceVerdict}
    (h : runClaimVerifier D identities d.claimVariant d.impugnedLogIndex blob hint = .ok verdict)
    (hverdict : verdict ≠ .inconclusive) : CanBeDecided identities d := by
  constructor
  · intro hnonce
    rw [runClaimVerifier, hnonce, if_neg (by decide), if_pos rfl] at h
    by_contra hlate
    exact hverdict (checkNonceMismatch_late (not_lt.mp hlate) h)
  · intro hsig
    rw [runClaimVerifier, if_pos hsig, guard_eq_ok] at h
    by_contra hnone
    exact hverdict (checkSignatureInvalid_unowned (fun howns => hnone ⟨hint, howns⟩) h.2)

end Decisions

section Closing

variable [Keccak] [Ecdsa] {D : Deployment}
variable {h : List (Entry (Reentrant.Config World Pending) (Reentrant.Event Call) Unit)}
  {cfg : Reentrant.Config World Pending}

/-- Between calls on the verifier, and if the stake can be slashed and the bridge does not revert,
an open dispute can be closed exactly if its claim can be decided. -/
theorem open_dispute_closable_iff
    (hrun : Run (system D).machine ⟨World.genesis, []⟩ h cfg)
    (hfree : cfg.world.verifier.entered = false)
    {id : ℕ}
    (hmem : id ∈ cfg.world.verifier.openIds)
    {signers signers' : List Address}
    {sigs sigs' : List (List UInt8)}
    (hquorum : HasQuorum D id .upheld signers sigs)
    (hslash : ∃ r, slash D D.verifier id (cfg.world.verifier.disputes id).challenger
      cfg.world.stake = .ok r) :
    (∃ blob hint,
      (∃ r, finalizeUpheld D id blob hint signers sigs false cfg.world = .ok r) ∨
      ∃ w', finalizeRejected D id blob hint signers' sigs' cfg.world = .ok w') ↔
    CanBeDecided cfg.world.identities (cfg.world.verifier.disputes id) := by
  have hlaw := (worldLaw_of_run hrun).verifier
  obtain ⟨hid, hopened⟩ := Verifier.mem_openIds.mp hmem
  obtain ⟨hchallenger, hvariant⟩ := hlaw.filed id hid
  constructor
  · rintro ⟨blob, hint, ⟨⟨w', t⟩, hdone⟩ | ⟨w', hdone⟩⟩
    · obtain ⟨-, -, -, -, hrun'⟩ := requireVerdict_eq_ok.mp (finalizeUpheld_eq_ok.mp hdone).1
      exact canBeDecided_of_verdict hrun' (by decide)
    · obtain ⟨-, -, -, -, hrun'⟩ := requireVerdict_eq_ok.mp (finalizeRejected_eq_ok.mp hdone).1
      exact canBeDecided_of_verdict hrun' (by decide)
  · intro hcan
    obtain ⟨blob, hint, hverdict⟩ := hcan.upheld (D := D) hvariant
    obtain ⟨⟨s, burning⟩, hs⟩ := hslash
    have hclose : closeDispute D id (cfg.world.verifier.disputes id).challenger true
        (setStatus id .upheld cfg.world.verifier) = .ok _ :=
      closeDispute_eq_ok.mpr ⟨Or.inr (hlaw.refund_fits hmem _), rfl⟩
    have hrequire : requireVerdict D .upheld .evidenceNotUpheld cfg.world.identities id blob hint
        signers sigs cfg.world.verifier = .ok () :=
      requireVerdict_eq_ok.mpr ⟨hfree, hchallenger, hopened, hquorum, hverdict⟩
    refine ⟨blob, hint, Or.inl ?_⟩
    cases burning with
    | true =>
      exact ⟨(_, _), finalizeUpheld_eq_ok.mpr
        ⟨hrequire, _, s, true, hclose, hs, Or.inl ⟨rfl, rfl, rfl⟩⟩⟩
    | false =>
      exact ⟨(_, _), finalizeUpheld_eq_ok.mpr
        ⟨hrequire, _, s, false, hclose, hs, Or.inr ⟨rfl, rfl, rfl, rfl⟩⟩⟩

end Closing

/-- The contracts after one dispute is filed. -/
def filedWorld (idx variant : ℕ) : World :=
  { World.genesis with
    verifier := { World.genesis.verifier with
      disputes := Function.update World.genesis.verifier.disputes 0 ⟨idx, 7, variant, .opened, 3⟩
      nextDisputeId := 1
      disputeBond := Function.update World.genesis.verifier.disputeBond 0 5
      openDisputeCount := 1
      balance := 5 } }

theorem filedWorld_run {idx variant : ℕ} (hvariant : variant = CLAIM_NONCE_MISMATCH) :
    Run sampleSystem.machine ⟨World.genesis, []⟩
      [⟨⟨World.genesis, []⟩, .call (.fileDispute 7 5 idx variant [] 3), ()⟩]
      ⟨filedWorld idx variant, []⟩ := by
  subst hvariant
  exact .snoc .nil rfl

/-- A nonce claim about the first entry is upheld on the signature of the one adjudicator. -/
theorem open_dispute_closable_first_entry :
    ∃ blob hint,
      (∃ r, @finalizeUpheld zeroKeccak firstByteEcdsa sampleDeployment 0 blob hint [9]
          [9 :: List.replicate 64 0] false (filedWorld 0 CLAIM_NONCE_MISMATCH) = .ok r) ∨
        ∃ w', @finalizeRejected zeroKeccak firstByteEcdsa sampleDeployment 0 blob hint [] []
          (filedWorld 0 CLAIM_NONCE_MISMATCH) = .ok w' := by
  refine (@open_dispute_closable_iff zeroKeccak firstByteEcdsa sampleDeployment _ _
    (filedWorld_run rfl) rfl 0 (by decide) _ _ _ _ ?_ ?_).mpr ?_
  · exact ⟨by decide, 1, by decide +kernel, le_rfl⟩
  · exact ⟨(_, _), slash_eq_ok.mpr
      ⟨rfl, rfl, rfl, by decide, by decide, by decide, by decide, rfl, rfl⟩⟩
  · exact ⟨fun _ => by decide, fun h => by cases h⟩

/-- A nonce claim about entry 256 is accepted and cannot be closed on any evidence and with any
signatures. -/
theorem late_nonce_dispute_stuck :
    ∃ h w, Run sampleSystem.machine ⟨World.genesis, []⟩ h ⟨w, []⟩ ∧ 0 ∈ w.verifier.openIds ∧
      ∀ blob hint signers sigs,
        (∀ bridgeReverts r, @finalizeUpheld zeroKeccak firstByteEcdsa sampleDeployment 0 blob hint
          signers sigs bridgeReverts w ≠ .ok r) ∧
        ∀ w', @finalizeRejected zeroKeccak firstByteEcdsa sampleDeployment 0 blob hint signers sigs
          w ≠ .ok w' := by
  refine ⟨_, filedWorld 256 CLAIM_NONCE_MISMATCH, filedWorld_run rfl, by decide, ?_⟩
  have hnot : ∀ blob hint verdict, verdict ≠ EvidenceVerdict.inconclusive →
      @runClaimVerifier zeroKeccak firstByteEcdsa sampleDeployment
        (filedWorld 256 CLAIM_NONCE_MISMATCH).identities CLAIM_NONCE_MISMATCH 256 blob hint ≠
          .ok verdict := by
    intro blob hint verdict hverdict hrun
    exact hverdict (checkNonceMismatch_late (le_refl 256) hrun)
  intro blob hint signers sigs
  constructor
  · rintro bridgeReverts ⟨w', t⟩ hdone
    have hverdict := (@finalizeUpheld_eq_ok zeroKeccak firstByteEcdsa _ _ _ _ _ _ _ _ _ _).mp hdone
    exact hnot blob hint .upheld (by decide)
      ((@requireVerdict_eq_ok zeroKeccak firstByteEcdsa _ _ _ _ _ _ _ _ _ _).mp hverdict.1).2.2.2.2
  · intro w' hdone
    have hverdict := (@finalizeRejected_eq_ok zeroKeccak firstByteEcdsa _ _ _ _ _ _ _ _).mp hdone
    exact hnot blob hint .rejected (by decide)
      ((@requireVerdict_eq_ok zeroKeccak firstByteEcdsa _ _ _ _ _ _ _ _ _ _).mp hverdict.1).2.2.2.2

end Knomosis.Disputes
