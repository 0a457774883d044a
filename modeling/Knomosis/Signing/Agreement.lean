import Knomosis.Kernel.Decoding
import Knomosis.Signing.L1Ingest
import Knomosis.Signing.SignInput

/-!
# What is signed

The kernel, the contract and the ingest service come to the same bytes for the
same action, signer, nonce and deployment.  And these bytes tell all four apart,
because the kernel's decoders read them off one after the other.
-/

namespace Knomosis.Signing

open Lib Contracts Smt Kernel StepVM
open StepWrites CBEEncode

namespace SignInput

attribute [local simp] actionFieldsForL1 amountValue_eq Slot.value

variable {a : Action}

theorem cbeFields_eq (h : a.FieldsBounded) :
    cbeFields a.tag (actionFieldsForL1 a) = .ok a.encodeFields := by
  cases a with
  | transfer r sender receiver amount =>
    refine transcode_eq [encodeNat r.toNat, encodeNat sender.toNat, encodeNat receiver.toNat,
      encodeAmount amount] ?_
    simp [fieldAt_uint256 h]
  | mint r actor amount | burn r actor amount | reward r actor amount
  | distributeOthers r actor amount | proportionalDilute r actor amount =>
    refine transcode_eq [encodeNat r.toNat, encodeNat actor.toNat, encodeAmount amount] ?_
    simp [fieldAt_uint256 h]
  | freezeResource r =>
    refine transcode_eq [encodeNat r.toNat] ?_
    simp
  | replaceKey actor key | registerIdentity actor key =>
    have hkey : (uint64BE actor.toNat ++ key).drop 8 = key := List.drop_left' (by simp)
    change transcodeKey _ (uint64BE actor.toNat ++ key) = _
    rw [transcodeKey, if_neg (by simp), hkey, fieldAt_id, uintValue_id, bytesValue_of_lt h]
    rfl
  | dispute | disputeWithdraw | verdict | rollback | declareLocalPolicy
  | revokeLocalPolicy | faultProofChallenge
  | faultProofResolution => rfl
  | deposit r recipient amount depositId =>
    refine transcode_eq [encodeNat r.toNat, encodeNat recipient.toNat, encodeAmount amount,
      encodeNat depositId] ?_
    simp [fieldAt_uint256 h.1, fieldAt_uint64 h.2, uintValue_of_lt h.2]
  | withdraw r sender amount recipientL1 =>
    refine transcode_eq [encodeNat r.toNat, encodeNat sender.toNat, encodeAmount amount,
      encodeBytes (ethAddressBytes recipientL1)] ?_
    have hrecipient : (((actionFieldsForL1 (.withdraw r sender amount recipientL1)).drop
        48).take 20) = ethAddressBytes recipientL1 := by
      rw [actionFieldsForL1, List.drop_left' (by simp), List.take_of_length_le (by simp)]
    simp only [List.forall₂_cons, List.forall₂_nil_right_iff, Slot.value, hrecipient]
    simp [fieldAt_uint256 h, @bytesValue_of_lt (ethAddressBytes recipientL1) (by simp)]
  | depositWithFee r recipient poolActor userAmount poolAmount grant depositId seedAmount =>
    obtain ⟨huser, hpool, hgrant, hdeposit, hseed⟩ := h
    refine transcode_eq [encodeNat r.toNat, encodeNat recipient.toNat,
      encodeNat poolActor.toNat, encodeAmount userAmount, encodeAmount poolAmount,
      encodeNat grant, encodeNat depositId, encodeAmount seedAmount] ?_
    simp [fieldAt_uint256 huser, fieldAt_uint256 hpool, fieldAt_uint256 hseed,
      fieldAt_uint64 hgrant, fieldAt_uint64 hdeposit, uintValue_of_lt hgrant,
      uintValue_of_lt hdeposit]
  | topUpActionBudget gasResource gasAmount increment poolActor =>
    refine transcode_eq [encodeNat gasResource.toNat, encodeAmount gasAmount,
      encodeNat increment, encodeNat poolActor.toNat] ?_
    simp [fieldAt_uint256 h.1, fieldAt_uint64 h.2, uintValue_of_lt h.2]
  | topUpActionBudgetFor recipient gasResource gasAmount increment poolActor =>
    refine transcode_eq [encodeNat recipient.toNat, encodeNat gasResource.toNat,
      encodeAmount gasAmount, encodeNat increment, encodeNat poolActor.toNat] ?_
    simp [fieldAt_uint256 h.1, fieldAt_uint64 h.2, uintValue_of_lt h.2]
  | claimBudgetRefund gasResource budgetUnits weiPerBudgetUnit poolActor =>
    refine transcode_eq [encodeNat gasResource.toNat, encodeNat budgetUnits,
      encodeAmount weiPerBudgetUnit, encodeNat poolActor.toNat] ?_
    simp [fieldAt_uint256 h.2, fieldAt_uint64 h.1, uintValue_of_lt h.1]
  | reclaimAmmReserves r amount reserveActor poolActor =>
    refine transcode_eq [encodeNat r.toNat, encodeAmount amount, encodeNat reserveActor.toNat,
      encodeNat poolActor.toNat] ?_
    simp [fieldAt_uint256 h]
  | reserveSwap fromResource toResource user amountIn minAmountOut reserveActor =>
    refine transcode_eq [encodeNat fromResource.toNat, encodeNat toResource.toNat,
      encodeNat user.toNat, encodeAmount amountIn, encodeAmount minAmountOut,
      encodeNat reserveActor.toNat] ?_
    simp [fieldAt_uint256 h.1, fieldAt_uint256 h.2]

/-- The contract signs the kernel's bytes. -/
theorem signingInput_eq {nonce : ℕ} {deploymentId : Bytes} (signer : ActorId) (h : a.FieldsBounded)
    (hnonce : nonce < 2 ^ 64) (hid : deploymentId.length < 2 ^ 64) :
    signingInput a.tag (actionFieldsForL1 a) signer.toNat nonce deploymentId =
      .ok (Kernel.signingInput a signer nonce deploymentId) := by
  have hdomain : DOMAIN = signedActionDomain := by decide
  have haction : cbeAction a.tag (actionFieldsForL1 a) = .ok a.encode := by
    rw [cbeAction, uintValue_of_lt (a.tag_lt.trans (by decide)), cbeFields_eq h]
    rfl
  rw [signingInput, hdomain, bytesValue_of_lt (by decide), bytesValue_of_lt hid, haction,
    uintValue_id, uintValue_of_lt hnonce]
  rfl

end SignInput

/-- One signing input, one intent. -/
theorem signingInput_injective {a a' : Action} {signer signer' : ActorId} {nonce nonce' : Nonce}
    {deploymentId deploymentId' : Bytes} (ha : a.FieldsBounded) (ha' : a'.FieldsBounded)
    (hnonce : nonce < 2 ^ 64) (hnonce' : nonce' < 2 ^ 64) (hid : deploymentId.length < 2 ^ 64)
    (hid' : deploymentId'.length < 2 ^ 64) (h : Kernel.signingInput a signer nonce deploymentId =
      Kernel.signingInput a' signer' nonce' deploymentId') :
    (a, signer, nonce, deploymentId) = (a', signer', nonce', deploymentId') := by
  simp only [Kernel.signingInput, List.append_assoc] at h
  have hdeployment := List.append_cancel_left h
  obtain ⟨rfl, haction⟩ := (decodes_bytes hid).append_inj (decodes_bytes hid') hdeployment
  obtain ⟨rfl, hsigner⟩ := (decodes_action ha).append_inj (decodes_action ha') haction
  obtain ⟨rfl, hlast⟩ := (decodes_uint64 overWide signer).append_inj
    (decodes_uint64 overWide signer') hsigner
  obtain rfl := encodeNat_injective hnonce hnonce' hlast
  rfl

/-- For every action in bounds the contract and, where the action is one of the ingest service,
the service sign the kernel's bytes; and different actions, signers, nonces or deployments have
different bytes. -/
theorem signing_input_agrees :
    (∀ (a : Action) (signer : ActorId) (nonce : Nonce) (deploymentId : Bytes),
      a.FieldsBounded → nonce < 2 ^ 64 → deploymentId.length = 32 →
        SignInput.signingInput (actionKindByte a).toNat (actionFieldsForL1 a) signer.toNat nonce
            deploymentId = .ok (Kernel.signingInput a signer nonce deploymentId)) ∧
    (∀ (a : L1Ingest.Action) (signer : ActorId) (nonce : L1Ingest.Nonce) (deploymentId : Bytes),
      a.toKernel.FieldsBounded → nonce.toNat < 2 ^ 64 → deploymentId.length = 32 →
        L1Ingest.signingInput a signer nonce deploymentId =
          .ok (Kernel.signingInput a.toKernel signer nonce.toNat deploymentId)) ∧
    ∀ (a a' : Action) (signer signer' : ActorId) (nonce nonce' : Nonce)
      (deploymentId deploymentId' : Bytes),
      a.FieldsBounded → a'.FieldsBounded → nonce < 2 ^ 64 → nonce' < 2 ^ 64 →
      deploymentId.length = 32 → deploymentId'.length = 32 →
      (a, signer, nonce, deploymentId) ≠ (a', signer', nonce', deploymentId') →
        Kernel.signingInput a signer nonce deploymentId ≠
          Kernel.signingInput a' signer' nonce' deploymentId' := by
  refine ⟨?_, ?_, ?_⟩
  · intro a signer nonce deploymentId ha hnonce hid
    rw [actionKindByte_toNat]
    exact SignInput.signingInput_eq signer ha hnonce (by omega)
  · intro a signer nonce deploymentId ha hnonce hid
    exact L1Ingest.signingInput_eq signer ha hnonce (by omega)
  · intro a a' signer signer' nonce nonce' deploymentId deploymentId' ha ha' hnonce hnonce'
      hid hid' hne h
    exact hne (signingInput_injective ha ha' hnonce hnonce' (by omega) (by omega) h)

/-- A transfer under one deployment and under another. -/
theorem signing_input_agrees_transfer :
    SignInput.signingInput 0 (actionFieldsForL1 (.transfer 0 5 6 100)) 5 0 (List.replicate 32 1) =
      .ok (Kernel.signingInput (.transfer 0 5 6 100) 5 0 (List.replicate 32 1)) ∧
    L1Ingest.signingInput (.transfer 0 5 6 100) 5 0 (List.replicate 32 1) =
      .ok (Kernel.signingInput (.transfer 0 5 6 100) 5 0 (List.replicate 32 1)) ∧
    Kernel.signingInput (.transfer 0 5 6 100) 5 0 (List.replicate 32 1) ≠
      Kernel.signingInput (.transfer 0 5 6 100) 5 0 (List.replicate 32 2) := by
  have hbounded : (Action.transfer 0 5 6 100).FieldsBounded := show (100 : ℕ) < 2 ^ 256 by norm_num
  obtain ⟨hcontract, hservice, hdistinct⟩ := signing_input_agrees
  refine ⟨hcontract _ 5 0 _ hbounded (by decide) rfl,
    hservice (.transfer 0 5 6 100) 5 0 _ hbounded (by decide) rfl,
    hdistinct _ _ 5 5 0 0 _ _ hbounded hbounded (by decide) (by decide) rfl rfl ?_⟩
  intro h
  exact absurd (congrArg (fun p => p.2.2.2) h) (by decide)

end Knomosis.Signing
