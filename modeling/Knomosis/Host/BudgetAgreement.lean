import Knomosis.Host.BudgetView
import Knomosis.Kernel.Decoding
import Mathlib.Data.BitVec

/-!
# The host's reading and the kernel's

The host reads off every signed action of the ingest service its signer and the
fields that bear on budgets.  And what it reads is a signed action of the kernel,
except that it passes over the recipient of a withdrawal whatever its length.
-/

namespace Knomosis.Host

open Lib Smt Walk List
open Signing (L1Ingest.Action L1Ingest.Amount)
open Signing.L1Ingest (encodeSignedAction encodeSignedAction_eq)

/-- What of an action bears on budgets. -/
def budgetKind : L1Ingest.Action → ActionBudgetKind
  | .depositWithFee _ recipient _ _ _ budgetGrant _ _ => .depositWithFee recipient budgetGrant
  | .topUpActionBudget gasResource gasAmount budgetIncrement poolActor =>
    .topUpActionBudget gasResource poolActor gasAmount budgetIncrement
  | .topUpActionBudgetFor recipient gasResource gasAmount budgetIncrement poolActor =>
    .topUpActionBudgetFor recipient gasResource poolActor gasAmount budgetIncrement
  | .claimBudgetRefund gasResource budgetUnits weiPerBudgetUnit poolActor =>
    .claimBudgetRefund gasResource poolActor budgetUnits weiPerBudgetUnit
  | _ => .ordinary

theorem takes_kind {a : L1Ingest.Action} (h : a.toKernel.FieldsBounded) :
    Takes (decodeKind a.tag) a.toKernel.encodeFields (budgetKind a) := by
  have hid := fun v : UInt64 => takes_skipUint v.toNat_lt
  have haddr : ∀ recipient, (Kernel.ethAddressBytes recipient).length < 2 ^ 64 := by
    simp [Kernel.ethAddressBytes]
  unfold decodeKind
  rw [a.tag_toKernel]
  -- every kind is a row of fields, and each field has its reader
  cases a <;> simp only [Signing.L1Ingest.Action.toKernel, Kernel.Action.encodeFields,
      Kernel.Action.tag, Kernel.Action.FieldsBounded, budgetKind, append_assoc] at h ⊢ <;>
    repeat' with_reducible first
      | exact Takes.pure _
      | exact hid _
      | apply takes_skipUint
      | apply takes_skipAmount
      | apply takes_skipBytes
      | exact reads_readUint.takes rfl
      | exact reads_readAmount.takes rfl
      | apply Takes.bind
      | apply Takes.bind_last
      | simp only [h, haddr]

/-- What the host reads off a signed action of the service. -/
theorem decodeBudgetView_encode {a : L1Ingest.Action} {nonce : ℕ} {sig : Bytes} (signer : UInt64)
    (h : a.toKernel.FieldsBounded) (hnonce : nonce < 2 ^ 64) (hsig : sig.length < 2 ^ 64) :
    decodeBudgetView (Kernel.SignedAction.encode ⟨a.toKernel, signer, nonce, sig⟩) =
      .ok ⟨signer, budgetKind a⟩ := by
  have htakes : Takes budgetView (Kernel.SignedAction.encode ⟨a.toKernel, signer, nonce, sig⟩)
      ⟨signer, budgetKind a⟩ := by
    simp only [Kernel.SignedAction.encode, Kernel.Action.encode, append_assoc, ← a.tag_toKernel]
    exact (reads_readUint.takes rfl).bind ((takes_kind h).bind ((reads_readUint.takes rfl).bind
      ((takes_skipUint hnonce).bind ((takes_skipBytes hsig).bind_last (Takes.pure _)))))
  rw [decodeBudgetView, htakes.run]
  rfl

/-- The fields of a withdrawal whose recipient is not an address. -/
def OddRecipient (tag : UInt64) (w : Bytes) : Prop :=
  tag.toNat = 14 ∧ ∃ (r sender : UInt64) (amount : L1Ingest.Amount) (bs : ByteString),
    bs.1.length ≠ 20 ∧ w = Kernel.encodeNat r.toNat ++ (Kernel.encodeNat sender.toNat ++
      (Kernel.encodeAmount amount.toNat ++ Kernel.encodeBytes bs.1))

/-- The fields of an action of the kernel. -/
def FieldsOf (tag : UInt64) (w : Bytes) : Prop :=
  ∃ a : Kernel.Action, a.tag = tag.toNat ∧ a.FieldsBounded ∧ w = a.encodeFields

theorem fieldsOf_action {tag : UInt64} {w : Bytes} (a : Kernel.Action) (htag : tag.toNat = a.tag)
    (hbounded : a.FieldsBounded)
    (hfields : w = a.encodeFields := by simp [Kernel.Action.encodeFields]) :
    FieldsOf tag w ∨ OddRecipient tag w :=
  .inl ⟨a, htag.symm, hbounded, hfields⟩

/-- The host passes only over fields of the kernel, odd recipients apart. -/
theorem only_kind (tag : UInt64) :
    Only (decodeKind tag) (fun w _ => FieldsOf tag w ∨ OddRecipient tag w) := by
  have hu := reads_readUint.field
  have hs := only_skipUint
  have hm := only_skipAmount
  have hb := only_skipBytes
  unfold decodeKind
  split
  next htag =>
    refine hs.next fun a => hs.next fun b => hs.next fun c => hm.next fun x => .done ?_
    exact fieldsOf_action (.transfer a b c x.toNat) htag x.isLt
  next htag =>
    refine hs.next fun a => hs.next fun b => hm.next fun x => hs.next fun c => .done ?_
    exact fieldsOf_action (.deposit a b x.toNat c.toNat) htag ⟨x.isLt, c.toNat_lt⟩
  next htag =>
    refine hs.next fun a => hs.next fun b => hm.next fun x => .done ?_
    exact fieldsOf_action (.mint a b x.toNat) htag x.isLt
  next htag =>
    refine hs.next fun a => hs.next fun b => hm.next fun x => .done ?_
    exact fieldsOf_action (.burn a b x.toNat) htag x.isLt
  next htag =>
    refine hs.next fun a => hs.next fun b => hm.next fun x => .done ?_
    exact fieldsOf_action (.reward a b x.toNat) htag x.isLt
  next htag =>
    refine hs.next fun a => hs.next fun b => hm.next fun x => .done ?_
    exact fieldsOf_action (.distributeOthers a b x.toNat) htag x.isLt
  next htag =>
    refine hs.next fun a => hs.next fun b => hm.next fun x => .done ?_
    exact fieldsOf_action (.proportionalDilute a b x.toNat) htag x.isLt
  next htag =>
    refine hs.next fun a => .done ?_
    exact fieldsOf_action (.freezeResource a) htag trivial
  next htag =>
    refine hs.next fun a => .done ?_
    exact fieldsOf_action (.disputeWithdraw a.toNat) htag a.toNat_lt
  next htag =>
    refine hs.next fun a => .done ?_
    exact fieldsOf_action (.rollback a.toNat) htag a.toNat_lt
  next htag =>
    refine hs.next fun a => hb.next fun p => .done ?_
    exact fieldsOf_action (.replaceKey a p.1) htag p.2
  next htag =>
    refine hs.next fun a => hb.next fun p => .done ?_
    exact fieldsOf_action (.registerIdentity a p.1) htag p.2
  next htag =>
    refine hs.next fun a => hs.next fun b => hm.next fun x => hb.next fun p => .done ?_
    by_cases hlen : p.1.length = 20
    · refine fieldsOf_action (.withdraw a b x.toNat (Fin.ofNat (2 ^ 160) (beNat p.1)))
        htag x.isLt ?_
      simp only [Kernel.Action.encodeFields, Kernel.ethAddressBytes_of_length hlen,
        append_assoc, append_nil]
    · exact .inr ⟨htag, a, b, x, p, hlen, by rw [append_nil]⟩
  next htag => exact .done (fieldsOf_action .revokeLocalPolicy htag trivial)
  next htag =>
    refine hb.next fun p => hs.next fun a => hs.next fun b => hb.next fun q => .done ?_
    exact fieldsOf_action (.faultProofChallenge p.1 a.toNat b.toNat q.1) htag
      ⟨p.2, a.toNat_lt, b.toNat_lt, q.2⟩
  next htag =>
    refine hb.next fun p => hs.next fun a => hs.next fun b => hs.next fun c => .done ?_
    exact fieldsOf_action (.faultProofResolution p.1 a.toNat b c.toNat) htag
      ⟨p.2, a.toNat_lt, c.toNat_lt⟩
  next htag =>
    refine hs.next fun a => hu.next fun b => hs.next fun c => hm.next fun x => hm.next fun y =>
      hu.next fun d => hs.next fun e => hm.next fun z => .done ?_
    exact fieldsOf_action (.depositWithFee a b c x.toNat y.toNat d.toNat e.toNat z.toNat) htag
      ⟨x.isLt, y.isLt, d.toNat_lt, e.toNat_lt, z.isLt⟩
  next htag =>
    refine hu.next fun a => reads_readAmount.field.next fun x => hu.next fun b => hu.next fun c =>
      .done ?_
    exact fieldsOf_action (.topUpActionBudget a x.toNat b.toNat c) htag ⟨x.isLt, b.toNat_lt⟩
  next htag =>
    refine hu.next fun a => hu.next fun b => reads_readAmount.field.next fun x => hu.next fun c =>
      hu.next fun d => .done ?_
    exact fieldsOf_action (.topUpActionBudgetFor a b x.toNat c.toNat d) htag ⟨x.isLt, c.toNat_lt⟩
  next htag =>
    refine hu.next fun a => hu.next fun b => reads_readAmount.field.next fun x => hu.next fun c =>
      .done ?_
    exact fieldsOf_action (.claimBudgetRefund a b.toNat x.toNat c) htag ⟨b.toNat_lt, x.isLt⟩
  next htag =>
    refine hs.next fun a => hm.next fun x => hs.next fun b => hs.next fun c => .done ?_
    exact fieldsOf_action (.reclaimAmmReserves a x.toNat b c) htag x.isLt
  next htag =>
    refine hs.next fun a => hs.next fun b => hs.next fun c => hm.next fun x => hm.next fun y =>
      hs.next fun d => .done ?_
    exact fieldsOf_action (.reserveSwap a b c x.toNat y.toNat d) htag ⟨x.isLt, y.isLt⟩
  -- the kinds with nested bodies, and no kind at all
  all_goals exact Only.throw _ _

def signedBytes (tag : UInt64) (fields : Bytes) (signer nonce : UInt64) (sig : ByteString) :
    Bytes :=
  Kernel.encodeNat tag.toNat ++ (fields ++ (Kernel.encodeNat signer.toNat ++
    (Kernel.encodeNat nonce.toNat ++ Kernel.encodeBytes sig.1)))

theorem only_budgetView :
    Only budgetView (fun w view => ∃ tag fields nonce sig,
      (FieldsOf tag fields ∨ OddRecipient tag fields) ∧
        w = signedBytes tag fields view.signer nonce sig) := by
  have hu := reads_readUint.field
  exact hu.next fun tag => (only_kind tag).after fun fields _ hfields => hu.next fun signer =>
    only_skipUint.next fun nonce => only_skipBytes.next fun sig =>
      .done ⟨tag, fields, nonce, sig, hfields, by simp [signedBytes]⟩

/-- What the host accepts. -/
theorem form_of_decodeBudgetView {bytes : Bytes} {view : SignedActionBudgetView}
    (h : decodeBudgetView bytes = .ok view) :
    ∃ tag fields nonce sig, (FieldsOf tag fields ∨ OddRecipient tag fields) ∧
      bytes = signedBytes tag fields view.signer nonce sig := by
  rw [decodeBudgetView] at h
  split at h
  · cases h
  next view' cur hrun =>
    split at h
    · cases h
    next hend =>
      cases h
      exact only_budgetView.run hrun (length_eq_zero_iff.mp (not_not.mp hend))

/-- If the bytes are of a withdrawal, the field of its recipient has the length of an address. -/
def RecipientIsAddress (bytes : Bytes) : Prop :=
  bytes.take 9 = Kernel.encodeNat 14 →
    (bytes.drop 60).take 9 = Kernel.cborHeadEncode Kernel.cbeTagBytes 20

instance (bytes : Bytes) : Decidable (RecipientIsAddress bytes) :=
  inferInstanceAs (Decidable (_ → _))

theorem take_drop_eq {u v w : Bytes} {n k : ℕ} (hu : u.length = n) (hv : v.length = k) :
    ((u ++ (v ++ w)).drop n).take k = v := by
  rw [← hu, ← hv, drop_left, take_left]

theorem head_inj {tag : UInt8} {n k : ℕ} (hn : n < 2 ^ 64) (hk : k < 2 ^ 64)
    (h : Kernel.cborHeadEncode tag n = Kernel.cborHeadEncode tag k) : n = k :=
  ((Kernel.decodes_head tag hn).append_inj (Kernel.decodes_head tag hk) (congrArg (· ++ []) h)).1

theorem take_signedBytes
    (tag : UInt64) (fields : Bytes) (signer nonce : UInt64) (sig : ByteString) :
    (signedBytes tag fields signer nonce sig).take 9 = Kernel.encodeNat tag.toNat := by
  have hlen : (Kernel.encodeNat tag.toNat).length = 9 := Kernel.encodeNat_length _
  rw [signedBytes, ← hlen, take_left]

/-- And the length of the recipient of a withdrawal stands behind three fields. -/
theorem recipient_at (r sender : UInt64) (amount : ℕ) (bs rest : Bytes) :
    ((Kernel.encodeNat 14 ++ (Kernel.encodeNat r.toNat ++ (Kernel.encodeNat sender.toNat ++
      (Kernel.encodeAmount amount ++ (Kernel.encodeBytes bs ++ rest))))).drop 60).take 9 =
      Kernel.cborHeadEncode Kernel.cbeTagBytes bs.length := by
  have hfront : (Kernel.encodeNat 14 ++ Kernel.encodeNat r.toNat ++
      Kernel.encodeNat sender.toNat ++ Kernel.encodeAmount amount).length = 60 := by
    simp
  have hhead : (Kernel.cborHeadEncode Kernel.cbeTagBytes bs.length).length = 9 :=
    Kernel.headEncode_length Kernel.cbeTagBytes 8 bs.length
  have hplace := take_drop_eq (w := bs ++ rest) hfront hhead
  simpa only [Kernel.encodeBytes, append_assoc] using hplace

theorem not_recipientIsAddress {tag : UInt64} {fields : Bytes}
    (signer nonce : UInt64) (sig : ByteString) (h : OddRecipient tag fields) :
    ¬ RecipientIsAddress (signedBytes tag fields signer nonce sig) := by
  obtain ⟨htag, r, sender, amount, bs, hodd, rfl⟩ := h
  intro haddress
  have hlength := haddress (by rw [take_signedBytes, htag])
  simp only [signedBytes, htag, append_assoc] at hlength
  rw [recipient_at] at hlength
  exact hodd (head_inj bs.2 (by decide) hlength)

/-- What the host accepts else is a signed action of the kernel. -/
theorem signedAction_of_decodeBudgetView {bytes : Bytes} {view : SignedActionBudgetView}
    (hview : decodeBudgetView bytes = .ok view) (haddress : RecipientIsAddress bytes) :
    ∃ st : Kernel.SignedAction, Kernel.SignedAction.decode bytes = .ok (st, []) ∧
      st.encode = bytes ∧ st.signer = view.signer := by
  obtain ⟨tag, fields, nonce, sig, hfields | hfields, rfl⟩ := form_of_decodeBudgetView hview
  · obtain ⟨a, htag, hbounded, rfl⟩ := hfields
    have hencode : Kernel.SignedAction.encode ⟨a, view.signer, nonce.toNat, sig.1⟩ =
        signedBytes tag a.encodeFields view.signer nonce sig := by
      simp only [Kernel.SignedAction.encode, Kernel.Action.encode, signedBytes, htag, append_assoc]
    refine ⟨⟨a, view.signer, nonce.toNat, sig.1⟩, ?_, hencode, rfl⟩
    rw [← hencode]
    exact (Kernel.decodes_signedAction hbounded nonce.toNat_lt sig.2).run
  · exact absurd haddress (not_recipientIsAddress _ _ _ hfields)

/-- The host's reading of a signed action is the service's and the kernel's. -/
theorem budget_view_agrees :
    (∀ (a : L1Ingest.Action) (signer : UInt64) (nonce : Signing.L1Ingest.Nonce) (sig : Bytes),
      a.toKernel.FieldsBounded → nonce.toNat < 2 ^ 64 → sig.length < 2 ^ 64 →
        ∃ bytes, encodeSignedAction a signer nonce sig = .ok bytes ∧
          decodeBudgetView bytes = .ok ⟨signer, budgetKind a⟩) ∧
      ∀ (bytes : Bytes) (view : SignedActionBudgetView),
        decodeBudgetView bytes = .ok view → RecipientIsAddress bytes →
          ∃! st : Kernel.SignedAction, Kernel.SignedAction.decode bytes = .ok (st, []) ∧
            st.encode = bytes ∧ st.signer = view.signer := by
  refine ⟨fun a signer nonce sig h hnonce hsig => ?_, fun bytes view hview haddress => ?_⟩
  · exact ⟨_, encodeSignedAction_eq signer h hnonce hsig,
      decodeBudgetView_encode signer h hnonce hsig⟩
  obtain ⟨st, hdecode, hst⟩ := signedAction_of_decodeBudgetView hview haddress
  refine ⟨st, ⟨hdecode, hst⟩, ?_⟩
  rintro st' ⟨hdecode', -⟩
  rw [hdecode] at hdecode'
  exact (Prod.mk.inj (Except.ok.inj hdecode')).1.symm

/-- A top-up for another actor, and its bytes read back. -/
theorem budget_view_agrees_topUp :
    (∃ bytes, encodeSignedAction (.topUpActionBudgetFor 7 0 500 3 9) 4 1 [1, 2] = .ok bytes ∧
      decodeBudgetView bytes = .ok ⟨4, .topUpActionBudgetFor 7 0 9 500 3⟩) ∧
      ∃! st : Kernel.SignedAction,
        Kernel.SignedAction.decode (Kernel.SignedAction.encode ⟨.freezeResource 3, 4, 1, [5]⟩) =
            .ok (st, []) ∧ st.encode = Kernel.SignedAction.encode ⟨.freezeResource 3, 4, 1, [5]⟩ ∧
            st.signer = 4 := by
  refine ⟨budget_view_agrees.1 (.topUpActionBudgetFor 7 0 500 3 9) 4 1 [1, 2]
    ⟨by decide, by decide⟩ (by decide) (by decide), ?_⟩
  have hview : decodeBudgetView
      (Kernel.SignedAction.encode ⟨.freezeResource 3, 4, 1, [5]⟩) = .ok ⟨4, .ordinary⟩ :=
    decodeBudgetView_encode (a := .freezeResource 3) 4 trivial (by decide) (by decide)
  exact budget_view_agrees.2 _ _ hview (by decide)

/-- A game with a number of more than eight bytes has no bytes. -/
theorem wide_game_has_no_bytes :
    encodeSignedAction (.faultProofResolution [] (2 ^ 64) 0 0) 0 0 [] =
      .error (.fieldExceedsBound (2 ^ 64)) := by
  decide +kernel

end Knomosis.Host
