import Knomosis.Indexer.Decoder
import Knomosis.Kernel.Events

/-!
# Events of the kernel and of the indexer

The indexer reads every event that the kernel writes within its bounds, and writes
it back to the same bytes.  What it accepts is an event of the kernel, except that
it cannot tell whether the bytes of a local policy are one.
-/

namespace Knomosis.Indexer

open Lib Smt Walk

/-- The event of the indexer for an event of the kernel. -/
def ofKernel : Kernel.Event → Event
  | .balanceChanged r a oldV newV =>
    .balanceChanged r a (BitVec.ofNat 256 oldV) (BitVec.ofNat 256 newV)
  | .nonceAdvanced a oldN newN => .nonceAdvanced a (BitVec.ofNat 128 oldN) (BitVec.ofNat 128 newN)
  | .identityRegistered a key => .identityRegistered a key
  | .identityRevoked a => .identityRevoked a
  | .timeRecorded t => .timeRecorded (UInt64.ofNat t)
  | .disputeFiled challenger targetIdx => .disputeFiled challenger (UInt64.ofNat targetIdx)
  | .disputeWithdrawn disputeIdx => .disputeWithdrawn (UInt64.ofNat disputeIdx)
  | .verdictApplied disputeIdx outcomeTag =>
    .verdictApplied (UInt64.ofNat disputeIdx) (UInt64.ofNat outcomeTag)
  | .rewardIssued resource recipient amount =>
    .rewardIssued resource recipient (BitVec.ofNat 256 amount)
  | .withdrawalRequested resource sender amount recipientL1 withdrawalId =>
    .withdrawalRequested resource sender (BitVec.ofNat 256 amount)
      ⟨Kernel.ethAddressBytes recipientL1, beBytes_length 20 _⟩ (UInt64.ofNat withdrawalId)
  | .depositCredited resource recipient amount depositId =>
    .depositCredited resource recipient (BitVec.ofNat 256 amount) (UInt64.ofNat depositId)
  | .localPolicyDeclared actor policy => .localPolicyDeclared actor policy.encode
  | .localPolicyRevoked actor => .localPolicyRevoked actor
  | .faultProofGameOpened gameId challenger startIdx endIdx bindingHash =>
    .faultProofGameOpened (UInt64.ofNat gameId) challenger (UInt64.ofNat startIdx)
      (UInt64.ofNat endIdx) bindingHash
  | .faultProofBisectionStep gameId round party idx commit =>
    .faultProofBisectionStep (UInt64.ofNat gameId) (UInt64.ofNat round) party
      (UInt64.ofNat idx) commit
  | .faultProofGameSettled gameId winner loser payout =>
    .faultProofGameSettled (UInt64.ofNat gameId) winner loser (BitVec.ofNat 256 payout)
  | .depositWithFeeCredited resource recipient poolActor userAmount poolAmount budgetGrant
      depositId =>
      .depositWithFeeCredited resource recipient poolActor (BitVec.ofNat 256 userAmount)
        (BitVec.ofNat 256 poolAmount) (BitVec.ofNat 128 budgetGrant) (UInt64.ofNat depositId)
  | .actionBudgetTopUp signer gasResource gasAmount budgetIncrement poolActor =>
    .actionBudgetTopUp signer gasResource (BitVec.ofNat 256 gasAmount)
      (BitVec.ofNat 128 budgetIncrement) poolActor
  | .gasPoolClaim resource sequencer amount =>
    .gasPoolClaim resource sequencer (BitVec.ofNat 256 amount)
  | .delegatedActionBudgetTopUp recipient signer gasResource gasAmount budgetIncrement poolActor =>
    .delegatedActionBudgetTopUp recipient signer gasResource (BitVec.ofNat 256 gasAmount)
      (BitVec.ofNat 128 budgetIncrement) poolActor
  | .budgetConsumed actor amount => .budgetConsumed actor (BitVec.ofNat 128 amount)
  | .ammReservesReclaimed resource amount reserveActor poolActor =>
    .ammReservesReclaimed resource (BitVec.ofNat 256 amount) reserveActor poolActor
  | .reserveSwapExecuted fromResource toResource user amountIn amountOut reserveActor =>
    .reserveSwapExecuted fromResource toResource user (BitVec.ofNat 256 amountIn)
      (BitVec.ofNat 256 amountOut) reserveActor
  | .reserveSeeded resource amount reserveActor depositId =>
    .reserveSeeded resource (BitVec.ofNat 256 amount) reserveActor (UInt64.ofNat depositId)

theorem tag_ofKernel (e : Kernel.Event) : (ofKernel e).tag.toUInt64.toNat = e.tag := by
  cases e <;> rfl

theorem takes_fields {e : Kernel.Event} {tag : UInt64} (h : e.InRange) (htag : tag.toNat = e.tag) :
    Takes (decodeFields tag) e.encodeFields (ofKernel e) := by
  have hid : ∀ {v : UInt64}, Takes readUint (Kernel.encodeNat v.toNat) v :=
    fun {v} => reads_readUint.takes rfl
  have hmax : Kernel.Event.maxByteString = HARD_MAX_BYTE_STRING_LEN := rfl
  unfold decodeFields
  rw [htag]
  -- every kind is a row of fields, and each field has its reader
  cases e <;> simp only [Kernel.Event.encodeFields, List.append_assoc, Kernel.Event.tag,
      Kernel.Event.InRange, ofKernel, readNonce, readBudgetUnits, hmax] at h ⊢ <;>
    repeat' with_reducible first
      | exact Takes.pure _
      | exact hid
      | apply takes_count
      | apply takes_amount
      | apply takes_wide
      | apply takes_byteString
      | apply Takes.bind
      | apply Takes.bind_last
      | simp only [h]
  exact takes_ethAddress ⟨_, _⟩

theorem decodeEvent_encode {e : Kernel.Event} (h : e.InRange) :
    decodeEvent e.encode = .ok (ofKernel e) := by
  have hback : (UInt64.ofNat e.tag).toNat = e.tag := by
    rw [UInt64.toNat_ofNat', Nat.mod_eq_of_lt e.tag_lt]
  have htakes : Takes event e.encode (ofKernel e) :=
    (takes_count e.tag_lt).bind (takes_fields h hback)
  rw [decodeEvent, htakes.run]
  rfl

section Writing

theorem writeUint_eq (v : UInt64) : writeUint v = Kernel.encodeNat v.toNat :=
  Signing.L1Ingest.encodeU64_eq v

variable {n : ℕ} {e : Kernel.Event}

theorem writeUint_ofNat (h : n < 2 ^ 64) : writeUint (UInt64.ofNat n) = Kernel.encodeNat n := by
  rw [writeUint_eq, UInt64.toNat_ofNat', Nat.mod_eq_of_lt h]

theorem writeAmount_ofNat (h : n < 2 ^ 256) :
    writeAmount (BitVec.ofNat 256 n) = Kernel.encodeAmount n := by
  have hsame : writeAmount (BitVec.ofNat 256 n) = Kernel.encodeAmount (BitVec.ofNat 256 n).toNat :=
    Signing.L1Ingest.encodeAmount_eq _
  rw [hsame, BitVec.toNat_ofNat, Nat.mod_eq_of_lt h]

theorem writeWideChecked_ofNat (h : n < 2 ^ 64) :
    writeWideChecked (BitVec.ofNat 128 n) = .ok (Kernel.encodeNat n) := by
  have hback : (BitVec.ofNat 128 n).toNat = n := by
    rw [BitVec.toNat_ofNat, Nat.mod_eq_of_lt (h.trans (by decide))]
  rw [writeWideChecked, hback, if_neg (by omega), writeUint_ofNat h]

theorem writeByteString_eq (bs : Bytes) : writeByteString bs = Kernel.encodeBytes bs := by
  rw [Kernel.encodeBytes, Kernel.cborHeadEncode, Kernel.headEncode_eq]
  rfl

theorem encodeFieldsChecked_ofKernel (h : e.InRange) :
    encodeFieldsChecked (ofKernel e) = .ok e.encodeFields := by
  cases e <;> simp only [Kernel.Event.InRange] at h <;>
    simp (disch := tauto) only [ofKernel, encodeFieldsChecked, writeNonceChecked,
      writeBudgetUnitsChecked, writeWideChecked_ofNat, writeUint_eq, UInt64.toNat_ofNat',
      Nat.mod_eq_of_lt, writeAmount_ofNat, writeEthAddress, writeByteString_eq,
      Kernel.Event.encodeFields] <;> rfl

theorem encodeEventChecked_ofKernel (h : e.InRange) :
    encodeEventChecked (ofKernel e) = .ok e.encode := by
  rw [encodeEventChecked, encodeFieldsChecked_ofKernel h, writeUint_eq, tag_ofKernel]
  rfl

end Writing

/-- The bytes that are kept as a policy are one. -/
def Event.PolicyReadable : Event → Prop
  | .localPolicyDeclared _ policy => ∃ p : Kernel.LocalPolicy, p.FieldsBounded ∧ policy = p.encode
  | _ => True

/-- The event of the kernel behind an event of the indexer and its fields. -/
def Behind (tag : UInt64) (w : Bytes) (event : Event) : Prop :=
  event.PolicyReadable → ∃ e : Kernel.Event, e.tag = tag.toNat ∧ e.InRange ∧ e.PolicyInLimits ∧
    w = e.encodeFields ∧ ofKernel e = event

theorem Behind.of {tag : UInt64} {w : Bytes} {event : Event} (e : Kernel.Event)
    (htag : tag.toNat = e.tag) (hrange : e.InRange) (hpolicy : e.PolicyInLimits := by trivial)
    (hfields : w = e.encodeFields := by simp [Kernel.Event.encodeFields])
    (hmirror : ofKernel e = event := by simp [ofKernel]) : Behind tag w event :=
  fun _ => ⟨e, htag.symm, hrange, hpolicy, hfields, hmirror⟩

/-- The indexer reads only what the kernel writes, policies apart. -/
theorem only_fields (tag : UInt64) : Only (decodeFields tag) (Behind tag) := by
  have hu := reads_readUint.field
  have hm := reads_readAmount.field
  have hw := only_wide
  have hb := only_byteString
  unfold decodeFields
  split
  next htag =>
    refine hu.next fun a => hu.next fun b => hm.next fun x => hm.next fun y => .done ?_
    exact .of (.balanceChanged a b x.toNat y.toNat) htag ⟨x.isLt, y.isLt⟩
  next htag =>
    refine hu.next fun a => hw.next fun u => hw.next fun v => .done ?_
    exact .of (.nonceAdvanced a u.toNat v.toNat) htag ⟨u.toNat_lt, v.toNat_lt⟩
  next htag =>
    refine hu.next fun a => hb.next fun p => .done ?_
    exact .of (.identityRegistered a p.1) htag p.2
  next htag =>
    refine hu.next fun a => .done ?_
    exact .of (.identityRevoked a) htag trivial
  next htag =>
    refine hu.next fun a => .done ?_
    exact .of (.timeRecorded a.toNat) htag a.toNat_lt
  next htag =>
    refine hu.next fun a => hu.next fun b => .done ?_
    exact .of (.disputeFiled a b.toNat) htag b.toNat_lt
  next htag =>
    refine hu.next fun a => .done ?_
    exact .of (.disputeWithdrawn a.toNat) htag a.toNat_lt
  next htag =>
    refine hu.next fun a => hu.next fun b => .done ?_
    exact .of (.verdictApplied a.toNat b.toNat) htag ⟨a.toNat_lt, b.toNat_lt⟩
  next htag =>
    refine hu.next fun a => hu.next fun b => hm.next fun x => .done ?_
    exact .of (.rewardIssued a b x.toNat) htag x.isLt
  next htag =>
    refine hu.next fun a => hu.next fun b => hm.next fun x => only_ethAddress.next fun addr =>
      hu.next fun c => .done ?_
    refine fun _ => ⟨.withdrawalRequested a b x.toNat
      (Fin.ofNat (2 ^ 160) (beNat addr.1)) c.toNat, htag.symm, ⟨x.isLt, c.toNat_lt⟩,
      trivial, ?_, ?_⟩
    · simp only [Kernel.Event.encodeFields, Kernel.ethAddressBytes_of_length addr.2,
        List.append_assoc, List.append_nil]
    · simp only [ofKernel, Kernel.ethAddressBytes_of_length addr.2, BitVec.ofNat_toNat,
        BitVec.setWidth_eq, UInt64.ofNat_toNat]
  next htag =>
    refine hu.next fun a => hu.next fun b => hm.next fun x => hu.next fun c => .done ?_
    exact .of (.depositCredited a b x.toNat c.toNat) htag ⟨x.isLt, c.toNat_lt⟩
  next htag =>
    refine hu.next fun a => hb.next fun p => .done ?_
    rintro ⟨policy, hlimits, hbs⟩
    have hlen : policy.encode.length ≤ HARD_MAX_BYTE_STRING_LEN := by
      rw [← hbs]
      exact p.2
    refine ⟨.localPolicyDeclared a policy, htag.symm, hlen, hlimits, ?_, ?_⟩
    · rw [Kernel.Event.encodeFields, hbs, List.append_nil]
    · rw [ofKernel, hbs]
  next htag =>
    refine hu.next fun a => .done ?_
    exact .of (.localPolicyRevoked a) htag trivial
  next htag =>
    refine hu.next fun a => hu.next fun b => hu.next fun c => hu.next fun d => hb.next fun p =>
      .done ?_
    exact .of (.faultProofGameOpened a.toNat b c.toNat d.toNat p.1) htag
      ⟨a.toNat_lt, c.toNat_lt, d.toNat_lt, p.2⟩
  next htag =>
    refine hu.next fun a => hu.next fun b => hu.next fun c => hu.next fun d => hb.next fun p =>
      .done ?_
    exact .of (.faultProofBisectionStep a.toNat b.toNat c d.toNat p.1) htag
      ⟨a.toNat_lt, b.toNat_lt, d.toNat_lt, p.2⟩
  next htag =>
    refine hu.next fun a => hu.next fun b => hu.next fun c => hm.next fun x => .done ?_
    exact .of (.faultProofGameSettled a.toNat b c x.toNat) htag ⟨a.toNat_lt, x.isLt⟩
  next htag =>
    refine hu.next fun a => hu.next fun b => hu.next fun c => hm.next fun x => hm.next fun y =>
      hw.next fun u => hu.next fun d => .done ?_
    exact .of (.depositWithFeeCredited a b c x.toNat y.toNat u.toNat d.toNat) htag
      ⟨x.isLt, y.isLt, u.toNat_lt, d.toNat_lt⟩
  next htag =>
    refine hu.next fun a => hu.next fun b => hm.next fun x => hw.next fun u => hu.next fun c =>
      .done ?_
    exact .of (.actionBudgetTopUp a b x.toNat u.toNat c) htag ⟨x.isLt, u.toNat_lt⟩
  next htag =>
    refine hu.next fun a => hu.next fun b => hm.next fun x => .done ?_
    exact .of (.gasPoolClaim a b x.toNat) htag x.isLt
  next htag =>
    refine hu.next fun a => hu.next fun b => hu.next fun c => hm.next fun x => hw.next fun u =>
      hu.next fun d => .done ?_
    exact .of (.delegatedActionBudgetTopUp a b c x.toNat u.toNat d) htag ⟨x.isLt, u.toNat_lt⟩
  next htag =>
    refine hu.next fun a => hw.next fun u => .done ?_
    exact .of (.budgetConsumed a u.toNat) htag u.toNat_lt
  next htag =>
    refine hu.next fun a => hm.next fun x => hu.next fun b => hu.next fun c => .done ?_
    exact .of (.ammReservesReclaimed a x.toNat b c) htag x.isLt
  next htag =>
    refine hu.next fun a => hu.next fun b => hu.next fun c => hm.next fun x => hm.next fun y =>
      hu.next fun d => .done ?_
    exact .of (.reserveSwapExecuted a b c x.toNat y.toNat d) htag ⟨x.isLt, y.isLt⟩
  next htag =>
    refine hu.next fun a => hm.next fun x => hu.next fun b => hu.next fun c => .done ?_
    exact .of (.reserveSeeded a x.toNat b c.toNat) htag ⟨x.isLt, c.toNat_lt⟩
  -- the kind that was given up, and no kind at all
  · exact Only.throw _ _

/-- What the indexer accepts was written by the kernel. -/
theorem event_of_decodeEvent {payload : Bytes} {event : Event} (h : decodeEvent payload = .ok event)
    (hpolicy : event.PolicyReadable) :
    ∃ e : Kernel.Event, e.InRange ∧ e.PolicyInLimits ∧ e.encode = payload ∧ ofKernel e = event := by
  have honly : Only Indexer.event (fun w event => ∃ (tag : UInt64) (v : Bytes), Behind tag v event ∧
      w = Kernel.encodeNat tag.toNat ++ v) :=
    reads_readUint.field.next fun tag => (only_fields tag).mono fun v event hv => ⟨tag, v, hv, rfl⟩
  rw [decodeEvent] at h
  split at h
  · cases h
  next event' cursor hrun =>
    split at h
    · cases h
    next hend =>
      cases h
      obtain ⟨tag, fields, hbehind, rfl⟩ :=
        honly.run hrun (List.length_eq_zero_iff.mp (not_not.mp hend))
      obtain ⟨e, htag, hrange, hlimits, rfl, hmirror⟩ := hbehind hpolicy
      exact ⟨e, hrange, hlimits, by rw [Kernel.Event.encode, htag], hmirror⟩

/-- The kernel and the indexer have one codec for events. -/
theorem event_codecs_agree :
    (∀ e : Kernel.Event, e.InRange →
      decodeEvent e.encode = .ok (ofKernel e) ∧
      encodeEventChecked (ofKernel e) = .ok e.encode) ∧
    ∀ (payload : Bytes) (event : Event),
      decodeEvent payload = .ok event →
      event.PolicyReadable →
      ∃ e : Kernel.Event,
        e.InRange ∧
        e.PolicyInLimits ∧
        e.encode = payload ∧
        Kernel.Event.decode payload = .ok (e, []) ∧
        ofKernel e = event ∧
        ∀ e' : Kernel.Event, e'.InRange → e'.PolicyInLimits → e'.encode = payload → e' = e := by
  refine ⟨fun e h => ⟨decodeEvent_encode h, encodeEventChecked_ofKernel h⟩, ?_⟩
  intro payload event hdecode hpolicy
  obtain ⟨e, hrange, hlimits, rfl, hmirror⟩ := event_of_decodeEvent hdecode hpolicy
  have hback := (Kernel.Event.decodes_event hrange hlimits).run
  refine ⟨e, hrange, hlimits, rfl, hback, hmirror, fun e' hrange' hlimits' hsame => ?_⟩
  have hback' := (Kernel.Event.decodes_event hrange' hlimits').run
  rw [hsame, hback] at hback'
  exact (Prod.mk.inj (Except.ok.inj hback')).1.symm

/-- A withdrawal there and back. -/
theorem event_codecs_agree_withdrawal :
    (decodeEvent (Kernel.Event.encode (.withdrawalRequested 1 5 300 0 2)) =
        .ok (ofKernel (.withdrawalRequested 1 5 300 0 2)) ∧
      encodeEventChecked (ofKernel (.withdrawalRequested 1 5 300 0 2)) =
        .ok (Kernel.Event.encode (.withdrawalRequested 1 5 300 0 2))) ∧
      ∃ e : Kernel.Event, e.InRange ∧ e.PolicyInLimits ∧
        e.encode = Kernel.Event.encode (.budgetConsumed 5 1) ∧
        Kernel.Event.decode (Kernel.Event.encode (.budgetConsumed 5 1)) = .ok (e, []) ∧
          ofKernel e = .budgetConsumed 5 1 ∧ ∀ e' : Kernel.Event, e'.InRange → e'.PolicyInLimits →
              e'.encode = Kernel.Event.encode (.budgetConsumed 5 1) → e' = e := by
  refine ⟨event_codecs_agree.1 _ ⟨by decide, by decide⟩, ?_⟩
  have hrange : (Kernel.Event.budgetConsumed 5 1).InRange := by
    change 1 < 2 ^ 64
    decide
  exact event_codecs_agree.2 _ (.budgetConsumed 5 1) (decodeEvent_encode hrange) trivial

/-- The indexer takes no bytes at all for a policy, the kernel does not. -/
theorem empty_policy_accepted :
    decodeEvent (Kernel.encodeNat 11 ++ Kernel.encodeNat 7 ++ Kernel.encodeBytes []) =
        .ok (.localPolicyDeclared 7 []) ∧
      Kernel.Event.decode (Kernel.encodeNat 11 ++ Kernel.encodeNat 7 ++ Kernel.encodeBytes []) =
        .error .unexpectedEof := by
  decide +kernel

end Knomosis.Indexer
