import Knomosis.Kernel.Encoding
import Knomosis.Lib.Decoder

/-!
# Decoding actions

The kernel reads an action back from the bytes that it writes it to.  What the
decoder refuses and the encoder does not is an action out of bounds: a list that
is too long, signers that do not ascend, or a number that lost its high bytes on
the way.
-/

namespace Knomosis.Kernel

open Lib Smt List Decodes

abbrev CbeDecoder := Decoder DecodeError UInt8

def readNatField : CbeDecoder ℕ := decodeNat

def readAmountField : CbeDecoder ℕ := decodeAmount

/-- An actor or a resource.  A field of eight bytes never holds a larger number. -/
def readUInt64As (describe : ℕ → String) : CbeDecoder UInt64 := do
  let n ← readNatField
  if n < 2 ^ 64 then pure n.toUInt64 else throw (.invalidLength (describe n))

/-- How an identifier that is too large is reported. -/
def overWide (n : ℕ) : String := "Action field " ++ toString n ++ " exceeds 2^64"

def readUInt64Field : CbeDecoder UInt64 := readUInt64As overWide

def decodeUInt64 : CbeDecoder UInt64 :=
  readUInt64As (fun n => "UInt64 decoded value " ++ toString n ++ " exceeds 2^64 bound")

def takeBytes (len : ℕ) : CbeDecoder Bytes := fun s =>
  if len ≤ s.length then .ok (s.take len, s.drop len) else .error .unexpectedEof

def decodeBytes : CbeDecoder Bytes := do
  let len ← fun s => cborHeadDecode s cbeTagBytes
  takeBytes len

def decodeList {α : Type} (decode : CbeDecoder α) : CbeDecoder (List α) := do
  let count ← fun s => cborHeadDecode s cbeTagArray
  decode.times count

/-- A list of at most `limit` entries. -/
def decodeListUpTo {α : Type} (limit : ℕ) (describe : ℕ → String) (decode : CbeDecoder α) :
    CbeDecoder (List α) := do
  let xs ← decodeList decode
  if xs.length ≤ limit then pure xs else throw (.invalidLength (describe xs.length))

def decodeEthAddress (describe : ℕ → String) : CbeDecoder EthAddress := do
  let bs ← decodeBytes
  if bs.length = 20 then pure (Fin.ofNat (2 ^ 160) (beNat bs))
  else throw (.invalidLength (describe bs.length))

def DisputeClaim.decode : CbeDecoder DisputeClaim := do
  match ← readNatField with
  | 0 => return .preconditionFalse (← readNatField)
  | 1 => return .signatureInvalid (← readNatField)
  | 2 => return .nonceMismatch (← readNatField)
  | 3 => return .oracleMisreported (← readNatField) (← decodeBytes)
  | 4 => return .doubleApply (← readNatField) (← readNatField)
  | other => throw (.invalidConstructorIndex other)

def EvidenceVerdict.decode : CbeDecoder EvidenceVerdict := do
  match ← readNatField with
  | 0 => return .upheld
  | 1 => return .rejected
  | 2 => return .inconclusive
  | other => throw (.invalidConstructorIndex other)

def Dispute.decode : CbeDecoder Dispute := do
  let challenger ← readUInt64As (fun n => "Dispute challenger " ++ toString n ++ " exceeds 2^64")
  let claim ← DisputeClaim.decode
  let evidence ← decodeBytes
  let nonce ← readNatField
  let sig ← decodeBytes
  return ⟨challenger, claim, evidence, nonce, sig⟩

def actorsStrictlyAscending : List ActorId → Bool
  | x :: y :: rest => decide (x < y) && actorsStrictlyAscending (y :: rest)
  | _ => true

def Verdict.decode : CbeDecoder Verdict := do
  let disputeId ← readNatField
  let outcome ← EvidenceVerdict.decode
  let rationale ← decodeBytes
  let signers ← decodeList decodeUInt64
  let sigs ← decodeList decodeBytes
  if signers.length ≠ sigs.length then
    throw (.nonCanonical "verdict signers/signatures length mismatch")
  else if !actorsStrictlyAscending signers then
    throw (.nonCanonical "verdict signers list not strictly ascending")
  else return ⟨disputeId, outcome, rationale, signers.zip sigs⟩

def MAX_CLAUSES_PER_POLICY : ℕ := 64
def MAX_TAGS_PER_DENY : ℕ := 64
def MAX_RECIPIENTS_PER_REQUIRE : ℕ := 64
def MAX_DELEGATES_PER_ALLOW : ℕ := 64

/-- How a list that is too long is reported. -/
def overLimit (field entries limitName : String) (limit n : ℕ) : String :=
  field ++ ": " ++ toString n ++ " " ++ entries ++ " exceeds " ++ limitName ++ "=" ++ toString limit

/-- How a resource that is too large is reported. -/
def overWidth (field : String) (n : ℕ) : String :=
  field ++ " resource " ++ toString n ++ " exceeds 2^64"

def LocalPolicyClause.decode : CbeDecoder LocalPolicyClause := do
  match ← readNatField with
  | 0 => return .denyTags (← decodeListUpTo MAX_TAGS_PER_DENY
      (overLimit "denyTags" "tags" "MAX_TAGS_PER_DENY" MAX_TAGS_PER_DENY) readNatField)
  | 1 =>
    let resource ← readUInt64As (overWidth "requireRecipientIn")
    return .requireRecipientIn resource (← decodeListUpTo MAX_RECIPIENTS_PER_REQUIRE
      (overLimit "requireRecipientIn" "recipients" "MAX_RECIPIENTS_PER_REQUIRE"
        MAX_RECIPIENTS_PER_REQUIRE) decodeUInt64)
  | 2 =>
    let resource ← readUInt64As (overWidth "capAmount")
    return .capAmount resource (← readNatField)
  | 3 => return .allowTopUpFrom (← decodeListUpTo MAX_DELEGATES_PER_ALLOW
      (overLimit "allowTopUpFrom" "delegates" "MAX_DELEGATES_PER_ALLOW"
        MAX_DELEGATES_PER_ALLOW) decodeUInt64)
  | other => throw (.invalidConstructorIndex other)

def LocalPolicy.decode : CbeDecoder LocalPolicy := do
  let clauses ← decodeListUpTo MAX_CLAUSES_PER_POLICY
    (overLimit "LocalPolicy" "clauses" "MAX_CLAUSES_PER_POLICY" MAX_CLAUSES_PER_POLICY)
    LocalPolicyClause.decode
  return ⟨clauses⟩

def Action.decodeFields : ℕ → CbeDecoder Action
  | 0 => do
    return .transfer (← readUInt64Field) (← readUInt64Field) (← readUInt64Field) (← readAmountField)
  | 1 => do
    return .mint (← readUInt64Field) (← readUInt64Field) (← readAmountField)
  | 2 => do
    return .burn (← readUInt64Field) (← readUInt64Field) (← readAmountField)
  | 3 => do
    return .freezeResource (← readUInt64Field)
  | 4 => do
    return .replaceKey (← readUInt64Field) (← decodeBytes)
  | 5 => do
    return .reward (← readUInt64Field) (← readUInt64Field) (← readAmountField)
  | 6 => do
    return .distributeOthers (← readUInt64Field) (← readUInt64Field) (← readAmountField)
  | 7 => do
    return .proportionalDilute (← readUInt64Field) (← readUInt64Field) (← readAmountField)
  | 8 => do
    return .dispute (← Dispute.decode)
  | 9 => do
    return .disputeWithdraw (← readNatField)
  | 10 => do
    return .verdict (← Verdict.decode)
  | 11 => do
    return .rollback (← readNatField)
  | 12 => do
    return .registerIdentity (← readUInt64Field) (← decodeBytes)
  | 13 => do
    return .deposit (← readUInt64Field) (← readUInt64Field) (← readAmountField) (← readNatField)
  | 14 => do
    return .withdraw (← readUInt64Field) (← readUInt64Field) (← readAmountField)
        (← decodeEthAddress (fun n => "withdraw recipientL1 expects 20 bytes; got " ++ toString n))
  | 15 => do
    return .declareLocalPolicy (← LocalPolicy.decode)
  | 16 => return .revokeLocalPolicy
  | 17 => do
    return .faultProofChallenge (← decodeBytes) (← readNatField) (← readNatField) (← decodeBytes)
  | 18 => do
    return .faultProofResolution (← decodeBytes) (← readNatField) (← readUInt64Field)
        (← readNatField)
  | 19 => do
    return .depositWithFee (← readUInt64Field) (← readUInt64Field) (← readUInt64Field)
        (← readAmountField) (← readAmountField) (← readNatField) (← readNatField)
        (← readAmountField)
  | 20 => do
    return .topUpActionBudget (← readUInt64Field) (← readAmountField) (← readNatField)
        (← readUInt64Field)
  | 21 => do
    return .topUpActionBudgetFor (← readUInt64Field) (← readUInt64Field)
        (← readAmountField) (← readNatField) (← readUInt64Field)
  | 22 => do
    return .claimBudgetRefund (← readUInt64Field) (← readNatField) (← readAmountField)
        (← readUInt64Field)
  | 24 => do
    return .reclaimAmmReserves (← readUInt64Field) (← readAmountField)
        (← readUInt64Field) (← readUInt64Field)
  | 25 => do
    return .reserveSwap (← readUInt64Field) (← readUInt64Field) (← readUInt64Field)
        (← readAmountField) (← readAmountField) (← readUInt64Field)
  | other => throw (.invalidConstructorIndex other)

def Action.decode : CbeDecoder Action := do
  Action.decodeFields (← readNatField)

def SignedAction.decode : CbeDecoder SignedAction := do
  let action ← Action.decode
  let signer ← readUInt64Field
  let nonce ← readNatField
  let sig ← decodeBytes
  return ⟨action, signer, nonce, sig⟩

section RoundTrips

variable {n : ℕ} {bs : Bytes} {α : Type} {decode : CbeDecoder α} {encode : α → Bytes} {xs : List α}
variable {a : Action}

theorem decodes_nat (h : n < 2 ^ 64) : Decodes readNatField (encodeNat n) n :=
  fun _ => decodeNat_eq_ok.mpr ⟨h, rfl⟩

theorem decodes_amount (h : n < 2 ^ 256) : Decodes readAmountField (encodeAmount n) n :=
  fun _ => decodeAmount_eq_ok.mpr ⟨h, rfl⟩

theorem decodes_uint64 (describe : ℕ → String) (a : UInt64) :
    Decodes (readUInt64As describe) (encodeNat a.toNat) a := by
  refine (decodes_nat a.toNat_lt).bind_last ?_
  rw [if_pos a.toNat_lt]
  have hback : a.toNat.toUInt64 = a := by simp
  rw [hback]
  exact pure a

theorem decodes_head (tag : UInt8) (h : n < 2 ^ 64) :
    Decodes (fun s => cborHeadDecode s tag) (cborHeadEncode tag n) n :=
  fun _ => headDecode_eq_ok.mpr ⟨by simpa using h, rfl⟩

theorem decodes_bytes (h : bs.length < 2 ^ 64) : Decodes decodeBytes (encodeBytes bs) bs := by
  refine (decodes_head cbeTagBytes h).bind ?_
  intro rest
  rw [takeBytes, if_pos (by simp), take_left, drop_left]

theorem decodes_list (hlen : xs.length < 2 ^ 64) (h : ∀ x ∈ xs, Decodes decode (encode x) x) :
    Decodes (decodeList decode) (encodeList encode xs) xs :=
  (decodes_head cbeTagArray hlen).bind (times h)

theorem decodes_listUpTo {limit : ℕ} (describe : ℕ → String) (hlimit : limit < 2 ^ 64)
    (hlen : xs.length ≤ limit) (h : ∀ x ∈ xs, Decodes decode (encode x) x) :
    Decodes (decodeListUpTo limit describe decode) (encodeList encode xs) xs := by
  refine (decodes_list (by omega) h).bind_last ?_
  rw [if_pos hlen]
  exact pure xs

theorem decodes_ethAddress (describe : ℕ → String) (a : EthAddress) :
    Decodes (decodeEthAddress describe) (encodeBytes (ethAddressBytes a)) a := by
  have hlen : (ethAddressBytes a).length = 20 := beBytes_length 20 a.val
  refine (decodes_bytes (by omega)).bind_last ?_
  rw [if_pos hlen, ethAddressBytes, beNat_beBytes]
  have hback : Fin.ofNat (2 ^ 160) (a.val % 256 ^ 20) = a := by
    refine Fin.ext ?_
    rw [Fin.val_ofNat, Nat.mod_mod_of_dvd _ (by decide)]
    exact Nat.mod_eq_of_lt a.isLt
  rw [hback]
  exact pure a

theorem ethAddressBytes_of_length (h : bs.length = 20) :
    ethAddressBytes (Fin.ofNat (2 ^ 160) (beNat bs)) = bs := by
  have hlt : beNat bs < 2 ^ 160 := by simpa [h] using beNat_lt bs
  rw [ethAddressBytes, Fin.val_ofNat, Nat.mod_eq_of_lt hlt, ← h, beBytes_beNat]

theorem decodes_disputeClaim {claim : DisputeClaim} (h : claim.FieldsBounded) :
    Decodes DisputeClaim.decode claim.encode claim := by
  cases claim with
  | preconditionFalse | signatureInvalid | nonceMismatch =>
    exact (decodes_nat (by decide)).bind ((decodes_nat h).bind_last (pure _))
  | oracleMisreported =>
    rw [DisputeClaim.encode, append_assoc]
    exact (decodes_nat (by decide)).bind
      ((decodes_nat h.1).bind ((decodes_bytes h.2).bind_last (pure _)))
  | doubleApply =>
    rw [DisputeClaim.encode, append_assoc]
    exact (decodes_nat (by decide)).bind
      ((decodes_nat h.1).bind ((decodes_nat h.2).bind_last (pure _)))

theorem decodes_evidenceVerdict (v : EvidenceVerdict) :
    Decodes EvidenceVerdict.decode v.encode v := by
  cases v with
  | upheld | rejected | inconclusive => exact (decodes_nat (by decide)).bind_last (pure _)

theorem decodes_dispute {d : Dispute} (h : d.FieldsBounded) :
    Decodes Dispute.decode d.encode d := by
  obtain ⟨hclaim, hevidence, hnonce, hsig⟩ := h
  simp only [Dispute.encode, append_assoc]
  exact (decodes_uint64 _ d.challenger).bind ((decodes_disputeClaim hclaim).bind
    ((decodes_bytes hevidence).bind ((decodes_nat hnonce).bind
      ((decodes_bytes hsig).bind_last (pure _)))))

theorem actorsStrictlyAscending_of_pairwise {actors : List ActorId} (h : actors.Pairwise (· < ·)) :
    actorsStrictlyAscending actors = true := by
  induction actors with
  | nil => rfl
  | cons x rest ih =>
    obtain ⟨hhead, hrest⟩ := pairwise_cons.mp h
    cases rest with
    | nil => rfl
    | cons y =>
      rw [actorsStrictlyAscending, ih hrest, decide_eq_true (hhead y mem_cons_self)]
      rfl

theorem decodes_verdict {v : Verdict} (h : v.FieldsBounded) :
    Decodes Verdict.decode v.encode v := by
  obtain ⟨hid, hrationale, hlen, hsigs, hascending⟩ := h
  have hsigners : encodeList (fun p : ActorId × Signature => encodeNat p.1.toNat) v.signatures =
      encodeList (fun a : ActorId => encodeNat a.toNat) (v.signatures.map Prod.fst) := by
    simp [encodeList, flatMap_map]
  have hseals : encodeList (fun p : ActorId × Signature => encodeBytes p.2) v.signatures =
      encodeList encodeBytes (v.signatures.map Prod.snd) := by
    simp [encodeList, flatMap_map]
  simp only [Verdict.encode, append_assoc, hsigners, hseals]
  refine (decodes_nat hid).bind ((decodes_evidenceVerdict v.outcome).bind
    ((decodes_bytes hrationale).bind ?_))
  refine (decodes_list (by simpa using hlen) (fun a _ => decodes_uint64 _ a)).bind
    ((decodes_list (by simpa using hlen) ?_).bind_last ?_)
  · intro sig hsig
    obtain ⟨p, hp, rfl⟩ := mem_map.mp hsig
    exact decodes_bytes (hsigs p hp)
  have hsorted : actorsStrictlyAscending (v.signatures.map Prod.fst) = true :=
    actorsStrictlyAscending_of_pairwise (pairwise_map.mpr hascending)
  rw [if_neg (not_not.mpr (by simp)), hsorted, zip_map', map_id']
  exact pure v

theorem decodes_localPolicyClause {c : LocalPolicyClause} (h : c.FieldsBounded) :
    Decodes LocalPolicyClause.decode c.encode c := by
  cases c with
  | denyTags =>
    exact (decodes_nat (by decide)).bind ((decodes_listUpTo _ (by decide) h.1
      (fun n hn => decodes_nat (h.2 n hn))).bind_last (pure _))
  | requireRecipientIn resource =>
    rw [LocalPolicyClause.encode, append_assoc]
    exact (decodes_nat (by decide)).bind ((decodes_uint64 _ resource).bind
      ((decodes_listUpTo _ (by decide) h (fun a _ => decodes_uint64 _ a)).bind_last
        (pure _)))
  | capAmount resource =>
    rw [LocalPolicyClause.encode, append_assoc]
    exact (decodes_nat (by decide)).bind ((decodes_uint64 _ resource).bind
      ((decodes_nat h).bind_last (pure _)))
  | allowTopUpFrom =>
    exact (decodes_nat (by decide)).bind ((decodes_listUpTo _ (by decide) h
      (fun a _ => decodes_uint64 _ a)).bind_last (pure _))

theorem decodes_localPolicy {p : LocalPolicy} (h : p.FieldsBounded) :
    Decodes LocalPolicy.decode p.encode p :=
  (decodes_listUpTo _ (by decide) h.1
    (fun c hc => decodes_localPolicyClause (h.2 c hc))).bind_last (pure _)

theorem decodes_action_fields (h : a.FieldsBounded) :
    Decodes (Action.decodeFields a.tag) a.encodeFields a := by
  have hid : ∀ v, Decodes readUInt64Field (encodeNat v.toNat) v := decodes_uint64 overWide
  -- every kind is a row of fields, and each field has its decoder
  cases a <;> simp only [Action.encodeFields, Action.decodeFields, Action.tag,
      Action.FieldsBounded, append_assoc] at h ⊢ <;>
    repeat' with_reducible first
      | exact Decodes.pure _
      | exact hid _
      | apply decodes_nat
      | apply decodes_amount
      | apply decodes_bytes
      | apply decodes_ethAddress
      | exact decodes_dispute h
      | exact decodes_verdict h
      | exact decodes_localPolicy h
      | apply Decodes.bind
      | apply Decodes.bind_last
      | simp only [h]

theorem decodes_action (h : a.FieldsBounded) : Decodes Action.decode a.encode a :=
  (decodes_nat (a.tag_lt.trans (by decide))).bind (decodes_action_fields h)

theorem decodes_signedAction {st : SignedAction} (h : st.action.FieldsBounded)
    (hnonce : st.nonce < 2 ^ 64) (hsig : st.sig.length < 2 ^ 64) :
    Decodes SignedAction.decode st.encode st := by
  simp only [SignedAction.encode, append_assoc]
  exact (decodes_action h).bind ((decodes_uint64 _ st.signer).bind
    ((decodes_nat hnonce).bind ((decodes_bytes hsig).bind_last (pure _))))

end RoundTrips

end Knomosis.Kernel
