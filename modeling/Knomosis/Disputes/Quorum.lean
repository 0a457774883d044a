import Knomosis.Contracts.Evm
import Knomosis.Lib.Word

/-!
# The quorum tally

Both dispute verifiers count the approved adjudicators behind a verdict with the
same deduplicating loop over pairs of an address and a signature that the caller
chooses.  They differ in one thing: what a malformed signature does.  The second
verifier recovers through a call to itself and goes on; the first one calls the
signature library directly and reverts with it.
-/

namespace Knomosis.Disputes

open Lib Contracts List

inductive TallyError where
  | ecdsa (e : EcdsaError)
  | arrayOutOfBounds
deriving DecidableEq

def MAX_VERDICT_SIGNERS : ℕ := 64

section Loop

variable (approved : Address → Bool) (recovered : List UInt8 → Except TallyError (Option Address))

/-- One pair of the loop; `recovered` is what the contract learns about a signature. -/
def tallyPair (seen : List Address) (s : Address) (sig : List UInt8) :
    Except TallyError (List Address) :=
  if sig.length ≠ 65 then .ok seen
  else if s ∈ seen then .ok seen
  else do
    let rec ← recovered sig
    if rec = some s then .ok (seen ++ [s]) else .ok seen

/-- The loop; `sigs` is what is left of the signatures at the index of the next address. -/
def tallyLoop : List Address → List (List UInt8) → List Address → Except TallyError (List Address)
  | [], _, seen => .ok seen
  | s :: signers, sigs, seen =>
    if s = 0 then tallyLoop signers sigs.tail seen
    else if !approved s then tallyLoop signers sigs.tail seen
    else
      match sigs with
      | [] => .error .arrayOutOfBounds
      | sig :: sigs => do
        let seen ← tallyPair recovered seen s sig
        tallyLoop signers sigs seen

end Loop

section Contracts

variable [Ecdsa]

/-- A revert of the library is a revert of the first verifier. -/
def recoveredV1 (digest : Bytes32) (sig : List UInt8) : Except TallyError (Option Address) :=
  match Ecdsa.recover digest sig with
  | .ok a => .ok (some a)
  | .error e => .error (.ecdsa e)

/-- The second verifier catches a revert of its call to itself. -/
def recoveredV2 (digest : Bytes32) (sig : List UInt8) : Except TallyError (Option Address) :=
  match Ecdsa.recover digest sig with
  | .ok a => .ok (some a)
  | .error _ => .ok none

/-- `KnomosisDisputeVerifier._countVerifiedSignatures`. -/
def countVerifiedSignatures (approvedAdjudicator : Address → Bool) (verdictHash : Bytes32)
    (signers : List Address) (sigs : List (List UInt8)) : Except TallyError ℕ :=
  if signers.length ≠ sigs.length then .ok 0
  else if MAX_VERDICT_SIGNERS < signers.length then .ok 0
  else do
    let seen ← tallyLoop approvedAdjudicator (recoveredV1 verdictHash) signers sigs []
    .ok seen.length

/-- `KnomosisDisputeVerifierV2._countVerifiedSignatures`. -/
def countVerifiedSignaturesV2 (isApprovedAdjudicator : Address → Bool) (digest : Bytes32)
    (signers : List Address) (sigs : List (List UInt8)) : Except TallyError ℕ := do
  let seen ← tallyLoop isApprovedAdjudicator (recoveredV2 digest) signers sigs []
  .ok seen.length

end Contracts

section Specification

variable [Ecdsa]

/-- The pair is of an approved adjudicator and could be counted. -/
def Eligible (approved : Address → Bool) (p : Address × List UInt8) : Prop :=
  p.1 ≠ 0 ∧ approved p.1 = true ∧ p.2.length = 65

instance (approved : Address → Bool) (p : Address × List UInt8) : Decidable (Eligible approved p) :=
  inferInstanceAs (Decidable (_ ∧ _))

/-- The adjudicators behind a list of pairs: each address with a signature of its own. -/
def validSigners (approved : Address → Bool) (digest : Bytes32)
    (pairs : List (Address × List UInt8)) : Finset Address :=
  ((pairs.filter (fun p =>
    Eligible approved p ∧ Ecdsa.recover digest p.2 = .ok p.1)).map Prod.fst).toFinset

variable {approved : Address → Bool} {digest : Bytes32} {pairs : List (Address × List UInt8)}

theorem mem_validSigners {a : Address} :
    a ∈ validSigners approved digest pairs ↔
      ∃ sig, (a, sig) ∈ pairs ∧ Eligible approved (a, sig) ∧ Ecdsa.recover digest sig = .ok a := by
  simp [validSigners]

theorem validSigners_mono {pairs' : List (Address × List UInt8)} (h : pairs.Sublist pairs') :
    validSigners approved digest pairs ⊆ validSigners approved digest pairs' := by
  intro a ha
  obtain ⟨sig, hmem, hvalid⟩ := mem_validSigners.mp ha
  exact mem_validSigners.mpr ⟨sig, h.mem hmem, hvalid⟩

end Specification

section Tally

variable [Ecdsa] {approved : Address → Bool} {digest : Bytes32}
variable {recovered : List UInt8 → Except TallyError (Option Address)}

/-- What the contract learns about a signature is right, if it learns anything. -/
def Faithful (digest : Bytes32)
    (recovered : List UInt8 → Except TallyError (Option Address)) : Prop :=
  ∀ sig r a, recovered sig = .ok r → (r = some a ↔ Ecdsa.recover digest sig = .ok a)

theorem recoveredV1_faithful : Faithful digest (recoveredV1 digest) := by
  intro sig r a h
  unfold recoveredV1 at h
  split at h
  next b hb =>
    cases h
    rw [hb, Option.some.injEq, Except.ok.injEq]
  · cases h

theorem recoveredV2_faithful : Faithful digest (recoveredV2 digest) := by
  intro sig r a h
  unfold recoveredV2 at h
  split at h
  next b hb =>
    cases h
    rw [hb, Option.some.injEq, Except.ok.injEq]
  next e he =>
    cases h
    simp [he]

variable {seen out signers : List Address} {s : Address} {sig : List UInt8}
variable {sigs : List (List UInt8)}

/-- The addresses that one pair adds. -/
theorem mem_tallyPair (hfaithful : Faithful digest recovered)
    (happroved : s ≠ 0 ∧ approved s = true) (h : tallyPair recovered seen s sig = .ok out)
    (hnodup : seen.Nodup) :
    out.Nodup ∧ ∀ a, a ∈ out ↔ a ∈ seen ∨ a ∈ validSigners approved digest [(s, sig)] := by
  have hsingle : ∀ a, a ∈ validSigners approved digest [(s, sig)] ↔
      a = s ∧ sig.length = 65 ∧ Ecdsa.recover digest sig = .ok s := by
    intro a
    rw [mem_validSigners]
    constructor
    · rintro ⟨sig', hmem, helig, hrec⟩
      obtain ⟨rfl, rfl⟩ : a = s ∧ sig' = sig := by simpa using hmem
      exact ⟨rfl, helig.2.2, hrec⟩
    · rintro ⟨rfl, hlen, hrec⟩
      exact ⟨sig, mem_singleton_self _, ⟨happroved.1, happroved.2, hlen⟩, hrec⟩
  simp only [hsingle]
  unfold tallyPair at h
  split_ifs at h with hlen hseen
  · cases h
    exact ⟨hnodup, fun a => by simp [hlen]⟩
  · cases h
    refine ⟨hnodup, fun a => ⟨Or.inl, ?_⟩⟩
    rintro (ha | ⟨rfl, -⟩)
    · exact ha
    · exact hseen
  · obtain ⟨r, hr, h⟩ := bind_eq_ok.mp h
    have hiff := hfaithful sig r s hr
    split_ifs at h with hrs
    · cases h
      refine ⟨hnodup.append (nodup_singleton s) (by simpa using hseen), fun a => ?_⟩
      simp [hiff.mp hrs, not_not.mp hlen]
    · cases h
      exact ⟨hnodup, fun a => by simp [mt hiff.mpr hrs]⟩

omit [Ecdsa] in
/-- One pair stops the loop exactly if it is new, of full length, and the contract cannot learn
whose it is. -/
theorem tallyPair_ok {seen : List Address} {s : Address} {sig : List UInt8} :
    (∃ out, tallyPair recovered seen s sig = .ok out) ↔
      (sig.length = 65 → (∃ e, recovered sig = .error e) → s ∈ seen) := by
  unfold tallyPair
  split_ifs with hlen hseen
  · simp [hlen]
  · simp [hseen]
  · cases hrec : recovered sig with
    | ok r => by_cases hr : r = some s <;> simp [hr]
    | error => simp [bind_eq_ok, not_not.mp hlen, hseen]

theorem validSigners_cons (p : Address × List UInt8) (pairs : List (Address × List UInt8)) :
    validSigners approved digest (p :: pairs) =
      validSigners approved digest [p] ∪ validSigners approved digest pairs := by
  ext a
  simp only [Finset.mem_union, mem_validSigners, mem_cons, not_mem_nil, or_false]
  constructor
  · rintro ⟨sig, hmem | hmem, hvalid⟩
    · exact .inl ⟨sig, hmem, hvalid⟩
    · exact .inr ⟨sig, hmem, hvalid⟩
  · rintro (⟨sig, hmem, hvalid⟩ | ⟨sig, hmem, hvalid⟩)
    · exact ⟨sig, .inl hmem, hvalid⟩
    · exact ⟨sig, .inr hmem, hvalid⟩

theorem validSigners_of_not (h : ¬ (s ≠ 0 ∧ approved s = true)) :
    validSigners approved digest [(s, sig)] = ∅ := by
  ext a
  rw [mem_validSigners]
  simp only [mem_singleton, Finset.notMem_empty, iff_false]
  rintro ⟨sig', hmem, helig, -⟩
  obtain ⟨rfl, rfl⟩ : a = s ∧ sig' = sig := by simpa using hmem
  exact h ⟨helig.1, helig.2.1⟩

omit [Ecdsa] in
/-- An address that cannot be counted is passed over. -/
theorem tallyLoop_cons
    (s : Address) (signers : List Address) (sig : List UInt8) (sigs : List (List UInt8))
    (seen : List Address) :
    tallyLoop approved recovered (s :: signers) (sig :: sigs) seen =
      if s ≠ 0 ∧ approved s = true then (tallyPair recovered seen s sig).bind (fun seen =>
          tallyLoop approved recovered signers sigs seen)
      else tallyLoop approved recovered signers sigs seen := by
  rw [tallyLoop]
  by_cases hs : s = 0
  · simp [hs]
  by_cases happ : approved s = true
  · simp [hs, happ]
    rfl
  · simp [hs, happ]

/-- A finished loop has seen the valid signers, each once. -/
theorem mem_tallyLoop (hfaithful : Faithful digest recovered) (hlen : signers.length = sigs.length)
    (h : tallyLoop approved recovered signers sigs seen = .ok out) (hnodup : seen.Nodup) :
    out.Nodup ∧ ∀ a, a ∈ out ↔ a ∈ seen ∨ a ∈ validSigners approved digest (signers.zip sigs) := by
  induction signers generalizing sigs seen with
  | nil =>
    cases h
    exact ⟨hnodup, fun a => by simp [validSigners]⟩
  | cons s signers ih =>
    cases sigs with
    | nil => cases hlen
    | cons _ sigs =>
      rw [tallyLoop_cons] at h
      rw [zip_cons_cons, validSigners_cons]
      have hlen' : signers.length = sigs.length := Nat.succ.inj hlen
      split_ifs at h with happ
      · obtain ⟨seen', hpair, h⟩ := bind_eq_ok.mp h
        obtain ⟨hnodup', hmem'⟩ := mem_tallyPair hfaithful happ hpair hnodup
        obtain ⟨hout, hmem⟩ := ih hlen' h hnodup'
        refine ⟨hout, fun a => ?_⟩
        rw [hmem, hmem', Finset.mem_union, or_assoc]
      · obtain ⟨hout, hmem⟩ := ih hlen' h hnodup
        refine ⟨hout, fun a => ?_⟩
        rw [hmem, validSigners_of_not happ, Finset.empty_union]

omit [Ecdsa] in
theorem forall_split_cons {α : Type} {x : α} {xs : List α} {Q : List α → α → Prop} :
    (∀ before p after, x :: xs = before ++ p :: after → Q before p) ↔
      Q [] x ∧ ∀ before p after, xs = before ++ p :: after → Q (x :: before) p := by
  constructor
  · intro h
    refine ⟨h [] x xs rfl, ?_⟩
    rintro before p after rfl
    exact h (x :: before) p after rfl
  · rintro ⟨hfirst, hrest⟩ before p after heq
    cases before with
    | nil =>
      obtain ⟨rfl, -⟩ := List.cons.inj heq
      exact hfirst
    | cons y before =>
      obtain ⟨rfl, htail⟩ := List.cons.inj heq
      exact hrest before p after htail

/-- The loop finishes exactly if each signature it cannot read comes after a valid one of the same
address. -/
theorem tallyLoop_ok (hfaithful : Faithful digest recovered) (hlen : signers.length = sigs.length)
    (hnodup : seen.Nodup) :
    (∃ out, tallyLoop approved recovered signers sigs seen = .ok out) ↔
      ∀ before p after, signers.zip sigs = before ++ p :: after → Eligible approved p →
        (∃ e, recovered p.2 = .error e) →
        p.1 ∈ seen ∨ p.1 ∈ validSigners approved digest before := by
  induction signers generalizing sigs seen with
  | nil => simp [tallyLoop]
  | cons s signers ih =>
    cases sigs with
    | nil => cases hlen
    | cons _ sigs =>
      have hlen' : signers.length = sigs.length := Nat.succ.inj hlen
      rw [tallyLoop_cons, zip_cons_cons, forall_split_cons]
      split_ifs with happ
      · constructor
        · rintro ⟨out, hout⟩
          obtain ⟨seen', hpair, hout⟩ := bind_eq_ok.mp hout
          obtain ⟨hnodup', hmem⟩ := mem_tallyPair hfaithful happ hpair hnodup
          refine ⟨fun helig herr => .inl (tallyPair_ok.mp ⟨_, hpair⟩ helig.2.2 herr), ?_⟩
          intro before p after heq helig herr
          rw [validSigners_cons, Finset.mem_union, ← or_assoc, ← hmem]
          exact (ih hlen' hnodup').mp ⟨out, hout⟩ before p after heq helig herr
        · rintro ⟨hfirst, hrest⟩
          obtain ⟨seen', hpair⟩ := tallyPair_ok.mpr (fun h65 herr =>
            (hfirst ⟨happ.1, happ.2, h65⟩ herr).resolve_right (by simp [validSigners]))
          obtain ⟨hnodup', hmem⟩ := mem_tallyPair hfaithful happ hpair hnodup
          obtain ⟨out, hout⟩ := (ih hlen' hnodup').mpr (fun before p after heq helig herr => by
            have hp := hrest before p after heq helig herr
            rwa [validSigners_cons, Finset.mem_union, ← or_assoc, ← hmem] at hp)
          exact ⟨out, bind_eq_ok.mpr ⟨seen', hpair, hout⟩⟩
      · rw [ih hlen' hnodup]
        constructor
        · intro h
          refine ⟨fun helig => absurd ⟨helig.1, helig.2.1⟩ happ, ?_⟩
          intro before p after heq helig herr
          rw [validSigners_cons, validSigners_of_not happ, Finset.empty_union]
          exact h before p after heq helig herr
        · rintro ⟨-, hrest⟩ before p after heq helig herr
          have hp := hrest before p after heq helig herr
          rwa [validSigners_cons, validSigners_of_not happ, Finset.empty_union] at hp

theorem length_tallyLoop (hfaithful : Faithful digest recovered)
    (hlen : signers.length = sigs.length)
    (h : tallyLoop approved recovered signers sigs [] = .ok out) :
    out.length = (validSigners approved digest (signers.zip sigs)).card := by
  obtain ⟨hnodup, hmem⟩ := mem_tallyLoop hfaithful hlen h nodup_nil
  rw [← toFinset_card_of_nodup hnodup]
  congr 1
  ext a
  rw [mem_toFinset, hmem]
  simp

/-- The second verifier always counts the valid signers. -/
theorem countVerifiedSignaturesV2_eq (approved : Address → Bool) (digest : Bytes32)
    (hlen : signers.length = sigs.length) :
    countVerifiedSignaturesV2 approved digest signers sigs =
      .ok (validSigners approved digest (signers.zip sigs)).card := by
  obtain ⟨out, hout⟩ : ∃ out, tallyLoop approved (recoveredV2 digest) signers sigs [] =
      .ok out := by
    rw [tallyLoop_ok recoveredV2_faithful hlen nodup_nil]
    rintro before p after - - ⟨e, he⟩
    unfold recoveredV2 at he
    split at he <;> cases he
  rw [countVerifiedSignaturesV2, hout, ← length_tallyLoop recoveredV2_faithful hlen hout]
  rfl

/-- The first verifier counts them if it returns. -/
theorem countVerifiedSignatures_eq_ok {n : ℕ} (hlen : signers.length = sigs.length)
    (hmax : signers.length ≤ MAX_VERDICT_SIGNERS) :
    countVerifiedSignatures approved digest signers sigs = .ok n ↔
      n = (validSigners approved digest (signers.zip sigs)).card ∧
      ∃ out, tallyLoop approved (recoveredV1 digest) signers sigs [] = .ok out := by
  rw [countVerifiedSignatures, if_neg (not_not.mpr hlen), if_neg (not_lt.mpr hmax), bind_eq_ok]
  constructor
  · rintro ⟨out, hout, hn⟩
    rw [← length_tallyLoop recoveredV1_faithful hlen hout, ← Except.ok.inj hn]
    exact ⟨rfl, out, hout⟩
  · rintro ⟨rfl, out, hout⟩
    exact ⟨out, hout, by rw [length_tallyLoop recoveredV1_faithful hlen hout]⟩

def Malformed (digest : Bytes32) (sig : List UInt8) : Prop :=
  ∃ e, Ecdsa.recover digest sig = .error e

theorem recoveredV1_error {sig : List UInt8} :
    (∃ e, recoveredV1 digest sig = .error e) ↔ Malformed digest sig := by
  unfold recoveredV1 Malformed
  cases Ecdsa.recover digest sig with
  | ok | error => simp

/-- Both verifiers return the number of valid signers exactly if every malformed signature of full
length under an approved address comes after a valid one of that address.  The second verifier
needs no such condition, and more pairs never lower its tally. -/
theorem quorum_tally_iff (approved : Address → Bool) (digest : Bytes32)
    (signers : List Address) (sigs : List (List UInt8)) (hlen : signers.length = sigs.length)
    (hmax : signers.length ≤ MAX_VERDICT_SIGNERS) :
    let tally := (validSigners approved digest (signers.zip sigs)).card
    ((countVerifiedSignatures approved digest signers sigs = .ok tally ∧
        countVerifiedSignaturesV2 approved digest signers sigs = .ok tally) ↔
      ∀ before p after, signers.zip sigs = before ++ p :: after → Eligible approved p →
        Malformed digest p.2 → p.1 ∈ validSigners approved digest before) ∧
    countVerifiedSignaturesV2 approved digest signers sigs = .ok tally ∧
    ∀ signers' sigs', signers'.length = sigs'.length →
      (signers.zip sigs).Sublist (signers'.zip sigs') →
      ∃ m n, countVerifiedSignaturesV2 approved digest signers sigs = .ok m ∧
        countVerifiedSignaturesV2 approved digest signers' sigs' = .ok n ∧ m ≤ n := by
  have hV2 := countVerifiedSignaturesV2_eq approved digest hlen
  refine ⟨?_, hV2, ?_⟩
  · rw [countVerifiedSignatures_eq_ok hlen hmax, tallyLoop_ok recoveredV1_faithful hlen nodup_nil]
    simp only [recoveredV1_error, not_mem_nil, false_or, true_and, hV2, and_true]
  · intro signers' sigs' hlen' hsub
    exact ⟨_, _, hV2, countVerifiedSignaturesV2_eq approved digest hlen',
      Finset.card_le_card (validSigners_mono hsub)⟩

end Tally

/-- Two adjudicators, one of them twice. -/
theorem quorum_tally_two_adjudicators :
    let signers : List Address := [1, 2, 1]
    let sigs : List (List UInt8) := [List.replicate 65 1, List.replicate 65 2, List.replicate 65 1]
    @countVerifiedSignatures firstByteEcdsa (fun _ => true) 0 signers sigs = .ok 2 ∧
      @countVerifiedSignaturesV2 firstByteEcdsa (fun _ => true) 0 signers sigs = .ok 2 := by
  intro signers sigs
  have hcard : (@validSigners firstByteEcdsa (fun _ => true) 0 (signers.zip sigs)).card = 2 := by
    decide +kernel
  rw [← hcard]
  refine ((@quorum_tally_iff firstByteEcdsa (fun _ => true) 0 signers sigs rfl
    (by decide)).1).mpr ?_
  rintro before p after heq - ⟨e, he⟩
  have hmem : p ∈ signers.zip sigs := heq ▸ mem_append_right before mem_cons_self
  have hnone : ∀ q ∈ signers.zip sigs,
      (@Ecdsa.recover firstByteEcdsa 0 q.2).toOption.isSome = true := by
    decide +kernel
  have hp := hnone p hmem
  rw [he] at hp
  cases hp

/-- One junk signature in front of a valid one stops the first verifier and not the second. -/
theorem junk_signature_stops_tally :
    let signers : List Address := [1, 1]
    let sigs : List (List UInt8) := [List.replicate 65 0, List.replicate 65 1]
    (@validSigners firstByteEcdsa (fun _ => true) 0 (signers.zip sigs)).card = 1 ∧
      @countVerifiedSignatures firstByteEcdsa (fun _ => true) 0 signers sigs =
        .error (.ecdsa .invalidSignature) ∧
      @countVerifiedSignaturesV2 firstByteEcdsa (fun _ => true) 0 signers sigs = .ok 1 := by
  decide +kernel

end Knomosis.Disputes
