import Knomosis.Contracts.CBEDecode
import Knomosis.Kernel.Evidence

/-!
# The nonce check of the first dispute verifier

The contract decides a nonce dispute from an encoded prefix of the log.  It keeps
a table of the nonces it expects next and, unlike the kernel, sets an entry of the
table from the nonce that a log entry carries: after an entry with nonce `n` it
expects `n + 1`, where the kernel expects one more than the number of entries so
far.  The two agree on logs with correct nonces and part on others.
-/

namespace Knomosis.Disputes

open Lib Contracts Kernel List CBEDecode

inductive EvidenceError where
  | cbe (e : CbeError)
  | maxPrefixLenExceeded
  | arithmetic
  | selfClaimInvalid
  | missingSignerHint
  | invalidClaimVariant
  | doubleApplyConcatBadCount (declared expected : ℕ)
deriving DecidableEq

def MAX_PREFIX_LEN : ℕ := 256

def reading {α : Type} (x : Except CbeError α) : Except EvidenceError α := x.mapError .cbe

/-- The expected nonces in the order in which their signers appeared; a signer keeps its slot. -/
def setExpected (signer expected : ℕ) : List (ℕ × ℕ) → List (ℕ × ℕ)
  | [] => [(signer, expected)]
  | (key, value) :: table =>
    if key = signer then (key, expected) :: table
    else (key, value) :: setExpected signer expected table

theorem lookup_setExpected (signer expected key : ℕ) (table : List (ℕ × ℕ)) :
    (setExpected signer expected table).lookup key =
      if key = signer then some expected else table.lookup key := by
  induction table with
  | nil =>
    rw [setExpected, lookup_cons]
    by_cases hkey : key = signer <;> simp [hkey, beq_false_of_ne]
  | cons entry _ ih =>
    obtain ⟨k, v⟩ := entry
    rw [setExpected]
    by_cases hk : k = signer
    · subst hk
      by_cases hkey : key = k
      · simp [hkey]
      · simp [lookup_cons, hkey, beq_false_of_ne hkey]
    · rw [if_neg hk, lookup_cons, lookup_cons, ih]
      by_cases hkey : key = k
      · subst hkey
        simp [hk]
      · simp [beq_false_of_ne hkey]

/-- The fields of an entry that the verifiers look at. -/
structure EntryFields where
  actionHash : Bytes32
  signer : ℕ
  nonce : ℕ
deriving DecidableEq

/-- An entry up to its signature, and the offset behind. -/
def readEntryFields (blob : List UInt8) (off : ℕ) : Except EvidenceError (EntryFields × ℕ) := do
  let (_, off) ← reading (readBytes32Exact blob off)
  let (actionHash, off) ← reading (readBytes32Exact blob off)
  let (signer, off) ← reading (readUint blob off)
  let (nonce, off) ← reading (readUint blob off)
  .ok (⟨actionHash, signer, nonce⟩, off)

/-- An entry with its signature, and the offset behind. -/
def readEntry (blob : List UInt8) (off : ℕ) :
    Except EvidenceError (EntryFields × List UInt8 × ℕ) := do
  let (fields, off) ← readEntryFields blob off
  let (sig, off) ← reading (readBytes blob off)
  .ok (fields, sig, off)

/-- The loop over the entries; `count` entries are left, the next one has index `i`. -/
def nonceLoop (impugnedLogIndex : ℕ) (prefixBlob : List UInt8) :
    ℕ → ℕ → ℕ → List (ℕ × ℕ) → Except EvidenceError EvidenceVerdict
  | 0, _, _, _ => .ok .inconclusive
  | count + 1, i, off, table => do
    let (e, _, off) ← readEntry prefixBlob off
    if i = impugnedLogIndex then
      if e.nonce ≠ (table.lookup e.signer).getD 0 then .ok .upheld else .ok .rejected
    else if e.nonce + 1 < 2 ^ 64 then
      nonceLoop impugnedLogIndex prefixBlob count (i + 1) off
        (setExpected e.signer (e.nonce + 1) table)
    else .error .arithmetic

def checkNonceMismatch (impugnedLogIndex : ℕ) (prefixBlob : List UInt8) :
    Except EvidenceError EvidenceVerdict := do
  let (entryCount, off) ← reading (readArrayHead prefixBlob 0)
  if MAX_PREFIX_LEN < entryCount then .error .maxPrefixLenExceeded
  else nonceLoop impugnedLogIndex prefixBlob entryCount 0 off []

/-- A log entry as the contract takes it, with its two hash fields. -/
def encodeEntry (hashes : LogEntry → Bytes32 × Bytes32) (entry : LogEntry) : List UInt8 :=
  encodeBytes (bytes32Bytes (hashes entry).1) ++ encodeBytes (bytes32Bytes (hashes entry).2) ++
    encodeNat entry.signedAction.signer.toNat ++ encodeNat entry.signedAction.nonce ++
    encodeBytes entry.signedAction.sig

def encodePrefix (hashes : LogEntry → Bytes32 × Bytes32) (log : List LogEntry) : List UInt8 :=
  encodeList (encodeEntry hashes) log

section Agreement

variable {hashes : LogEntry → Bytes32 × Bytes32} {blob tail : List UInt8}

def EntryFits (entry : LogEntry) : Prop :=
  entry.signedAction.nonce < 2 ^ 64 - 1 ∧ entry.signedAction.sig.length < 2 ^ 64

def fieldsOf (hashes : LogEntry → Bytes32 × Bytes32) (entry : LogEntry) : EntryFields :=
  ⟨(hashes entry).2, entry.signedAction.signer.toNat, entry.signedAction.nonce⟩

theorem readEntryFields_of_drop {entry : LogEntry} {off : ℕ} (hfits : EntryFits entry)
    (h : blob.drop off = encodeEntry hashes entry ++ tail) :
    ∃ off', readEntryFields blob off = .ok (fieldsOf hashes entry, off') ∧
      blob.drop off' = encodeBytes entry.signedAction.sig ++ tail := by
  simp only [encodeEntry, append_assoc] at h
  obtain ⟨hread1, h⟩ := readBytes32Exact_of_drop h
  obtain ⟨hread2, h⟩ := readBytes32Exact_of_drop h
  obtain ⟨hread3, h⟩ := readUint_of_drop entry.signedAction.signer.toNat_lt h
  obtain ⟨hread4, h⟩ := readUint_of_drop (lt_of_lt_of_le hfits.1 (Nat.sub_le _ _)) h
  refine ⟨_, ?_, h⟩
  rw [readEntryFields, hread1]
  simp only [reading, Except.mapError, ok_bind, hread2, hread3, hread4, fieldsOf]

theorem readEntry_of_drop {entry : LogEntry} {off : ℕ} (hfits : EntryFits entry)
    (h : blob.drop off = encodeEntry hashes entry ++ tail) :
    ∃ off', readEntry blob off = .ok (fieldsOf hashes entry, entry.signedAction.sig, off') ∧
      blob.drop off' = tail := by
  obtain ⟨off', hfields, h⟩ := readEntryFields_of_drop hfits h
  obtain ⟨hsig, h⟩ := readBytes_of_drop hfits.2 h
  refine ⟨_, ?_, h⟩
  rw [readEntry, hfields, ok_bind]
  simp only [reading, Except.mapError, ok_bind, hsig]

/-- The last entry that an actor signed. -/
def lastBy (a : ActorId) (entries : List LogEntry) : Option LogEntry :=
  (entries.filter (signedBy a)).getLast?

theorem lastBy_append (a : ActorId) (entries : List LogEntry) (entry : LogEntry) :
    lastBy a (entries ++ [entry]) = if signedBy a entry then some entry else lastBy a entries := by
  rw [lastBy, filter_append]
  by_cases ha : signedBy a entry = true
  · simp [ha]
  · simp [ha, lastBy]

/-- The nonce that the contract expects after some entries. -/
def expectedAfter (entries : List LogEntry) (a : ActorId) : ℕ :=
  ((lastBy a entries).map (fun e => e.signedAction.nonce + 1)).getD 0

/-- What the contract answers about an entry behind some others. -/
def answer (entries : List LogEntry) : Option LogEntry → EvidenceVerdict
  | none => .inconclusive
  | some entry =>
    if entry.signedAction.nonce = expectedAfter entries entry.signedAction.signer then .rejected
    else .upheld

/-- The table holds what follows the last nonce of each signer, at every round. -/
theorem nonceLoop_eq {idx : ℕ} {entries done : List LogEntry} {off : ℕ} {table : List (ℕ × ℕ)}
    (hfits : ∀ e ∈ entries, EntryFits e) (hdone : done.length ≤ idx)
    (htable : ∀ a : ActorId, table.lookup a.toNat =
      (lastBy a done).map (fun e => e.signedAction.nonce + 1))
    (h : blob.drop off = entries.flatMap (encodeEntry hashes) ++ tail) :
    nonceLoop idx blob entries.length done.length off table =
      .ok (answer (done ++ entries.take (idx - done.length)) entries[idx - done.length]?) := by
  induction entries generalizing done off table with
  | nil => rfl
  | cons entry _ ih =>
    rw [flatMap_cons, append_assoc] at h
    obtain ⟨off', hread, h⟩ := readEntry_of_drop (hfits entry mem_cons_self) h
    have hnonce := (hfits entry mem_cons_self).1
    rw [fieldsOf] at hread
    rw [length_cons, nonceLoop, hread, ok_bind]
    simp only
    by_cases hidx : done.length = idx
    · rw [if_pos hidx, htable]
      have hzero : idx - done.length = 0 := by omega
      rw [hzero]
      simp only [take_zero, append_nil, List.getElem?_cons_zero, answer, expectedAfter]
      by_cases hn : entry.signedAction.nonce =
          ((lastBy entry.signedAction.signer done).map (fun e => e.signedAction.nonce + 1)).getD 0
      · rw [if_neg (not_not.mpr hn), if_pos hn]
      · rw [if_pos hn, if_neg hn]
    · rw [if_neg hidx, if_pos (Nat.add_lt_of_lt_sub hnonce)]
      have hsucc : idx - done.length = (idx - (done ++ [entry]).length) + 1 := by
        rw [length_append, length_singleton]
        omega
      have hnext := @ih (done ++ [entry]) off'
        (setExpected entry.signedAction.signer.toNat (entry.signedAction.nonce + 1) table)
        (fun e he => hfits e (mem_cons_of_mem entry he))
        (by rw [length_append, length_singleton]; omega)
        (by
          intro a
          rw [lookup_setExpected, lastBy_append, htable]
          by_cases ha : entry.signedAction.signer = a
          · simp [ha, signedBy]
          · have ha' : ¬ a.toNat = entry.signedAction.signer.toNat :=
              fun heq => ha (UInt64.toNat_inj.mp heq).symm
            simp [ha, ha', signedBy])
        h
      rw [length_append, length_singleton] at hnext
      rw [hnext, hsucc, length_append, length_singleton, take_succ_cons,
        List.getElem?_cons_succ, append_assoc, singleton_append]

theorem checkNonceMismatch_encodePrefix {log : List LogEntry} {idx : ℕ}
    (hlen : log.length ≤ MAX_PREFIX_LEN) (hfits : ∀ e ∈ log, EntryFits e) :
    checkNonceMismatch idx (encodePrefix hashes log) = .ok (answer (log.take idx) log[idx]?) := by
  have hlen' : log.length < 2 ^ 64 := by
    unfold MAX_PREFIX_LEN at hlen
    omega
  obtain ⟨hhead, hrest⟩ := readArrayHead_of_drop hlen'
    (show (encodePrefix hashes log).drop 0 = _ from rfl)
  rw [checkNonceMismatch, hhead]
  simp only [reading, Except.mapError, ok_bind]
  rw [if_neg (not_lt.mpr hlen)]
  have hloop := @nonceLoop_eq hashes _ [] idx log [] _ [] hfits (Nat.zero_le idx) (fun a => rfl)
    (hrest.trans (append_nil _).symm)
  exact hloop

/-- The contract and the kernel agree on a log exactly if the signer of the impugned entry has no
earlier entry, or its last one carried the number of its earlier entries before, or the impugned
nonce is neither of the two that are expected. -/
theorem nonce_mismatch_agrees_iff
    (genesis : ExtendedState)
    (hashes : LogEntry → Bytes32 × Bytes32)
    (log : List LogEntry)
    (idx : ℕ)
    (hgenesis : ∀ a, expectsNonce genesis a = 0)
    (hlen : log.length ≤ MAX_PREFIX_LEN)
    (hfits : ∀ e ∈ log, EntryFits e) :
    checkNonceMismatch idx (encodePrefix hashes log) =
      .ok (Kernel.checkNonceMismatch genesis log idx) ↔
    ∀ entry prev,
      log[idx]? = some entry →
      lastBy entry.signedAction.signer (log.take idx) = some prev →
      let count := (log.take idx).countP (signedBy entry.signedAction.signer)
      prev.signedAction.nonce + 1 = count ∨
        (entry.signedAction.nonce ≠ prev.signedAction.nonce + 1 ∧
          entry.signedAction.nonce ≠ count) := by
  rw [checkNonceMismatch_encodePrefix hlen hfits, Except.ok.injEq, checkNonceMismatch_eq hgenesis]
  cases hentry : log[idx]? with
  | none => simp [answer]
  | some entry =>
    have hcount : lastBy entry.signedAction.signer (log.take idx) = none →
        (log.take idx).countP (signedBy entry.signedAction.signer) = 0 := by
      intro hnone
      rw [lastBy, List.getLast?_eq_none_iff] at hnone
      rw [countP_eq_length_filter, hnone, length_nil]
    cases hlast : lastBy entry.signedAction.signer (log.take idx) with
    | none =>
      refine iff_of_true (by simp [answer, expectedAfter, hlast, hcount hlast]) ?_
      intro e p he hp
      cases he
      rw [hlast] at hp
      cases hp
    | some prev =>
      have hpair : ∀ e p, some entry = some e →
          lastBy e.signedAction.signer (log.take idx) = some p → e = entry ∧ p = prev := by
        intro e p he hp
        cases he
        exact ⟨rfl, Option.some.inj (hp.symm.trans hlast)⟩
      simp only [answer, expectedAfter, hlast, Option.map_some, Option.getD_some]
      split_ifs with h1 h2 h2
      · refine iff_of_true rfl ?_
        intro e p he hp
        obtain ⟨rfl, rfl⟩ := hpair e p he hp
        exact .inl (h1.symm.trans h2)
      · refine iff_of_false (by simp) ?_
        intro h
        rcases h entry prev rfl hlast with h3 | h3
        · exact h2 (h1.trans h3)
        · exact h3.1 h1
      · refine iff_of_false (by simp) ?_
        intro h
        rcases h entry prev rfl hlast with h3 | h3
        · exact h1 (h2.trans h3.symm)
        · exact h3.2 h2
      · refine iff_of_true rfl ?_
        intro e p he hp
        obtain ⟨rfl, rfl⟩ := hpair e p he hp
        exact .inr ⟨h1, h2⟩

end Agreement

/-- A log in which actor `1` freezes a resource once for each nonce. -/
def frozenLog (nonces : List ℕ) : List LogEntry :=
  nonces.map (fun n => ⟨[], ⟨.freezeResource 0, 1, n, []⟩, []⟩)

/-- A log with correct nonces. -/
theorem nonce_mismatch_agrees_correct :
    checkNonceMismatch 1 (encodePrefix (fun _ => (0, 0)) (frozenLog [0, 1])) =
      .ok (Kernel.checkNonceMismatch (ExtendedState.empty (.bounded 0 1 0)) (frozenLog [0, 1])
        1) := by
  refine (nonce_mismatch_agrees_iff (ExtendedState.empty (.bounded 0 1 0)) (fun _ => (0, 0))
    (frozenLog [0, 1]) 1 ?_ (by decide) ?_).mpr ?_
  · intro a
    simp [expectsNonce, ExtendedState.empty]
  · intro e he
    obtain ⟨n, hn, rfl⟩ := mem_map.mp he
    simp only [mem_cons, not_mem_nil, or_false] at hn
    rcases hn with rfl | rfl
    · exact ⟨by decide, by decide⟩
    · exact ⟨by decide, by decide⟩
  · intro entry prev hentry hprev
    left
    obtain rfl : _ = entry := Option.some.inj hentry
    obtain rfl : _ = prev := Option.some.inj hprev
    decide

/-- After an entry with nonce 5 the contract takes 6 for correct, where the kernel counts 1. -/
theorem skipped_nonces_split :
    checkNonceMismatch 1 (encodePrefix (fun _ => (0, 0)) (frozenLog [5, 6])) = .ok .rejected ∧
      Kernel.checkNonceMismatch (ExtendedState.empty (.bounded 0 1 0)) (frozenLog [5, 6]) 1 =
        .upheld ∧
      checkNonceMismatch 1 (encodePrefix (fun _ => (0, 0)) (frozenLog [5, 1])) = .ok .upheld ∧
      Kernel.checkNonceMismatch (ExtendedState.empty (.bounded 0 1 0)) (frozenLog [5, 1]) 1 =
        .rejected := by
  refine ⟨?_, ?_, ?_, ?_⟩ <;> decide +kernel

end Knomosis.Disputes
