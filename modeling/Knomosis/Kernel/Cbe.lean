import Knomosis.Lib.Word
import Knomosis.Smt.MultiProof

/-!
# The kernel's byte encoding

A number is written as a tag byte in front of a little-endian field of fixed
width: eight bytes for counters, identifiers and lengths, thirty-two for amounts.
The field keeps the low bytes of the number only, so a larger number is written
like its residue.  Byte strings and lists have their length in front.
-/

namespace Knomosis.Kernel

open Lib Smt

inductive DecodeError where
  | unexpectedEof
  | invalidMajorType (got expected : UInt8)
  | invalidConstructorIndex (got : ℕ)
  | nonCanonical (reason : String)
  | trailingBytes (count : ℕ)
  | invalidLength (reason : String)
deriving DecidableEq

def cbeTagUint : UInt8 := 0x00
def cbeTagBytes : UInt8 := 0x02
def cbeTagArray : UInt8 := 0x04
def cbeTagMap : UInt8 := 0x05
def cbeTagAmount : UInt8 := 0x06

/-- The lowest bytes of a number, the least significant first. -/
def natToBytesLE : ℕ → ℕ → Bytes
  | _, 0 => []
  | n, width + 1 => UInt8.ofNat n :: natToBytesLE (n / 256) width

/-- Read a number back from the front of a stream. -/
def natFromBytesLE : Bytes → ℕ → Except DecodeError (ℕ × Bytes)
  | s, 0 => .ok (0, s)
  | [], _ + 1 => .error .unexpectedEof
  | b :: s, width + 1 => (natFromBytesLE s width).map (fun high => (b.toNat + 256 * high.1, high.2))

/-- A tag byte and a field of `width` bytes. -/
def headEncode (major : UInt8) (width n : ℕ) : Bytes := major :: natToBytesLE n width

/-- Read a field behind the expected tag byte. -/
def headDecode (major : UInt8) (width : ℕ) : Bytes → Except DecodeError (ℕ × Bytes)
  | [] => .error .unexpectedEof
  | b :: s => if b ≠ major then .error (.invalidMajorType b major) else natFromBytesLE s width

theorem natToBytesLE_eq (n width : ℕ) : natToBytesLE n width = leBytes width n := by
  induction width generalizing n with
  | zero => rfl
  | succ _ ih => rw [natToBytesLE, leBytes_succ, ih]

theorem headEncode_eq (major : UInt8) (width n : ℕ) :
    headEncode major width n = major :: leBytes width n := by
  rw [headEncode, natToBytesLE_eq]

@[simp] theorem headEncode_length (major : UInt8) (width n : ℕ) :
    (headEncode major width n).length = width + 1 := by
  simp [headEncode_eq]

theorem natFromBytesLE_eq_ok {s rest : Bytes} {width n : ℕ} :
    natFromBytesLE s width = .ok (n, rest) ↔
      ∃ bs, bs.length = width ∧ s = bs ++ rest ∧ n = leNat bs := by
  induction width generalizing s n with
  | zero => simp [natFromBytesLE, leNat, eq_comm, and_comm]
  | succ width ih =>
    cases s with
    | nil =>
      simp only [natFromBytesLE, reduceCtorEq, false_iff, not_exists]
      rintro bs ⟨hlen, hnil, -⟩
      obtain ⟨rfl, -⟩ := List.append_eq_nil_iff.mp hnil.symm
      simp at hlen
    | cons b s =>
      constructor
      · intro h
        cases hrest : natFromBytesLE s width with
        | error => simp [natFromBytesLE, hrest, Except.map] at h
        | ok =>
          simp only [natFromBytesLE, hrest, Except.map, Except.ok.injEq, Prod.mk.injEq] at h
          obtain ⟨rfl, rfl⟩ := h
          obtain ⟨bs, hlen, rfl, hn⟩ := ih.mp hrest
          exact ⟨b :: bs, by simp [hlen], rfl, by rw [leNat_cons, hn]⟩
      · rintro ⟨bs, hlen, hs, rfl⟩
        obtain ⟨c, bs, rfl⟩ := List.exists_cons_of_length_eq_add_one hlen
        obtain ⟨rfl, rfl⟩ : b = c ∧ s = bs ++ rest := by simpa using hs
        rw [natFromBytesLE, ih.mpr ⟨bs, by simpa using hlen, rfl, rfl⟩, leNat_cons]
        rfl

/-- What is read is what would be written, in front of what is left over. -/
theorem headDecode_eq_ok {major : UInt8} {width n : ℕ} {s rest : Bytes} :
    headDecode major width s = .ok (n, rest) ↔
      n < 256 ^ width ∧ s = headEncode major width n ++ rest := by
  cases s with
  | nil => simp [headDecode, headEncode]
  | cons =>
    rw [headDecode, guard_eq_ok, natFromBytesLE_eq_ok, headEncode_eq]
    constructor
    · rintro ⟨hb, bs, rfl, rfl, rfl⟩
      exact ⟨leNat_lt bs, by rw [leBytes_leNat, not_not.mp hb]; rfl⟩
    · rintro ⟨hn, hs⟩
      obtain ⟨rfl, rfl⟩ := List.cons.inj hs
      refine ⟨not_not.mpr rfl, leBytes width n, leBytes_length width n, rfl, ?_⟩
      rw [leNat_leBytes, Nat.mod_eq_of_lt hn]

theorem headEncode_injective {major : UInt8} {width n m : ℕ} (hn : n < 256 ^ width)
    (hm : m < 256 ^ width) (h : headEncode major width n = headEncode major width m) : n = m := by
  rw [headEncode_eq, headEncode_eq] at h
  exact leBytes_injective hn hm (List.cons.inj h).2

def cborHeadEncode (major : UInt8) (n : ℕ) : Bytes := headEncode major 8 n

def cborHeadDecode (s : Bytes) (major : UInt8) : Except DecodeError (ℕ × Bytes) :=
  headDecode major 8 s

/-- A counter, an identifier or a constructor index. -/
def encodeNat (n : ℕ) : Bytes := cborHeadEncode cbeTagUint n

def decodeNat (s : Bytes) : Except DecodeError (ℕ × Bytes) := cborHeadDecode s cbeTagUint

/-- An amount, of the width of a machine word. -/
def encodeAmount (n : ℕ) : Bytes := headEncode cbeTagAmount 32 n

def decodeAmount (s : Bytes) : Except DecodeError (ℕ × Bytes) := headDecode cbeTagAmount 32 s

/-- A byte string behind its length. -/
def encodeBytes (bs : Bytes) : Bytes := cborHeadEncode cbeTagBytes bs.length ++ bs

/-- A list behind its length. -/
def encodeList {α : Type} (encode : α → Bytes) (xs : List α) : Bytes :=
  cborHeadEncode cbeTagArray xs.length ++ xs.flatMap encode

/-- The entries of a map behind their number. -/
def encodeSortedPairs {α β : Type} (encodeKey : α → Bytes) (encodeValue : β → Bytes)
    (pairs : List (α × β)) : Bytes :=
  cborHeadEncode cbeTagMap pairs.length ++ pairs.flatMap (fun p => encodeKey p.1 ++ encodeValue p.2)

/-- The value of a decoding that leaves nothing over. -/
def exactly {α : Type} : Except DecodeError (α × Bytes) → Option α
  | .ok (a, []) => some a
  | _ => none

theorem exactly_eq_some {α : Type} {x : Except DecodeError (α × Bytes)} {a : α} :
    exactly x = some a ↔ x = .ok (a, []) := by
  rcases x with e | ⟨b, _ | ⟨c, rest⟩⟩ <;> simp [exactly]

@[simp] theorem encodeNat_length (n : ℕ) : (encodeNat n).length = 9 := by
  simp [encodeNat, cborHeadEncode]

theorem encodeBytes_length (bs : Bytes) : (encodeBytes bs).length = 9 + bs.length := by
  simp [encodeBytes, cborHeadEncode]

@[simp] theorem encodeAmount_length (n : ℕ) : (encodeAmount n).length = 33 := by simp [encodeAmount]

theorem decodeNat_eq_ok {n : ℕ} {s rest : Bytes} :
    decodeNat s = .ok (n, rest) ↔ n < 2 ^ 64 ∧ s = encodeNat n ++ rest := by
  rw [decodeNat, cborHeadDecode, headDecode_eq_ok]
  rfl

theorem decodeAmount_eq_ok {n : ℕ} {s rest : Bytes} :
    decodeAmount s = .ok (n, rest) ↔ n < 2 ^ 256 ∧ s = encodeAmount n ++ rest := by
  rw [decodeAmount, headDecode_eq_ok]
  rfl

theorem exactly_decodeNat {n : ℕ} {s : Bytes} :
    exactly (decodeNat s) = some n ↔ n < 2 ^ 64 ∧ s = encodeNat n := by
  rw [exactly_eq_some, decodeNat_eq_ok, List.append_nil]

theorem exactly_decodeAmount {n : ℕ} {s : Bytes} :
    exactly (decodeAmount s) = some n ↔ n < 2 ^ 256 ∧ s = encodeAmount n := by
  rw [exactly_eq_some, decodeAmount_eq_ok, List.append_nil]

theorem encodeNat_injective {n m : ℕ} (hn : n < 2 ^ 64) (hm : m < 2 ^ 64)
    (h : encodeNat n = encodeNat m) : n = m :=
  headEncode_injective (by simpa using hn) (by simpa using hm) h

theorem encodeAmount_injective {n m : ℕ} (hn : n < 2 ^ 256) (hm : m < 2 ^ 256)
    (h : encodeAmount n = encodeAmount m) : n = m :=
  headEncode_injective (by simpa using hn) (by simpa using hm) h

end Knomosis.Kernel
