import Knomosis.Lib.Word
import Mathlib.Data.Nat.Digits.Lemmas

/-!
# Amounts in decimal

An amount is written by repeated division by ten into a buffer of 78 places, and read by a
checked multiplication and a checked addition a digit.  The buffer never runs full, and the
reader refuses exactly the digit strings that denote a number of more than 256 bits.
-/

namespace Knomosis.Amount

open Lib

/-- Why a text is not an amount; a byte that is no digit is named by its place. -/
inductive AmountError
  | empty
  | nonDigit (offset : ℕ)
  | overflow

/-- The places of the buffer: `2 ^ 256 - 1` has 78 digits. -/
def AMOUNT_MAX_DECIMAL_DIGITS : ℕ := 78

def zero : UInt8 := '0'.toUInt8

/-- A byte that is a letter from `0` to `9`. -/
def isAsciiDigit (byte : UInt8) : Prop := zero ≤ byte ∧ byte ≤ '9'.toUInt8

/-- The letter of a digit. -/
def digit (d : ℕ) : UInt8 := zero + UInt8.ofNat d

instance (byte : UInt8) : Decidable (isAsciiDigit byte) := inferInstanceAs (Decidable (_ ∧ _))

/-- The loop of `fmt`, least significant digit first, with `room` places of the buffer left;
`none` is a write past its end. -/
def fmtLoop : ℕ → ℕ → Option (List UInt8)
  | _, 0 => some []
  | 0, _ + 1 => none
  | room + 1, n + 1 => (fmtLoop room ((n + 1) / 10)).map (digit ((n + 1) % 10) :: ·)

/-- The text of an amount; the buffer is filled from its end. -/
def fmt (a : ℕ) : Option (List UInt8) :=
  if a = 0 then some [zero] else (fmtLoop AMOUNT_MAX_DECIMAL_DIGITS a).map List.reverse

/-- The loop of `from_str`, with the place of the next byte. -/
def fromStrLoop : ℕ → ℕ → List UInt8 → Except AmountError ℕ
  | _, acc, [] => .ok acc
  | offset, acc, byte :: s =>
    if ¬ isAsciiDigit byte then .error (.nonDigit offset) else
    checked (checkedMul 256 acc 10) .overflow fun scaled =>
    checked (checkedAdd 256 scaled (byte - zero).toNat) .overflow fun acc =>
    fromStrLoop (offset + 1) acc s

/-- Reads a text as an amount. -/
def fromStr (s : List UInt8) : Except AmountError ℕ :=
  if s.isEmpty then .error .empty else fromStrLoop 0 0 s

/-- The number that a string of digits denotes. -/
def decimal (s : List UInt8) : ℕ := Nat.ofDigits 10 (s.reverse.map fun byte => (byte - zero).toNat)

theorem decimal_cons (byte : UInt8) (s : List UInt8) :
    decimal (byte :: s) = (byte - zero).toNat * 10 ^ s.length + decimal s := by
  simp [decimal, Nat.ofDigits_append]
  ring

theorem fromStrLoop_eq_ok {s : List UInt8} {offset acc a : ℕ} (hacc : acc < 2 ^ 256) :
    fromStrLoop offset acc s = .ok a ↔
      (∀ byte ∈ s, isAsciiDigit byte) ∧ acc * 10 ^ s.length + decimal s = a ∧ a < 2 ^ 256 := by
  induction s generalizing offset acc with
  | nil =>
    simp [fromStrLoop, decimal]
    omega
  | cons byte s ih =>
    have hvalue : acc * 10 ^ (s.length + 1) + decimal (byte :: s) =
        (acc * 10 + (byte - zero).toNat) * 10 ^ s.length + decimal s := by
      rw [decimal_cons]
      ring
    have hpow : acc * 10 + (byte - zero).toNat ≤ (acc * 10 + (byte - zero).toNat) * 10 ^ s.length :=
      Nat.le_mul_of_pos_right _ (by positivity)
    rw [fromStrLoop, guard_eq_ok, checked_eq_ok, List.forall_mem_cons, List.length_cons, hvalue,
      not_not, and_assoc]
    refine and_congr_right fun _ => ?_
    constructor
    · rintro ⟨_, hmul, h⟩
      obtain ⟨-, rfl⟩ := checkedMul_eq_some.mp hmul
      obtain ⟨_, hadd, h⟩ := checked_eq_ok.mp h
      obtain ⟨hlt, rfl⟩ := checkedAdd_eq_some.mp hadd
      exact (ih hlt).mp h
    · rintro ⟨hdigits, heq, hlt⟩
      have hnext : acc * 10 + (byte - zero).toNat < 2 ^ 256 := by omega
      refine ⟨_, checkedMul_eq_some.mpr ⟨by omega, rfl⟩, checked_eq_ok.mpr ?_⟩
      exact ⟨_, checkedAdd_eq_some.mpr ⟨hnext, rfl⟩, (ih hnext).mpr ⟨hdigits, heq, hlt⟩⟩

theorem fromStr_eq_ok {s : List UInt8} {a : ℕ} :
    fromStr s = .ok a ↔
      s ≠ [] ∧ (∀ byte ∈ s, isAsciiDigit byte) ∧ decimal s = a ∧ a < 2 ^ 256 := by
  rw [fromStr, guard_eq_ok, fromStrLoop_eq_ok (by decide)]
  simp

theorem fmtLoop_eq {room n : ℕ} (hn : n < 10 ^ room) :
    fmtLoop room n = some ((Nat.digits 10 n).map digit) := by
  induction room generalizing n with
  | zero => simp_all [fmtLoop]
  | succ room ih =>
    cases n with
    | zero => simp [fmtLoop]
    | succ n =>
      rw [fmtLoop, ih (by omega), Nat.digits_def' (by decide) n.succ_pos]
      rfl

theorem digit_table : ∀ d < 10, isAsciiDigit (digit d) ∧ (digit d - zero).toNat = d := by decide

theorem fmt_eq {a : ℕ} (h0 : a ≠ 0) (ha : a < 2 ^ 256) :
    fmt a = some ((Nat.digits 10 a).map digit).reverse := by
  rw [fmt, if_neg h0, fmtLoop_eq (ha.trans (by decide))]
  rfl

/-- Every amount is read back from its own text, which has no leading zero; and the texts that
are read are the strings of digits that denote an amount. -/
theorem decimal_exact :
    (∀ a < 2 ^ 256, ∃ s, fmt a = some s ∧ fromStr s = .ok a ∧ (s.head? = some zero → a = 0)) ∧
    ∀ s a, fromStr s = .ok a ↔
      s ≠ [] ∧ (∀ byte ∈ s, isAsciiDigit byte) ∧ decimal s = a ∧ a < 2 ^ 256 := by
  refine ⟨fun a ha => ?_, fun s a => fromStr_eq_ok⟩
  by_cases h0 : a = 0
  · subst h0
    exact ⟨_, rfl, rfl, fun _ => rfl⟩
  have hdigit : ∀ d ∈ Nat.digits 10 a, d < 10 := fun d hd => Nat.digits_lt_base (by decide) hd
  refine ⟨_, fmt_eq h0 ha, fromStr_eq_ok.mpr ⟨?_, ?_, ?_, ha⟩, fun hhead => ?_⟩
  · simpa [Nat.digits_ne_nil_iff_ne_zero]
  · intro byte hbyte
    obtain ⟨d, hd, rfl⟩ := List.mem_map.mp (List.mem_reverse.mp hbyte)
    exact (digit_table d (hdigit d hd)).1
  · have hmap : (Nat.digits 10 a).map ((fun byte => (byte - zero).toNat) ∘ digit) = _ :=
      List.map_congr_left fun d hd => (digit_table d (hdigit d hd)).2
    rw [decimal, List.reverse_reverse, List.map_map, hmap, List.map_id', Nat.ofDigits_digits]
  -- the first letter is the last digit of the loop, which is not zero
  have hne := Nat.digits_ne_nil_iff_ne_zero (b := 10).mpr h0
  rw [List.head?_reverse, List.getLast?_map, List.getLast?_eq_some_getLast hne] at hhead
  have htable := digit_table _ (hdigit _ (List.getLast_mem hne))
  rw [Option.some.inj hhead] at htable
  exact absurd htable.2.symm (Nat.getLast_digit_ne_zero 10 h0)

end Knomosis.Amount
