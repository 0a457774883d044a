import Knomosis.Smt.MultiProof

/-!
# The gateway's Base64

Three bytes are written as four letters of six bits each, and a last chunk of one or
two bytes is filled up with padding.  The decoder takes padding in the last quad only,
and there only if the bits that are left over are zero.  So it accepts exactly what the
encoder writes: an action has one spelling.

A text is the list of its bytes.
-/

namespace Knomosis.Gateway
namespace Base64

open Smt

/-- The letters of the 64 values. -/
def ALPHABET : Bytes :=
  "ABCDEFGHIJKLMNOPQRSTUVWXYZabcdefghijklmnopqrstuvwxyz0123456789+/".toUTF8.data.toList

def PAD : UInt8 := '='.toUInt8

/-- The letter of six bits. -/
def letter (s : UInt8) : UInt8 := ALPHABET.getD s.toNat 0

/-- The six bits that a letter stands for. -/
def sextet (b : UInt8) : Option UInt8 :=
  if 'A'.toUInt8 ≤ b ∧ b ≤ 'Z'.toUInt8 then some (b - 'A'.toUInt8)
  else if 'a'.toUInt8 ≤ b ∧ b ≤ 'z'.toUInt8 then some (b - 'a'.toUInt8 + 26)
  else if '0'.toUInt8 ≤ b ∧ b ≤ '9'.toUInt8 then some (b - '0'.toUInt8 + 52)
  else if b = '+'.toUInt8 then some 62
  else if b = '/'.toUInt8 then some 63
  else none

section Bits

variable (s0 s1 s2 s3 b0 b1 b2 : UInt8)

/-- The bytes of four sextets. -/
def byte0 : UInt8 := (s0 <<< 2) ||| (s1 >>> 4)
def byte1 : UInt8 := (s1 <<< 4) ||| (s2 >>> 2)
def byte2 : UInt8 := (s2 <<< 6) ||| s3

/-- The sextets of three bytes. -/
def sextet0 : UInt8 := b0 >>> 2
def sextet1 : UInt8 := ((b0 &&& 0x03) <<< 4) ||| (b1 >>> 4)
def sextet2 : UInt8 := ((b1 &&& 0x0F) <<< 2) ||| (b2 >>> 6)
def sextet3 : UInt8 := b2 &&& 0x3F

end Bits

/-- One quad; the final one may be padded. -/
def decodeQuad (last : Bool) (c0 c1 c2 c3 : UInt8) : Option Bytes := do
  let pad := (c2 == PAD).toNat + (c3 == PAD).toNat
  guard ¬ (pad > 0 ∧ ¬ last)
  let s0 ← sextet c0
  let s1 ← sextet c1
  if c2 = PAD ∧ c3 = PAD then
    guard (pad = 2)
    guard (s1 &&& 0x0F = 0)
    return [byte0 s0 s1]
  else if c3 = PAD then
    let s2 ← sextet c2
    guard (s2 &&& 0x03 = 0)
    return [byte0 s0 s1, byte1 s1 s2]
  else
    let s2 ← sextet c2
    let s3 ← sextet c3
    return [byte0 s0 s1, byte1 s1 s2, byte2 s2 s3]

/-- The loop over the groups of four letters; only the last may be padded. -/
def decodeQuads : Bytes → Option Bytes
  | c0 :: c1 :: c2 :: c3 :: rest => do
    let out ← decodeQuad rest.isEmpty c0 c1 c2 c3
    return out ++ (← decodeQuads rest)
  | _ => some []

/-- Decodes a text of whole groups. -/
def decode (input : Bytes) : Option Bytes :=
  if input.length % 4 ≠ 0 then none else decodeQuads input

/-- The four letters of up to three bytes. -/
def encodeChunk (b0 : UInt8) (b1 b2 : Option UInt8) : Bytes :=
  let x1 := b1.getD 0
  let x2 := b2.getD 0
  [letter (sextet0 b0), letter (sextet1 b0 x1),
    if b1.isSome then letter (sextet2 x1 x2) else PAD,
    if b2.isSome then letter (sextet3 x2) else PAD]

/-- The loop over the chunks of three bytes. -/
def encode : Bytes → Bytes
  | [] => []
  | [b0] => encodeChunk b0 none none
  | [b0, b1] => encodeChunk b0 (some b1) none
  | b0 :: b1 :: b2 :: rest => encodeChunk b0 (some b1) (some b2) ++ encode rest

theorem eq_of_bits {a b : UInt8} (h : ∀ i < 8, a.toBitVec.getLsbD i = b.toBitVec.getLsbD i) :
    a = b :=
  UInt8.toBitVec_inj.mp (BitVec.eq_of_getLsbD_eq h)

section Sextets

variable (s0 s1 s2 s3 b0 b1 b2 : UInt8)

/-- Nothing but six bits. -/
def Small (s : UInt8) : Prop := s &&& 0x3F = s

theorem small_sextets :
    Small (sextet0 b0) ∧ Small (sextet1 b0 b1) ∧ Small (sextet2 b1 b2) ∧
    Small (sextet3 b2) := by
  refine ⟨?_, ?_, ?_, ?_⟩ <;> apply eq_of_bits <;> intro i hi <;> interval_cases i <;>
    simp [sextet0, sextet1, sextet2, sextet3]

theorem bytes_sextets :
    byte0 (sextet0 b0) (sextet1 b0 b1) = b0 ∧
    byte1 (sextet1 b0 b1) (sextet2 b1 b2) = b1 ∧ byte2 (sextet2 b1 b2) (sextet3 b2) = b2 := by
  refine ⟨?_, ?_, ?_⟩ <;> apply eq_of_bits <;> intro i hi <;> interval_cases i <;>
    simp [sextet0, sextet1, sextet2, sextet3, byte0, byte1, byte2]

theorem sextets_zero : sextet1 b0 0 &&& 0x0F = 0 ∧ sextet2 b1 0 &&& 0x03 = 0 := by
  refine ⟨?_, ?_⟩ <;> apply eq_of_bits <;> intro i hi <;> interval_cases i <;>
    simp [sextet1, sextet2]

variable {s0 s1 s2 s3}

theorem sextets_bytes (h0 : Small s0) (h1 : Small s1) (h2 : Small s2) (h3 : Small s3) :
    sextet0 (byte0 s0 s1) = s0 ∧ sextet1 (byte0 s0 s1) (byte1 s1 s2) = s1 ∧
      sextet2 (byte1 s1 s2) (byte2 s2 s3) = s2 ∧ sextet3 (byte2 s2 s3) = s3 := by
  rw [← h0, ← h1, ← h2, ← h3]
  refine ⟨?_, ?_, ?_, ?_⟩ <;> apply eq_of_bits <;> intro i hi <;> interval_cases i <;>
    simp [sextet0, sextet1, sextet2, sextet3, byte0, byte1, byte2]

end Sextets

theorem letters :
    ∀ n : Fin 256,
    (Small (.ofFin n) → sextet (letter (.ofFin n)) = some (.ofFin n) ∧ letter (.ofFin n) ≠ PAD) ∧
      ∀ s ∈ sextet (.ofFin n), Small s ∧ letter s = .ofFin n := by
  unfold Small
  decide +kernel

theorem shifted_out :
    ∀ n : Fin 256, (UInt8.ofFin n &&& 0x0F = 0 → byte1 (.ofFin n) 0 = 0) ∧
    (UInt8.ofFin n &&& 0x03 = 0 → byte2 (.ofFin n) 0 = 0) := by
  decide +kernel

variable {s c : UInt8}

theorem sextet_letter (h : Small s) : sextet (letter s) = some s := ((letters s.toFin).1 h).1

theorem letter_ne_pad (h : Small s) : letter s ≠ PAD := ((letters s.toFin).1 h).2

theorem small_of_sextet (h : sextet c = some s) : Small s ∧ letter s = c := (letters c.toFin).2 s h

theorem length_encode (x : Bytes) : (encode x).length = (x.length + 2) / 3 * 4 := by
  fun_induction encode x with
  | case1 | case2 | case3 => simp [encodeChunk]
  | case4 b0 b1 b2 rest ih =>
    simp only [encodeChunk, List.length_append, List.length_cons, List.length_nil, ih]
    omega

theorem decodeQuad_eq_some_iff {last : Bool} {c0 c1 c2 c3 : UInt8} {out : Bytes} :
    decodeQuad last c0 c1 c2 c3 = some out ↔
      encode out = [c0, c1, c2, c3] ∧ (out.length = 3 ∨ last = true) := by
  constructor
  · intro h
    simp only [decodeQuad, Option.bind_eq_bind, Option.bind_eq_some_iff, Option.guard_eq_some',
      Option.pure_def] at h
    obtain ⟨-, hlast, s0, h0, s1, h1, h⟩ := h
    obtain ⟨hs0, rfl⟩ := small_of_sextet h0
    obtain ⟨hs1, rfl⟩ := small_of_sextet h1
    split_ifs at h with hboth hone <;>
      simp only [Option.bind_eq_some_iff, Option.guard_eq_some', Option.some.injEq] at h
    · obtain ⟨-, -, -, hover, rfl⟩ := h
      obtain ⟨rfl, rfl⟩ := hboth
      obtain ⟨hb0, hb1, -⟩ := @sextets_bytes s0 s1 0 0 hs0 hs1 rfl rfl
      rw [show byte1 s1 0 = 0 from (shifted_out s1.toFin).1 hover] at hb1
      simp_all [encode, encodeChunk]
    · obtain ⟨s2, h2, -, hover, rfl⟩ := h
      obtain ⟨hs2, rfl⟩ := small_of_sextet h2
      obtain ⟨hb0, hb1, hb2, -⟩ := @sextets_bytes s0 s1 s2 0 hs0 hs1 hs2 rfl
      rw [show byte2 s2 0 = 0 from (shifted_out s2.toFin).2 hover] at hb2
      simp_all [encode, encodeChunk]
    · obtain ⟨s2, h2, s3, h3, rfl⟩ := h
      obtain ⟨hs2, rfl⟩ := small_of_sextet h2
      obtain ⟨hs3, rfl⟩ := small_of_sextet h3
      obtain ⟨hb0, hb1, hb2, hb3⟩ := sextets_bytes hs0 hs1 hs2 hs3
      simp [encode, encodeChunk, *]
  · rintro ⟨hencode, hlast⟩
    have hlen := length_encode out
    rw [hencode] at hlen
    obtain ⟨h0, h1, h2, h3⟩ := small_sextets (out.getD 0 0) (out.getD 1 0) (out.getD 2 0)
    obtain ⟨hb0, hb1, hb2⟩ := bytes_sextets (out.getD 0 0) (out.getD 1 0) (out.getD 2 0)
    obtain ⟨hz1, hz2⟩ := sextets_zero (out.getD 0 0) (out.getD 1 0)
    match out with
    | [] => simp at hlen
    | [b0] | [b0, b1] | [b0, b1, b2] =>
      simp [encode, encodeChunk] at hencode
      obtain ⟨rfl, rfl, rfl, rfl⟩ := hencode
      simp_all [decodeQuad, sextet_letter, letter_ne_pad]
    | _ :: _ :: _ :: _ :: _ =>
      simp only [List.length_cons, List.length_nil] at hlen
      omega

theorem encode_of_decodeQuads {s x : Bytes} (hlen : s.length % 4 = 0) (h : decodeQuads s = some x) :
    encode x = s := by
  fun_induction decodeQuads s generalizing x with
  | case1 c0 c1 c2 c3 rest ih =>
    simp only [Option.bind_eq_bind, Option.bind_eq_some_iff, Option.pure_def,
      Option.some.injEq] at h
    obtain ⟨out, hquad, more, hmore, rfl⟩ := h
    obtain ⟨hencode, hthree | hlast⟩ := decodeQuad_eq_some_iff.mp hquad
    · obtain ⟨b0, b1, b2, rfl⟩ := List.length_eq_three.mp hthree
      have hrest := ih (by simp only [List.length_cons] at hlen; omega) hmore
      simp_all [encode]
    · obtain rfl := List.isEmpty_iff.mp hlast
      cases hmore
      simpa using hencode
  | case2 s hshort =>
    cases h
    match s with
    | [] => rfl
    | [_] | [_, _] | [_, _, _] => simp at hlen
    | _ :: _ :: _ :: _ :: _ => exact (hshort _ _ _ _ _ rfl).elim

theorem decodeQuads_encode (x : Bytes) : decodeQuads (encode x) = some x := by
  fun_induction encode x with
  | case1 => rfl
  | case2 b0 =>
    have hquad := decodeQuad_eq_some_iff.mpr (⟨rfl, .inr rfl⟩ : encode [b0] = [_, _, _, _] ∧ _)
    simpa [encodeChunk, decodeQuads] using hquad
  | case3 b0 b1 =>
    have hquad := decodeQuad_eq_some_iff.mpr (⟨rfl, .inr rfl⟩ : encode [b0, b1] = [_, _, _, _] ∧ _)
    simpa [encodeChunk, decodeQuads] using hquad
  | case4 b0 b1 b2 rest ih =>
    have hquad := decodeQuad_eq_some_iff.mpr
      (⟨rfl, .inl rfl⟩ : encode [b0, b1, b2] = [_, _, _, _] ∧ (_ ∨ (encode rest).isEmpty = true))
    simp at hquad
    simp [encodeChunk, decodeQuads, hquad, ih]

/-- The decoder takes back what the encoder writes, and nothing else. -/
theorem decode_eq_some_iff (s x : Bytes) : decode s = some x ↔ encode x = s := by
  rw [decode]
  constructor
  · intro h
    split_ifs at h with hlen
    exact encode_of_decodeQuads (not_not.mp hlen) h
  · rintro rfl
    simp [length_encode, decodeQuads_encode]

end Base64
end Knomosis.Gateway
