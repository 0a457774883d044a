import Mathlib.Data.Nat.Bitwise
import Mathlib.Data.Nat.Digits.Lemmas
import Mathlib.Tactic

/-!
# Bits and bytes of machine words

What the usual bit tricks on words compute: reversing the bits of a word by
swapping neighbouring blocks, finding the highest bit by halving, and counting
bits by adding them up inside ever wider lanes.  The last section reads words as
lists of bytes, the most significant byte first.
-/

namespace Knomosis.Lib

open List Nat

section Blocks

variable {w : ℕ}

/-- Swap every two neighbouring blocks of `s` bits; `m` selects the lower one of each two. -/
def swapBlocks (m : BitVec w) (s : ℕ) (r : BitVec w) : BitVec w :=
  ((r &&& m) <<< s) ||| ((r >>> s) &&& m)

/-- The index with bit `j` flipped. -/
def flipBit (j i : ℕ) : ℕ := if i.testBit j then i - 2 ^ j else i + 2 ^ j

theorem getLsbD_swapBlocks {m : BitVec w} {j : ℕ} (hm : ∀ i < w, m.getLsbD i = !i.testBit j)
    (r : BitVec w) {i : ℕ} (hi : i < w) :
    (swapBlocks m (2 ^ j) r).getLsbD i = r.getLsbD (flipBit j i) := by
  have hshift : (swapBlocks m (2 ^ j) r).getLsbD i =
      ((!decide (i < 2 ^ j) && (r.getLsbD (i - 2 ^ j) && m.getLsbD (i - 2 ^ j))) ||
        (r.getLsbD (2 ^ j + i) && m.getLsbD i)) := by
    simp only [swapBlocks, BitVec.getLsbD_or, BitVec.getLsbD_shiftLeft, BitVec.getLsbD_and,
      BitVec.getLsbD_ushiftRight, hi, decide_true, Bool.true_and]
  rw [hshift, hm i hi, hm (i - 2 ^ j) (Nat.lt_of_le_of_lt (Nat.sub_le _ _) hi)]
  cases hbit : i.testBit j with
  | true =>
    obtain ⟨k, rfl⟩ := Nat.exists_eq_add_of_le (Nat.ge_two_pow_of_testBit hbit)
    rw [Nat.testBit_two_pow_add_eq] at hbit
    simp only [Bool.not_eq_true'] at hbit
    simp [flipBit, Nat.testBit_two_pow_add_eq, hbit]
  | false =>
    rcases Nat.lt_or_ge i (2 ^ j) with hlt | hge
    · simp [flipBit, hbit, hlt, Nat.add_comm]
    obtain ⟨k, rfl⟩ := Nat.exists_eq_add_of_le hge
    rw [Nat.testBit_two_pow_add_eq] at hbit
    simp only [Bool.not_eq_false'] at hbit
    simp [flipBit, Nat.testBit_two_pow_add_eq, hbit, Nat.add_comm (2 ^ j) (2 ^ j + k)]

end Blocks

/-- One halving step: drop `k` bits if the word has more than `k`, and count them. -/
def halve (k : ℕ) (p : ℕ × ℕ) : ℕ × ℕ := if 2 ^ k ≤ p.1 then (p.1 >>> k, p.2 + k) else p

theorem halve_spec {k : ℕ} {p : ℕ × ℕ} (hlt : p.1 < 2 ^ (k + k)) :
    (halve k p).1 < 2 ^ k ∧ (halve k p).1.log2 + (halve k p).2 = p.1.log2 + p.2 := by
  unfold halve
  split_ifs with hle
  · constructor
    · simp only [Nat.shiftRight_eq_div_pow]
      rw [Nat.div_lt_iff_lt_mul (Nat.two_pow_pos k), ← pow_add]
      exact hlt
    · have hlog : k ≤ p.1.log2 := by
        rw [Nat.le_log2 (by have := Nat.two_pow_pos k; omega)]
        exact hle
      simp only [Nat.shiftRight_eq_div_pow, Nat.log2_eq_log_two, Nat.log_div_base_pow] at hlog ⊢
      omega
  · exact ⟨Nat.lt_of_not_le hle, rfl⟩

/-- The byte `c` repeated in `k` lanes. -/
def lanes (c : ℕ) : ℕ → ℕ
  | 0 => 0
  | k + 1 => c + 256 * lanes c k

/-- The number of set bits among the lowest `n`. -/
def bitCount (n x : ℕ) : ℕ := (List.range n).countP x.testBit

/-- Bits counted in lanes of two. -/
def countPairs (m x : ℕ) : ℕ := x - ((x >>> 1) &&& m)

/-- Bits counted in lanes of four. -/
def countNibbles (m x : ℕ) : ℕ := (x &&& m) + ((x >>> 2) &&& m)

/-- Bits counted in lanes of eight. -/
def countBytes (m x : ℕ) : ℕ := (x + (x >>> 4)) &&& m

theorem and_lanes {b c : ℕ} (t m : ℕ) (hb : b < 256) (hc : c < 256) :
    (b + 256 * t) &&& (c + 256 * m) = (b &&& c) + 256 * (t &&& m) := by
  have hbc : b &&& c < 2 ^ 8 := and_lt_two_pow b hc
  apply eq_of_testBit_eq
  intro i
  rw [testBit_and, add_comm b, add_comm c, add_comm (b &&& c),
    show 256 = 2 ^ 8 from rfl, testBit_two_pow_mul_add t hb,
    testBit_two_pow_mul_add m hc, testBit_two_pow_mul_add _ hbc]
  split_ifs <;> simp [testBit_and]

theorem countPairs_lanes (bs : List ℕ) (hbs : ∀ b ∈ bs, b < 256) :
    countPairs (lanes 0x55 bs.length) (Nat.ofDigits 256 bs) =
      Nat.ofDigits 256 (bs.map (countPairs 0x55)) := by
  have hmask : ∀ b < 256, ∀ u < 2, (b / 2 + 128 * u) &&& 0x55 = (b / 2) &&& 0x55 := by
    decide +kernel
  have hsub : ∀ x m : ℕ, (x / 2) &&& m ≤ x := fun x m => le_trans and_le_left (div_le_self x 2)
  induction bs with
  | nil => rfl
  | cons b bs ih =>
    have hb := hbs b mem_cons_self
    have hrest := ih (fun c hc => hbs c (mem_cons_of_mem b hc))
    simp only [length_cons, map_cons, ofDigits_cons, lanes, ← hrest]
    generalize Nat.ofDigits 256 bs = t
    have hshift : (b + 256 * t) / 2 = (b / 2 + 128 * (t % 2)) + 256 * (t / 2) := by omega
    have hlow : b / 2 + 128 * (t % 2) < 256 := by omega
    have h1 := hsub b 0x55
    have h2 := hsub t (lanes 0x55 bs.length)
    simp only [countPairs, shiftRight_eq_div_pow, pow_one]
    rw [hshift, and_lanes _ _ hlow (by decide), hmask b hb _ (mod_lt t (by decide))]
    omega

theorem countNibbles_lanes (bs : List ℕ) (hbs : ∀ b ∈ bs, b < 256) :
    countNibbles (lanes 0x33 bs.length) (Nat.ofDigits 256 bs) =
      Nat.ofDigits 256 (bs.map (countNibbles 0x33)) := by
  have hmask : ∀ b < 256, ∀ u < 4, (b / 4 + 64 * u) &&& 0x33 = (b / 4) &&& 0x33 := by decide +kernel
  induction bs with
  | nil => rfl
  | cons b bs ih =>
    have hb := hbs b mem_cons_self
    have hrest := ih (fun c hc => hbs c (mem_cons_of_mem b hc))
    simp only [length_cons, map_cons, ofDigits_cons, lanes, ← hrest]
    generalize Nat.ofDigits 256 bs = t
    have hshift : (b + 256 * t) / 4 = (b / 4 + 64 * (t % 4)) + 256 * (t / 4) := by omega
    have hlow : b / 4 + 64 * (t % 4) < 256 := by omega
    simp only [countNibbles, shiftRight_eq_div_pow, Nat.reducePow]
    rw [hshift, and_lanes _ _ hlow (by decide), and_lanes _ _ hb (by decide),
      hmask b hb _ (mod_lt t (by decide))]
    omega

/-- No lane overflows into the next as long as each nibble has counted four bits at most. -/
theorem countBytes_lanes (bs : List ℕ) (hbs : ∀ b ∈ bs, b ≤ 0x44 ∧ b % 16 ≤ 4) :
    countBytes (lanes 0x0f bs.length) (Nat.ofDigits 256 bs) =
      Nat.ofDigits 256 (bs.map (countBytes 0x0f)) := by
  have hmask : ∀ b < 69, ∀ u < 5, (b + b / 16 + 16 * u) &&& 0x0f = (b + b / 16) &&& 0x0f := by
    decide +kernel
  induction bs with
  | nil => rfl
  | cons b bs ih =>
    have hb := hbs b mem_cons_self
    have hrest := ih (fun c hc => hbs c (mem_cons_of_mem b hc))
    have hnext : Nat.ofDigits 256 bs % 16 ≤ 4 := by
      cases bs with
      | nil => simp
      | cons c =>
        have hc := (hbs c (by simp)).2
        rw [ofDigits_cons]
        omega
    simp only [length_cons, map_cons, ofDigits_cons, lanes, ← hrest]
    generalize Nat.ofDigits 256 bs = t at hnext ⊢
    have hsum : (b + 256 * t) + (b + 256 * t) / 16 =
        (b + b / 16 + 16 * (t % 16)) + 256 * (t + t / 16) := by omega
    have hlow : b + b / 16 + 16 * (t % 16) < 256 := by omega
    simp only [countBytes, shiftRight_eq_div_pow, Nat.reducePow]
    rw [hsum, and_lanes _ _ hlow (by decide), hmask b (by omega) _ (by omega)]

/-- Each byte of a word replaced by the number of its set bits. -/
theorem countBytes_ofDigits {bs : List ℕ} (hbs : ∀ b ∈ bs, b < 256) :
    countBytes (lanes 0x0f bs.length) (countNibbles (lanes 0x33 bs.length)
      (countPairs (lanes 0x55 bs.length) (Nat.ofDigits 256 bs))) =
      Nat.ofDigits 256 (bs.map (bitCount 8)) := by
  have hpairs : ∀ b < 256, countPairs 0x55 b < 256 := by decide +kernel
  have hnibbles : ∀ b < 256, countNibbles 0x33 (countPairs 0x55 b) ≤ 0x44 ∧
      countNibbles 0x33 (countPairs 0x55 b) % 16 ≤ 4 := by
    decide +kernel
  have hbytes : ∀ b < 256,
      countBytes 0x0f (countNibbles 0x33 (countPairs 0x55 b)) = bitCount 8 b := by
    decide +kernel
  have h1 := countNibbles_lanes (bs.map (countPairs 0x55)) (by
    intro b hb
    obtain ⟨c, hc, rfl⟩ := mem_map.mp hb
    exact hpairs c (hbs c hc))
  have h2 := countBytes_lanes (bs.map (fun b => countNibbles 0x33 (countPairs 0x55 b))) (by
    intro b hb
    obtain ⟨c, hc, rfl⟩ := mem_map.mp hb
    exact hnibbles c (hbs c hc))
  simp only [length_map, map_map, Function.comp_def] at h1 h2
  rw [countPairs_lanes bs hbs, h1, h2]
  refine congrArg _ (map_congr_left ?_)
  intro b hb
  exact hbytes b (hbs b hb)

theorem lanes_succ (k : ℕ) : lanes 1 (k + 1) = lanes 1 k + 256 ^ k := by
  induction k with
  | zero => rfl
  | succ k ih =>
    calc lanes 1 (k + 1 + 1) = 1 + 256 * lanes 1 (k + 1) := rfl
      _ = 1 + 256 * (lanes 1 k + 256 ^ k) := by rw [ih]
      _ = (1 + 256 * lanes 1 k) + 256 ^ (k + 1) := by ring

theorem lanes_lt (k : ℕ) : 255 * lanes 1 k < 256 ^ k := by
  induction k with
  | zero => decide
  | succ =>
    rw [lanes, pow_succ]
    omega

/-- A product with ones in every lane holds the sum of all lanes in lane `k`. -/
theorem ofDigits_mul_lanes {k : ℕ} {cs : List ℕ} (hlen : cs.length = k + 1) :
    ∃ low h, Nat.ofDigits 256 cs * lanes 1 (k + 1) = low + 256 ^ k * (cs.sum + 256 * h) ∧
      low ≤ cs.sum * lanes 1 k := by
  induction k generalizing cs with
  | zero =>
    obtain ⟨c, rfl⟩ := length_eq_one_iff.mp hlen
    exact ⟨0, 0, by simp [lanes, Nat.ofDigits], by simp⟩
  | succ k ih =>
    obtain ⟨c, cs, rfl⟩ := exists_cons_of_length_eq_add_one hlen
    obtain ⟨low, h, hprod, hlow⟩ := ih (by simpa using hlen)
    refine ⟨256 * low + c * lanes 1 (k + 1), h + Nat.ofDigits 256 cs, ?_, ?_⟩
    · calc Nat.ofDigits 256 (c :: cs) * lanes 1 (k + 1 + 1)
          = c * lanes 1 (k + 1) + 256 * (Nat.ofDigits 256 cs * lanes 1 (k + 1)) +
              256 ^ (k + 1) * (c + 256 * Nat.ofDigits 256 cs) := by
            rw [Nat.ofDigits_cons, lanes_succ (k + 1)]
            ring
        _ = _ := by
            rw [hprod, sum_cons]
            ring
    · calc 256 * low + c * lanes 1 (k + 1)
          ≤ cs.sum * (256 * lanes 1 k) + c * lanes 1 (k + 1) := by nlinarith
        _ ≤ (c :: cs).sum * lanes 1 (k + 1) := by
            have hle : 256 * lanes 1 k ≤ lanes 1 (k + 1) := Nat.le_add_left _ 1
            rw [sum_cons, add_mul, Nat.add_comm]
            exact Nat.add_le_add_left (Nat.mul_le_mul_left _ hle) _

/-- The sum of all lanes, read out of the top lane of the product. -/
theorem laneSum {k : ℕ} {cs : List ℕ} (hlen : cs.length = k + 1) (hsum : cs.sum < 256) :
    Nat.ofDigits 256 cs * lanes 1 (k + 1) / 256 ^ k % 256 = cs.sum := by
  obtain ⟨low, h, hprod, hlow⟩ := ofDigits_mul_lanes hlen
  have hlt : low < 256 ^ k := by
    have h1 := lanes_lt k
    have h2 : cs.sum * lanes 1 k ≤ 255 * lanes 1 k := mul_le_mul_right _ (by omega)
    omega
  rw [hprod, add_mul_div_left _ _ (by positivity), div_eq_of_lt hlt]
  omega

/-- The number that a list of bytes spells, the most significant byte first. -/
def beNat (bs : List UInt8) : ℕ := Nat.ofDigits 256 (bs.reverse.map UInt8.toNat)

/-- The lowest `n` bytes of a number, the most significant byte first. -/
def beBytes (n x : ℕ) : List UInt8 :=
  (List.range n).map (fun i => UInt8.ofNat (x / 256 ^ (n - 1 - i)))

@[simp] theorem beBytes_length (n x : ℕ) : (beBytes n x).length = n := by simp [beBytes]

theorem bytes_lt {bs : List UInt8} : ∀ d ∈ bs.map UInt8.toNat, d < 256 := by
  intro d hd
  obtain ⟨b, -, rfl⟩ := mem_map.mp hd
  exact b.toNat_lt

theorem beNat_lt (bs : List UInt8) : beNat bs < 256 ^ bs.length := by
  simpa [beNat] using ofDigits_lt_base_pow_length (by decide) (@bytes_lt bs.reverse)

theorem beNat_append (bs cs : List UInt8) :
    beNat (bs ++ cs) = beNat bs * 256 ^ cs.length + beNat cs := by
  simp [beNat, ofDigits_append]
  ring

theorem testBit_ofDigits {ds : List ℕ} (hds : ∀ d ∈ ds, d < 256) {i b : ℕ} (hi : i < ds.length)
    (hb : b < 8) : (Nat.ofDigits 256 ds).testBit (8 * i + b) = ds[i].testBit b := by
  induction ds generalizing i with
  | nil => simp at hi
  | cons d _ ih =>
    have hd : d < 2 ^ 8 := hds d mem_cons_self
    rw [ofDigits_cons, add_comm, show 256 = 2 ^ 8 from rfl, testBit_two_pow_mul_add _ hd]
    cases i with
    | zero => simp [hb]
    | succ i =>
      have hrest := ih (fun c hc => hds c (mem_cons_of_mem d hc)) (by simpa using hi)
      rw [if_neg (by omega), show 8 * (i + 1) + b - 8 = 8 * i + b by omega]
      simpa using hrest

theorem testBit_beNat {bs : List UInt8} {p b : ℕ} (hp : p < bs.length) (hb : b < 8) :
    (beNat bs).testBit (8 * (bs.length - 1 - p) + b) = bs[p].toNat.testBit b := by
  have hlt : bs.length - 1 - p < (bs.reverse.map UInt8.toNat).length := by
    simp
    omega
  rw [beNat, testBit_ofDigits bytes_lt hlt hb]
  simp only [getElem_map, getElem_reverse]
  congr 3
  omega

theorem beBytes_succ (n x : ℕ) : beBytes (n + 1) x = UInt8.ofNat (x / 256 ^ n) :: beBytes n x := by
  simp only [beBytes, range_succ_eq_map, map_cons, map_map]
  refine congrArg₂ _ (by simp) (map_congr_left ?_)
  intro i _
  simp only [Function.comp_apply, succ_eq_add_one]
  congr 3
  omega

theorem beNat_beBytes (n x : ℕ) : beNat (beBytes n x) = x % 256 ^ n := by
  induction n with
  | zero => simp [beBytes, beNat, mod_one]
  | succ n ih =>
    rw [beBytes_succ, ← singleton_append, beNat_append, ih, beBytes_length, mod_pow_succ]
    simp [beNat]
    ring

theorem beBytes_add_mul (n x y : ℕ) : beBytes n (x + 256 ^ n * y) = beBytes n x := by
  refine map_congr_left ?_
  intro i hi
  have hlt := mem_range.mp hi
  have hpow : 256 ^ n * y = 256 ^ (n - 1 - i) * (256 * (256 ^ i * y)) := by
    rw [← mul_assoc, ← mul_assoc, ← pow_succ, ← pow_add]
    congr 2
    omega
  have hpos : 0 < 256 ^ (n - 1 - i) := by positivity
  apply UInt8.toNat_inj.mp
  rw [hpow, add_mul_div_left _ _ hpos]
  simp [UInt8.toNat_ofNat']

theorem beBytes_beNat (bs : List UInt8) : beBytes bs.length (beNat bs) = bs := by
  induction bs with
  | nil => rfl
  | cons b bs ih =>
    have hlt := beNat_lt bs
    have hpos : 0 < 256 ^ bs.length := by positivity
    have hcons : beNat (b :: bs) = beNat bs + 256 ^ bs.length * b.toNat := by
      rw [← singleton_append, beNat_append]
      simp [beNat]
      ring
    rw [length_cons, beBytes_succ, hcons, beBytes_add_mul, ih,
      add_mul_div_left _ _ hpos, div_eq_of_lt hlt]
    simp

theorem beNat_injective {bs cs : List UInt8} (hlen : bs.length = cs.length)
    (h : beNat bs = beNat cs) : bs = cs := by
  rw [← beBytes_beNat bs, ← beBytes_beNat cs, hlen, h]

theorem beBytes_injective {n x y : ℕ} (hx : x < 256 ^ n) (hy : y < 256 ^ n)
    (h : beBytes n x = beBytes n y) : x = y := by
  have hnat := congrArg beNat h
  rwa [beNat_beBytes, beNat_beBytes, mod_eq_of_lt hx, mod_eq_of_lt hy] at hnat

theorem beBytes_concat (n x : ℕ) : beBytes (n + 1) x = beBytes n (x / 256) ++ [UInt8.ofNat x] := by
  simp only [beBytes, range_succ, map_append, map_cons, map_nil]
  refine congrArg₂ _ (map_congr_left ?_) (by simp)
  intro i hi
  have hlt := mem_range.mp hi
  rw [Nat.div_div_eq_div_mul, ← pow_succ']
  congr 3
  omega

/-- The number that a list of bytes spells, the least significant byte first. -/
def leNat (bs : List UInt8) : ℕ := Nat.ofDigits 256 (bs.map UInt8.toNat)

/-- The lowest `n` bytes of a number, the least significant byte first. -/
def leBytes (n x : ℕ) : List UInt8 := (beBytes n x).reverse

theorem leNat_eq (bs : List UInt8) : leNat bs = beNat bs.reverse := by simp [leNat, beNat]

theorem leNat_cons (b : UInt8) (bs : List UInt8) : leNat (b :: bs) = b.toNat + 256 * leNat bs := by
  simp [leNat, ofDigits_cons]

@[simp] theorem leBytes_length (n x : ℕ) : (leBytes n x).length = n := by simp [leBytes]

theorem leBytes_succ (n x : ℕ) : leBytes (n + 1) x = UInt8.ofNat x :: leBytes n (x / 256) := by
  simp [leBytes, beBytes_concat]

theorem leNat_lt (bs : List UInt8) : leNat bs < 256 ^ bs.length := by
  simpa [leNat_eq] using beNat_lt bs.reverse

theorem leNat_leBytes (n x : ℕ) : leNat (leBytes n x) = x % 256 ^ n := by
  rw [leNat_eq, leBytes, reverse_reverse, beNat_beBytes]

theorem leBytes_leNat (bs : List UInt8) : leBytes bs.length (leNat bs) = bs := by
  have h := beBytes_beNat bs.reverse
  rw [length_reverse] at h
  rw [leBytes, leNat_eq, h, reverse_reverse]

theorem leBytes_injective {n x y : ℕ} (hx : x < 256 ^ n) (hy : y < 256 ^ n)
    (h : leBytes n x = leBytes n y) : x = y :=
  beBytes_injective hx hy (reverse_injective h)

end Knomosis.Lib
