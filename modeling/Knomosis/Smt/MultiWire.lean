import Knomosis.Smt.MultiProof
import Knomosis.Smt.SmtMultiVerifier

/-!
# Reading the wire of a multiproof

The contract works on words: bit-reversed keys, mask words, packed siblings.
This module says what each of its word operations computes, in the terms of the
kernel's byte strings, up to the two results the walk needs: the shape check
accepts exactly the well-formed proofs, and the cursor reads, gap by gap, the
siblings that the kernel expands the proof to.
-/

namespace Knomosis.Smt

open Lib Contracts List Nat

theorem getLsbD_rotate (r : Bytes32) {i : ℕ} (hi : i < 256) :
    ((r <<< 128) ||| (r >>> 128)).getLsbD i = r.getLsbD (flipBit 7 i) := by
  have hbit : i.testBit 7 = decide (128 ≤ i) := by
    rw [testBit_eq_decide_div_mod_eq, decide_eq_decide]
    omega
  simp only [BitVec.getLsbD_or, BitVec.getLsbD_shiftLeft, BitVec.getLsbD_ushiftRight, hi,
    decide_true, Bool.true_and, flipBit, hbit]
  rcases lt_or_ge i 128 with hlt | hge
  · simp [hlt, not_le.mpr hlt, add_comm]
  · have hout : r.getLsbD (128 + i) = false := BitVec.getLsbD_of_ge r _ (by omega)
    simp [hge, not_lt.mpr hge, hout]

theorem flipBit_all :
    ∀ i < 256, flipBit 0 (flipBit 1 (flipBit 2 (flipBit 3 (flipBit 4 (flipBit 5
      (flipBit 6 (flipBit 7 i))))))) = 255 - i := by
  decide +kernel

theorem flipBit_lt {j i : ℕ} (hj : j < 8) (hi : i < 256) : flipBit j i < 256 := by
  unfold flipBit
  simp only [testBit_eq_decide_div_mod_eq, decide_eq_true_eq]
  interval_cases j <;> split <;> omega

theorem getLsbD_pathIndex (key : Bytes32) {i : ℕ} (hi : i < 256) :
    (pathIndex key).getLsbD i = key.getLsbD (255 - i) := by
  have h7 := flipBit_lt (j := 7) (by decide) hi
  have h6 := flipBit_lt (j := 6) (by decide) h7
  have h5 := flipBit_lt (j := 5) (by decide) h6
  have h4 := flipBit_lt (j := 4) (by decide) h5
  have h3 := flipBit_lt (j := 3) (by decide) h4
  have h2 := flipBit_lt (j := 2) (by decide) h3
  have h1 := flipBit_lt (j := 1) (by decide) h2
  have m1 : ∀ i < 256, M1.getLsbD i = !i.testBit 0 := by decide +kernel
  have m2 : ∀ i < 256, M2.getLsbD i = !i.testBit 1 := by decide +kernel
  have m4 : ∀ i < 256, M4.getLsbD i = !i.testBit 2 := by decide +kernel
  have m8 : ∀ i < 256, M8.getLsbD i = !i.testBit 3 := by decide +kernel
  have m16 : ∀ i < 256, M16.getLsbD i = !i.testBit 4 := by decide +kernel
  have m32 : ∀ i < 256, M32.getLsbD i = !i.testBit 5 := by decide +kernel
  have m64 : ∀ i < 256, M64.getLsbD i = !i.testBit 6 := by decide +kernel
  rw [pathIndex, getLsbD_rotate _ hi, ← flipBit_all i hi]
  exact (getLsbD_swapBlocks m64 _ h7).trans <| (getLsbD_swapBlocks m32 _ h6).trans <|
    (getLsbD_swapBlocks m16 _ h5).trans <| (getLsbD_swapBlocks m8 _ h4).trans <|
    (getLsbD_swapBlocks m4 _ h3).trans <| (getLsbD_swapBlocks m2 _ h2).trans <|
    getLsbD_swapBlocks m1 _ h1

theorem pathIndex_pathIndex (key : Bytes32) : pathIndex (pathIndex key) = key := by
  refine BitVec.eq_of_getLsbD_eq ?_
  intro i hi
  rw [getLsbD_pathIndex _ hi, getLsbD_pathIndex _ (by omega)]
  congr 1
  omega

theorem keyBit_bytes32Bytes (key : Bytes32) {i : ℕ} (hi : i < 256) :
    keyBit (bytes32Bytes key) i = key.getLsbD (255 - i) := by
  have hp : i / 8 < (bytes32Bytes key).length := by
    simp
    omega
  have hbit := testBit_beNat (b := 7 - i % 8) hp (by omega)
  rw [beNat_bytes32Bytes, bytes32Bytes_length,
    show 8 * (32 - 1 - i / 8) + (7 - i % 8) = 255 - i by omega] at hbit
  rw [keyBit, List.getElem?_eq_getElem hp, Option.any_some, ← hbit]
  rfl

theorem msb_eq (x : Bytes32) : msb x = x.toNat.log2 := by
  obtain ⟨l7, e7⟩ := halve_spec (k := 128) (p := (x.toNat, 0)) x.isLt
  obtain ⟨l6, e6⟩ := halve_spec (k := 64) l7
  obtain ⟨l5, e5⟩ := halve_spec (k := 32) l6
  obtain ⟨l4, e4⟩ := halve_spec (k := 16) l5
  obtain ⟨l3, e3⟩ := halve_spec (k := 8) l4
  obtain ⟨l2, e2⟩ := halve_spec (k := 4) l3
  obtain ⟨l1, e1⟩ := halve_spec (k := 2) l2
  have hlog : ∀ y < 2 ^ 2, y.log2 = if 2 ≤ y then 1 else 0 := by decide
  have h := hlog _ l1
  unfold msb
  simp only at e7 ⊢
  split_ifs at h ⊢ <;> omega

theorem divLevel_eq (a b : Bytes32) : divLevel a b = parting a.toNat b.toNat := by
  rw [divLevel, msb_eq, BitVec.toNat_xor]
  rfl

def bitsIn (bs : Bytes) : ℕ := (bs.map (fun b => bitCount 8 b.toNat)).sum

theorem bitsIn_append (bs cs : Bytes) : bitsIn (bs ++ cs) = bitsIn bs + bitsIn cs := by
  simp [bitsIn]

theorem bitsIn_zeros (n : ℕ) : bitsIn (List.replicate n 0) = 0 := by
  have hzero : bitCount 8 0 = 0 := by decide
  simp [bitsIn, hzero]

theorem toNat_bytesWord {bs : Bytes} (hlen : bs.length = 32) : (bytesWord bs).toNat = beNat bs := by
  have hlt : beNat bs < 2 ^ 256 := by simpa [hlen] using beNat_lt bs
  rw [bytesWord, BitVec.toNat_ofNat, mod_eq_of_lt hlt]

/-- The sum of sixteen lanes, by multiplication. -/
theorem sumLanes (x : Bytes32) (cs : List ℕ) (hx : x.toNat = Nat.ofDigits 256 cs)
    (hlen : cs.length = 16) (hcs : ∀ c ∈ cs, c ≤ 8) :
    (((x * 0x01010101010101010101010101010101#256) >>> 120) &&& 0xFF#256).toNat = cs.sum := by
  have hsum : cs.sum ≤ 16 * 8 := by
    have := sum_le_card_nsmul cs 8 hcs
    rwa [hlen, smul_eq_mul] at this
  have hlt : Nat.ofDigits 256 cs < 2 ^ 128 := by
    have := ofDigits_lt_base_pow_length (b := 256) (l := cs) (by decide)
      (fun c hc => lt_of_le_of_lt (hcs c hc) (by decide))
    rwa [hlen] at this
  have hones : (0x01010101010101010101010101010101#256).toNat = lanes 1 16 := by decide
  have hprod : Nat.ofDigits 256 cs * lanes 1 16 < 2 ^ 256 := by
    have hl : lanes 1 16 < 2 ^ 128 := by decide
    calc Nat.ofDigits 256 cs * lanes 1 16 < 2 ^ 128 * 2 ^ 128 := mul_lt_mul'' hlt hl
      _ = 2 ^ 256 := by norm_num
  have h := laneSum hlen (by omega)
  rw [BitVec.toNat_and, BitVec.toNat_ushiftRight, BitVec.toNat_mul, hx, hones,
    mod_eq_of_lt hprod, shiftRight_eq_div_pow]
  calc Nat.ofDigits 256 cs * lanes 1 16 / 2 ^ 120 &&& (2 ^ 8 - 1)
      = Nat.ofDigits 256 cs * lanes 1 16 / 256 ^ 15 % 256 := by
        rw [and_two_pow_sub_one_eq_mod]
        norm_num
    _ = cs.sum := h

/-- The word that holds, in each byte, the number of bits set in that byte of `x`. -/
def byteCounts (x : Bytes32) : Bytes32 :=
  let x := x - ((x >>> 1) &&& M1)
  let x := (x &&& M2) + ((x >>> 2) &&& M2)
  (x + (x >>> 4)) &&& M4

theorem toNat_byteCounts {x : Bytes32} {ds : List ℕ} (hx : x.toNat = Nat.ofDigits 256 ds)
    (hlen : ds.length = 32) (hds : ∀ d ∈ ds, d < 256) :
    (byteCounts x).toNat = Nat.ofDigits 256 (ds.map (bitCount 8)) := by
  have h1 : M1.toNat = lanes 0x55 32 := by decide
  have h2 : M2.toNat = lanes 0x33 32 := by decide
  have h4 : M4.toNat = lanes 0x0f 32 := by decide
  have hpairs : (x - ((x >>> 1) &&& M1)).toNat = countPairs (lanes 0x55 32) x.toNat := by
    rw [BitVec.toNat_sub_of_le]
    · simp [countPairs, h1]
    · rw [BitVec.le_def, BitVec.toNat_and, BitVec.toNat_ushiftRight, shiftRight_eq_div_pow]
      exact le_trans and_le_left (div_le_self _ _)
  have hnibbles : ∀ y : Bytes32,
      ((y &&& M2) + ((y >>> 2) &&& M2)).toNat = countNibbles (lanes 0x33 32) y.toNat := by
    intro y
    have hlt : lanes 0x33 32 + lanes 0x33 32 < 2 ^ 256 := by decide
    have ha : y.toNat &&& lanes 0x33 32 ≤ lanes 0x33 32 := and_le_right
    have hb : y.toNat >>> 2 &&& lanes 0x33 32 ≤ lanes 0x33 32 := and_le_right
    rw [BitVec.toNat_add, BitVec.toNat_and, BitVec.toNat_and, BitVec.toNat_ushiftRight, h2,
      mod_eq_of_lt (by omega)]
    rfl
  have hbytes : ∀ y : Bytes32,
      ((y + (y >>> 4)) &&& M4).toNat = countBytes (lanes 0x0f 32) y.toNat := by
    intro y
    have hlt : lanes 0x0f 32 < 2 ^ 256 := by decide
    rw [BitVec.toNat_and, BitVec.toNat_add, BitVec.toNat_ushiftRight, h4, countBytes]
    conv_rhs => rw [← mod_eq_of_lt (and_lt_two_pow (y.toNat + y.toNat >>> 4) hlt)]
    rw [and_mod_two_pow, mod_eq_of_lt hlt]
  have h := countBytes_ofDigits hds
  rw [hlen] at h
  rw [byteCounts, hbytes, hnibbles, hpairs, hx, h]

theorem popcount_bytesWord {bs : Bytes} (hlen : bs.length = 32) :
    (popcount (bytesWord bs)).toNat = bitsIn bs := by
  have hcount : ∀ b < 256, bitCount 8 b ≤ 8 := by decide +kernel
  have hcs : ∀ c ∈ (bs.reverse.map UInt8.toNat).map (bitCount 8), c ≤ 8 := by
    intro c hc
    obtain ⟨d, hd, rfl⟩ := mem_map.mp hc
    exact hcount d (bytes_lt d hd)
  have hx := toNat_byteCounts (x := bytesWord bs) (toNat_bytesWord hlen) (by simp [hlen]) bytes_lt
  generalize hdef : (bs.reverse.map UInt8.toNat).map (bitCount 8) = cs at hcs hx
  have hcslen : cs.length = 32 := by simp [← hdef, hlen]
  have hsum : cs.sum = bitsIn bs := by
    rw [← hdef, bitsIn, map_map, ← sum_reverse, ← map_reverse, reverse_reverse]
    rfl
  have hbyte : ∀ c ∈ cs, c < 256 := fun c hc => lt_of_le_of_lt (hcs c hc) (by decide)
  have hlo := sumLanes (byteCounts (bytesWord bs) &&& ((1#256 <<< 128) - 1#256)) (cs.take 16) (by
      have hmask : ((1#256 <<< 128) - 1#256).toNat = 2 ^ 128 - 1 := by decide
      rw [BitVec.toNat_and, hmask, and_two_pow_sub_one_eq_mod, hx]
      exact ofDigits_mod_pow_eq_ofDigits_take 16 (by decide) cs hbyte)
    (by simp [hcslen]) (fun c hc => hcs c (mem_of_mem_take hc))
  have hhi := sumLanes (byteCounts (bytesWord bs) >>> 128) (cs.drop 16) (by
      rw [BitVec.toNat_ushiftRight, hx, shiftRight_eq_div_pow]
      exact ofDigits_div_pow_eq_ofDigits_drop 16 (by decide) cs hbyte)
    (by simp [hcslen]) (fun c hc => hcs c (mem_of_mem_drop hc))
  have hsplit : (cs.take 16).sum + (cs.drop 16).sum = cs.sum := by
    rw [← List.sum_append, take_append_drop]
  have hle : cs.sum ≤ 32 * 8 := by
    have := sum_le_card_nsmul cs 8 hcs
    rwa [hcslen, smul_eq_mul] at this
  change (_ + _ : Bytes32).toNat = _
  rw [BitVec.toNat_add]
  unfold byteCounts at hlo hhi
  simp only at hlo hhi
  rw [hlo, hhi, hsplit, hsum, mod_eq_of_lt (by omega)]

section Mask

variable {gapMask siblings : Calldata}

/-- The packed siblings, cut into pieces of 32 bytes. -/
def siblingList (bs : Bytes) : List Bytes :=
  (List.range ((bs.length + 31) / 32)).map (fun i => (bs.drop (32 * i)).take 32)

/-- The proof that a mask and packed siblings stand for. -/
def wireProof (gapMask siblings : Bytes) : SmtMultiProof := ⟨gapMask, siblingList siblings⟩

theorem testBit_byteAt (mask : Calldata) {g : ℕ} (hg : g / 8 < mask.bytes.length) :
    (mask.byteAt (g / 8)).toNat.testBit (g % 8) =
      (wireProof mask.bytes siblings.bytes).gapBit g := by
  simp [Calldata.byteAt, wireProof, SmtMultiProof.gapBit, hg]

/-- The word that holds gap `g` has the gap's bit where the walk looks for it. -/
theorem gapBitFromWord_maskWordFor {g : ℕ} (hg : g / 8 < gapMask.bytes.length) :
    gapBitFromWord (maskWordFor gapMask g) g =
      (wireProof gapMask.bytes siblings.bytes).gapBit g := by
  have hoff : (g >>> 8) <<< 5 + (g >>> 3) % 32 = g / 8 := by
    simp only [shiftRight_eq_div_pow, shiftLeft_eq]
    omega
  have hp : (g >>> 3) % 32 < ((List.range 32).map
      (fun p => gapMask.byteAt ((g >>> 8) <<< 5 + p))).length := by
    simp only [length_map, length_range]
    exact mod_lt _ (by decide)
  have hbit := testBit_beNat hp (mod_lt g (by decide : 0 < 8))
  rw [← toNat_bytesWord (by simp), getElem_map, getElem_range, hoff] at hbit
  rw [← testBit_byteAt gapMask hg, ← hbit, gapBitFromWord, maskWordFor, Calldata.load]
  simp only [length_map, length_range, shiftLeft_eq]
  rw [← BitVec.testBit_toNat, mul_comm 8]

theorem gapBit_eq_one (gapMask siblings : Calldata) (g : ℕ) :
    gapBit gapMask g = 1 ↔ (wireProof gapMask.bytes siblings.bytes).gapBit g = true := by
  have hdiv : g >>> 3 = g / 8 := shiftRight_eq_div_pow g 3
  rw [gapBit, SmtMultiProof.gapBit, hdiv]
  change _ ↔ Option.any _ (gapMask.bytes[g / 8]?) = true
  cases gapMask.bytes[g / 8]? with
  | none => simp
  | some => simp [testBit_eq_decide_div_mod_eq, shiftRight_eq_div_pow]

theorem and_not_low (x : Bytes32) {k : ℕ} (hk : k < 256) :
    x &&& ~~~((1#256 <<< k) - 1#256) = (x >>> k) <<< k := by
  have hmask : ((1#256 <<< k) - 1#256).toNat = 2 ^ k - 1 := by
    have hpow : 2 ^ k < 2 ^ 256 := Nat.pow_lt_pow_right (by decide) hk
    have hpos := Nat.two_pow_pos k
    have hone : (1#256 <<< k).toNat = 2 ^ k := by
      rw [BitVec.toNat_shiftLeft, BitVec.toNat_ofNat, Nat.shiftLeft_eq]
      simpa using Nat.mod_eq_of_lt hpow
    rw [BitVec.toNat_sub_of_le, hone]
    · rfl
    · rw [BitVec.le_def, hone]
      exact hpos
  refine BitVec.eq_of_getLsbD_eq ?_
  intro i hi
  have hbit : ((1#256 <<< k) - 1#256).getLsbD i = decide (i < k) := by
    rw [← BitVec.testBit_toNat, hmask, Nat.testBit_two_pow_sub_one]
  rw [BitVec.getLsbD_and, BitVec.getLsbD_not, hbit, BitVec.getLsbD_shiftLeft,
    BitVec.getLsbD_ushiftRight]
  rcases Nat.lt_or_ge i k with hlt | hge
  · simp [hlt]
  · simp [hi, Nat.not_lt.mpr hge, Nat.add_sub_cancel' hge]

theorem clear_low_bytes (bs cs : Bytes) (hlen : bs.length + cs.length = 32) (hne : bs ≠ []) :
    bytesWord (bs ++ cs) &&& ~~~((1#256 <<< (8 * cs.length)) - 1#256) =
      bytesWord (bs ++ List.replicate cs.length 0) := by
  have hpos := length_pos_of_ne_nil hne
  have hzero : beNat (List.replicate cs.length 0) = 0 := by simp [beNat, ofDigits_replicate_zero]
  have hlt := beNat_lt cs
  have hpow : 2 ^ (8 * cs.length) = 256 ^ cs.length := pow_mul 2 8 cs.length
  have hbs : beNat bs * 256 ^ cs.length < 2 ^ 256 := by
    have h := beNat_lt (bs ++ cs)
    rw [beNat_append, length_append, hlen] at h
    norm_num at h ⊢
    omega
  apply BitVec.eq_of_toNat_eq
  rw [and_not_low _ (by omega), BitVec.toNat_shiftLeft, BitVec.toNat_ushiftRight,
    toNat_bytesWord (by simpa using hlen), toNat_bytesWord (by simpa using hlen), beNat_append,
    beNat_append, hzero, shiftRight_eq_div_pow, shiftLeft_eq, hpow,
    length_replicate, mul_comm (beNat bs), mul_add_div (by positivity),
    div_eq_of_lt hlt, add_zero, add_zero, mul_comm _ (beNat bs)]
  exact mod_eq_of_lt hbs

theorem byteAt_drop (c : Calldata) (off n : ℕ) (hn : off + n ≤ c.bytes.length) :
    (List.range n).map (fun p => c.byteAt (off + p)) = (c.bytes.drop off).take n := by
  apply ext_getElem
  · simp
    omega
  intro i h1 h2
  have hi : off + i < c.bytes.length := by
    simp at h1
    omega
  simp [Calldata.byteAt, hi]

theorem popcount_validWord {w : ℕ} (hw : w * 32 < gapMask.bytes.length) :
    (popcount (validWord gapMask gapMask.bytes.length w)).toNat =
      bitsIn ((gapMask.bytes.drop (32 * w)).take 32) := by
  rw [Nat.mul_comm] at hw
  simp only [validWord, Calldata.load, Nat.mul_comm w 32]
  split_ifs with hvalid
  · -- The last word: its first bytes are the mask's, the others stand behind it.
    obtain ⟨n, hn⟩ : ∃ n, n = gapMask.bytes.length - 32 * w := ⟨_, rfl⟩
    have hmine := byteAt_drop gapMask (32 * w) n (by omega)
    have hsplit : (List.range 32).map (fun p => gapMask.byteAt (32 * w + p)) =
        (gapMask.bytes.drop (32 * w)).take n ++
          (List.range (32 - n)).map (fun p => gapMask.byteAt (32 * w + (n + p))) := by
      have hrange : List.range 32 = List.range n ++ (List.range (32 - n)).map (n + ·) := by
        rw [← range_add, Nat.add_sub_cancel' (by omega)]
      simp [← hmine, hrange]
    have hlen : ((gapMask.bytes.drop (32 * w)).take n).length = n := by
      simp
      omega
    have hclear := clear_low_bytes
      ((gapMask.bytes.drop (32 * w)).take n)
      ((List.range (32 - n)).map (fun p => gapMask.byteAt (32 * w + (n + p))))
      (by simp only [hlen, length_map, length_range]; omega)
      (by rw [← length_pos_iff, hlen]; omega)
    simp only [length_map, length_range] at hclear
    rw [← hn, hsplit, hclear, popcount_bytesWord (by simp [hlen]; omega), bitsIn_append,
      bitsIn_zeros, Nat.add_zero]
    congr 1
    rw [take_of_length_le (by simp; omega), take_of_length_le (by simp; omega)]
  · rw [byteAt_drop gapMask (32 * w) 32 (by omega), popcount_bytesWord]
    simp
    omega

theorem bitsIn_take (bs : Bytes) (n : ℕ) :
    ((List.range n).map (fun w => bitsIn ((bs.drop (32 * w)).take 32))).sum =
      bitsIn (bs.take (32 * n)) := by
  induction n with
  | zero => simp [bitsIn]
  | succ n ih =>
    rw [range_succ, map_append, List.sum_append, ih, mul_succ, take_add, bitsIn_append]
    simp

theorem setBits_eq {n : ℕ} (hn : gapMask.bytes.length = n) :
    setBits gapMask n = bitsIn gapMask.bytes := by
  subst hn
  have hmap : (List.range ((gapMask.bytes.length + 31) / 32)).map
      (fun w => (popcount (validWord gapMask gapMask.bytes.length w)).toNat) =
      (List.range ((gapMask.bytes.length + 31) / 32)).map
        (fun w => bitsIn ((gapMask.bytes.drop (32 * w)).take 32)) := by
    refine map_congr_left ?_
    intro w hw
    refine popcount_validWord ?_
    have := mem_range.mp hw
    omega
  rw [setBits, hmap, bitsIn_take, take_of_length_le (by omega)]

theorem countP_gapBit (mask sibs : Bytes) :
    (List.range (8 * mask.length)).countP (wireProof mask sibs).gapBit = bitsIn mask := by
  induction mask with
  | nil => rfl
  | cons b mask ih =>
    have hfirst : (List.range 8).countP (wireProof (b :: mask) sibs).gapBit =
        bitCount 8 b.toNat := by
      refine countP_congr ?_
      intro g hg
      have hg := mem_range.mp hg
      simp [wireProof, SmtMultiProof.gapBit, div_eq_of_lt hg, mod_eq_of_lt hg]
    have hrest : ∀ g, (wireProof (b :: mask) sibs).gapBit (8 + g) =
        (wireProof mask sibs).gapBit g := by
      intro g
      have hdiv : (8 + g) / 8 = g / 8 + 1 := by omega
      simp [wireProof, SmtMultiProof.gapBit, hdiv]
    rw [length_cons, show 8 * (mask.length + 1) = 8 + 8 * mask.length by omega,
      range_add, countP_append, hfirst, countP_map]
    simp only [Function.comp_def, hrest, ih]
    simp [bitsIn]

end Mask

section Shape

variable {gapMask siblings : Calldata} {sorted : List Bytes32} {levels : List ℕ}

theorem siblingList_iff (bs : Bytes) (n : ℕ) :
    ((siblingList bs).length = n ∧ ∀ s ∈ siblingList bs, s.length = 32) ↔ bs.length = n * 32 := by
  have hlen : ∀ i, ((bs.drop (32 * i)).take 32).length = min 32 (bs.length - 32 * i) := by simp
  constructor
  · rintro ⟨hn, hall⟩
    have hcount : (bs.length + 31) / 32 = n := by simpa [siblingList] using hn
    rcases Nat.eq_zero_or_pos n with rfl | hpos
    · omega
    · have hlast := hall ((bs.drop (32 * (n - 1))).take 32)
        (mem_map.mpr ⟨n - 1, mem_range.mpr (by omega), rfl⟩)
      rw [hlen] at hlast
      omega
  · intro h
    constructor
    · simp [siblingList]
      omega
    · intro s hs
      obtain ⟨i, hi, rfl⟩ := mem_map.mp hs
      have hi := mem_range.mp hi
      rw [hlen]
      omega

theorem isWellFormedFor_iff (p : SmtMultiProof) :
    p.isWellFormedFor levels = true ↔
      p.gapMask.length = (levels.length + 7) / 8 ∧
      (∀ g < p.gapMask.length * 8, levels.length ≤ g → p.gapBit g = false) ∧
      p.siblings.length = p.gapPopcount levels.length ∧ ∀ s ∈ p.siblings, s.length = 32 := by
  simp only [SmtMultiProof.isWellFormedFor, Bool.and_eq_true, beq_iff_eq, all_eq_true,
    mem_range, Bool.or_eq_true, decide_eq_true_eq, Bool.not_eq_true', and_assoc]
  refine and_congr_right fun _ => and_congr_left fun _ => ?_
  refine forall_congr' fun g => forall_congr' fun _ => ?_
  rw [← not_lt, imp_iff_not_or, not_not]

/-- Without marks in the padding, the marks of the mask are the marks of the gaps. -/
theorem gapPopcount_eq_bitsIn {mask : Bytes} (sibs : Bytes) {n : ℕ}
    (hlen : mask.length = (n + 7) / 8)
    (hpad : ∀ g < mask.length * 8, n ≤ g → (wireProof mask sibs).gapBit g = false) :
    (wireProof mask sibs).gapPopcount n = bitsIn mask := by
  have hsplit : List.range (8 * mask.length) =
      List.range n ++ (List.range (8 * mask.length - n)).map (n + ·) := by
    rw [← range_add, Nat.add_sub_cancel' (by omega)]
  have hrest : ((List.range (8 * mask.length - n)).map (n + ·)).countP
      (wireProof mask sibs).gapBit = 0 := by
    refine countP_eq_zero.mpr ?_
    intro g hg
    obtain ⟨i, hi, rfl⟩ := mem_map.mp hg
    have hi := mem_range.mp hi
    rw [hpad (n + i) (by omega) (by omega)]
    exact Bool.false_ne_true
  rw [← countP_gapBit mask sibs, hsplit, countP_append, hrest, Nat.add_zero,
    countP_eq_length_filter]
  rfl

theorem requireShape_iff (hg : (gapCount sorted).toNat = levels.length) :
    (∃ g, requireShape sorted gapMask siblings = .ok g) ↔
      (wireProof gapMask.bytes siblings.bytes).isWellFormedFor levels = true := by
  have hpadding : firstPadding gapMask levels.length ((levels.length + 7) / 8) = none ↔
      ∀ g < (levels.length + 7) / 8 * 8, levels.length ≤ g →
        (wireProof gapMask.bytes siblings.bytes).gapBit g = false := by
    simp only [firstPadding, List.find?_eq_none, mem_range'_1, beq_iff_eq,
      gapBit_eq_one gapMask siblings, Bool.not_eq_true]
    constructor
    · intro h g hlt hge
      exact h g ⟨hge, by omega⟩
    · rintro h g ⟨hge, hlt⟩
      exact h g (by omega) hge
  rw [isWellFormedFor_iff]
  change _ ↔ gapMask.bytes.length = _ ∧ (∀ g < gapMask.bytes.length * 8, _) ∧
    (siblingList siblings.bytes).length = _ ∧ ∀ s ∈ siblingList siblings.bytes, _
  simp only [requireShape, hg]
  rcases eq_or_ne gapMask.bytes.length ((levels.length + 7) / 8) with hlen | hlen
  · rw [hlen, ← hpadding]
    cases hpad : firstPadding gapMask levels.length ((levels.length + 7) / 8) with
    | some => simp
    | none =>
      have hcount := gapPopcount_eq_bitsIn siblings.bytes hlen
        (by rw [hlen]; exact hpadding.mp hpad)
      rw [siblingList_iff, hcount, ← setBits_eq hlen]
      by_cases hsibs : siblings.bytes.length =
          setBits gapMask ((levels.length + 7) / 8) * 32 <;> simp [hsibs]
  · simp [hlen]

end Shape

section Cursor

variable {gapMask siblings : Calldata} {levels : List ℕ}

/-- The cursor in front of gap `g`: every marked gap before it has used up one sibling. -/
def cursorAt (gapMask : Calldata) (p : SmtMultiProof) (g : ℕ) : GapCursor where
  gapIdx := g
  cursor := p.gapPopcount g
  maskWord := maskWordFor gapMask g

theorem gapPopcount_succ (p : SmtMultiProof) (g : ℕ) :
    p.gapPopcount (g + 1) = if p.gapBit g then p.gapPopcount g + 1 else p.gapPopcount g := by
  simp only [SmtMultiProof.gapPopcount, range_succ, filter_append, length_append]
  cases hbit : p.gapBit g <;> simp [hbit]

theorem gapPopcount_mono (p : SmtMultiProof) {g n : ℕ} (h : g ≤ n) :
    p.gapPopcount g ≤ p.gapPopcount n := by
  induction n, h using le_induction with
  | base => exact le_refl _
  | succ =>
    rw [gapPopcount_succ]
    split_ifs <;> omega

variable {g : ℕ} {p : SmtMultiProof}

theorem maskWordFor_succ (h : (g + 1) % 256 ≠ 0) :
    maskWordFor gapMask (g + 1) = maskWordFor gapMask g := by
  have hblock : (g + 1) >>> 8 = g >>> 8 := by
    simp only [shiftRight_eq_div_pow]
    omega
  rw [maskWordFor, hblock]
  rfl

theorem bytes32Bytes_load {i : ℕ} (hi : 32 * i + 32 ≤ siblings.bytes.length) :
    some (bytes32Bytes (siblings.load (i <<< 5))) = (siblingList siblings.bytes)[i]? := by
  have hlt : i < (siblings.bytes.length + 31) / 32 := by omega
  have hoff : i <<< 5 = 32 * i := by
    rw [shiftLeft_eq]
    omega
  have hlen : ((siblings.bytes.drop (32 * i)).take 32).length = 32 := by
    simp
    omega
  rw [Calldata.load, hoff, byteAt_drop siblings (32 * i) 32 hi, bytes32Bytes_bytesWord hlen]
  simp [siblingList, hlt]

theorem gapBitFromWord_eq (hp : wireProof gapMask.bytes siblings.bytes = p)
    (hwf : p.isWellFormedFor levels = true) (hg : g < levels.length) :
    gapBitFromWord (maskWordFor gapMask g) g = p.gapBit g := by
  subst hp
  have hmask : gapMask.bytes.length = (levels.length + 7) / 8 := ((isWellFormedFor_iff _).mp hwf).1
  exact gapBitFromWord_maskWordFor (by omega)

variable [Keccak]

theorem emptiesFrom_getElem? (h : Bytes32) {n i : ℕ} (hi : i < n) :
    (emptiesFrom h n)[i]? = some ((fun h => hashPair h h)^[i] h) := by
  induction n generalizing h i with
  | zero => omega
  | succ n ih =>
    cases i with
    | zero => rfl
    | succ => simpa [emptiesFrom] using ih (hashPair h h) (lt_of_succ_lt_succ hi)

theorem precomputeEmptySubtreeHashes_getD {d : ℕ} (hd : d < 256) :
    bytes32Bytes (precomputeEmptySubtreeHashes.getD d 0) = emptySubtreeHash d := by
  have hchain : ∀ d, bytes32Bytes ((fun h => hashPair h h)^[d] (keccak256 emptyLeafSeedBytes)) =
      emptyChain d := by
    intro d
    induction d with
    | zero => rfl
    | succ d ih =>
      rw [Function.iterate_succ_apply', emptyChain, ← ih]
      rfl
  rw [getD_eq_getElem?_getD, precomputeEmptySubtreeHashes, emptiesFrom_getElem? _ hd,
    emptySubtreeHash, if_pos hd, ← hchain]
  rfl

/-- The cursor reads the kernel's sibling for its gap, -/
theorem nextSibling_fst (hp : wireProof gapMask.bytes siblings.bytes = p)
    (hwf : p.isWellFormedFor levels = true) {lvl : ℕ} (hg : g < levels.length) (hlvl : lvl < 256) :
    bytes32Bytes (nextSibling gapMask siblings precomputeEmptySubtreeHashes lvl
        (cursorAt gapMask p g)).1 = if p.gapBit g then p.siblings[p.gapPopcount g]?.getD paddingHash
      else emptySubtreeHash lvl := by
  simp only [nextSibling, cursorAt, gapBitFromWord_eq hp hwf hg]
  split_ifs with hmarked
  · obtain ⟨-, -, hsibs, hwhole⟩ := (isWellFormedFor_iff _).mp hwf
    have hlist : p.siblings = siblingList siblings.bytes := by
      rw [← hp]
      rfl
    rw [hlist] at hsibs hwhole ⊢
    have hregion := (siblingList_iff siblings.bytes _).mp ⟨hsibs, hwhole⟩
    have hmono := gapPopcount_mono p (succ_le_of_lt hg)
    rw [succ_eq_add_one, gapPopcount_succ, if_pos hmarked] at hmono
    rw [← bytes32Bytes_load (by omega)]
    rfl
  · exact precomputeEmptySubtreeHashes_getD hlvl

/-- and moves on to the next gap. -/
theorem nextSibling_snd (hp : wireProof gapMask.bytes siblings.bytes = p)
    (hwf : p.isWellFormedFor levels = true) (hg : g < levels.length) (lvl : ℕ) :
    (nextSibling gapMask siblings precomputeEmptySubtreeHashes lvl (cursorAt gapMask p g)).2 =
      cursorAt gapMask p (g + 1) := by
  have hword : (if (g + 1) % 256 = 0 then maskWordFor gapMask (g + 1)
      else maskWordFor gapMask g) = maskWordFor gapMask (g + 1) := by
    split_ifs with hblock
    · rfl
    · exact (maskWordFor_succ hblock).symm
  simp only [nextSibling, cursorAt, gapBitFromWord_eq hp hwf hg, gapPopcount_succ]
  exact congrArg (GapCursor.mk _ _) hword

/-- The contract's folding of pairs of roots. -/
def wireFolding (gapMask siblings : Calldata) (empties : List Bytes32) :
    Folding (Bytes32 × Bytes32) Bytes32 GapCursor where
  draw := nextSibling gapMask siblings empties
  past bit sib pair :=
    if bit then (hashPair sib pair.1, hashPair sib pair.2)
    else (hashPair pair.1 sib, hashPair pair.2 sib)
  join l r := (hashPair l.1 r.1, hashPair l.2 r.2)

/-- All gaps: the cursor reads what the kernel expands the proof to. -/
theorem drawAll_cursorAt (hp : wireProof gapMask.bytes siblings.bytes = p)
    (hwf : p.isWellFormedFor levels = true) {g : ℕ} (ls : List ℕ)
    (hg : g + ls.length ≤ levels.length) (hls : ∀ l ∈ ls, l < 256) :
    ((wireFolding gapMask siblings precomputeEmptySubtreeHashes).drawAll ls
        (cursorAt gapMask p g)).1.map bytes32Bytes = expandFrom p g (p.gapPopcount g) ls ∧
      ((wireFolding gapMask siblings precomputeEmptySubtreeHashes).drawAll ls
        (cursorAt gapMask p g)).2 = cursorAt gapMask p (g + ls.length) := by
  induction ls generalizing g with
  | nil => exact ⟨rfl, rfl⟩
  | cons l _ ih =>
    rw [length_cons] at hg ⊢
    obtain ⟨hrest, hend⟩ := ih (g := g + 1) (by omega) (fun k hk => hls k (mem_cons_of_mem l hk))
    have hsib := nextSibling_fst hp hwf (g := g) (by omega) (hls l mem_cons_self)
    have hnext := nextSibling_snd hp hwf (g := g) (by omega) l
    have hdraw : (wireFolding gapMask siblings precomputeEmptySubtreeHashes).draw l
        (cursorAt gapMask p g) =
        nextSibling gapMask siblings precomputeEmptySubtreeHashes l (cursorAt gapMask p g) :=
      rfl
    constructor
    · simp only [Folding.drawAll, hdraw, hnext, map_cons, hrest, hsib, expandFrom]
      rw [gapPopcount_succ]
      split_ifs <;> rfl
    · simp only [Folding.drawAll, hdraw, hnext, hend]
      rw [add_assoc, add_comm 1]

end Cursor

end Knomosis.Smt
