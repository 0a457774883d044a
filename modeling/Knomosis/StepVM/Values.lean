import Knomosis.FaultProof.Verifier
import Knomosis.StepVM.StepVMRoot

/-!
# Cell values on both sides

The contract and the kernel read and write the same bytes, with two differences.
The contract refuses to write a number that does not fit its field, where the
kernel drops the high bytes; and the contract reads a budget policy under which
actions are free, which the kernel refuses.
-/

namespace Knomosis.StepVM

open Lib Contracts Smt Kernel FaultProof List Nat
open CBEEncode StepWrites

section Arithmetic

variable {a b n : ℕ}

theorem lt_maxAmount : n < maxAmount ↔ n < 2 ^ 256 := by norm_num [maxAmount]

theorem add256_of_lt (h : a + b < maxAmount) : add256 a b = .ok (a + b) := by
  rw [add256, checkedAdd, if_pos (lt_maxAmount.mp h)]
  rfl

theorem sub256_of_le (h : b ≤ a) : sub256 a b = .ok (a - b) := by simp [sub256, not_lt.mpr h]

theorem mul256_of_lt (h : a * b < maxAmount) : mul256 a b = .ok (a * b) := by
  rw [mul256, checkedMul, if_pos (lt_maxAmount.mp h)]
  rfl

theorem creditFits_eq (ha : a < maxAmount) (hb : b < maxAmount) :
    creditFits a b = decide (a + b < maxAmount) := by
  rw [lt_maxAmount] at ha hb
  rw [creditFits, truncate, decide_eq_decide, lt_maxAmount]
  constructor
  · intro h
    by_contra hge
    have hwrap : (a + b) % 2 ^ 256 = a + b - 2 ^ 256 := by
      rw [mod_eq_sub_mod (by omega), mod_eq_of_lt (by omega)]
    omega
  · intro h
    rw [mod_eq_of_lt h]
    omega

theorem product_fits_iff : (a = 0 ∨ truncate 256 (a * b) / a = b) ↔ a * b < maxAmount := by
  rw [truncate, lt_maxAmount]
  constructor
  · rintro (rfl | h)
    · simp
    · by_contra hge
      have ha : 0 < a := by
        rcases Nat.eq_zero_or_pos a with rfl | ha
        · simp at hge
        · exact ha
      have hlt : a * b % 2 ^ 256 < a * b := by
        have := Nat.mod_lt (a * b) (Nat.two_pow_pos 256)
        omega
      have hdiv := Nat.div_lt_of_lt_mul hlt
      omega
  · intro h
    rcases Nat.eq_zero_or_pos a with rfl | ha
    · exact .inl rfl
    · exact .inr (by rw [Nat.mod_eq_of_lt h, Nat.mul_div_cancel_left b ha])

end Arithmetic

theorem leBytes_eq_ok {n width : ℕ} {bs : Bytes} (hwidth : width < 32) :
    CBEEncode.leBytes n width = .ok bs ↔ n < 256 ^ width ∧ bs = Lib.leBytes width n := by
  have hpow : 2 ^ (8 * width) = 256 ^ width := by
    rw [pow_mul]
    norm_num
  rw [CBEEncode.leBytes, guard_eq_ok, hpow]
  simp [hwidth, eq_comm]

theorem uintValue_eq_ok {n : ℕ} {v : Bytes} :
    uintValue n = .ok v ↔ n < 2 ^ 64 ∧ v = encodeNat n := by
  simp only [uintValue, bind_eq_ok, leBytes_eq_ok (by decide : 8 < 32), Except.ok.injEq]
  constructor
  · rintro ⟨_, ⟨hn, rfl⟩, rfl⟩
    exact ⟨by simpa using hn, by rw [encodeNat, cborHeadEncode, headEncode_eq]; rfl⟩
  · rintro ⟨hn, rfl⟩
    exact ⟨_, ⟨by simpa using hn, rfl⟩, by rw [encodeNat, cborHeadEncode, headEncode_eq]; rfl⟩

theorem amountValue_eq (n : ℕ) : amountValue n = .ok (encodeAmount n) := by
  rw [encodeAmount, headEncode_eq]
  rfl

theorem bytesValue_of_lt {bs : Bytes} (hlen : bs.length < 2 ^ 64) :
    bytesValue bs = .ok (encodeBytes bs) := by
  have hfield : CBEEncode.leBytes bs.length 8 = .ok (Lib.leBytes 8 bs.length) :=
    (leBytes_eq_ok (by decide)).mpr ⟨by simpa using hlen, rfl⟩
  rw [bytesValue, hfield, encodeBytes, cborHeadEncode, headEncode_eq]
  rfl

theorem epochBudgetValue_eq_ok {b : ActorBudget} {v : Bytes} :
    epochBudgetValue b.lastSeenEpoch b.budgetBalance = .ok v ↔
      b.lastSeenEpoch < 2 ^ 64 ∧ b.budgetBalance < 2 ^ 64 ∧ v = b.encode := by
  simp only [epochBudgetValue, bind_eq_ok, uintValue_eq_ok, Except.ok.injEq]
  constructor
  · rintro ⟨_, ⟨he, rfl⟩, _, ⟨hb, rfl⟩, rfl⟩
    exact ⟨he, hb, rfl⟩
  · rintro ⟨he, hb, rfl⟩
    exact ⟨_, ⟨he, rfl⟩, _, ⟨hb, rfl⟩, rfl⟩

theorem readTagged_zero {tag : UInt8} {width n : ℕ} {data : Bytes} :
    readTagged tag width data 0 = .ok n ↔
      n < 256 ^ width ∧ ∃ rest, data = headEncode tag width n ++ rest := by
  rw [readTagged, guard_eq_ok, guard_eq_ok, headEncode_eq]
  constructor
  · rintro ⟨hlen, htag, hn⟩
    cases data with
    | nil => simp at hlen
    | cons b data =>
      obtain rfl : b = tag := by simpa using htag
      have htake : (data.take width).length = width := by
        simp at hlen ⊢
        omega
      obtain rfl : leNat (data.take width) = n := by simpa using hn
      refine ⟨by simpa [htake] using leNat_lt (data.take width), data.drop width, ?_⟩
      have hround := leBytes_leNat (data.take width)
      rw [htake] at hround
      rw [hround, cons_append, take_append_drop]
  · rintro ⟨hn, rest, rfl⟩
    refine ⟨by simp, by simp, ?_⟩
    have htake : (Lib.leBytes width n ++ rest).take width = Lib.leBytes width n := by
      rw [take_append_of_le_length (by simp), take_of_length_le (by simp)]
    simp [htake, leNat_leBytes, mod_eq_of_lt hn]

theorem readTagged_skip {tag : UInt8} {width : ℕ} (pre data : Bytes) {offset : ℕ}
    (hoff : pre.length = offset) :
    readTagged tag width (pre ++ data) offset = readTagged tag width data 0 := by
  have hdrop : (pre ++ data).drop (offset + 1) = data.drop 1 := by
    rw [← hoff, drop_append]
    simp
  have hlt : (pre ++ data).length < offset + (width + 1) ↔ data.length < 0 + (width + 1) := by
    rw [length_append]
    omega
  rw [readTagged, readTagged, hdrop, List.getElem?_append_right (by omega)]
  simp only [hlt, hoff, Nat.sub_self, Nat.zero_add]

theorem readUint_zero {n : ℕ} {data : Bytes} :
    readUint data 0 = .ok n ↔ n < 2 ^ 64 ∧ ∃ rest, data = encodeNat n ++ rest := by
  rw [readUint, readTagged_zero]
  rfl

theorem readUint_skip {a : ℕ} {data : Bytes} :
    readUint (encodeNat a ++ data) CBE_UINT_LEN = readUint data 0 :=
  readTagged_skip _ _ (encodeNat_length a)

theorem decodeNonce_eq_ok {v : Bytes} {n : ℕ} :
    decodeNonce v = .ok n ↔ n < 2 ^ 64 ∧ v = encodeNat n := by
  rw [decodeNonce, guard_eq_ok, readUint_zero, not_not]
  constructor
  · rintro ⟨hlen, hn, rest, rfl⟩
    obtain rfl : rest = [] := by simpa [CBE_UINT_LEN] using hlen
    exact ⟨hn, append_nil _⟩
  · rintro ⟨hn, rfl⟩
    exact ⟨encodeNat_length n, hn, [], (append_nil _).symm⟩

theorem decodeAmount_eq_ok {v : Bytes} {n : ℕ} :
    StepWrites.decodeAmount v = .ok n ↔ n < 2 ^ 256 ∧ v = encodeAmount n := by
  rw [StepWrites.decodeAmount, guard_eq_ok, readAmount, readTagged_zero, not_not]
  constructor
  · rintro ⟨hlen, hn, rest, rfl⟩
    obtain rfl : rest = [] := by simpa [CBE_AMOUNT_LEN] using hlen
    exact ⟨by simpa using hn, append_nil _⟩
  · rintro ⟨hn, rfl⟩
    exact ⟨encodeAmount_length n, by simpa using hn, [], (append_nil _).symm⟩

theorem decodeActorBudget_eq_ok {v : Bytes} {b : ActorBudget} :
    decodeActorBudget v = .ok b ↔
      b.lastSeenEpoch < 2 ^ 64 ∧ b.budgetBalance < 2 ^ 64 ∧ v = b.encode := by
  rw [decodeActorBudget, guard_eq_ok, not_not]
  simp only [bind_eq_ok, readUint_zero, Except.ok.injEq]
  constructor
  · rintro ⟨hlen, epoch, ⟨he, rest, rfl⟩, balance, hread, rfl⟩
    rw [readUint_skip, readUint_zero] at hread
    obtain ⟨hb, rest', rfl⟩ := hread
    obtain rfl : rest' = [] := by
      simp only [length_append, encodeNat_length, CBE_UINT_LEN] at hlen
      exact eq_nil_of_length_eq_zero (by omega)
    exact ⟨he, hb, by simp [ActorBudget.encode]⟩
  · rintro ⟨he, hb, rfl⟩
    refine ⟨by simp [ActorBudget.encode, CBE_UINT_LEN], _, ⟨he, _, rfl⟩, _, ?_, rfl⟩
    rw [ActorBudget.encode, readUint_skip, readUint_zero]
    exact ⟨hb, [], (append_nil _).symm⟩

/-- The contract reads every policy, also one under which actions are free. -/
theorem decodeBudgetPolicy_eq_ok {v : Bytes} {p : StepWrites.BudgetPolicy} :
    decodeBudgetPolicy v = .ok p ↔
      p.freeTier < 2 ^ 64 ∧ p.actionCost < 2 ^ 64 ∧ p.currentEpoch < 2 ^ 64 ∧
      v = (BudgetPolicy.bounded p.freeTier p.actionCost p.currentEpoch).encode := by
  have hskip : ∀ {a b : ℕ} {data : Bytes},
      readUint (encodeNat a ++ (encodeNat b ++ data)) (2 * CBE_UINT_LEN) = readUint data 0 := by
    intro a b data
    rw [← append_assoc]
    exact readTagged_skip _ _ (by simp [CBE_UINT_LEN])
  have hskip' : ∀ {a b c : ℕ} {data : Bytes},
      readUint (encodeNat a ++ (encodeNat b ++ (encodeNat c ++ data))) (3 * CBE_UINT_LEN) =
        readUint data 0 := by
    intro a b c data
    rw [← append_assoc, ← append_assoc]
    exact readTagged_skip _ _ (by simp [CBE_UINT_LEN])
  rw [decodeBudgetPolicy, guard_eq_ok, not_not]
  simp only [bind_eq_ok, guard_eq_ok, not_not, Except.ok.injEq]
  constructor
  · rintro ⟨hlen, _, h0, rfl, f, h1, c, h2, e, h3, rfl⟩
    obtain ⟨-, rest, rfl⟩ := readUint_zero.mp h0
    rw [readUint_skip] at h1
    obtain ⟨hf, rest, rfl⟩ := readUint_zero.mp h1
    rw [hskip] at h2
    obtain ⟨hc, rest, rfl⟩ := readUint_zero.mp h2
    rw [hskip'] at h3
    obtain ⟨he, rest, rfl⟩ := readUint_zero.mp h3
    obtain rfl : rest = [] := by
      simp only [length_append, encodeNat_length, CBE_UINT_LEN] at hlen
      exact eq_nil_of_length_eq_zero (by omega)
    exact ⟨hf, hc, he, by simp [BudgetPolicy.encode]⟩
  · rintro ⟨hf, hc, he, rfl⟩
    simp only [BudgetPolicy.encode, append_assoc]
    refine ⟨by simp [CBE_UINT_LEN], 0, ?_, rfl, p.freeTier, ?_, p.actionCost, ?_,
      p.currentEpoch, ?_, rfl⟩
    · exact readUint_zero.mpr ⟨by decide, _, rfl⟩
    · rw [readUint_skip]
      exact readUint_zero.mpr ⟨hf, _, rfl⟩
    · rw [hskip]
      exact readUint_zero.mpr ⟨hc, _, rfl⟩
    · rw [hskip']
      exact readUint_zero.mpr ⟨he, [], (append_nil _).symm⟩

/-- The kernel reads a policy exactly if the contract does and actions have a price. -/
theorem exactly_decode_policy {v : Bytes} {f c e : ℕ} :
    exactly (BudgetPolicy.decode v) = some (.bounded f c e) ↔
      decodeBudgetPolicy v = .ok ⟨f, c, e⟩ ∧ c ≠ 0 := by
  rw [BudgetPolicy.exactly_decode, decodeBudgetPolicy_eq_ok]
  constructor
  · rintro ⟨f', c', e', hf, hc, he, hcost, hp, rfl⟩
    obtain ⟨rfl, rfl, rfl⟩ : f = f' ∧ c = c' ∧ e = e' := by simpa using hp
    exact ⟨⟨hf, hc, he, rfl⟩, hcost⟩
  · rintro ⟨⟨hf, hc, he, rfl⟩, hcost⟩
    exact ⟨f, c, e, hf, hc, he, hcost, rfl, rfl⟩

end Knomosis.StepVM
