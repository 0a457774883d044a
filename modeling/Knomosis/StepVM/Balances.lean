import Knomosis.StepVM.Fields

/-!
# Balances on both sides

Given the same balances before the step, the contract's plan and the kernel's plan
give every balance cell the same value, whichever of the actors coincide.  Where
the kernel's law does not apply, the contract leaves the balances alone.
-/

namespace Knomosis.StepVM

open Lib Contracts Smt Kernel FaultProof List Kernel.AmmMath
open StepWrites

/-- Entries for the same balance agree. -/
def Consistent (plan : BalancePlan) : Prop := ∀ p ∈ plan, ∀ q ∈ plan, p.1 = q.1 → p.2 = q.2

theorem plannedBalanceAt_of_mem {plan : BalancePlan} {k : ResourceId × ActorId} {v : ℕ}
    (hcons : Consistent plan) (hmem : (k, v) ∈ plan) : plannedBalanceAt plan k.1 k.2 = some v := by
  have hentries : ∀ q ∈ plan.filter (fun p => p.1 == k), q.2 = v := by
    intro q hq
    obtain ⟨hq, hkey⟩ := mem_filter.mp hq
    exact hcons q hq (k, v) hmem (by simpa using hkey)
  have hmem' : (k, v) ∈ plan.filter (fun p => p.1 == k) := mem_filter.mpr ⟨hmem, by simp⟩
  rw [plannedBalanceAt]
  cases hfilter : plan.filter (fun p => p.1 == (k.1, k.2)) with
  | nil =>
    rw [hfilter] at hmem'
    cases hmem'
  | cons p ps =>
    have hall : ∀ q ∈ p :: ps, q.2 = v := by
      rw [← hfilter]
      exact hentries
    have hp := hall p mem_cons_self
    have hps : ps.all (fun q => q.2 == p.2) = true := by
      rw [all_eq_true]
      intro q hq
      rw [hall q (mem_cons_of_mem p hq), hp, beq_self_eq_true]
    exact (if_pos hps).trans (congrArg some hp)

theorem consistent_of_read (read : BalanceReader) {plan : BalancePlan}
    (h : ∀ p ∈ plan, read p.1.1 p.1.2 = some p.2) : Consistent plan := by
  intro p hp q hq hkey
  have h1 := h p hp
  rw [hkey, h q hq] at h1
  exact (Option.some.inj h1).symm

theorem consistent_of_pairwise {plan : BalancePlan}
    (h : plan.Pairwise fun p q => p.1 = q.1 → p.2 = q.2) : Consistent plan := by
  have : Std.Symm fun p q : (ResourceId × ActorId) × ℕ => p.1 = q.1 → p.2 = q.2 :=
    ⟨fun _ _ h hkey => (h hkey.symm).symm⟩
  exact fun _ hp _ hq => h.forall_of_forall (fun _ _ _ => rfl) hp hq

theorem consistent_pair {r : ResourceId} {x y : ActorId} {v w : ℕ} (h : x = y → v = w) :
    Consistent [((r, x), v), ((r, y), w)] :=
  consistent_of_pairwise (by simpa using h)

section Pairs

variable {read : BalanceReader} {r : ResourceId} {x y : ActorId} {p q amount : ℕ}

/-- A balance that the kernel reads, within its bounds. -/
structure Held (read : BalanceReader) (r : ResourceId) (x : ActorId) (p : ℕ) : Prop where
  read : read r x = some p
  lt : p < maxAmount

/-- The balances after a payment that is made if `ok` holds and the payee can take it. -/
def paid (same : Prop) [Decidable same] (p q amount : ℕ) (ok : Bool) : ℕ × ℕ :=
  if ok ∧ (if same then p - amount else q) + amount < maxAmount then
    if same then (p, p) else (p - amount, q + amount)
  else (p, q)

/-- Both sides make the same payment. -/
def PairAgrees (plan : Option BalancePlan) (news : Except StepError (ℕ × ℕ)) (r : ResourceId)
    (x y : ActorId) : Prop :=
  ∃ v w, plan = some [((r, x), v), ((r, y), w)] ∧ news = .ok (v, w) ∧ (x = y → v = w)

theorem pairAgrees_of_paid {plan : Option BalancePlan} {news : Except StepError (ℕ × ℕ)}
    (amount : ℕ) (ok : Bool) (hx : Held read r x p) (hy : Held read r y q)
    (hplan : plan = some [((r, x), (paid (x = y) p q amount ok).1),
      ((r, y), (paid (x = y) p q amount ok).2)])
    (hnews : news = .ok (paid (x = y) p q amount ok)) : PairAgrees plan news r x y := by
  refine ⟨_, _, hplan, hnews, ?_⟩
  rintro rfl
  have hpq := Option.some.inj (hx.read.symm.trans hy.read)
  unfold paid
  split_ifs <;> simp_all

theorem transfer_agrees (amount : ℕ) (hx : Held read r x p) (hy : Held read r y q)
    (hamount : amount < maxAmount) :
    PairAgrees (FaultProof.deriveTransferBalances read r amount x y)
      (StepWrites.deriveTransferBalances p q x.toNat y.toNat amount) r x y := by
  refine pairAgrees_of_paid amount (decide (0 < amount ∧ amount ≤ p)) hx hy ?_ ?_
  · simp only [FaultProof.deriveTransferBalances, hx.read, hy.read, Option.bind_eq_bind,
      Option.bind_some, paid, decide_eq_true_eq, and_assoc]
    split_ifs <;> rfl
  simp only [StepWrites.deriveTransferBalances, paid, UInt64.toNat_inj, creditFits_eq hy.lt hamount]
  have hx := hx.lt
  by_cases hpay : 0 < amount ∧ amount ≤ p
  · by_cases hxy : x = y
    · simp [hpay, hxy, hx]
    · by_cases hfits : q + amount < maxAmount <;>
        simp [hpay, hxy, hfits, sub256_of_le hpay.2, add256_of_lt]
  · simp [hpay]

theorem payment_agrees (ok : ℕ → Bool) {sufficient : Bool} (hx : Held read r x p)
    (hy : Held read r y q) (hamount : amount < maxAmount) (hok : sufficient = ok p)
    (hle : ok p = true → amount ≤ p) :
    PairAgrees (derivePaymentBalances read r amount x y ok)
      (StepWrites.deriveTopUpBalances p q x.toNat y.toNat amount sufficient) r x y := by
  subst hok
  refine pairAgrees_of_paid amount (ok p) hx hy ?_ ?_
  · simp only [derivePaymentBalances, FaultProof.deriveChainPair, hx.read, hy.read,
      Option.bind_eq_bind, Option.bind_some, paid]
    split_ifs <;> simp_all
  simp only [StepWrites.deriveTopUpBalances, StepWrites.deriveChainPair, paid, UInt64.toNat_inj]
  cases hpay : ok p with
  | false => simp
  | true =>
    have hle := hle hpay
    by_cases hxy : x = y
    · have hback := Nat.sub_add_cancel hle
      have hfits := hback.symm ▸ hx.lt
      simp [hxy, sub256_of_le hle, creditFits_eq (Nat.sub_le p amount |>.trans_lt hx.lt) hamount,
        hback, hx.lt, add256_of_lt hfits]
    · by_cases hfits : q + amount < maxAmount <;>
        simp [hxy, hfits, sub256_of_le hle, creditFits_eq hy.lt hamount, add256_of_lt]

theorem deriveReclaimBalances_eq (p q x y amount : ℕ) :
    StepWrites.deriveReclaimBalances p q x y amount =
      StepWrites.deriveTopUpBalances p q x y amount (decide (p = amount ∧ x ≠ y ∧ 0 < amount)) := by
  rw [StepWrites.deriveReclaimBalances, StepWrites.deriveTopUpBalances]
  by_cases hcond : p = amount ∧ x ≠ y ∧ 0 < amount
  · rw [if_pos hcond, decide_eq_true hcond]
    simp only [hcond.2.1, if_false, ok_bind, Bool.not_true, Bool.false_eq_true]
    cases creditFits q amount <;> rfl
  · rw [if_neg hcond, decide_eq_false hcond]
    rfl

end Pairs

section Singles

variable {read : BalanceReader} {r : ResourceId} {x : ActorId} {p amount : ℕ}

theorem credit_agrees (hx : Held read r x p) (hamount : amount < maxAmount) :
    ∃ v, FaultProof.deriveCreditBalance read r amount x = some [((r, x), v)] ∧
      StepWrites.deriveCreditBalance p amount = .ok v := by
  simp only [FaultProof.deriveCreditBalance, deriveSingleBalance, hx.read, Option.bind_eq_bind,
    Option.bind_some, StepWrites.deriveCreditBalance, creditFits_eq hx.lt hamount,
    decide_eq_true_eq]
  by_cases h : 0 < amount ∧ p + amount < maxAmount
  · exact ⟨p + amount, by rw [if_pos h], by rw [if_pos h, add256_of_lt h.2]⟩
  · exact ⟨p, by rw [if_neg h], by rw [if_neg h]⟩

theorem debit_agrees (amount : ℕ) (hx : Held read r x p) :
    ∃ v, FaultProof.deriveBurnBalance read r amount x = some [((r, x), v)] ∧
      StepWrites.deriveDebitBalance p amount = .ok v := by
  simp only [FaultProof.deriveBurnBalance, deriveSingleBalance, hx.read, Option.bind_eq_bind,
    Option.bind_some, StepWrites.deriveDebitBalance, decide_eq_true_eq]
  by_cases h : 0 < amount ∧ amount ≤ p
  · exact ⟨p - amount, by rw [if_pos h], by rw [if_pos h, sub256_of_le h.2]⟩
  · exact ⟨p, by rw [if_neg h], by rw [if_neg h]⟩

theorem deposit_agrees (hx : Held read r x p) (hamount : amount < maxAmount) :
    ∃ v, FaultProof.deriveDepositBalance read r amount x = some [((r, x), v)] ∧
      StepWrites.deriveDepositBalance p amount = .ok v := by
  simp only [FaultProof.deriveDepositBalance, deriveSingleBalance, hx.read, Option.bind_eq_bind,
    Option.bind_some, StepWrites.deriveDepositBalance, creditFits_eq hx.lt hamount,
    decide_eq_true_eq]
  by_cases h : p + amount < maxAmount
  · exact ⟨p + amount, by rw [if_pos h], by rw [if_pos h, add256_of_lt h]⟩
  · exact ⟨p, by rw [if_neg h], by rw [if_neg h]⟩

end Singles

section Triples

/-- The three credits of a deposit with a fee are made together or not at all. -/
theorem deriveDepositWithFeeBalances_eq {x y z p q s user pool seed r2 r3 : ℕ}
    (hp : p < maxAmount) (hq : q < maxAmount) (hs : s < maxAmount)
    (huser : user < maxAmount) (hpool : pool < maxAmount) (hseed : seed < maxAmount)
    (hr2 : r2 = if x = y then p + user else q)
    (hr3 : r3 = if y = z then r2 + (pool - seed) else if x = z then p + user else s) :
    StepWrites.deriveDepositWithFeeBalances p q s x y z user pool seed =
      .ok (if p + user < maxAmount ∧ r2 + (pool - seed) < maxAmount ∧ seed ≤ pool ∧
          r3 + seed < maxAmount then
        (if z = x then r3 + seed else if y = x then r2 + (pool - seed) else p + user,
          if z = y then r3 + seed else r2 + (pool - seed), r3 + seed) else (p, q, s)) := by
  have hnet : pool - seed < maxAmount := by omega
  simp only [StepWrites.deriveDepositWithFeeBalances, creditFits_eq hp huser]
  by_cases h1 : p + user < maxAmount ∧ seed ≤ pool
  · have hr2lt : r2 < maxAmount := by
      rw [hr2]
      split_ifs
      · exact h1.1
      · exact hq
    simp only [h1, Nat.not_lt.mpr h1.2, sub256_of_le h1.2, add256_of_lt h1.1, ok_bind, ← hr2,
      creditFits_eq hr2lt hnet]
    by_cases h2 : r2 + (pool - seed) < maxAmount
    · have hr3lt : r3 < maxAmount := by
        rw [hr3]
        split_ifs
        · exact h2
        · exact h1.1
        · exact hs
      simp only [h2, add256_of_lt h2, ok_bind, ← hr3, creditFits_eq hr3lt hseed]
      by_cases h3 : r3 + seed < maxAmount
      · simp [h3, add256_of_lt h3]
      · simp [h3]
    · simp [h2]
  · have hnot : ¬ (p + user < maxAmount ∧ r2 + (pool - seed) < maxAmount ∧ seed ≤ pool ∧
        r3 + seed < maxAmount) := fun h => h1 ⟨h.1, h.2.2.1⟩
    rw [if_neg hnot, if_pos]
    by_contra hcon
    simp only [Bool.not_eq_true', decide_eq_false_iff_not, not_or, not_lt, not_le] at hcon
    exact h1 hcon

variable {read : BalanceReader} {r : ResourceId} {x y z : ActorId} {p q s user pool seed : ℕ}

theorem depositWithFee_agrees (hx : Held read r x p) (hy : Held read r y q) (hz : Held read r z s)
    (huser : user < maxAmount) (hpool : pool < maxAmount) (hseed : seed < maxAmount) :
    ∃ v w t,
      FaultProof.deriveDepositWithFeeBalances read r x y user pool seed z =
        some [((r, x), v), ((r, y), w), ((r, z), t)] ∧
      StepWrites.deriveDepositWithFeeBalances p q s x.toNat y.toNat z.toNat user pool seed =
        .ok (v, w, t) ∧ Consistent [((r, x), v), ((r, y), w), ((r, z), t)] := by
  have hnoop : Consistent [((r, x), p), ((r, y), q), ((r, z), s)] :=
    consistent_of_read read (by simp [hx.read, hy.read, hz.read])
  rw [deriveDepositWithFeeBalances_eq hx.lt hy.lt hz.lt huser hpool hseed rfl rfl]
  simp only [FaultProof.deriveDepositWithFeeBalances, deriveChainTriple, hx.read, hy.read,
    hz.read, Option.bind_eq_bind, Option.bind_some, UInt64.toNat_inj]
  generalize (if x = y then p + user else q) = r2
  generalize (if y = z then r2 + (pool - seed) else if x = z then p + user else s) = r3
  by_cases hfits : p + user < maxAmount ∧ r2 + (pool - seed) < maxAmount ∧ seed ≤ pool ∧
      r3 + seed < maxAmount
  · rw [if_pos hfits, if_pos hfits]
    refine ⟨_, _, _, rfl, rfl, consistent_of_pairwise ?_⟩
    simp +contextual [eq_comm]
  · rw [if_neg hfits, if_neg hfits]
    exact ⟨p, q, s, rfl, rfl, hnoop⟩

end Triples

section Swaps

variable {read : BalanceReader} {amountIn resIn resOut : ℕ}

/-- What a quote keeps of the amount behind the fee. -/
abbrev keptBps : ℕ := bpsDenominator - swapFeeBps

/-- The wrapped products and sum of the quote are looked through. -/
theorem reserveSwapDomainOk_eq (hout : 0 < resOut) :
    reserveSwapDomainOk amountIn resIn resOut =
      decide (amountIn * keptBps * resOut < maxAmount ∧
        resIn * bpsDenominator + amountIn * keptBps < maxAmount) := by
  rw [reserveSwapDomainOk, Bool.eq_iff_iff, decide_eq_true_eq,
    show AmmMath.BPS_DENOMINATOR - AmmMath.SWAP_FEE_BPS = keptBps from rfl,
    show AmmMath.BPS_DENOMINATOR = bpsDenominator from rfl]
  generalize keptBps = w, bpsDenominator = bps
  simp only [Bool.and_eq_true, Bool.or_eq_true, beq_iff_eq, decide_eq_true_eq, product_fits_iff]
  have hself : ∀ {n : ℕ}, n < maxAmount → truncate 256 n = n := fun h =>
    truncate_of_lt (lt_maxAmount.mp h)
  constructor
  · rintro ⟨⟨⟨hin, hnum⟩, hri⟩, hden⟩
    rw [hself hin] at hnum hden
    rw [hself hri] at hden
    have hfits : creditFits (resIn * bps) (amountIn * w) = true := by
      rw [creditFits, decide_eq_true_eq]
      exact hden
    rw [creditFits_eq hri hin, decide_eq_true_eq] at hfits
    exact ⟨hnum, hfits⟩
  · rintro ⟨hnum, hden⟩
    have hin : amountIn * w < maxAmount := lt_of_le_of_lt (Nat.le_mul_of_pos_right _ hout) hnum
    have hri : resIn * bps < maxAmount := by omega
    rw [hself hin, hself hri, hself hden]
    exact ⟨⟨⟨hin, hnum⟩, hri⟩, by omega⟩

theorem getAmountOut_eq (hamount : 0 < amountIn) (hin : 0 < resIn) (hout : 0 < resOut)
    (hnum : amountIn * keptBps * resOut < maxAmount)
    (hden : resIn * bpsDenominator + amountIn * keptBps < maxAmount) :
    AmmMath.getAmountOut amountIn resIn resOut AmmMath.SWAP_FEE_BPS =
      .ok (getAmountOut amountIn resIn resOut swapFeeBps) := by
  have hfee : ¬ AmmMath.BPS_DENOMINATOR ≤ AmmMath.SWAP_FEE_BPS := by decide
  have hwith : amountIn * keptBps < maxAmount :=
    lt_of_le_of_lt (Nat.le_mul_of_pos_right _ hout) hnum
  have hscaled : resIn * bpsDenominator < maxAmount := by omega
  rw [AmmMath.getAmountOut, if_neg hamount.ne', if_neg (by omega), if_neg hfee,
    show AmmMath.BPS_DENOMINATOR - AmmMath.SWAP_FEE_BPS = keptBps from rfl,
    show AmmMath.BPS_DENOMINATOR = bpsDenominator from rfl,
    mul256_of_lt hwith, ok_bind, mul256_of_lt hnum, ok_bind, mul256_of_lt hscaled, ok_bind,
    add256_of_lt hden, ok_bind]
  rfl

theorem getAmountOut_le (amountIn resIn resOut fee : ℕ) :
    getAmountOut amountIn resIn resOut fee ≤ resOut := by
  apply Nat.div_le_of_le_mul
  rw [Nat.add_mul]
  omega

/-- A swap goes through on both sides or on neither. -/
theorem reserveSwap_agrees
    {fromResource toResource : ResourceId} {user reserve : ActorId} {b0 b1 b2 b3 : ℕ}
    (minAmountOut : ℕ) (h0 : Held read fromResource user b0)
    (h1 : Held read fromResource reserve b1) (h2 : Held read toResource reserve b2)
    (h3 : Held read toResource user b3) (hamount : amountIn < maxAmount) :
    ∃ v0 v1 v2 v3,
      FaultProof.deriveReserveSwapBalances read fromResource toResource user amountIn
          minAmountOut reserve = some [((fromResource, user), v0), ((fromResource, reserve), v1),
          ((toResource, reserve), v2), ((toResource, user), v3)] ∧
      StepWrites.deriveReserveSwapBalances b0 b1 b2 b3 fromResource.toNat toResource.toNat
          user.toNat reserve.toNat amountIn minAmountOut = .ok (v0, v1, v2, v3) ∧
      Consistent [((fromResource, user), v0), ((fromResource, reserve), v1),
        ((toResource, reserve), v2), ((toResource, user), v3)] := by
  have hnoop : Consistent [((fromResource, user), b0), ((fromResource, reserve), b1),
      ((toResource, reserve), b2), ((toResource, user), b3)] :=
    consistent_of_read read (by simp [h0.read, h1.read, h2.read, h3.read])
  have hliq : AmmMath.MINIMUM_LIQUIDITY = minimumLiquidity := rfl
  have hpos : 0 < minimumLiquidity := by decide
  simp only [FaultProof.deriveReserveSwapBalances, StepWrites.deriveReserveSwapBalances, h0.read,
    h1.read, h2.read, h3.read, Option.bind_eq_bind, Option.bind_some, hliq, ne_eq, UInt64.toNat_inj,
    creditFits_eq h1.lt hamount, decide_eq_true_eq]
  set out := getAmountOut amountIn b1 b2 swapFeeBps with hout
  have houtle : out ≤ b2 := getAmountOut_le _ _ _ _
  by_cases hopen : 0 < amountIn ∧ ¬ fromResource = toResource ∧ ¬ user = reserve ∧
      amountIn ≤ b0 ∧ minimumLiquidity ≤ b1 ∧
      minimumLiquidity ≤ b2 ∧ b1 + amountIn < maxAmount ∧
      reserveSwapDomainOk amountIn b1 b2 = true
  · obtain ⟨hin, hres, huser, hle, hl1, hl2, hfits, hdom⟩ := hopen
    have hdom' := hdom
    rw [reserveSwapDomainOk_eq (by omega), decide_eq_true_eq] at hdom'
    have hquote := getAmountOut_eq hin (by omega) (by omega) hdom'.1 hdom'.2
    rw [← hout] at hquote
    simp only [hin, hres, huser, hle, hl1, hl2, hfits, hdom, hdom'.1, hdom'.2, not_true_eq_false,
      not_false_eq_true, and_self, and_true, true_and, if_false, hquote, ok_bind,
      creditFits_eq h3.lt (houtle.trans_lt h2.lt), sub256_of_le houtle]
    have hmin : out < (if 1 < minAmountOut then minAmountOut else 1) ↔
        ¬ max 1 minAmountOut ≤ out := by
      split_ifs <;> omega
    by_cases hpay : minimumLiquidity ≤ b2 - out ∧ max 1 minAmountOut ≤ out ∧
        b3 + out < maxAmount
    · refine ⟨b0 - amountIn, b1 + amountIn, b2 - out, b3 + out, ?_, ?_, ?_⟩
      · simp [hpay]
      · simp [hmin, hpay, Nat.not_lt.mpr hpay.1, sub256_of_le hle, add256_of_lt hfits,
          add256_of_lt hpay.2.2]
      · exact consistent_of_pairwise (by simp [hres, huser, Ne.symm huser])
    · refine ⟨b0, b1, b2, b3, if_neg hpay, ?_, hnoop⟩
      by_cases hq : max 1 minAmountOut ≤ out
      · by_cases hcredit : b3 + out < maxAmount
        · have hleft : b2 - out < minimumLiquidity := by
            by_contra hge
            exact hpay ⟨Nat.not_lt.mp hge, hq, hcredit⟩
          simp [hmin, hq, hcredit, hleft]
        · simp [hmin, hq, hcredit]
      · rw [if_pos (hmin.mpr hq)]
  · refine ⟨b0, b1, b2, b3, if_neg ?_, if_pos hopen, hnoop⟩
    rintro ⟨hin, hres, huser, hle, hl1, hl2, -, -, hfits, -, hnum, hden⟩
    refine hopen ⟨hin, hres, huser, hle, hl1, hl2, hfits, ?_⟩
    rw [reserveSwapDomainOk_eq (by omega)]
    exact decide_eq_true ⟨hnum, hden⟩

end Swaps

section Actions

/-- The balance that a cell holds, if it holds one. -/
def balanceKey : CellTag → Option (ResourceId × ActorId)
  | .balance r x => some (r, x)
  | _ => none

/-- The balances that an action writes, in the order of the cells. -/
def balanceKeys (a : Action) (signer : ActorId) : List (ResourceId × ActorId) :=
  (writeCells a signer).filterMap balanceKey

/-- One of the four balances of the contract's plan. -/
def slot (news : ℕ × ℕ × ℕ × ℕ) : ℕ → ℕ
  | 0 => news.1
  | 1 => news.2.1
  | 2 => news.2.2.1
  | _ => news.2.2.2

/-- The kernel's plan and the contract's plan give the written balances the same values. -/
structure PlansAgree (keys : List (ResourceId × ActorId)) (plan : BalancePlan)
    (news : ℕ × ℕ × ℕ × ℕ) : Prop where
  consistent : Consistent plan
  mem : ∀ i k, keys[i]? = some k → (k, slot news i) ∈ plan

variable {keys : List (ResourceId × ActorId)} {plan : BalancePlan} {news : ℕ × ℕ × ℕ × ℕ}
variable {r : ResourceId} {x : ActorId} {ok : ℕ → Bool}

theorem plansAgree_of_slots (hcons : Consistent plan)
    (hplan : plan = keys.zipIdx.map (fun k => (k.1, slot news k.2))) :
    PlansAgree keys plan news := by
  refine ⟨hcons, ?_⟩
  intro i k hk
  rw [hplan]
  exact mem_map.mpr ⟨(k, i), mem_zipIdx_iff_getElem?.mpr hk, rfl⟩

theorem PlansAgree.of_perm {plan' : BalancePlan} (h : PlansAgree keys plan news)
    (hperm : plan.Perm plan') : PlansAgree keys plan' news := by
  constructor
  · intro e he f hf
    exact h.consistent e (hperm.mem_iff.mpr he) f (hperm.mem_iff.mpr hf)
  · intro i k hk
    exact hperm.mem_iff.mp (h.mem i k hk)

/-- A refund whose product wraps is no refund on either side. -/
theorem refund_agrees {read : BalanceReader} {gas : ResourceId} {pool signer : ActorId}
    {p q : ℕ} (units rate : ℕ) (hpool : Held read gas pool p) (hclaim : Held read gas signer q) :
    PairAgrees (FaultProof.deriveRefundBalances read gas (units * rate) pool signer)
      (StepWrites.deriveTopUpBalances p q pool.toNat signer.toNat (truncate 256 (units * rate))
        ((units == 0 || truncate 256 (units * rate) / units == rate) &&
          decide (truncate 256 (units * rate) ≤ p))) gas pool signer := by
  have hfits : (units == 0 || truncate 256 (units * rate) / units == rate) =
      decide (units * rate < maxAmount) := by
    rw [Bool.eq_iff_iff, decide_eq_true_eq, ← product_fits_iff]
    simp
  rw [hfits]
  by_cases hlt : units * rate < maxAmount
  · rw [truncate_of_lt (lt_maxAmount.mp hlt), decide_eq_true hlt, Bool.true_and]
    exact payment_agrees (fun bal => decide (units * rate ≤ bal)) hpool hclaim hlt rfl (by simp)
  have hmore : ¬ units * rate ≤ p := fun h => hlt (h.trans_lt hpool.lt)
  refine pairAgrees_of_paid (units * rate) false hpool hclaim ?_ ?_
  · simp [FaultProof.deriveRefundBalances, derivePaymentBalances, paid, hpool.read, hclaim.read,
      hmore]
  · simp [StepWrites.deriveTopUpBalances, paid, hlt]

variable {a : Action} {read : BalanceReader} {signer : ActorId} {pre : ℕ → ℕ}

attribute [local simp] StepPlan.planBalances4 StepPlan.planBalances Action.tag actionFieldsForL1

/-- Both sides make a plan of the balances that the action writes, and the plans agree. -/
def Planned (read : BalanceReader) (a : Action) (signer : ActorId) (pre : ℕ → ℕ) : Prop :=
  ∃ plan news, plannedBalances read a signer = some plan ∧
    StepPlan.planBalances4 a.tag (actionFieldsForL1 a) signer.toNat (pre 0) (pre 1) (pre 2)
      (pre 3) = .ok news ∧ PlansAgree (balanceKeys a signer) plan news

theorem Planned.single {k : ResourceId × ActorId} {v : ℕ} (hkeys : balanceKeys a signer = [k])
    (hkernel : plannedBalances read a signer = some [(k, v)])
    (hcontract : StepPlan.planBalances4 a.tag (actionFieldsForL1 a) signer.toNat (pre 0) (pre 1)
      (pre 2) (pre 3) = .ok (v, pre 1, pre 2, pre 3)) : Planned read a signer pre := by
  refine ⟨_, _, hkernel, hcontract, ?_⟩
  rw [hkeys]
  exact plansAgree_of_slots (consistent_of_pairwise (by simp)) rfl

theorem Planned.pair {y : ActorId} {v w : ℕ} (hkeys : balanceKeys a signer = [(r, x), (r, y)])
    (hkernel : plannedBalances read a signer = some [((r, x), v), ((r, y), w)])
    (hcontract : StepPlan.planBalances4 a.tag (actionFieldsForL1 a) signer.toNat (pre 0) (pre 1)
      (pre 2) (pre 3) = .ok (v, w, pre 2, pre 3)) (heq : x = y → v = w) :
    Planned read a signer pre := by
  refine ⟨_, _, hkernel, hcontract, ?_⟩
  rw [hkeys]
  exact plansAgree_of_slots (consistent_pair heq) rfl

theorem planned_depositWithFee {recipient pool : ActorId}
    {userAmount poolAmount grant depositId seed : ℕ}
    (hb : (Action.depositWithFee r recipient pool userAmount poolAmount grant depositId
      seed).FieldsBounded)
    (h0 : Held read r recipient (pre 0)) (h1 : Held read r pool (pre 1))
    (h2 : Held read r ammReserveActor (pre 2)) :
    Planned read (.depositWithFee r recipient pool userAmount poolAmount grant depositId seed)
      signer pre := by
  obtain ⟨huser, hpool, -, -, hseed⟩ := hb
  obtain ⟨v, w, t, hkernel, hcontract, hcons⟩ := depositWithFee_agrees h0 h1 h2
    (lt_maxAmount.mpr huser) (lt_maxAmount.mpr hpool) (lt_maxAmount.mpr hseed)
  refine ⟨_, (v, w, t, pre 3), hkernel, ?_, plansAgree_of_slots hcons rfl⟩
  have hreserve : AMM_RESERVE_ACTOR = ammReserveActor.toNat := rfl
  simp [fieldAt_uint256 huser, fieldAt_uint256 hpool, fieldAt_uint256 hseed, hreserve, hcontract]

theorem planned_topUpFor {recipient pool : ActorId} {gasAmount increment : ℕ}
    (hb : (Action.topUpActionBudgetFor recipient r gasAmount increment pool).FieldsBounded)
    (h0 : Held read r signer (pre 0)) (h1 : Held read r pool (pre 1)) :
    Planned read (.topUpActionBudgetFor recipient r gasAmount increment pool) signer pre := by
  have hok : (decide (gasAmount ≤ pre 0) && recipient.toNat != signer.toNat) =
      decide (gasAmount ≤ pre 0 ∧ recipient ≠ signer) := by
    rw [Bool.eq_iff_iff]
    simp [UInt64.toNat_inj]
  obtain ⟨v, w, hkernel, hcontract, heq⟩ := payment_agrees
    (fun bal => decide (gasAmount ≤ bal ∧ recipient ≠ signer)) h0 h1 (lt_maxAmount.mpr hb.1) hok
    (by simp +contextual)
  exact .pair rfl hkernel (by simp [fieldAt_uint256 hb.1, hcontract]) heq

theorem planned_refund {pool : ActorId} {units rate : ℕ}
    (hb : (Action.claimBudgetRefund r units rate pool).FieldsBounded)
    (h0 : Held read r signer (pre 0)) (h1 : Held read r pool (pre 1)) :
    Planned read (.claimBudgetRefund r units rate pool) signer pre := by
  obtain ⟨v, w, hkernel, hcontract, heq⟩ := refund_agrees units rate h1 h0
  have hcons := consistent_pair (r := r) fun h => (heq h.symm).symm
  refine ⟨_, (w, v, pre 2, pre 3), hkernel, ?_,
    (plansAgree_of_slots hcons rfl).of_perm (List.Perm.swap _ _ _)⟩
  simp [StepPlan.planRefundBalances, fieldAt_uint64 hb.1, fieldAt_uint256 hb.2, hcontract]

theorem planned_reclaim {reserve pool : ActorId} {amount : ℕ}
    (hb : (Action.reclaimAmmReserves r amount reserve pool).FieldsBounded)
    (h0 : Held read r reserve (pre 0)) (h1 : Held read r pool (pre 1)) :
    Planned read (.reclaimAmmReserves r amount reserve pool) signer pre := by
  have hok : decide (pre 0 = amount ∧ reserve.toNat ≠ pool.toNat ∧ 0 < amount) =
      decide (pre 0 = amount ∧ reserve ≠ pool ∧ 0 < amount) := by
    simp [UInt64.toNat_inj]
  obtain ⟨v, w, hkernel, hcontract, heq⟩ := payment_agrees
    (fun bal => decide (bal = amount ∧ reserve ≠ pool ∧ 0 < amount)) h0 h1
    (lt_maxAmount.mpr hb) hok (by simp +contextual)
  refine .pair rfl hkernel ?_ heq
  simp [fieldAt_uint256 hb, deriveReclaimBalances_eq, -ne_eq, -Bool.decide_and, hcontract]

theorem plannedBalances_agrees (read : BalanceReader) (hadj : faultProofAdjudicable a = true)
    (hb : a.FieldsBounded) (hread : ∀ r x n, read r x = some n → n < maxAmount)
    (hpre : ∀ i k, (balanceKeys a signer)[i]? = some k → read k.1 k.2 = some (pre i)) :
    Planned read a signer pre := by
  have hheld : ∀ i k, (balanceKeys a signer)[i]? = some k → Held read k.1 k.2 (pre i) :=
    fun i k hk => ⟨hpre i k hk, hread _ _ _ (hpre i k hk)⟩
  cases a with
  | transfer _ _ _ amount =>
    have h0 := hheld 0 _ rfl
    have h1 := hheld 1 _ rfl
    obtain ⟨v, w, hkernel, hcontract, heq⟩ := transfer_agrees amount h0 h1 (lt_maxAmount.mpr hb)
    exact .pair rfl hkernel (by simp [fieldAt_uint256 hb, hcontract]) heq
  | mint | reward =>
    have h0 := hheld 0 _ rfl
    obtain ⟨v, hkernel, hcontract⟩ := credit_agrees h0 (lt_maxAmount.mpr hb)
    exact .single rfl hkernel (by simp [fieldAt_uint256 hb, hcontract])
  | burn _ _ amount | withdraw _ _ amount =>
    have h0 := hheld 0 _ rfl
    obtain ⟨v, hkernel, hcontract⟩ := debit_agrees amount h0
    exact .single rfl hkernel (by simp [fieldAt_uint256 hb, hcontract])
  | deposit =>
    have h0 := hheld 0 _ rfl
    obtain ⟨v, hkernel, hcontract⟩ := deposit_agrees h0 (lt_maxAmount.mpr hb.1)
    exact .single rfl hkernel (by simp [fieldAt_uint256 hb.1, hcontract])
  | depositWithFee =>
    exact planned_depositWithFee hb (hheld 0 _ rfl) (hheld 1 _ rfl) (hheld 2 _ rfl)
  | topUpActionBudget _ gasAmount =>
    have h0 := hheld 0 _ rfl
    have h1 := hheld 1 _ rfl
    obtain ⟨v, w, hkernel, hcontract, heq⟩ := payment_agrees (fun bal => decide (gasAmount ≤ bal))
      h0 h1 (lt_maxAmount.mpr hb.1) rfl (by simp)
    exact .pair rfl hkernel (by simp [fieldAt_uint256 hb.1, hcontract]) heq
  | topUpActionBudgetFor => exact planned_topUpFor hb (hheld 0 _ rfl) (hheld 1 _ rfl)
  | claimBudgetRefund => exact planned_refund hb (hheld 0 _ rfl) (hheld 1 _ rfl)
  | reclaimAmmReserves => exact planned_reclaim hb (hheld 0 _ rfl) (hheld 1 _ rfl)
  | reserveSwap _ _ _ _ minAmountOut =>
    have h0 := hheld 0 _ rfl
    have h1 := hheld 1 _ rfl
    have h2 := hheld 2 _ rfl
    have h3 := hheld 3 _ rfl
    obtain ⟨v0, v1, v2, v3, hkernel, hcontract, hcons⟩ := reserveSwap_agrees minAmountOut
      h0 h1 h2 h3 (lt_maxAmount.mpr hb.1)
    refine ⟨_, (v0, v1, v2, v3), hkernel, ?_, plansAgree_of_slots hcons rfl⟩
    simp [fieldAt_uint256 hb.1, fieldAt_uint256 hb.2, hcontract]
  | distributeOthers | proportionalDilute => cases hadj
  | _ =>
    refine ⟨[], (pre 0, pre 1, pre 2, pre 3), rfl, rfl, ?_, ?_⟩
    · intro e he
      cases he
    · intro i k hk
      change ([] : List (ResourceId × ActorId))[i]? = some k at hk
      simp at hk

theorem single_reads {change : ℕ → ℕ} (h : deriveSingleBalance read r x ok change = some plan) :
    (read r x).isSome := by
  obtain ⟨n, hn, -⟩ := Option.bind_eq_some_iff.mp h
  simp [hn]

theorem payment_reads {y : ActorId} {amount : ℕ}
    (h : derivePaymentBalances read r amount x y ok = some plan) :
    (read r x).isSome ∧ (read r y).isSome := by
  obtain ⟨n, hn, h⟩ := Option.bind_eq_some_iff.mp h
  obtain ⟨m, hm, -⟩ := Option.bind_eq_some_iff.mp h
  simp [hn, hm]

attribute [local simp] balanceKeys writeCells List.filterMap_cons balanceKey

theorem plannedBalances_reads (h : plannedBalances read a signer = some plan) :
    ∀ k ∈ balanceKeys a signer, (read k.1 k.2).isSome := by
  cases a with
  | transfer =>
    obtain ⟨n, hn, h⟩ := Option.bind_eq_some_iff.mp h
    obtain ⟨m, hm, -⟩ := Option.bind_eq_some_iff.mp h
    simp [hn, hm]
  | mint | reward | burn
  | deposit | withdraw => simpa using single_reads h
  | depositWithFee =>
    obtain ⟨n, hn, h⟩ := Option.bind_eq_some_iff.mp h
    obtain ⟨m, hm, h⟩ := Option.bind_eq_some_iff.mp h
    obtain ⟨l, hl, -⟩ := Option.bind_eq_some_iff.mp h
    simp [hn, hm, hl]
  | topUpActionBudget
  | topUpActionBudgetFor
  | reclaimAmmReserves => simpa using payment_reads h
  | claimBudgetRefund => simpa using (payment_reads h).symm
  | reserveSwap =>
    obtain ⟨n, hn, h⟩ := Option.bind_eq_some_iff.mp h
    obtain ⟨m, hm, h⟩ := Option.bind_eq_some_iff.mp h
    obtain ⟨l, hl, h⟩ := Option.bind_eq_some_iff.mp h
    obtain ⟨o, ho, -⟩ := Option.bind_eq_some_iff.mp h
    simp [hn, hm, hl, ho]
  | _ => simp

end Actions

end Knomosis.StepVM
