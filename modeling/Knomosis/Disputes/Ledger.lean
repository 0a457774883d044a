import Knomosis.Disputes.DisputeVerifier
import Knomosis.Lib.Escrow

/-!
# The books of disputes and stakes

What the two contracts keep true of their own storage: the counter of open disputes
counts them, a contract holds at least what it owes, and a bond is credited once at
most.  Each call is taken by itself here.
-/

namespace Knomosis.Disputes

open Lib Contracts Kernel List Function Nat Verifier

theorem addWord_eq_ok {width a b c : ℕ} :
    addWord width a b = .ok c ↔ a + b < 2 ^ width ∧ c = a + b := by
  rw [addWord]
  split_ifs with h
  · simp [h, eq_comm]
  · simp [h]

theorem receiveValue_eq_ok {balance value c : ℕ} :
    receiveValue balance value = .ok c ↔ balance + value < 2 ^ 256 ∧ c = balance + value :=
  addWord_eq_ok

theorem sendValue_eq_ok {balance amount c : ℕ} :
    sendValue balance amount = .ok c ↔ amount ≤ balance ∧ c = balance - amount := by
  rw [sendValue, guard_eq_ok, not_lt, Except.ok.injEq, eq_comm (a := balance - amount)]

section Law

def Verifier.openIds (v : Verifier) : Finset ℕ :=
  (Finset.range v.nextDisputeId).filter (fun id => (v.disputes id).status = .opened)

theorem Verifier.mem_openIds {v : Verifier} {id : ℕ} :
    id ∈ v.openIds ↔ id < v.nextDisputeId ∧ (v.disputes id).status = .opened := by
  rw [openIds, Finset.mem_filter, Finset.mem_range]

/-- A credit in the log: the dispute, the address and the amount. -/
def BondEvent.credit : BondEvent → Option (ℕ × Address × ℕ)
  | .refunded id challenger amount => some (id, challenger, amount)
  | .forfeited id _ beneficiary amount => some (id, beneficiary, amount)
  | .claimed _ _ => none

/-- A payout in the log: the address and the amount. -/
def BondEvent.payout : BondEvent → Option (Address × ℕ)
  | .claimed beneficiary amount => some (beneficiary, amount)
  | _ => none

def Verifier.credits (v : Verifier) : List (ℕ × Address × ℕ) := v.events.filterMap BondEvent.credit

def Verifier.creditedTo (v : Verifier) (a : Address) : ℕ :=
  ((v.credits.filter (fun c => c.2.1 = a)).map (fun c => c.2.2)).sum

def Verifier.claimedBy (v : Verifier) (a : Address) : ℕ :=
  (((v.events.filterMap BondEvent.payout).filter (fun c => c.1 = a)).map Prod.snd).sum

structure VerifierLaw (D : Deployment) (v : Verifier) : Prop where
  fresh : ∀ id, v.nextDisputeId ≤ id → v.disputes id = .zero ∧ v.disputeBond id = 0
  filed : ∀ id < v.nextDisputeId, (v.disputes id).challenger ≠ 0 ∧
    ((v.disputes id).claimVariant = CLAIM_SIGNATURE_INVALID ∨
      (v.disputes id).claimVariant = CLAIM_NONCE_MISMATCH ∨
      (v.disputes id).claimVariant = CLAIM_DOUBLE_APPLY)
  count : v.openDisputeCount = v.openIds.card
  bond : ∀ id < v.nextDisputeId, v.disputeBond id =
    if (v.disputes id).status = .opened then D.challengerBond else 0
  solvent : ∑ id ∈ v.openIds, v.disputeBond id + ∑ a, v.bondCredit a ≤ v.balance
  bounded : v.balance < 2 ^ 256
  creditedOnce : (v.credits.map (fun c => c.1)).Nodup
  creditedBond : ∀ c ∈ v.credits, c.2.2 = D.challengerBond ∧ c.1 < v.nextDisputeId ∧
    (v.disputes c.1).status ≠ .opened
  credit : ∀ a, v.bondCredit a + v.claimedBy a = v.creditedTo a

structure StakeLaw (s : Stake) : Prop where
  solvent : s.totalStaked + ∑ a, s.slashCredit a ≤ s.balance
  bounded : s.balance < 2 ^ 256

variable {D : Deployment} {v : Verifier} {id : ℕ}

theorem VerifierLaw.mem_openIds (hlaw : VerifierLaw D v)
    (hchallenger : (v.disputes id).challenger ≠ 0) (hopened : (v.disputes id).status = .opened) :
    id ∈ v.openIds := by
  refine Verifier.mem_openIds.mpr ⟨?_, hopened⟩
  by_contra hge
  rw [(hlaw.fresh id (not_lt.mp hge)).1] at hchallenger
  exact hchallenger rfl

theorem VerifierLaw.refund_fits (hlaw : VerifierLaw D v) (hmem : id ∈ v.openIds) (a : Address) :
    v.bondCredit a + v.disputeBond id < 2 ^ 256 := by
  have hbond : v.disputeBond id ≤ ∑ j ∈ v.openIds, v.disputeBond j :=
    Finset.single_le_sum (fun _ _ => zero_le _) hmem
  have hcredit : v.bondCredit a ≤ ∑ b, v.bondCredit b :=
    Finset.single_le_sum (fun _ _ => zero_le _) (Finset.mem_univ a)
  have hsolvent := hlaw.solvent
  have hbounded := hlaw.bounded
  omega

end Law

section Filing

variable {D : Deployment} {v v' : Verifier}
variable {caller : Address} {value idx variant block : ℕ} {blob : List UInt8}

/-- What a filed dispute changes. -/
theorem fileDispute_eq_ok (h : fileDispute D caller value idx variant blob block v = .ok v') :
    value = D.challengerBond ∧ (variant = CLAIM_SIGNATURE_INVALID ∨ variant = CLAIM_NONCE_MISMATCH ∨
        variant = CLAIM_DOUBLE_APPLY) ∧ v.balance + value < 2 ^ 256 ∧ v' = { v with
        disputes := Function.update v.disputes v.nextDisputeId
          ⟨idx, caller, variant, .opened, block % 2 ^ 64⟩
        nextDisputeId := v.nextDisputeId + 1
        disputeBond := Function.update v.disputeBond v.nextDisputeId value
        openDisputeCount := v.openDisputeCount + 1
        balance := v.balance + value } := by
  obtain ⟨hvalue, h⟩ := guard_eq_ok.mp h
  obtain ⟨hvariant, h⟩ := guard_eq_ok.mp h
  obtain ⟨-, h⟩ := guard_eq_ok.mp h
  obtain ⟨balance, hbalance, h⟩ := bind_eq_ok.mp h
  obtain ⟨next, hnext, h⟩ := bind_eq_ok.mp h
  obtain ⟨count, hcount, h⟩ := bind_eq_ok.mp h
  obtain ⟨hfits, rfl⟩ := receiveValue_eq_ok.mp hbalance
  obtain ⟨-, rfl⟩ := addWord_eq_ok.mp hnext
  obtain ⟨-, rfl⟩ := addWord_eq_ok.mp hcount
  refine ⟨not_not.mp hvalue, ?_, hfits, (Except.ok.inj h).symm⟩
  tauto

theorem VerifierLaw.fileDispute (hlaw : VerifierLaw D v) (hcaller : caller ≠ 0)
    (h : Disputes.fileDispute D caller value idx variant blob block v = .ok v') :
    VerifierLaw D v' := by
  obtain ⟨rfl, hvariant, hfits, rfl⟩ := fileDispute_eq_ok h
  -- the new dispute is the only one whose entries change
  have hne : ∀ id < v.nextDisputeId, id ≠ v.nextDisputeId := fun id hid => by omega
  have hopen : Verifier.openIds { v with
      disputes := Function.update v.disputes v.nextDisputeId
        ⟨idx, caller, variant, .opened, block % 2 ^ 64⟩
      nextDisputeId := v.nextDisputeId + 1
      disputeBond := Function.update v.disputeBond v.nextDisputeId D.challengerBond
      openDisputeCount := v.openDisputeCount + 1
      balance := v.balance + D.challengerBond } = insert v.nextDisputeId v.openIds := by
    ext id
    simp only [Verifier.mem_openIds, Finset.mem_insert]
    by_cases hid : id = v.nextDisputeId
    · simp [hid]
    · rw [update_of_ne hid]
      have hlt : id < v.nextDisputeId + 1 ↔ id < v.nextDisputeId := by omega
      simp [hid, hlt]
  have hnot : v.nextDisputeId ∉ v.openIds := by simp [Verifier.mem_openIds]
  constructor
  · intro id hid
    have hid' : id ≠ v.nextDisputeId := by
      change v.nextDisputeId + 1 ≤ id at hid
      omega
    simp only [update_of_ne hid']
    exact hlaw.fresh id (le_of_succ_le hid)
  · intro id hid
    change id < v.nextDisputeId + 1 at hid
    by_cases hnew : id = v.nextDisputeId
    · subst hnew
      simp only [update_self]
      exact ⟨hcaller, hvariant⟩
    · simp only [update_of_ne hnew]
      exact hlaw.filed id (by omega)
  · rw [hopen, Finset.card_insert_of_notMem hnot]
    exact congrArg (· + 1) hlaw.count
  · intro id hid
    change id < v.nextDisputeId + 1 at hid
    by_cases hnew : id = v.nextDisputeId
    · subst hnew
      simp
    · simp only [update_of_ne hnew]
      exact hlaw.bond id (by omega)
  · rw [hopen, Finset.sum_insert hnot]
    have hsame : ∑ id ∈ v.openIds, Function.update v.disputeBond v.nextDisputeId D.challengerBond id
        = ∑ id ∈ v.openIds, v.disputeBond id := by
      refine Finset.sum_congr rfl (fun id hid => update_of_ne ?_ _ _)
      rintro rfl
      exact hnot hid
    have hsolvent := hlaw.solvent
    simp only [update_self, hsame]
    omega
  · exact hfits
  · exact hlaw.creditedOnce
  · intro c hc
    obtain ⟨hamount, hlt, hclosed⟩ := hlaw.creditedBond c hc
    refine ⟨hamount, lt_succ_of_lt hlt, ?_⟩
    simp only [update_of_ne (hne c.1 hlt)]
    exact hclosed
  · exact hlaw.credit

end Filing

section Closing

variable {D : Deployment} {v v' : Verifier}

/-- Who gets the bond of a closed dispute. -/
def beneficiaryOf (D : Deployment) (challenger : Address) (refund : Bool) : Address :=
  if refund then challenger else D.sequencer

def Verifier.settled (D : Deployment) (id : ℕ) (challenger : Address) (refund : Bool)
    (v : Verifier) : Verifier :=
  let beneficiary := beneficiaryOf D challenger refund
  { v with
    openDisputeCount := v.openDisputeCount - 1
    disputeBond := Function.update v.disputeBond id 0
    bondCredit := Function.update v.bondCredit beneficiary
      (v.bondCredit beneficiary + v.disputeBond id)
    events := (if v.disputeBond id = 0 then []
      else [if refund then BondEvent.refunded id challenger (v.disputeBond id)
        else .forfeited id challenger D.sequencer (v.disputeBond id)]) ++ v.events }

theorem closeDispute_eq_ok {id : ℕ} {challenger : Address} {refund : Bool} :
    closeDispute D id challenger refund v = .ok v' ↔ (v.disputeBond id = 0 ∨
        v.bondCredit (beneficiaryOf D challenger refund) + v.disputeBond id < 2 ^ 256) ∧
      v' = v.settled D id challenger refund := by
  have hcount : (if 0 < v.openDisputeCount then
      { v with openDisputeCount := v.openDisputeCount - 1 } else v) =
        { v with openDisputeCount := v.openDisputeCount - 1 } := by
    split_ifs with hpos
    · rfl
    · have hzero : v.openDisputeCount - 1 = v.openDisputeCount := by omega
      rw [hzero]
  rw [closeDispute, hcount]
  simp only
  by_cases hbond : v.disputeBond id = 0
  · rw [if_pos hbond, Except.ok.injEq, settled, hbond]
    simp only [true_or, true_and, if_true, nil_append, add_zero, update_eq_self]
    rw [← hbond, update_eq_self, eq_comm]
  rw [if_neg hbond, bind_eq_ok]
  simp only [hbond, false_or]
  constructor
  · rintro ⟨credit, hcredit, h⟩
    obtain ⟨hfits, rfl⟩ := addWord_eq_ok.mp hcredit
    refine ⟨hfits, ?_⟩
    rw [← Except.ok.inj h, settled, if_neg hbond]
    rfl
  · rintro ⟨hfits, rfl⟩
    refine ⟨_, addWord_eq_ok.mpr ⟨hfits, rfl⟩, ?_⟩
    rw [settled, if_neg hbond]
    rfl

theorem credits_settled (id : ℕ) (challenger : Address) (refund : Bool) :
    (v.settled D id challenger refund).credits = (if v.disputeBond id = 0 then []
        else [(id, beneficiaryOf D challenger refund, v.disputeBond id)]) ++ v.credits := by
  rw [credits, settled, filterMap_append]
  by_cases hbond : v.disputeBond id = 0
  · simp [hbond, credits]
  · cases refund <;> simp [hbond, credits, BondEvent.credit, beneficiaryOf]

theorem claimedBy_settled (id : ℕ) (challenger : Address) (refund : Bool) (a : Address) :
    (v.settled D id challenger refund).claimedBy a = v.claimedBy a := by
  rw [claimedBy, settled, filterMap_append]
  by_cases hbond : v.disputeBond id = 0
  · simp [hbond, claimedBy]
  · cases refund <;> simp [hbond, claimedBy, BondEvent.payout, filterMap_cons]

theorem creditedTo_settled (id : ℕ) (challenger : Address) (refund : Bool) (a : Address) :
    (v.settled D id challenger refund).creditedTo a =
      v.creditedTo a + if beneficiaryOf D challenger refund = a then v.disputeBond id else 0 := by
  rw [creditedTo, credits_settled, filter_append, map_append, List.sum_append, add_comm]
  by_cases hbond : v.disputeBond id = 0
  · simp [hbond, creditedTo]
  · by_cases ha : beneficiaryOf D challenger refund = a <;> simp [hbond, ha, creditedTo]

variable {id : ℕ} {status : DisputeStatus}

theorem openIds_setStatus (hstatus : status ≠ .opened) :
    (setStatus id status v).openIds = v.openIds.erase id := by
  ext j
  simp only [mem_openIds, setStatus, Finset.mem_erase]
  by_cases hj : j = id
  · subst hj
    simp [hstatus]
  · simp [hj]

attribute [local simp] settled setStatus

theorem VerifierLaw.close {challenger : Address} {refund : Bool} (hlaw : VerifierLaw D v)
    (hmem : id ∈ v.openIds) (hstatus : status ≠ .opened) :
    VerifierLaw D ((setStatus id status v).settled D id challenger refund) := by
  obtain ⟨hid, hopened⟩ := Verifier.mem_openIds.mp hmem
  have hbond : v.disputeBond id = D.challengerBond := by rw [hlaw.bond id hid, if_pos hopened]
  have hopen : ((setStatus id status v).settled D id challenger refund).openIds =
      v.openIds.erase id := openIds_setStatus hstatus
  have hcredited : ∀ c ∈ v.credits, c.1 ≠ id := by
    rintro c hc rfl
    exact (hlaw.creditedBond c hc).2.2 hopened
  have hcredits : ((setStatus id status v).settled D id challenger refund).credits =
      (if v.disputeBond id = 0 then []
        else [(id, beneficiaryOf D challenger refund, v.disputeBond id)]) ++ v.credits :=
    credits_settled id challenger refund
  constructor
  · intro j hj
    have hne : j ≠ id := by
      rintro rfl
      exact absurd hid (not_lt.mpr hj)
    obtain ⟨hzero, hnone⟩ := hlaw.fresh j hj
    exact ⟨by simp [hne, hzero], by simp [hne, hnone]⟩
  · intro j hj
    have hfiled := hlaw.filed j hj
    by_cases hne : j = id
    · subst hne
      simpa using hfiled
    · simpa [hne] using hfiled
  · rw [hopen, Finset.card_erase_of_mem hmem, ← hlaw.count]
    rfl
  · intro j hj
    by_cases hne : j = id
    · subst hne
      simp [hstatus]
    · have hold := hlaw.bond j hj
      simpa [hne] using hold
  · have hsplit := Finset.add_sum_erase v.openIds v.disputeBond hmem
    have hsame : ∑ j ∈ v.openIds.erase id, Function.update v.disputeBond id 0 j =
        ∑ j ∈ v.openIds.erase id, v.disputeBond j :=
      Finset.sum_congr rfl (fun j hj => update_of_ne (Finset.ne_of_mem_erase hj) _ _)
    have hsum := sum_update_add v.bondCredit (beneficiaryOf D challenger refund) (v.disputeBond id)
    have hsolvent := hlaw.solvent
    rw [hopen]
    change ∑ j ∈ v.openIds.erase id, Function.update v.disputeBond id 0 j +
      ∑ a, Function.update v.bondCredit (beneficiaryOf D challenger refund)
        (v.bondCredit (beneficiaryOf D challenger refund) + v.disputeBond id) a ≤ v.balance
    rw [hsame, hsum]
    omega
  · exact hlaw.bounded
  · rw [hcredits]
    split_ifs with hzero
    · exact hlaw.creditedOnce
    · rw [singleton_append, map_cons, nodup_cons]
      refine ⟨?_, hlaw.creditedOnce⟩
      intro hin
      obtain ⟨c, hc, heq⟩ := mem_map.mp hin
      exact hcredited c hc heq
  · intro c hc
    rw [hcredits, mem_append] at hc
    rcases hc with hc | hc
    · have hc' : c = (id, beneficiaryOf D challenger refund, v.disputeBond id) := by
        split_ifs at hc
        · cases hc
        · simpa using hc
      subst hc'
      refine ⟨hbond, hid, ?_⟩
      simpa using hstatus
    · obtain ⟨hamount, hlt, hclosed⟩ := hlaw.creditedBond c hc
      refine ⟨hamount, hlt, ?_⟩
      simpa [hcredited c hc] using hclosed
  · intro a
    have hold := hlaw.credit a
    rw [claimedBy_settled, creditedTo_settled]
    change Function.update v.bondCredit (beneficiaryOf D challenger refund)
      (v.bondCredit (beneficiaryOf D challenger refund) + v.disputeBond id) a + v.claimedBy a =
      v.creditedTo a + if beneficiaryOf D challenger refund = a then v.disputeBond id else 0
    by_cases ha : beneficiaryOf D challenger refund = a
    · subst ha
      rw [update_self, if_pos rfl]
      omega
    · rw [update_of_ne (Ne.symm ha), if_neg ha]
      omega

end Closing

section Claiming

variable {D : Deployment} {v v' : Verifier}

theorem claimBond_eq_ok {caller : Address} (h : claimBond caller v = .ok v') :
    v.entered = false ∧ v.bondCredit caller ≤ v.balance ∧ v' = { v with
        bondCredit := Function.update v.bondCredit caller 0
        events := .claimed caller (v.bondCredit caller) :: v.events
        entered := true
        balance := v.balance - v.bondCredit caller } := by
  obtain ⟨hentered, h⟩ := guard_eq_ok.mp h
  obtain ⟨-, h⟩ := guard_eq_ok.mp h
  obtain ⟨balance, hbalance, h⟩ := bind_eq_ok.mp h
  obtain ⟨hle, rfl⟩ := sendValue_eq_ok.mp hbalance
  exact ⟨Bool.not_eq_true _ ▸ hentered, hle, (Except.ok.inj h).symm⟩

theorem VerifierLaw.claimBond {caller : Address} (hlaw : VerifierLaw D v)
    (h : Disputes.claimBond caller v = .ok v') : VerifierLaw D v' := by
  obtain ⟨-, hle, rfl⟩ := claimBond_eq_ok h
  refine ⟨hlaw.fresh, hlaw.filed, hlaw.count, hlaw.bond, ?_, ?_, hlaw.creditedOnce,
    hlaw.creditedBond, ?_⟩
  · have hsum := sum_update_zero v.bondCredit caller
    have hsolvent := hlaw.solvent
    change ∑ id ∈ v.openIds, v.disputeBond id + ∑ a, Function.update v.bondCredit caller 0 a ≤
      v.balance - v.bondCredit caller
    omega
  · exact lt_of_le_of_lt (sub_le _ _) hlaw.bounded
  intro a
  have hold := hlaw.credit a
  have hpayouts : claimedBy { v with
      bondCredit := Function.update v.bondCredit caller 0
      events := .claimed caller (v.bondCredit caller) :: v.events
      entered := true
      balance := v.balance - v.bondCredit caller } a =
        (if caller = a then v.bondCredit caller else 0) + v.claimedBy a := by
    rw [claimedBy, filterMap_cons]
    by_cases ha : caller = a
    · simp [BondEvent.payout, ha, claimedBy]
    · simp [BondEvent.payout, ha, claimedBy]
  rw [hpayouts]
  change Function.update v.bondCredit caller 0 a + _ = v.creditedTo a
  by_cases ha : caller = a
  · subst ha
    rw [update_self, if_pos rfl]
    omega
  · rw [update_of_ne (Ne.symm ha), if_neg ha]
    omega

theorem VerifierLaw.receive (hlaw : VerifierLaw D v) (entered : Bool) {balance : ℕ}
    (hle : v.balance ≤ balance) (hlt : balance < 2 ^ 256) :
    VerifierLaw D { v with entered := entered, balance := balance } :=
  ⟨hlaw.fresh, hlaw.filed, hlaw.count, hlaw.bond, hlaw.solvent.trans hle, hlt, hlaw.creditedOnce,
    hlaw.creditedBond, hlaw.credit⟩

theorem VerifierLaw.setEntered (hlaw : VerifierLaw D v) (entered : Bool) :
    VerifierLaw D { v with entered := entered } :=
  hlaw.receive entered le_rfl hlaw.bounded

end Claiming

section Staking

variable {D : Deployment} {s s' : Stake} {caller : Address}

theorem StakeLaw.deposit {value : ℕ} (hlaw : StakeLaw s)
    (h : Disputes.deposit D caller value s = .ok s') :
    StakeLaw s' ∧ s'.entered = s.entered ∧ s'.slashedDispute = s.slashedDispute := by
  obtain ⟨-, h⟩ := guard_eq_ok.mp h
  obtain ⟨balance, hbalance, h⟩ := bind_eq_ok.mp h
  obtain ⟨total, htotal, h⟩ := bind_eq_ok.mp h
  obtain ⟨hfits, rfl⟩ := receiveValue_eq_ok.mp hbalance
  obtain ⟨-, rfl⟩ := addWord_eq_ok.mp htotal
  cases h
  refine ⟨⟨?_, hfits⟩, rfl, rfl⟩
  have hsolvent := hlaw.solvent
  change s.totalStaked + value + ∑ a, s.slashCredit a ≤ s.balance + value
  omega

/-- A withdrawal takes the guard, and goes through only if the counter is zero. -/
theorem StakeLaw.withdraw {amount count : ℕ} {rootInWindow : Bool} (hlaw : StakeLaw s)
    (h : Disputes.withdraw D caller amount count rootInWindow s = .ok s') :
    StakeLaw s' ∧ s.entered = false ∧ s'.entered = true ∧
      s'.slashedDispute = s.slashedDispute ∧ count = 0 := by
  obtain ⟨hentered, h⟩ := guard_eq_ok.mp h
  obtain ⟨-, h⟩ := guard_eq_ok.mp h
  obtain ⟨hamount, h⟩ := guard_eq_ok.mp h
  obtain ⟨hcount, h⟩ := guard_eq_ok.mp h
  obtain ⟨-, h⟩ := guard_eq_ok.mp h
  obtain ⟨balance, hbalance, h⟩ := bind_eq_ok.mp h
  obtain ⟨hle, rfl⟩ := sendValue_eq_ok.mp hbalance
  cases h
  refine ⟨⟨?_, ?_⟩, Bool.not_eq_true _ ▸ hentered, rfl, rfl, not_not.mp hcount⟩
  · have hsolvent := hlaw.solvent
    have hle' : amount ≤ s.totalStaked := by omega
    change s.totalStaked - amount + ∑ a, s.slashCredit a ≤ s.balance - amount
    omega
  · exact lt_of_le_of_lt (sub_le _ _) hlaw.bounded

theorem StakeLaw.claimSlashReward (hlaw : StakeLaw s)
    (h : Disputes.claimSlashReward caller s = .ok s') :
    StakeLaw s' ∧ s.entered = false ∧ s'.entered = true ∧ s'.slashedDispute = s.slashedDispute := by
  obtain ⟨hentered, h⟩ := guard_eq_ok.mp h
  obtain ⟨-, h⟩ := guard_eq_ok.mp h
  obtain ⟨balance, hbalance, h⟩ := bind_eq_ok.mp h
  obtain ⟨hle, rfl⟩ := sendValue_eq_ok.mp hbalance
  cases h
  refine ⟨⟨?_, ?_⟩, Bool.not_eq_true _ ▸ hentered, rfl, rfl⟩
  · have hsum := sum_update_zero s.slashCredit caller
    have hsolvent := hlaw.solvent
    change s.totalStaked + ∑ a, Function.update s.slashCredit caller 0 a ≤
      s.balance - s.slashCredit caller
    omega
  · exact lt_of_le_of_lt (sub_le _ _) hlaw.bounded

/-- What the challenger gets of the stake, and what is burned. -/
def Stake.paid (D : Deployment) (s : Stake) : ℕ := s.totalStaked * D.slashRatioBps / 10000

def Stake.burned (D : Deployment) (s : Stake) : ℕ := s.totalStaked - s.paid D

/-- The stake after a slash, up to the transfer of what is burned. -/
def Stake.slashedBy (D : Deployment) (id : ℕ) (challenger : Address) (s : Stake) : Stake :=
  { s with
    slashedDispute := Function.update s.slashedDispute id true
    totalStaked := 0
    slashCredit := Function.update s.slashCredit challenger (s.slashCredit challenger + s.paid D)
    entered := s.burned D != 0
    balance := s.balance - s.burned D }

theorem slash_eq_ok {caller : Address} {id : ℕ} {challenger : Address} {burning : Bool} :
    slash D caller id challenger s = .ok (s', burning) ↔
      s.entered = false ∧ caller = D.verifier ∧ s.slashedDispute id = false ∧ challenger ≠ 0 ∧
      s.totalStaked * D.slashRatioBps < 2 ^ 256 ∧
      s.slashCredit challenger + s.paid D < 2 ^ 256 ∧ s.burned D ≤ s.balance ∧
      s' = s.slashedBy D id challenger ∧ burning = (s.burned D != 0) := by
  rw [slash, guard_eq_ok, guard_eq_ok, guard_eq_ok, guard_eq_ok, guard_eq_ok, Bool.not_eq_true,
    Bool.not_eq_true, not_not, not_not, bind_eq_ok]
  refine and_congr_right fun hentered => and_congr_right fun _ => and_congr_right fun _ =>
    and_congr_right fun _ => and_congr_right fun _ => ?_
  by_cases hburned : s.totalStaked - s.totalStaked * D.slashRatioBps / 10000 = 0
  · have hzero : s.burned D = 0 := hburned
    have hkept : s.slashedBy D id challenger = { s with
        slashedDispute := Function.update s.slashedDispute id true
        totalStaked := 0
        slashCredit :=
          Function.update s.slashCredit challenger (s.slashCredit challenger + s.paid D) } := by
      rw [Stake.slashedBy, hzero, hentered]
      rfl
    constructor
    · rintro ⟨credit, hcredit, h⟩
      obtain ⟨hfits, rfl⟩ := addWord_eq_ok.mp hcredit
      dsimp only at h
      rw [if_pos hburned, Except.ok.injEq, Prod.mk.injEq] at h
      exact ⟨hfits, by omega, h.1.symm.trans hkept.symm, by simp [hzero, ← h.2]⟩
    · rintro ⟨hfits, -, rfl, rfl⟩
      refine ⟨_, addWord_eq_ok.mpr ⟨hfits, rfl⟩, ?_⟩
      dsimp only
      rw [if_pos hburned, Except.ok.injEq, Prod.mk.injEq]
      exact ⟨hkept.symm, by simp [hzero]⟩
  · have hsome : (s.burned D != 0) = true := bne_iff_ne.mpr hburned
    constructor
    · rintro ⟨credit, hcredit, h⟩
      obtain ⟨hfits, rfl⟩ := addWord_eq_ok.mp hcredit
      dsimp only at h
      rw [if_neg hburned] at h
      obtain ⟨balance, hbalance, h⟩ := bind_eq_ok.mp h
      obtain ⟨hle, rfl⟩ := sendValue_eq_ok.mp hbalance
      rw [Except.ok.injEq, Prod.mk.injEq] at h
      refine ⟨hfits, hle, ?_, h.2.symm.trans hsome.symm⟩
      rw [← h.1, Stake.slashedBy, hsome]
      rfl
    · rintro ⟨hfits, hle, rfl, rfl⟩
      refine ⟨_, addWord_eq_ok.mpr ⟨hfits, rfl⟩, ?_⟩
      dsimp only
      rw [if_neg hburned]
      refine bind_eq_ok.mpr ⟨_, sendValue_eq_ok.mpr ⟨hle, rfl⟩, ?_⟩
      rw [Except.ok.injEq, Prod.mk.injEq, Stake.slashedBy, hsome]
      exact ⟨rfl, rfl⟩

theorem StakeLaw.slash {id : ℕ} {challenger : Address} (hlaw : StakeLaw s) :
    StakeLaw (s.slashedBy D id challenger) := by
  have hsum := sum_update_add s.slashCredit challenger (s.paid D)
  have hsolvent := hlaw.solvent
  have hpaid : s.paid D ≤ s.totalStaked := by
    have hratio := D.slashRatioBps_le
    rw [Stake.paid]
    exact Nat.div_le_of_le_mul (by rw [Nat.mul_comm]; exact Nat.mul_le_mul_right _ hratio)
  refine ⟨?_, lt_of_le_of_lt (Nat.sub_le _ _) hlaw.bounded⟩
  change 0 + ∑ a, Function.update s.slashCredit challenger (s.slashCredit challenger + s.paid D) a ≤
    s.balance - (s.totalStaked - s.paid D)
  omega

theorem StakeLaw.receive (hlaw : StakeLaw s) (entered : Bool) {balance : ℕ}
    (hle : s.balance ≤ balance) (hlt : balance < 2 ^ 256) :
    StakeLaw { s with entered := entered, balance := balance } :=
  ⟨hlaw.solvent.trans hle, hlt⟩

end Staking

end Knomosis.Disputes
