import Knomosis.Ingest.SequencerClaim

/-!
# Checking claims against the chain below

An observer fetches the receipt of the transaction that a claim names and derives
everything else from it, also the hash under which the transaction counts as used.
Whoever keeps the used hashes for both currencies sees each transaction back at most
one claim.
-/

namespace Knomosis.Ingest

open Lib Smt Contracts List
open Signing.L1Ingest

section Defs

def RECEIPT_BINDING_DOMAIN : String := "knomosis/v1/gas-receipt-binding"

structure EthTxReceipt where
  transactionHash : TopicHash
  blockNumber : UInt64
  gasUsed : BitVec 128
  effectiveGasPrice : BitVec 128
  statusOk : Bool

inductive ReceiptFetchError where
  | source (message : String)
  | malformed (message : String)

/-- Whoever is asked for receipts. -/
abbrev ReceiptSource := TopicHash → Except ReceiptFetchError (Option EthTxReceipt)

/-- Whoever is asked for the rate of a batch. -/
abbrev RateOracle := UInt64 → Except ReceiptFetchError (Option EthBoldRate)

inductive ClaimBackingOutcome where
  | backed
  | notBacked
  | reused
  | unconfirmed
  | rateUnavailable
  | receiptNotFound
  | transactionFailed
deriving DecidableEq

variable [Keccak]

def canonicalReceiptBindingHash (txHash : TopicHash) : Bytes32 :=
  keccak256 (asBytes RECEIPT_BINDING_DOMAIN ++ txHash.bytes)

def deriveGasReceipt (receipt : EthTxReceipt) (batchId : UInt64) : Option GasReceipt :=
  if !receipt.statusOk then none
  else some
    { batchId := batchId
      gasUsed := receipt.gasUsed
      gasPrice := receipt.effectiveGasPrice
      receiptBindingHash := canonicalReceiptBindingHash receipt.transactionHash }

def verifyEthClaimIndependentlyFresh (source : ReceiptSource) (claim : SequencerClaim)
    (txHash : TopicHash) (batchId confirmedHead : UInt64) (consumed : List Bytes32) :
    Except ReceiptFetchError ClaimBackingOutcome := do
  let some raw ← source txHash | .ok .receiptNotFound
  if confirmedHead < raw.blockNumber then .ok .unconfirmed
  else match deriveGasReceipt raw batchId with
    | none => .ok .transactionFailed
    | some gasReceipt =>
      if !claim.isReceiptBackedBy gasReceipt then .ok .notBacked
      else if consumed.contains gasReceipt.receiptBindingHash then .ok .reused
      else .ok .backed

def verifyBoldClaimIndependentlyFresh (source : ReceiptSource) (oracle : RateOracle)
    (claim : SequencerClaim) (txHash : TopicHash) (batchId confirmedHead : UInt64)
    (consumed : List Bytes32) : Except ReceiptFetchError ClaimBackingOutcome := do
  let some raw ← source txHash | .ok .receiptNotFound
  if confirmedHead < raw.blockNumber then .ok .unconfirmed
  else match deriveGasReceipt raw batchId with
    | none => .ok .transactionFailed
    | some gasReceipt =>
      let some rate ← oracle batchId | .ok .rateUnavailable
      if !claim.isBoldReceiptBackedBy gasReceipt rate then .ok .notBacked
      else if consumed.contains gasReceipt.receiptBindingHash then .ok .reused
      else .ok .backed

/-- The currency of a check; the second one has its rates from an oracle. -/
inductive Leg where
  | eth
  | bold (oracle : RateOracle)

def Leg.isEth : Leg → Bool
  | eth => true
  | bold _ => false

def Leg.resource : Leg → UInt64
  | eth => 0
  | bold _ => 1

/-- One check, with all that the claimant can choose. -/
structure ClaimCheck where
  source : ReceiptSource
  leg : Leg
  claim : SequencerClaim
  txHash : TopicHash
  batchId : UInt64
  confirmedHead : UInt64

def ClaimCheck.verify (c : ClaimCheck) (consumed : List Bytes32) :
    Except ReceiptFetchError ClaimBackingOutcome :=
  match c.leg with
  | .eth =>
    verifyEthClaimIndependentlyFresh c.source c.claim c.txHash c.batchId c.confirmedHead consumed
  | .bold oracle =>
    verifyBoldClaimIndependentlyFresh c.source oracle c.claim c.txHash c.batchId c.confirmedHead
      consumed

/-- The checks of a sequence that were answered with Backed; each uses up its transaction. -/
def backedChecks (consumed : List Bytes32) : List ClaimCheck → List ClaimCheck
  | [] => []
  | c :: cs =>
    match c.verify consumed with
    | .ok .backed => c :: backedChecks (consumed ++ [canonicalReceiptBindingHash c.txHash]) cs
    | _ => backedChecks consumed cs

def SequencerClaim.amount (claim : SequencerClaim) : Amount :=
  match claim.action with
  | .transfer _ _ _ amount => amount
  | _ => 0

/-- What happened on the chain below. -/
structure L1History where
  receiptOf : TopicHash → Option EthTxReceipt
  receiptOf_hash : ∀ {h r}, receiptOf h = some r → r.transactionHash = h

/-- A source that may fail or not know a receipt yet, but tells no other one. -/
def L1History.Serves (history : L1History) (source : ReceiptSource) : Prop :=
  ∀ h r, source h = .ok (some r) → history.receiptOf h = some r

def L1History.cost (history : L1History) (h : TopicHash) : ℕ :=
  match history.receiptOf h with
  | some r => r.gasUsed.toNat * r.effectiveGasPrice.toNat
  | none => 0

end Defs

section Verdicts

variable [Keccak] {history : L1History} {c : ClaimCheck} {consumed : List Bytes32}

/-- What a Backed verdict rests on. -/
structure RestsOn (history : L1History) (c : ClaimCheck) (r : EthTxReceipt) : Prop where
  receipt : history.receiptOf c.txHash = some r
  succeeded : r.statusOk = true
  confirmed : r.blockNumber ≤ c.confirmedHead
  shape : ∃ amount, c.claim.action =
    .transfer c.leg.resource GAS_POOL_ACTOR_ID SEQUENCER_ACTOR_ID amount
  covered : c.leg.isEth = true → c.claim.amount.toNat ≤ r.gasUsed.toNat * r.effectiveGasPrice.toNat

variable {batchId confirmedHead : UInt64} {source : ReceiptSource} {claim : SequencerClaim}
variable {txHash : TopicHash}

theorem deriveGasReceipt_eq_some {r : EthTxReceipt} {g : GasReceipt}
    (h : deriveGasReceipt r batchId = some g) :
    r.statusOk = true ∧
    g = ⟨batchId, r.gasUsed, r.effectiveGasPrice,
      canonicalReceiptBindingHash r.transactionHash⟩ := by
  rw [deriveGasReceipt] at h
  cases hstatus : r.statusOk with
  | false => simp [hstatus] at h
  | true =>
    simp only [hstatus, Bool.not_true, Bool.false_eq_true, if_false, Option.some.injEq] at h
    exact ⟨rfl, h.symm⟩

theorem eth_backed
    (h : verifyEthClaimIndependentlyFresh source claim txHash batchId confirmedHead consumed =
      .ok .backed) :
    ∃ r g, source txHash = .ok (some r) ∧ r.blockNumber ≤ confirmedHead ∧
    deriveGasReceipt r batchId = some g ∧ claim.isReceiptBackedBy g = true ∧
    g.receiptBindingHash ∉ consumed := by
  rw [verifyEthClaimIndependentlyFresh] at h
  obtain ⟨answer, hsource, h⟩ := bind_eq_ok.mp h
  cases answer with
  | none => cases h
  | some r =>
    simp only at h
    split at h
    · cases h
    next hblock =>
      cases hderive : deriveGasReceipt r batchId with
      | none => simp [hderive] at h
      | some g =>
        simp only [hderive] at h
        split at h
        · cases h
        next hbacked =>
          split at h
          · cases h
          next hfresh =>
            exact ⟨r, g, hsource, UInt64.not_lt.mp hblock, hderive,
              by simpa using hbacked, by simpa using hfresh⟩

theorem bold_backed {oracle : RateOracle}
    (h : verifyBoldClaimIndependentlyFresh source oracle claim txHash batchId confirmedHead
      consumed = .ok .backed) :
    ∃ r g rate, source txHash = .ok (some r) ∧ r.blockNumber ≤ confirmedHead ∧
      deriveGasReceipt r batchId = some g ∧ claim.isBoldReceiptBackedBy g rate = true ∧
      g.receiptBindingHash ∉ consumed := by
  rw [verifyBoldClaimIndependentlyFresh] at h
  obtain ⟨answer, hsource, h⟩ := bind_eq_ok.mp h
  cases answer with
  | none => cases h
  | some r =>
    simp only at h
    split at h
    · cases h
    next hblock =>
      cases hderive : deriveGasReceipt r batchId with
      | none => simp [hderive] at h
      | some g =>
        simp only [hderive] at h
        obtain ⟨rate, -, h⟩ := bind_eq_ok.mp h
        cases rate with
        | none => cases h
        | some rate =>
          simp only at h
          split at h
          · cases h
          next hbacked =>
            split at h
            · cases h
            next hfresh =>
              exact ⟨r, g, rate, hsource, UInt64.not_lt.mp hblock, hderive,
                by simpa using hbacked, by simpa using hfresh⟩

/-- A Backed verdict rests on a receipt of the history, and the transaction was not used yet. -/
theorem verify_backed (hserves : history.Serves c.source) (h : c.verify consumed = .ok .backed) :
    (∃ r, RestsOn history c r) ∧ canonicalReceiptBindingHash c.txHash ∉ consumed := by
  rw [ClaimCheck.verify] at h
  split at h
  next hleg =>
    obtain ⟨r, g, hsource, hblock, hderive, hbacked, hfresh⟩ := eth_backed h
    obtain ⟨hstatus, rfl⟩ := deriveGasReceipt_eq_some hderive
    have hreceipt := hserves _ _ hsource
    obtain ⟨amount, haction, hle⟩ := shape_of_isPoolTransfer hbacked
    rw [history.receiptOf_hash hreceipt] at hfresh
    refine ⟨⟨r, hreceipt, hstatus, hblock, ⟨amount, by rw [haction, hleg]; rfl⟩, ?_⟩, hfresh⟩
    intro _
    rw [SequencerClaim.amount, haction]
    exact (BitVec.le_def.mp hle).trans_eq (reimbursement_toNat _)
  next oracle hleg =>
    obtain ⟨r, g, rate, hsource, hblock, hderive, hbacked, hfresh⟩ := bold_backed h
    obtain ⟨hstatus, rfl⟩ := deriveGasReceipt_eq_some hderive
    have hreceipt := hserves _ _ hsource
    obtain ⟨amount, haction, hle⟩ := shape_of_isPoolTransfer hbacked
    rw [history.receiptOf_hash hreceipt] at hfresh
    refine ⟨⟨r, hreceipt, hstatus, hblock, ⟨amount, by rw [haction, hleg]; rfl⟩, ?_⟩, hfresh⟩
    intro heth
    rw [hleg] at heth
    cases heth

end Verdicts

section Sequences

variable [Keccak] {history : L1History} {checks : List ClaimCheck} {consumed : List Bytes32}

theorem backedChecks_cons (c : ClaimCheck) (cs : List ClaimCheck) (consumed : List Bytes32) :
    (c.verify consumed = .ok .backed ∧ backedChecks consumed (c :: cs) =
        c :: backedChecks (consumed ++ [canonicalReceiptBindingHash c.txHash]) cs) ∨
      backedChecks consumed (c :: cs) = backedChecks consumed cs := by
  rw [backedChecks]
  split
  next hverdict => exact .inl ⟨hverdict, rfl⟩
  · exact .inr rfl

/-- Each backed check rests on the history, and its transaction was not used before all of them. -/
theorem backed_restsOn (hserves : ∀ c ∈ checks, history.Serves c.source) :
    ∀ c ∈ backedChecks consumed checks,
      (∃ r, RestsOn history c r) ∧ canonicalReceiptBindingHash c.txHash ∉ consumed := by
  induction checks generalizing consumed with
  | nil => exact forall_mem_nil _
  | cons c cs ih =>
    have htail : ∀ c ∈ cs, history.Serves c.source := fun x hx => hserves x (mem_cons_of_mem c hx)
    rcases backedChecks_cons c cs consumed with ⟨hverdict, heq⟩ | heq
    · rw [heq]
      intro x hx
      rcases mem_cons.mp hx with rfl | hx
      · exact verify_backed (hserves x mem_cons_self) hverdict
      · obtain ⟨hrests, hfresh⟩ := ih htail x hx
        exact ⟨hrests, fun hmem => hfresh (mem_append_left _ hmem)⟩
    · rw [heq]
      exact ih htail

theorem backed_nodup (hserves : ∀ c ∈ checks, history.Serves c.source) :
    ((backedChecks consumed checks).map ClaimCheck.txHash).Nodup := by
  induction checks generalizing consumed with
  | nil => exact nodup_nil
  | cons c cs ih =>
    have htail : ∀ c ∈ cs, history.Serves c.source := fun x hx => hserves x (mem_cons_of_mem c hx)
    rcases backedChecks_cons c cs consumed with ⟨-, heq⟩ | heq
    · rw [heq, map_cons, nodup_cons]
      refine ⟨?_, ih htail⟩
      -- a later check of the same transaction would find its hash used
      intro hmem
      obtain ⟨x, hx, htx⟩ := mem_map.mp hmem
      refine (backed_restsOn htail x hx).2 (mem_append_right _ ?_)
      rw [htx]
      exact mem_singleton_self _
    · rw [heq]
      exact ih htail

/-- For every sequence of checks in both currencies against one history: no transaction backs two
claims, each backed claim is a transfer of the pool to the sequencer under a confirmed transaction
that succeeded, and the backed claims of the first currency together take at most the fees of
their transactions. -/
theorem one_transaction_backs_one_claim
    (history : L1History)
    (checks : List ClaimCheck)
    (consumed : List Bytes32)
    (hserves : ∀ c ∈ checks, history.Serves c.source) :
    let backed := backedChecks consumed checks
    let ethBacked := backed.filter (fun c => c.leg.isEth)
    (backed.map ClaimCheck.txHash).Nodup ∧
    (∀ c ∈ backed, ∃ r, RestsOn history c r) ∧
    (ethBacked.map (fun c => c.claim.amount.toNat)).sum ≤
      ∑ h ∈ (ethBacked.map ClaimCheck.txHash).toFinset, history.cost h := by
  intro backed ethBacked
  have hrests : ∀ c ∈ backed, ∃ r, RestsOn history c r :=
    fun c hc => (backed_restsOn hserves c hc).1
  have hnodup : (backed.map ClaimCheck.txHash).Nodup := backed_nodup hserves
  have heth : (ethBacked.map ClaimCheck.txHash).Nodup := hnodup.sublist (filter_sublist.map _)
  refine ⟨hnodup, hrests, ?_⟩
  rw [sum_toFinset _ heth, map_map]
  refine sum_le_sum ?_
  intro c hc
  obtain ⟨hmem, hleg⟩ := mem_filter.mp hc
  obtain ⟨r, hr⟩ := hrests c hmem
  have hcost : history.cost c.txHash = r.gasUsed.toNat * r.effectiveGasPrice.toNat := by
    rw [L1History.cost, hr.receipt]
  rw [Function.comp_apply, hcost]
  exact hr.covered hleg

end Sequences

def sampleTx : TopicHash := ⟨List.replicate 32 9, List.length_replicate⟩

def sampleTxReceipt : EthTxReceipt := ⟨sampleTx, 10, 21000, 50, true⟩

/-- One transaction in block 10. -/
def sampleHistory : L1History where
  receiptOf := fun h => if h = sampleTx then some sampleTxReceipt else none
  receiptOf_hash := by
    intro h r hr
    split at hr
    next heq =>
      cases hr
      exact heq.symm
    · cases hr

def sampleCheck (leg : Leg) (amount : Amount) : ClaimCheck where
  source := fun h => .ok (sampleHistory.receiptOf h)
  leg := leg
  claim := sampleClaim leg.resource amount
  txHash := sampleTx
  batchId := 7
  confirmedHead := 12

/-- The same transaction for a claim of each currency: the first one is backed. -/
theorem one_transaction_backs_one_claim_sample :
    let checks := [sampleCheck .eth 1000000,
      sampleCheck (.bold fun _ => .ok (some (sampleRate 3000))) 5]
    (∀ c ∈ checks, sampleHistory.Serves c.source) ∧
    (@backedChecks zeroKeccak [] checks).length = 1 ∧
    ((@backedChecks zeroKeccak [] checks).map ClaimCheck.txHash).Nodup := by
  intro checks
  have hserves : ∀ c ∈ checks, sampleHistory.Serves c.source := by
    intro c hc h r hr
    have hsource : c.source = fun h => .ok (sampleHistory.receiptOf h) := by
      simp only [checks, mem_cons, not_mem_nil, or_false] at hc
      rcases hc with rfl | rfl <;> rfl
    rw [hsource] at hr
    exact Except.ok.inj hr
  exact ⟨hserves, by decide,
    (@one_transaction_backs_one_claim zeroKeccak sampleHistory checks [] hserves).1⟩

end Knomosis.Ingest
