import Knomosis.FaultProof.Cells

/-!
# The kernel's step verifier

Given the values that a set of cells has before an action, the verifier derives
the values after it: which cells the action writes, and for each of them the new
value.  It opens the cells against the root before the step and folds the new
values to the root after it.  An action whose law refuses it leaves the balances
as they were, and the step goes on.
-/

namespace Knomosis.FaultProof

open Lib Contracts Smt Kernel

section Balances

/-- Where the balances before the step are read. -/
abbrev BalanceReader := ResourceId → ActorId → Option ℕ

/-- Balances after the step, by resource and actor. -/
abbrev BalancePlan := List ((ResourceId × ActorId) × ℕ)

variable (read : BalanceReader) (r : ResourceId) (amount : Amount)

def deriveTransferBalances (sender receiver : ActorId) : Option BalancePlan := do
  let senderBal ← read r sender
  let receiverBal ← read r receiver
  if 0 < amount ∧ amount ≤ senderBal ∧
      (if sender = receiver then senderBal - amount else receiverBal) + amount < maxAmount then
    if sender = receiver then
      some [((r, sender), senderBal), ((r, receiver), senderBal)]
    else
      some [((r, sender), senderBal - amount), ((r, receiver), receiverBal + amount)]
  else
    some [((r, sender), senderBal), ((r, receiver), receiverBal)]

/-- One balance, changed if a condition on it holds. -/
def deriveSingleBalance (a : ActorId) (ok : ℕ → Bool) (change : ℕ → ℕ) : Option BalancePlan := do
  let bal ← read r a
  some [((r, a), if ok bal then change bal else bal)]

def deriveCreditBalance (recipient : ActorId) : Option BalancePlan :=
  deriveSingleBalance read r recipient
    (fun bal => decide (0 < amount ∧ bal + amount < maxAmount)) (· + amount)

def deriveBurnBalance (holder : ActorId) : Option BalancePlan :=
  deriveSingleBalance read r holder (fun bal => decide (0 < amount ∧ amount ≤ bal)) (· - amount)

def deriveDepositBalance (recipient : ActorId) : Option BalancePlan :=
  deriveSingleBalance read r recipient (fun bal => decide (bal + amount < maxAmount)) (· + amount)

def deriveWithdrawBalance (sender : ActorId) : Option BalancePlan :=
  deriveSingleBalance read r sender (fun bal => decide (0 < amount ∧ amount ≤ bal)) (· - amount)

/-- Two balances changed one after the other; the second change sees the first. -/
def deriveChainPair (x y : ActorId) (fx fy : ℕ → ℕ) : Option BalancePlan := do
  let xBal ← read r x
  let yBal ← read r y
  let nx := fx xBal
  let ny := fy (if x = y then nx else yBal)
  some [((r, x), if x = y then ny else nx), ((r, y), ny)]

/-- A payment, if the payer's balance meets a condition and the payee can take it. -/
def derivePaymentBalances (payer payee : ActorId) (ok : ℕ → Bool) : Option BalancePlan := do
  let payerBal ← read r payer
  let payeeBal ← read r payee
  if ok payerBal ∧
      (if payer = payee then payerBal - amount else payeeBal) + amount < maxAmount then
    deriveChainPair read r payer payee (· - amount) (· + amount)
  else
    some [((r, payer), payerBal), ((r, payee), payeeBal)]

def deriveTopUpBalances (payer poolActor : ActorId) : Option BalancePlan :=
  derivePaymentBalances read r amount payer poolActor (fun bal => decide (amount ≤ bal))

def deriveRefundBalances (poolActor claimant : ActorId) : Option BalancePlan :=
  derivePaymentBalances read r amount poolActor claimant (fun bal => decide (amount ≤ bal))

def deriveDelegatedTopUpBalances (payer poolActor recipient : ActorId) : Option BalancePlan :=
  derivePaymentBalances read r amount payer poolActor
    (fun bal => decide (amount ≤ bal ∧ recipient ≠ payer))

def deriveReclaimBalances (reserveActor poolActor : ActorId) : Option BalancePlan :=
  derivePaymentBalances read r amount reserveActor poolActor
    (fun bal => decide (bal = amount ∧ reserveActor ≠ poolActor ∧ 0 < amount))

/-- Three balances changed one after the other. -/
def deriveChainTriple (x y z : ActorId) (fx fy fz : ℕ → ℕ) : Option BalancePlan := do
  let xBal ← read r x
  let yBal ← read r y
  let zBal ← read r z
  let nx := fx xBal
  let ny := fy (if x = y then nx else yBal)
  let nz := fz (if y = z then ny else if x = z then nx else zBal)
  some [((r, x), if z = x then nz else if y = x then ny else nx),
    ((r, y), if z = y then nz else ny), ((r, z), nz)]

def deriveDepositWithFeeBalances (recipient poolActor : ActorId)
    (userAmount poolAmount seedAmount : Amount) (reserveActor : ActorId) : Option BalancePlan := do
  let recipientBal ← read r recipient
  let poolBal ← read r poolActor
  let reserveBal ← read r reserveActor
  let poolPre := if recipient = poolActor then recipientBal + userAmount else poolBal
  let reservePre :=
    if poolActor = reserveActor then poolPre + (poolAmount - seedAmount)
    else if recipient = reserveActor then recipientBal + userAmount
    else reserveBal
  if recipientBal + userAmount < maxAmount ∧ poolPre + (poolAmount - seedAmount) < maxAmount ∧
      seedAmount ≤ poolAmount ∧ reservePre + seedAmount < maxAmount then
    deriveChainTriple read r recipient poolActor reserveActor
      (· + userAmount) (· + (poolAmount - seedAmount)) (· + seedAmount)
  else
    some [((r, recipient), recipientBal), ((r, poolActor), poolBal),
      ((r, reserveActor), reserveBal)]

def deriveReserveSwapBalances (fromResource toResource : ResourceId) (user : ActorId)
    (amountIn minAmountOut : Amount) (reserveActor : ActorId) : Option BalancePlan := do
  let userFrom ← read fromResource user
  let resFrom ← read fromResource reserveActor
  let resTo ← read toResource reserveActor
  let userTo ← read toResource user
  let out := AmmMath.getAmountOut amountIn resFrom resTo AmmMath.swapFeeBps
  let amountInWithFee := amountIn * (AmmMath.bpsDenominator - AmmMath.swapFeeBps)
  if 0 < amountIn ∧ fromResource ≠ toResource ∧ user ≠ reserveActor ∧ amountIn ≤ userFrom ∧
      AmmMath.minimumLiquidity ≤ resFrom ∧ AmmMath.minimumLiquidity ≤ resTo ∧
      AmmMath.minimumLiquidity ≤ resTo - out ∧ max 1 minAmountOut ≤ out ∧
      resFrom + amountIn < maxAmount ∧ userTo + out < maxAmount ∧
      amountInWithFee * resTo < maxAmount ∧
      resFrom * AmmMath.bpsDenominator + amountInWithFee < maxAmount then
    some [((fromResource, user), userFrom - amountIn),
      ((fromResource, reserveActor), resFrom + amountIn),
      ((toResource, reserveActor), resTo - out), ((toResource, user), userTo + out)]
  else
    some [((fromResource, user), userFrom), ((fromResource, reserveActor), resFrom),
      ((toResource, reserveActor), resTo), ((toResource, user), userTo)]

def plannedBalances (a : Action) (signer : ActorId) : Option BalancePlan :=
  match a with
  | .transfer r sender receiver amount => deriveTransferBalances read r amount sender receiver
  | .mint r recipient amount | .reward r recipient amount =>
    deriveCreditBalance read r amount recipient
  | .burn r holder amount => deriveBurnBalance read r amount holder
  | .deposit r recipient amount _ => deriveDepositBalance read r amount recipient
  | .withdraw r sender amount _ => deriveWithdrawBalance read r amount sender
  | .depositWithFee r recipient poolActor userAmount poolAmount _ _ seedAmount =>
    deriveDepositWithFeeBalances read r recipient poolActor userAmount poolAmount seedAmount
      ammReserveActor
  | .topUpActionBudget gasResource gasAmount _ poolActor =>
    deriveTopUpBalances read gasResource gasAmount signer poolActor
  | .topUpActionBudgetFor recipient gasResource gasAmount _ poolActor =>
    deriveDelegatedTopUpBalances read gasResource gasAmount signer poolActor recipient
  | .claimBudgetRefund gasResource budgetUnits weiPerBudgetUnit poolActor =>
    deriveRefundBalances read gasResource (budgetUnits * weiPerBudgetUnit) poolActor signer
  | .reclaimAmmReserves r amount reserveActor poolActor =>
    deriveReclaimBalances read r amount reserveActor poolActor
  | .reserveSwap fromResource toResource user amountIn minAmountOut reserveActor =>
    deriveReserveSwapBalances read fromResource toResource user amountIn minAmountOut reserveActor
  | _ => some []

/-- The planned balance of an actor, if all entries for it agree. -/
def plannedBalanceAt (plan : BalancePlan) (r : ResourceId) (a : ActorId) : Option ℕ :=
  match plan.filter (fun p => p.1 == (r, a)) with
  | [] => none
  | p :: ps => if ps.all (fun q => q.2 == p.2) then some p.2 else none

end Balances

/-- The budget of `target` after the grant of an action of `signer`. -/
def applyGrantAt (a : Action) (signer : ActorId) (freeTier currentEpoch : ℕ) (target : ActorId)
    (pre : ActorBudget) : ActorBudget :=
  match grantOf signer a with
  | none => pre
  | some (recipient, grant) =>
    if target = recipient then pre.topUp currentEpoch freeTier grant else pre

/-- The budget of `target` after an action of `signer`.  If the signer cannot pay, no budget
changes. -/
def deriveEpochBudget (policy : BudgetPolicy) (signerPre targetPre : ActorBudget) (a : Action)
    (signer target : ActorId) : ActorBudget :=
  match policy with
  | .bounded freeTier actionCost currentEpoch =>
    if signer = bridgeActor then
      applyGrantAt a signer freeTier currentEpoch target targetPre
    else
      match signerPre.consume currentEpoch freeTier (actionCost + refundConsumeExtra a) with
      | none => targetPre
      | some consumed =>
        applyGrantAt a signer freeTier currentEpoch target
          (if target = signer then consumed else targetPre)

def deriveEpochBudgetCellValue (policyValue signerValue targetValue : Bytes) (a : Action)
    (signer target : ActorId) : Option Bytes := do
  let policy ← exactly (BudgetPolicy.decode policyValue)
  let signerPre ← exactly (ActorBudget.decode signerValue)
  let targetPre ← exactly (ActorBudget.decode targetValue)
  some (deriveEpochBudget policy signerPre targetPre a signer target).encode

/-- A counter cell goes up by one. -/
def deriveCounterCellValue (preValue : Bytes) : Option Bytes := do
  let n ← exactly (decodeNat preValue)
  some (encodeNat (n + 1))

def deriveNonceCellValue : Bytes → Option Bytes := deriveCounterCellValue

def deriveNextWdIdCellValue : Bytes → Option Bytes := deriveCounterCellValue

def faultProofAdjudicable : Action → Bool
  | .distributeOthers .. => false
  | .proportionalDilute .. => false
  | _ => true

/-- The cells that an action writes, as far as the action alone names them. -/
def writeCells (a : Action) (signer : ActorId) : List CellTag :=
  match a with
  | .transfer r sender receiver _ =>
    [.balance r sender, .balance r receiver, .nonce signer, .epochBudget signer]
  | .mint r actor _ | .burn r actor _ | .reward r actor _ =>
    [.balance r actor, .nonce signer, .epochBudget signer]
  | .replaceKey actor _ | .registerIdentity actor _ =>
    [.registry actor, .nonce signer, .epochBudget signer]
  | .deposit r recipient _ depositId =>
    [.balance r recipient, .nonce signer, .epochBudget signer, .bridgeConsumed depositId]
  | .withdraw r sender _ _ =>
    [.balance r sender, .nonce signer, .epochBudget signer, .bridgeNextWdId]
  | .declareLocalPolicy _ | .revokeLocalPolicy =>
    [.localPolicy signer, .nonce signer, .epochBudget signer]
  | .depositWithFee r recipient poolActor _ _ _ depositId _ =>
    [.balance r recipient, .balance r poolActor, .balance r ammReserveActor,
      .bridgeConsumed depositId, .nonce signer, .epochBudget signer, .epochBudget recipient]
  | .topUpActionBudget gasResource _ _ poolActor
  | .claimBudgetRefund gasResource _ _ poolActor =>
    [.balance gasResource signer, .balance gasResource poolActor, .nonce signer,
      .epochBudget signer]
  | .topUpActionBudgetFor recipient gasResource _ _ poolActor =>
    [.balance gasResource signer, .balance gasResource poolActor, .nonce signer,
      .epochBudget signer, .epochBudget recipient]
  | .reclaimAmmReserves r _ reserveActor poolActor =>
    [.balance r reserveActor, .balance r poolActor, .nonce signer, .epochBudget signer]
  | .reserveSwap fromResource toResource user _ _ reserveActor =>
    [.balance fromResource user, .balance fromResource reserveActor,
      .balance toResource reserveActor, .balance toResource user, .nonce signer,
      .epochBudget signer]
  | _ => [.nonce signer, .epochBudget signer]

/-- The cells that an action writes.  A withdrawal is filed under the next identifier. -/
def verifierWriteCells (a : Action) (signer : ActorId) (nextWdIdPre : ℕ) : List CellTag :=
  writeCells a signer ++
    match a with
    | .withdraw .. => [.bridgePending nextWdIdPre]
    | _ => []

/-- The value of a cell after an action, from the values before it. -/
def derivedCellValue (read : CellTag → Option Bytes) (policyValue : Bytes) (a : Action)
    (signer : ActorId) (l2LogIndex : ℕ) (plan : BalancePlan) : CellTag → Option Bytes
  | .balance r actor => (plannedBalanceAt plan r actor).map encodeAmount
  | .nonce actor => (read (.nonce actor)).bind deriveNonceCellValue
  | .epochBudget target => do
    let signerValue ← read (.epochBudget signer)
    let targetValue ← read (.epochBudget target)
    deriveEpochBudgetCellValue policyValue signerValue targetValue a signer target
  | .registry _ =>
    match a with
    | .replaceKey _ key | .registerIdentity _ key => some (encodeBytes key)
    | _ => none
  | .localPolicy _ =>
    match a with
    | .declareLocalPolicy policy => some policy.encode
    | .revokeLocalPolicy => some []
    | _ => none
  | .bridgeConsumed _ =>
    match a with
    | .deposit r _ amount _ => some (DepositRecord.encode ⟨r, amount, 0, 0⟩)
    | .depositWithFee r _ _ userAmount poolAmount grant _ _ =>
      some (DepositRecord.encode ⟨r, userAmount, poolAmount, grant⟩)
    | _ => none
  | .bridgePending wid =>
    match a with
    | .withdraw r _ amount recipientL1 =>
      some (PendingWithdrawal.encode ⟨r, recipientL1, amount, l2LogIndex, wid⟩)
    | _ => none
  | .bridgeNextWdId => (read .bridgeNextWdId).bind deriveNextWdIdCellValue
  | _ => none

section DerivedValues

variable {read : CellTag → Option Bytes} {policyValue : Bytes} {a : Action} {signer : ActorId}
variable {l2LogIndex : ℕ} {plan : BalancePlan}

theorem derivedCellValue_balance {r : ResourceId} {actor : ActorId} :
    derivedCellValue read policyValue a signer l2LogIndex plan (.balance r actor) =
      (plannedBalanceAt plan r actor).map encodeAmount :=
  rfl

theorem derivedCellValue_nonce {actor : ActorId} :
    derivedCellValue read policyValue a signer l2LogIndex plan (.nonce actor) =
      (read (.nonce actor)).bind deriveNonceCellValue :=
  rfl

theorem derivedCellValue_nextWdId :
    derivedCellValue read policyValue a signer l2LogIndex plan .bridgeNextWdId =
      (read .bridgeNextWdId).bind deriveNextWdIdCellValue :=
  rfl

theorem derivedCellValue_epochBudget {target : ActorId} :
    derivedCellValue read policyValue a signer l2LogIndex plan (.epochBudget target) =
      (read (.epochBudget signer)).bind (fun signerValue =>
        (read (.epochBudget target)).bind (fun targetValue =>
          deriveEpochBudgetCellValue policyValue signerValue targetValue a signer target)) :=
  rfl

end DerivedValues

section Frontier

variable [Keccak]

/-- The highest level below `d` at which two keys part. -/
def divBelow : ℕ → Bytes → Bytes → Option ℕ
  | 0, _, _ => none
  | d + 1, a, b => if keyBit a d != keyBit b d then some d else divBelow d a b

/-- The order of the keys in the tree, from left to right. -/
def pathLess (a b : Bytes) : Bool :=
  match divBelow smtDepth a b with
  | none => false
  | some d => !keyBit a d

/-- Insert a cell in path order, unless its place is taken. -/
def frontierInsert (t : CellTag) : List CellTag → List CellTag
  | [] => [t]
  | u :: rest =>
    if smtCellKey t == smtCellKey u then u :: rest
    else if pathLess (smtCellKey t) (smtCellKey u) then t :: u :: rest
    else u :: frontierInsert t rest

/-- The cells of a list in path order, one for each place. -/
def frontierOf (ts : List CellTag) : List CellTag := ts.foldr frontierInsert []

def pathInsert (t : CellTag) : List CellTag → List CellTag
  | [] => [t]
  | u :: rest =>
    if pathLess (smtCellKey t) (smtCellKey u) then t :: u :: rest
    else u :: pathInsert t rest

def pathSort (ts : List CellTag) : List CellTag := ts.foldr pathInsert []

/-- The submitted cells are the derived ones, in any order. -/
def frontierShapeOk (derived submitted : List CellTag) : Bool :=
  pathSort submitted == frontierOf derived

end Frontier

section Bundles

/-- Cells with their values before the step, and the multiproof that opens them. -/
structure MultiBundle where
  cells : List (CellTag × Bytes)
  proof : SmtMultiProof

namespace MultiBundle

def valueAt (b : MultiBundle) (t : CellTag) : Option Bytes :=
  (b.cells.find? (fun c => c.1 == t)).map Prod.snd

def balanceReader (b : MultiBundle) : BalanceReader :=
  fun r a => (b.valueAt (.balance r a)).bind (fun v => exactly (decodeAmount v))

/-- The next withdrawal identifier, zero where the bundle has none. -/
def nextWdId (b : MultiBundle) : ℕ :=
  ((b.valueAt .bridgeNextWdId).bind (fun v => exactly (decodeNat v))).getD 0

end MultiBundle

variable [Keccak]

/-- The cells that a step opens: those it writes and the budget policy. -/
def stepCells (a : Action) (signer : ActorId) (nextWdIdPre : ℕ) : List CellTag :=
  .budgetPolicy :: verifierWriteCells a signer nextWdIdPre

def multiFrontierOf (a : Action) (signer : ActorId) (nextWdIdPre : ℕ) : List CellTag :=
  frontierOf (stepCells a signer nextWdIdPre)

/-- The opened leaves of the cells that have a value. -/
def openedWith (value : CellTag → Option Bytes) (ts : List CellTag) : List OpenedLeaf :=
  ts.filterMap (fun t => (value t).map (fun v => (smtCellKey t, cellLeaf t v)))

/-- The root after the step, if the bundle opens the right cells under `preRoot`. -/
def verifierPostRootMulti (preRoot : Bytes) (a : Action) (signer : ActorId) (l2LogIndex : ℕ)
    (b : MultiBundle) : Option Bytes :=
  if ¬ faultProofAdjudicable a then none
  else
    let expected := multiFrontierOf a signer b.nextWdId
    if ¬ frontierShapeOk (stepCells a signer b.nextWdId) (b.cells.map Prod.fst) then none
    else do
      let policyValue ← b.valueAt .budgetPolicy
      let plan ← plannedBalances b.balanceReader a signer
      let preOpened := openedWith b.valueAt expected
      let postOpened := openedWith
        (fun t =>
          if t = .budgetPolicy then b.valueAt t
          else derivedCellValue b.valueAt policyValue a signer l2LogIndex plan t)
        expected
      if preOpened.length ≠ expected.length then none
      else if postOpened.length ≠ expected.length then none
      else
        let levels := multiGapLevels smtDepth preOpened
        if ¬ b.proof.isWellFormedFor levels then none
        else
          let sibs := expandMultiProof levels b.proof
          match multiWalk smtDepth preOpened sibs with
          | some (r, []) =>
            if r ≠ preRoot then none
            else
              match multiWalk smtDepth postOpened sibs with
              | some (r', []) => some r'
              | _ => none
          | _ => none

end Bundles

end Knomosis.FaultProof
