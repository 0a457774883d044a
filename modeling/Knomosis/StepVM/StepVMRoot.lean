import Knomosis.StepVM.StepWrites

/-!
# KnomosisStepVMRoot

One step of the contract: it derives the cells that an action writes, requires
that exactly these and the budget policy are opened, derives the new values and
folds old and new leaves along one multiproof.  The opened cells may come in any
order; the contract sorts them by their place in the tree.
-/

namespace Knomosis.StepVM

open Lib Contracts Smt
open StepWrites CBEEncode

namespace StepPlan

/-- What the step makes of the balances and the budgets. -/
structure Plan where
  newBal0 : ℕ
  newBal1 : ℕ
  newBal2 : ℕ
  newBal3 : ℕ
  grant : Grant

def planGrant (actionKind : ℕ) (fields : Bytes) (signer : ℕ) : Except StepError Grant :=
  match actionKind with
  | 19 => do
    let recipient ← readField64 fields 8
    let amount ← readFieldUint fields 88 8
    .ok ⟨true, recipient, amount, 0⟩
  | 20 => do
    let amount ← readFieldUint fields 40 8
    .ok ⟨true, signer, amount, 0⟩
  | 21 => do
    let recipient ← readField64 fields 0
    let amount ← readFieldUint fields 48 8
    .ok ⟨true, recipient, amount, 0⟩
  | 22 => do
    let units ← readFieldUint fields 8 8
    .ok ⟨false, 0, 0, units⟩
  | _ => .ok ⟨false, 0, 0, 0⟩

/-- A refund is a top-up from the pool to the claimant.  Its amount is a product that may
wrap. -/
def planRefundBalances (fields : Bytes) (signer claimantPre poolPre : ℕ) :
    Except StepError (ℕ × ℕ) := do
  let units ← readFieldUint fields 8 8
  let rate ← readFieldUint fields 16 32
  let refundAmount := truncate 256 (units * rate)
  let fits := units == 0 || refundAmount / units == rate
  let poolActor ← readField64 fields 48
  let (newPool, newClaimant) ← deriveTopUpBalances poolPre claimantPre poolActor signer
    refundAmount (fits && decide (refundAmount ≤ poolPre))
  .ok (newClaimant, newPool)

def planBalances (actionKind : ℕ) (fields : Bytes) (signer pre0 pre1 : ℕ) :
    Except StepError (ℕ × ℕ) :=
  match actionKind with
  | 0 => do
    let sender ← readField64 fields 8
    let receiver ← readField64 fields 16
    let amount ← readFieldUint fields 24 32
    deriveTransferBalances pre0 pre1 sender receiver amount
  | 1 | 5 => do
    let amount ← readFieldUint fields 16 32
    let new0 ← deriveCreditBalance pre0 amount
    .ok (new0, pre1)
  | 2 | 14 => do
    let amount ← readFieldUint fields 16 32
    let new0 ← deriveDebitBalance pre0 amount
    .ok (new0, pre1)
  | 13 => do
    let amount ← readFieldUint fields 16 32
    let new0 ← deriveDepositBalance pre0 amount
    .ok (new0, pre1)
  | 20 => do
    let gasAmount ← readFieldUint fields 8 32
    let poolActor ← readField64 fields 48
    deriveTopUpBalances pre0 pre1 signer poolActor gasAmount (decide (gasAmount ≤ pre0))
  | 21 => do
    let gasAmount ← readFieldUint fields 16 32
    let poolActor ← readField64 fields 56
    let recipient ← readField64 fields 0
    deriveTopUpBalances pre0 pre1 signer poolActor gasAmount
      (decide (gasAmount ≤ pre0) && recipient != signer)
  | 22 => planRefundBalances fields signer pre0 pre1
  | 24 => do
    let reserveActor ← readField64 fields 40
    let poolActor ← readField64 fields 48
    let amount ← readFieldUint fields 8 32
    deriveReclaimBalances pre0 pre1 reserveActor poolActor amount
  | _ => .ok (pre0, pre1)

def planBalances4 (actionKind : ℕ) (fields : Bytes) (signer pre0 pre1 pre2 pre3 : ℕ) :
    Except StepError (ℕ × ℕ × ℕ × ℕ) :=
  match actionKind with
  | 25 => do
    let fromResource ← readField64 fields 0
    let toResource ← readField64 fields 8
    let user ← readField64 fields 16
    let reserveActor ← readField64 fields 88
    let amountIn ← readFieldUint fields 24 32
    let minAmountOut ← readFieldUint fields 56 32
    deriveReserveSwapBalances pre0 pre1 pre2 pre3 fromResource toResource user reserveActor
      amountIn minAmountOut
  | 19 => do
    let recipient ← readField64 fields 8
    let poolActor ← readField64 fields 16
    let userAmount ← readFieldUint fields 24 32
    let poolAmount ← readFieldUint fields 56 32
    let seedAmount ← readFieldUint fields 104 32
    let (new0, new1, new2) ← deriveDepositWithFeeBalances pre0 pre1 pre2 recipient poolActor
      AMM_RESERVE_ACTOR userAmount poolAmount seedAmount
    .ok (new0, new1, new2, pre3)
  | _ => do
    let (new0, new1) ← planBalances actionKind fields signer pre0 pre1
    .ok (new0, new1, pre2, pre3)

end StepPlan

/-- A cell opened by the caller, with its value before the step.  The bounds are those of the
argument's type. -/
structure OpenedCell where
  cell : Cell
  preValue : Bytes
  kind_lt : cell.kind < 2 ^ 8
  keyA_lt : cell.keyA < 2 ^ 256
  keyB_lt : cell.keyB < 2 ^ 256
  preValue_lt : preValue.length < 2 ^ 64
deriving DecidableEq

def CELL_BALANCE : ℕ := 0
def CELL_NONCE : ℕ := 1
def CELL_REGISTRY : ℕ := 2
def CELL_LOCAL_POLICY : ℕ := 3
def CELL_BRIDGE_CONSUMED : ℕ := 4
def CELL_BRIDGE_PENDING : ℕ := 5
def CELL_BRIDGE_NEXT_WD_ID : ℕ := 6
def CELL_EPOCH_BUDGET : ℕ := 13
def CELL_BUDGET_POLICY : ℕ := 14
def MAX_CELL_OPENINGS : ℕ := 32

/-- `type(uint256).max`, which stands for no index. -/
def noIndex : ℕ := 2 ^ 256 - 1

def policyCell : Cell := ⟨CELL_BUDGET_POLICY, 0, 0⟩

section Opened

variable (opened : List OpenedCell)

/-- The next withdrawal identifier, zero where no cell of its kind is opened. -/
def nextWdIdPreMulti : Except StepError ℕ :=
  match opened.find? (fun o => o.cell.kind == CELL_BRIDGE_NEXT_WD_ID) with
  | some o => decodeNonce o.preValue
  | none => .ok 0

/-- The first opened cell with this kind and key. -/
def findOpened (c : Cell) : Option OpenedCell := opened.find? (fun o => o.cell == c)

def openedValue (c : Cell) : Except StepError Bytes :=
  match findOpened opened c with
  | some o => .ok o.preValue
  | none => .error (.frontierMissingCell noIndex)

/-- The number of cells that none before them equals. -/
def countNew : List Cell → List Cell → ℕ
  | _, [] => 0
  | seen, c :: cells => (if c ∈ seen then 0 else 1) + countNew (seen ++ [c]) cells

/-- The number of cells to open: the policy and the distinct written ones. -/
def frontierSize (cells : List Cell) : ℕ := 1 + countNew [] cells

/-- The first written cell that is not opened. -/
def firstMissing : ℕ → List Cell → Option ℕ
  | _, [] => none
  | i, c :: cells => if (findOpened opened c).isNone then some i else firstMissing (i + 1) cells

def requireFrontier (cells : List Cell) : Except StepError Unit :=
  if opened.length ≠ frontierSize cells then
    .error (.frontierLengthMismatch (frontierSize cells) opened.length)
  else if (findOpened opened policyCell).isNone then .error (.frontierMissingCell noIndex)
  else
    match firstMissing opened 0 cells with
    | some i => .error (.frontierMissingCell i)
    | none => .ok ()

/-- The value of written cell `i` before the step if it is a balance, zero if not. -/
def balancePreAt (cells : List Cell) (i : ℕ) : Except StepError ℕ :=
  match cells[i]? with
  | some c =>
    if c.kind = CELL_BALANCE then do
      let value ← openedValue opened c
      decodeAmount value
    else .ok 0
  | none => .ok 0

def planMulti (actionKind : ℕ) (actionFields : Bytes) (signer : ℕ) (cells : List Cell) :
    Except StepError StepPlan.Plan := do
  let pre0 ← balancePreAt opened cells 0
  let pre1 ← balancePreAt opened cells 1
  let pre2 ← balancePreAt opened cells 2
  let pre3 ← balancePreAt opened cells 3
  let (new0, new1, new2, new3) ←
    StepPlan.planBalances4 actionKind actionFields signer pre0 pre1 pre2 pre3
  let grant ← StepPlan.planGrant actionKind actionFields signer
  .ok ⟨new0, new1, new2, new3, grant⟩

def deriveConsumed (actionKind : ℕ) (fields : Bytes) : Except StepError Bytes :=
  if actionKind = 13 then do
    let resource ← readFieldUint fields 0 8
    let amount ← readFieldUint fields 16 32
    deriveConsumedCellValue resource amount 0 0
  else do
    let resource ← readFieldUint fields 0 8
    let user ← readFieldUint fields 24 32
    let pool ← readFieldUint fields 56 32
    let grant ← readFieldUint fields 88 8
    deriveConsumedCellValue resource user pool grant

/-- Written cell `j` is the balance cell `c`. -/
def balanceSlot (cells : List Cell) (j : ℕ) (c : Cell) : Bool :=
  (cells[j]?).any (fun w => w.kind == CELL_BALANCE && w.keyA == c.keyA && w.keyB == c.keyB)

/-- The value after the step of opened cell number `i`. -/
def deriveValueMulti (i : ℕ) (o : OpenedCell) (cells : List Cell) (actionKind : ℕ)
    (actionFields : Bytes) (signer l2LogIndex : ℕ) (policyValue : Bytes)
    (plan : StepPlan.Plan) : Except StepError Bytes :=
  let kind := o.cell.kind
  if kind = CELL_BALANCE then
    if balanceSlot cells 0 o.cell then amountValue plan.newBal0
    else if balanceSlot cells 1 o.cell then amountValue plan.newBal1
    else if balanceSlot cells 2 o.cell then amountValue plan.newBal2
    else if balanceSlot cells 3 o.cell then amountValue plan.newBal3
    else .error (.writeSetMismatch i)
  else if kind = CELL_NONCE then deriveNonce o.preValue
  else if kind = CELL_EPOCH_BUDGET then do
    let signerValue ← openedValue opened ⟨CELL_EPOCH_BUDGET, signer, 0⟩
    deriveEpochBudgetCellValue policyValue signerValue o.preValue signer
      (truncate 64 o.cell.keyA) plan.grant
  else if kind = CELL_REGISTRY then deriveRegistryFromFields actionFields
  else if kind = CELL_LOCAL_POLICY then
    if actionKind = 15 then .ok (deriveDeclaredPolicyCellValue actionFields)
    else .ok deriveRevokedPolicyCellValue
  else if kind = CELL_BRIDGE_CONSUMED then deriveConsumed actionKind actionFields
  else if kind = CELL_BRIDGE_PENDING then
    if actionFields.length < 68 then
      .error (.actionFieldsTooShort actionKind actionFields.length)
    else do
      let resource ← readFieldUint actionFields 0 8
      let amount ← readFieldUint actionFields 16 32
      derivePendingCellValue resource ((actionFields.drop 48).take 20) amount l2LogIndex o.cell.keyA
  else deriveNextWdIdCellValue o.preValue

/-- The value with which an opened cell is folded after the step; the policy keeps its own. -/
def newValueMulti (i : ℕ) (o : OpenedCell) (cells : List Cell) (actionKind : ℕ)
    (actionFields : Bytes) (signer l2LogIndex : ℕ) (policyValue : Bytes)
    (plan : StepPlan.Plan) : Except StepError Bytes :=
  if o.cell.kind = CELL_BUDGET_POLICY then .ok o.preValue
  else deriveValueMulti opened i o cells actionKind actionFields signer l2LogIndex policyValue plan

end Opened

section Execution

variable [Keccak]

/-- The place of a cell in the tree. -/
def deriveCellSmtKey (c : Cell) : Bytes32 :=
  keccak256 (UInt8.ofNat c.kind :: (beBytes 32 c.keyA ++ beBytes 32 c.keyB))

def emptyLeafHash : Bytes32 := keccak256 emptyLeafSeedBytes

def leafPreimage (smtKey : Bytes32) (value : Bytes) : Except StepError Bytes := do
  let key ← bytesValue (bytes32Bytes smtKey)
  let value ← bytesValue value
  .ok (key ++ value)

/-- The leaf of a cell that holds `value`. -/
def cellLeafHash (c : Cell) (value : Bytes) : Except StepError Bytes32 := do
  let isAbsent ← isCanonicallyAbsent c.kind value
  let preimage ← leafPreimage (deriveCellSmtKey c) value
  .ok (if isAbsent then emptyLeafHash else keccak256 preimage)

/-- The index by which the opened cells are sorted. -/
def pathOf (o : OpenedCell) : Bytes32 := pathIndex (deriveCellSmtKey o.cell)

/-- Insert a cell into the cells sorted so far, of which the last comes first. -/
def insertPath (x : OpenedCell × ℕ) : List (OpenedCell × ℕ) → List (OpenedCell × ℕ)
  | [] => [x]
  | y :: sorted => if pathOf x.1 < pathOf y.1 then y :: insertPath x sorted else x :: y :: sorted

/-- The opened cells and their numbers, in path order. -/
def pathOrder (opened : List OpenedCell) : List (OpenedCell × ℕ) :=
  (opened.zipIdx.foldl (fun sorted x => insertPath x sorted) []).reverse

/-- The path index and the two leaves of each opened cell, in path order. -/
def multiLeaves (cells : List Cell) (opened : List OpenedCell) (actionKind : ℕ)
    (actionFields : Bytes) (signer l2LogIndex : ℕ) :
    Except StepError (List (Bytes32 × Bytes32 × Bytes32)) := do
  let policyValue ← openedValue opened policyCell
  let plan ← planMulti opened actionKind actionFields signer cells
  (pathOrder opened).mapM fun x => do
    let preLeaf ← cellLeafHash x.1.cell x.1.preValue
    let newValue ← newValueMulti opened x.2 x.1 cells actionKind actionFields signer l2LogIndex
      policyValue plan
    let postLeaf ← cellLeafHash x.1.cell newValue
    .ok (pathOf x.1, preLeaf, postLeaf)

/-- The root after the step, if the opened cells fold to `preStateRoot`. -/
def executeStepToRootMulti (preStateRoot : Bytes32) (actionKind : ℕ) (actionFields : Bytes)
    (signer l2LogIndex : ℕ) (opened : List OpenedCell) (gapMask siblings : Calldata) :
    Except StepError Bytes32 :=
  if MAX_CELL_OPENINGS < opened.length then .error (.tooManyCellOpenings opened.length)
  else if !isAdjudicable actionKind then .error (.actionNotAdjudicable actionKind)
  else do
    let nextWdIdPre ← nextWdIdPreMulti opened
    let cells ← deriveWriteSet actionKind actionFields signer nextWdIdPre
    requireFrontier opened cells
    let leaves ← multiLeaves cells opened actionKind actionFields signer l2LogIndex
    match multiWalkPair (leaves.map (·.1)) (leaves.map (·.2.1)) (leaves.map (·.2.2)) gapMask
        siblings precomputeEmptySubtreeHashes with
    | .error e => .error (.multiProof e)
    | .ok (preRoot, postStateRoot) =>
      if preRoot ≠ preStateRoot then .error (.preRootMismatch preStateRoot preRoot)
      else .ok postStateRoot

end Execution

end Knomosis.StepVM
