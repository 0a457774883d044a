import Knomosis.Kernel.Budget
import Knomosis.Smt.SmtMultiVerifier

/-!
# StepWrites

The contract's derivation of what an action writes: the cells, from the action's
packed fields, and the new values, from the values before the step.  A `uint256`
is a natural number here; arithmetic that the compiler checks goes through the
checked operations, arithmetic in an `unchecked` block wraps.
-/

namespace Knomosis.StepVM

open Lib Contracts Smt
open Kernel (ActorBudget)

inductive StepError where
  | malformedCellValue
  | cbeValueTooWide (value widthBytes : ℕ)
  | actionNotAdjudicable (actionKind : ℕ)
  | actionFieldsTooShort (actionKind length : ℕ)
  | insufficientInput
  | insufficientLiquidity
  | feeTooHigh
  | arithmetic
  | writeSetMismatch (index : ℕ)
  | tooManyCellOpenings (count : ℕ)
  | frontierMissingCell (index : ℕ)
  | frontierLengthMismatch (expected got : ℕ)
  | preRootMismatch (expected got : Bytes32)
  | multiProof (e : MultiProofError)
deriving DecidableEq

def add256 (a b : ℕ) : Except StepError ℕ := checked (checkedAdd 256 a b) .arithmetic .ok

def sub256 (a b : ℕ) : Except StepError ℕ := if a < b then .error .arithmetic else .ok (a - b)

def mul256 (a b : ℕ) : Except StepError ℕ := checked (checkedMul 256 a b) .arithmetic .ok

namespace CBEEncode

def CBE_TAG_UINT : UInt8 := 0x00
def CBE_TAG_AMOUNT : UInt8 := 0x06
def CBE_TAG_BYTES : UInt8 := 0x02

/-- The low bytes of a number that has no others. -/
def leBytes (n widthBytes : ℕ) : Except StepError Bytes :=
  if widthBytes < 32 ∧ 2 ^ (8 * widthBytes) ≤ n then .error (.cbeValueTooWide n widthBytes)
  else .ok (Lib.leBytes widthBytes n)

def uintValue (n : ℕ) : Except StepError Bytes := do
  let field ← leBytes n 8
  .ok (CBE_TAG_UINT :: field)

def amountValue (n : ℕ) : Except StepError Bytes := do
  let field ← leBytes n 32
  .ok (CBE_TAG_AMOUNT :: field)

def bytesValue (payload : Bytes) : Except StepError Bytes := do
  let field ← leBytes payload.length 8
  .ok (CBE_TAG_BYTES :: field ++ payload)

def epochBudgetValue (lastSeenEpoch budgetBalance : ℕ) : Except StepError Bytes := do
  let epoch ← uintValue lastSeenEpoch
  let balance ← uintValue budgetBalance
  .ok (epoch ++ balance)

end CBEEncode

namespace AmmMath

def BPS_DENOMINATOR : ℕ := 10000
def SWAP_FEE_BPS : ℕ := 30
def MINIMUM_LIQUIDITY : ℕ := 1000

def getAmountOut (amountIn reserveIn reserveOut feeBps : ℕ) : Except StepError ℕ :=
  if amountIn = 0 then .error .insufficientInput
  else if reserveIn = 0 ∨ reserveOut = 0 then .error .insufficientLiquidity
  else if BPS_DENOMINATOR ≤ feeBps then .error .feeTooHigh
  else do
    let amountInWithFee ← mul256 amountIn (BPS_DENOMINATOR - feeBps)
    let numerator ← mul256 amountInWithFee reserveOut
    let scaled ← mul256 reserveIn BPS_DENOMINATOR
    let denominator ← add256 scaled amountInWithFee
    .ok (numerator / denominator)

end AmmMath

namespace StepWrites

open CBEEncode

structure BudgetPolicy where
  freeTier : ℕ
  actionCost : ℕ
  currentEpoch : ℕ
deriving DecidableEq

/-- A cell of the state: its kind and the two numbers of its key. -/
structure Cell where
  kind : ℕ
  keyA : ℕ
  keyB : ℕ
deriving DecidableEq

def BRIDGE_ACTOR : ℕ := 0
def AMM_RESERVE_ACTOR : ℕ := 3
def CBE_UINT_LEN : ℕ := 9
def CBE_AMOUNT_LEN : ℕ := 33

/-- A little-endian field behind its tag, at an offset. -/
def readTagged (tag : UInt8) (width : ℕ) (data : Bytes) (offset : ℕ) : Except StepError ℕ :=
  if data.length < offset + (width + 1) then .error .malformedCellValue
  else if data[offset]? ≠ some tag then .error .malformedCellValue
  else .ok (leNat ((data.drop (offset + 1)).take width))

def readUint : Bytes → ℕ → Except StepError ℕ := readTagged CBE_TAG_UINT 8

def readAmount : Bytes → ℕ → Except StepError ℕ := readTagged CBE_TAG_AMOUNT 32

def decodeNonce (value : Bytes) : Except StepError ℕ :=
  if value.length ≠ CBE_UINT_LEN then .error .malformedCellValue else readUint value 0

def decodeAmount (value : Bytes) : Except StepError ℕ :=
  if value.length ≠ CBE_AMOUNT_LEN then .error .malformedCellValue else readAmount value 0

def decodeActorBudget (value : Bytes) : Except StepError ActorBudget :=
  if value.length ≠ 2 * CBE_UINT_LEN then .error .malformedCellValue
  else do
    let lastSeenEpoch ← readUint value 0
    let budgetBalance ← readUint value CBE_UINT_LEN
    .ok ⟨lastSeenEpoch, budgetBalance⟩

/-- Read a policy.  The price of an action may be zero. -/
def decodeBudgetPolicy (value : Bytes) : Except StepError BudgetPolicy :=
  if value.length ≠ 4 * CBE_UINT_LEN then .error .malformedCellValue
  else do
    let variant ← readUint value 0
    if variant ≠ 0 then .error .malformedCellValue
    else
      let freeTier ← readUint value CBE_UINT_LEN
      let actionCost ← readUint value (2 * CBE_UINT_LEN)
      let currentEpoch ← readUint value (3 * CBE_UINT_LEN)
      .ok ⟨freeTier, actionCost, currentEpoch⟩

/-- The big-endian number at an offset of the packed fields. -/
def fieldAt (fields : Bytes) (offset width : ℕ) : ℕ := beNat ((fields.drop offset).take width)

def readFieldUint (fields : Bytes) (offset width : ℕ) : Except StepError ℕ :=
  if fields.length < offset + width then .error (.actionFieldsTooShort 0 fields.length)
  else .ok (fieldAt fields offset width)

def readField64 (fields : Bytes) (offset : ℕ) : Except StepError ℕ := do
  let v ← readFieldUint fields offset 8
  .ok (truncate 64 v)

/-- A counter cell goes up by one. -/
def deriveNonce (preValue : Bytes) : Except StepError Bytes := do
  let n ← decodeNonce preValue
  let next ← add256 n 1
  uintValue next

def deriveNextWdIdCellValue : Bytes → Except StepError Bytes := deriveNonce

def normalise (b : ActorBudget) (now freeTier : ℕ) : ActorBudget :=
  if b.lastSeenEpoch < now then
    ⟨now, if freeTier < b.budgetBalance then b.budgetBalance else freeTier⟩
  else b

def topUp (b : ActorBudget) (now freeTier amount : ℕ) : Except StepError ActorBudget := do
  let bn := normalise b now freeTier
  let balance ← add256 bn.budgetBalance amount
  .ok ⟨bn.lastSeenEpoch, balance⟩

/-- Whether the budget covers the cost, and what is left of it. -/
def consume (b : ActorBudget) (now freeTier cost : ℕ) : Except StepError (Bool × ActorBudget) :=
  let bn := normalise b now freeTier
  if cost ≤ bn.budgetBalance then do
    let balance ← sub256 bn.budgetBalance cost
    .ok (true, ⟨bn.lastSeenEpoch, balance⟩)
  else .ok (false, b)

/-- Who is granted how much by the action, and what a refund burns on top of the price. -/
structure Grant where
  grants : Bool
  grantRecipient : ℕ
  grantAmount : ℕ
  refundExtra : ℕ

def applyGrantAt (target : ℕ) (g : Grant) (freeTier currentEpoch : ℕ) (pre : ActorBudget) :
    Except StepError ActorBudget :=
  if !g.grants ∨ target ≠ g.grantRecipient then .ok pre
  else topUp pre currentEpoch freeTier g.grantAmount

def deriveEpochBudget (policy : BudgetPolicy) (signerPre targetPre : ActorBudget)
    (signer target : ℕ) (g : Grant) : Except StepError ActorBudget :=
  if signer = BRIDGE_ACTOR then
    applyGrantAt target g policy.freeTier policy.currentEpoch targetPre
  else do
    let cost ← add256 policy.actionCost g.refundExtra
    let (ok, consumed) ← consume signerPre policy.currentEpoch policy.freeTier cost
    if !ok then .ok targetPre
    else
      applyGrantAt target g policy.freeTier policy.currentEpoch
        (if target = signer then consumed else targetPre)

def deriveEpochBudgetCellValue (policyValue signerValue targetValue : Bytes)
    (signer target : ℕ) (g : Grant) : Except StepError Bytes := do
  let policy ← decodeBudgetPolicy policyValue
  let signerPre ← decodeActorBudget signerValue
  let targetPre ← decodeActorBudget targetValue
  let out ← deriveEpochBudget policy signerPre targetPre signer target g
  epochBudgetValue out.lastSeenEpoch out.budgetBalance

def creditFits (bal amount : ℕ) : Bool := bal ≤ truncate 256 (bal + amount)

def deriveTransferBalances (senderBal receiverBal sender receiver amount : ℕ) :
    Except StepError (ℕ × ℕ) :=
  if 0 < amount ∧ amount ≤ senderBal then
    if sender = receiver then .ok (senderBal, senderBal)
    else if !creditFits receiverBal amount then .ok (senderBal, receiverBal)
    else do
      let newSender ← sub256 senderBal amount
      let newReceiver ← add256 receiverBal amount
      .ok (newSender, newReceiver)
  else .ok (senderBal, receiverBal)

def deriveCreditBalance (bal amount : ℕ) : Except StepError ℕ :=
  if 0 < amount ∧ creditFits bal amount then add256 bal amount else .ok bal

def deriveDebitBalance (bal amount : ℕ) : Except StepError ℕ :=
  if 0 < amount ∧ amount ≤ bal then sub256 bal amount else .ok bal

def deriveDepositBalance (bal amount : ℕ) : Except StepError ℕ :=
  if creditFits bal amount then add256 bal amount else .ok bal

/-- A debit and a credit, one after the other. -/
def deriveChainPair (xBal yBal x y debit credit : ℕ) : Except StepError (ℕ × ℕ) := do
  let nx ← sub256 xBal debit
  let ny ← add256 (if x = y then nx else yBal) credit
  .ok (if x = y then ny else nx, ny)

def deriveTopUpBalances (payerBal poolBal payer poolActor gasAmount : ℕ) (sufficient : Bool) :
    Except StepError (ℕ × ℕ) :=
  if !sufficient then .ok (payerBal, poolBal)
  else do
    let creditPre ← if payer = poolActor then sub256 payerBal gasAmount else .ok poolBal
    if !creditFits creditPre gasAmount then .ok (payerBal, poolBal)
    else deriveChainPair payerBal poolBal payer poolActor gasAmount gasAmount

def deriveDepositWithFeeBalances (recipientBal poolBal reserveBal recipient poolActor
    reserveActor userAmount poolAmount seedAmount : ℕ) : Except StepError (ℕ × ℕ × ℕ) :=
  if !creditFits recipientBal userAmount ∨ poolAmount < seedAmount then
    .ok (recipientBal, poolBal, reserveBal)
  else do
    let net ← sub256 poolAmount seedAmount
    let nx ← add256 recipientBal userAmount
    let r2 := if recipient = poolActor then nx else poolBal
    if !creditFits r2 net then .ok (recipientBal, poolBal, reserveBal)
    else
      let ny ← add256 r2 net
      let r3 := if poolActor = reserveActor then ny
        else if recipient = reserveActor then nx else reserveBal
      if !creditFits r3 seedAmount then .ok (recipientBal, poolBal, reserveBal)
      else
        let nz ← add256 r3 seedAmount
        .ok (if reserveActor = recipient then nz else if poolActor = recipient then ny else nx,
          if reserveActor = poolActor then nz else ny, nz)

def deriveReclaimBalances (reserveBal poolBal reserveActor poolActor amount : ℕ) :
    Except StepError (ℕ × ℕ) :=
  if reserveBal = amount ∧ reserveActor ≠ poolActor ∧ 0 < amount then do
    let creditPre ← if reserveActor = poolActor then sub256 reserveBal amount else .ok poolBal
    if creditFits creditPre amount then
      deriveChainPair reserveBal poolBal reserveActor poolActor amount amount
    else .ok (reserveBal, poolBal)
  else .ok (reserveBal, poolBal)

/-- The products and the sum that the quote of a swap needs do not wrap. -/
def reserveSwapDomainOk (amountIn reserveIn reserveOut : ℕ) : Bool :=
  let w := AmmMath.BPS_DENOMINATOR - AmmMath.SWAP_FEE_BPS
  let aiw := truncate 256 (amountIn * w)
  let aiwFits := amountIn == 0 || aiw / amountIn == w
  let num := truncate 256 (aiw * reserveOut)
  let numFits := aiwFits && (aiw == 0 || num / aiw == reserveOut)
  let ri := truncate 256 (reserveIn * AmmMath.BPS_DENOMINATOR)
  let riFits := reserveIn == 0 || ri / reserveIn == AmmMath.BPS_DENOMINATOR
  let den := truncate 256 (ri + aiw)
  numFits && riFits && decide (ri ≤ den)

def deriveReserveSwapBalances (preUserFrom preResFrom preResTo preUserTo fromResource toResource
    user reserveActor amountIn minAmountOut : ℕ) : Except StepError (ℕ × ℕ × ℕ × ℕ) :=
  if ¬ (0 < amountIn ∧ fromResource ≠ toResource ∧ user ≠ reserveActor ∧
      amountIn ≤ preUserFrom ∧ AmmMath.MINIMUM_LIQUIDITY ≤ preResFrom ∧
      AmmMath.MINIMUM_LIQUIDITY ≤ preResTo ∧ creditFits preResFrom amountIn ∧
      reserveSwapDomainOk amountIn preResFrom preResTo) then
    .ok (preUserFrom, preResFrom, preResTo, preUserTo)
  else do
    let q ← AmmMath.getAmountOut amountIn preResFrom preResTo AmmMath.SWAP_FEE_BPS
    -- the last two conditions are only looked at if the ones before them do not hold
    if q < (if 1 < minAmountOut then minAmountOut else 1) then
      .ok (preUserFrom, preResFrom, preResTo, preUserTo)
    else if !creditFits preUserTo q then
      .ok (preUserFrom, preResFrom, preResTo, preUserTo)
    else
      let left ← sub256 preResTo q
      if left < AmmMath.MINIMUM_LIQUIDITY then
        .ok (preUserFrom, preResFrom, preResTo, preUserTo)
      else
        let newUserFrom ← sub256 preUserFrom amountIn
        let newResFrom ← add256 preResFrom amountIn
        let newUserTo ← add256 preUserTo q
        .ok (newUserFrom, newResFrom, left, newUserTo)

def deriveRegistryFromFields (actionFields : Bytes) : Except StepError Bytes :=
  if actionFields.length < 8 then .error (.actionFieldsTooShort 0 actionFields.length)
  else bytesValue (actionFields.drop 8)

/-- The policy is stored as the action carries it. -/
def deriveDeclaredPolicyCellValue (actionFields : Bytes) : Bytes := actionFields

def deriveRevokedPolicyCellValue : Bytes := []

def deriveConsumedCellValue (resource userAmount poolAmount budgetGrant : ℕ) :
    Except StepError Bytes := do
  let resource ← uintValue resource
  let user ← amountValue userAmount
  let pool ← amountValue poolAmount
  let grant ← uintValue budgetGrant
  .ok (resource ++ user ++ pool ++ grant)

def derivePendingCellValue (resource : ℕ) (recipientL1 : Bytes) (amount l2LogIndex wdId : ℕ) :
    Except StepError Bytes := do
  let resource ← uintValue resource
  let recipient ← bytesValue recipientL1
  let amount ← amountValue amount
  let index ← uintValue l2LogIndex
  let wdId ← uintValue wdId
  .ok (resource ++ recipient ++ amount ++ index ++ wdId)

def isAdjudicable (actionKind : ℕ) : Bool :=
  decide (actionKind ≤ 25) && actionKind != 6 && actionKind != 7 && actionKind != 23

/-- Go on if the fields are long enough.  Every field that is read behind it is within `n`. -/
def need (actionKind : ℕ) (fields : Bytes) (n : ℕ) (out : List Cell) :
    Except StepError (List Cell) :=
  if fields.length < n then .error (.actionFieldsTooShort actionKind fields.length) else .ok out

/-- The cells that every action writes. -/
def uniform (signer : ℕ) : List Cell := [⟨1, signer, 0⟩, ⟨13, signer, 0⟩]

def deriveWriteSet (actionKind : ℕ) (fields : Bytes) (signer nextWdIdPre : ℕ) :
    Except StepError (List Cell) :=
  let field64 := fun offset => fieldAt fields offset 8
  match actionKind with
  | 0 =>
    need actionKind fields 56
      ([⟨0, field64 0, field64 8⟩, ⟨0, field64 0, field64 16⟩] ++ uniform signer)
  | 1 | 2 | 5 => need actionKind fields 48 ([⟨0, field64 0, field64 8⟩] ++ uniform signer)
  | 4 | 12 => need actionKind fields 8 ([⟨2, field64 0, 0⟩] ++ uniform signer)
  | 15 | 16 => .ok ([⟨3, signer, 0⟩] ++ uniform signer)
  | 13 =>
    need actionKind fields 56
      ([⟨0, field64 0, field64 8⟩] ++ uniform signer ++ [⟨4, field64 48, 0⟩])
  | 14 =>
    need actionKind fields 48
      ([⟨0, field64 0, field64 8⟩] ++ uniform signer ++ [⟨6, 0, 0⟩, ⟨5, nextWdIdPre, 0⟩])
  | 19 =>
    need actionKind fields 136
      ([⟨0, field64 0, field64 8⟩, ⟨0, field64 0, field64 16⟩,
          ⟨0, field64 0, AMM_RESERVE_ACTOR⟩, ⟨4, field64 96, 0⟩] ++ uniform signer ++
        [⟨13, field64 8, 0⟩])
  | 20 | 22 =>
    need actionKind fields 56
      ([⟨0, field64 0, signer⟩, ⟨0, field64 0, field64 48⟩] ++ uniform signer)
  | 21 =>
    need actionKind fields 64
      ([⟨0, field64 8, signer⟩, ⟨0, field64 8, field64 56⟩] ++ uniform signer ++
        [⟨13, field64 0, 0⟩])
  | 24 =>
    need actionKind fields 56
      ([⟨0, field64 0, field64 40⟩, ⟨0, field64 0, field64 48⟩] ++ uniform signer)
  | 25 =>
    need actionKind fields 96
      ([⟨0, field64 0, field64 16⟩, ⟨0, field64 0, field64 88⟩, ⟨0, field64 8, field64 88⟩,
          ⟨0, field64 8, field64 16⟩] ++ uniform signer)
  | _ =>
    if !isAdjudicable actionKind then .error (.actionNotAdjudicable actionKind)
    else .ok (uniform signer)

section Absence

/-- The value with which a cell of a kind occupies no place. -/
def canonicalAbsentValue (cellKind : ℕ) : Except StepError Bytes :=
  match cellKind with
  | 0 | 7 | 8 | 10 | 11 => amountValue 0
  | 1 | 6 | 9 | 12 => uintValue 0
  | 2 | 3 | 4 | 5 => .ok []
  | 13 => epochBudgetValue 0 0
  | 14 => do
    let zero ← uintValue 0
    .ok (zero ++ zero ++ zero ++ zero)
  | _ => .error (.actionNotAdjudicable cellKind)

variable [Keccak]

/-- Whether a value is the absent one.  The contract compares the hashes of the two. -/
def isCanonicallyAbsent (cellKind : ℕ) (value : Bytes) : Except StepError Bool := do
  let absent ← canonicalAbsentValue cellKind
  .ok (keccak256 value == keccak256 absent)

end Absence

end StepWrites

end Knomosis.StepVM
