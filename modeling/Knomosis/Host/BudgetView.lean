import Knomosis.Kernel.Heads
import Knomosis.Signing.L1Ingest

/-!
# What the host reads of a signed action

The host charges budgets before it hands an action on.  It walks over the bytes of a
signed action, field by field according to the kind of the action, and keeps the
signer and the fields that bear on budgets.  Three kinds with nested bodies it does
not read.
-/

namespace Knomosis.Host

open Lib Smt
open Signing.L1Ingest (Amount)

def CBE_TAG_UINT : UInt8 := 0x00
def CBE_TAG_AMOUNT : UInt8 := 0x06
def CBE_TAG_BYTES : UInt8 := 0x02

inductive BudgetDecodeError where
  | unexpectedEnd
  | expectedUint (offset : ℕ) (found : UInt8)
  | expectedAmount (offset : ℕ) (found : UInt8)
  | expectedBytes (offset : ℕ) (found : UInt8)
  | unsupportedActionTag (tag : UInt64)
  | unknownActionTag (tag : UInt64)
  | trailingBytes (trailing : ℕ)
deriving DecidableEq

abbrev CbeCursor := Walk BudgetDecodeError UInt8

def readHead (tag : UInt8) (width : ℕ) (expected : ℕ → UInt8 → BudgetDecodeError) :
    CbeCursor Bytes := do
  let pos ← Walk.offset
  let head ← Walk.front (width + 1) .unexpectedEnd
  Walk.behind tag .unexpectedEnd (expected pos) head

def readUint : CbeCursor UInt64 := do
  let le ← readHead CBE_TAG_UINT 8 .expectedUint
  return UInt64.ofNat (leNat le)

def skipUint : CbeCursor Unit := do
  let _ ← readUint

def readAmount : CbeCursor Amount := do
  let le ← readHead CBE_TAG_AMOUNT 32 .expectedAmount
  return BitVec.ofNat 256 (leNat le)

def skipAmount : CbeCursor Unit := do
  let _ ← readAmount

def skipBytes : CbeCursor Unit := do
  let le ← readHead CBE_TAG_BYTES 8 .expectedBytes
  let _ ← Walk.front (leNat le) .unexpectedEnd

inductive ActionBudgetKind where
  | ordinary
  | depositWithFee (recipient budgetGrant : UInt64)
  | topUpActionBudget (gasResource poolActor : UInt64) (gasAmount : Amount)
      (budgetIncrement : UInt64)
  | topUpActionBudgetFor (recipient gasResource poolActor : UInt64) (gasAmount : Amount)
      (budgetIncrement : UInt64)
  | claimBudgetRefund (gasResource poolActor budgetUnits : UInt64) (weiPerBudgetUnit : Amount)
deriving DecidableEq

structure SignedActionBudgetView where
  signer : UInt64
  kind : ActionBudgetKind
deriving DecidableEq

def decodeKind (tag : UInt64) : CbeCursor ActionBudgetKind :=
  match tag.toNat with
  | 0 => do
    skipUint
    skipUint
    skipUint
    skipAmount
    return .ordinary
  | 13 => do
    skipUint
    skipUint
    skipAmount
    skipUint
    return .ordinary
  | 1 | 2 | 5 | 6 | 7 => do
    skipUint
    skipUint
    skipAmount
    return .ordinary
  | 3 | 9 | 11 => do
    skipUint
    return .ordinary
  | 4 | 12 => do
    skipUint
    skipBytes
    return .ordinary
  | 14 => do
    skipUint
    skipUint
    skipAmount
    skipBytes
    return .ordinary
  | 16 => return .ordinary
  | 17 => do
    skipBytes
    skipUint
    skipUint
    skipBytes
    return .ordinary
  | 18 => do
    skipBytes
    skipUint
    skipUint
    skipUint
    return .ordinary
  | 19 => do
    skipUint
    let recipient ← readUint
    skipUint
    skipAmount
    skipAmount
    let budgetGrant ← readUint
    skipUint
    skipAmount
    return .depositWithFee recipient budgetGrant
  | 20 => do
    let gasResource ← readUint
    let gasAmount ← readAmount
    let budgetIncrement ← readUint
    let poolActor ← readUint
    return .topUpActionBudget gasResource poolActor gasAmount budgetIncrement
  | 21 => do
    let recipient ← readUint
    let gasResource ← readUint
    let gasAmount ← readAmount
    let budgetIncrement ← readUint
    let poolActor ← readUint
    return .topUpActionBudgetFor recipient gasResource poolActor gasAmount budgetIncrement
  | 22 => do
    let gasResource ← readUint
    let budgetUnits ← readUint
    let weiPerBudgetUnit ← readAmount
    let poolActor ← readUint
    return .claimBudgetRefund gasResource poolActor budgetUnits weiPerBudgetUnit
  | 24 => do
    skipUint
    skipAmount
    skipUint
    skipUint
    return .ordinary
  | 25 => do
    skipUint
    skipUint
    skipUint
    skipAmount
    skipAmount
    skipUint
    return .ordinary
  | 8 | 10 | 15 => throw (.unsupportedActionTag tag)
  | _ => throw (.unknownActionTag tag)

def budgetView : CbeCursor SignedActionBudgetView := do
  let tag ← readUint
  let kind ← decodeKind tag
  let signer ← readUint
  skipUint
  skipBytes
  return { signer, kind }

def decodeBudgetView (bytes : Bytes) : Except BudgetDecodeError SignedActionBudgetView :=
  match budgetView (Cursor.new bytes) with
  | .error e => .error e
  | .ok (view, cur) =>
    if cur.rest.length ≠ 0 then .error (.trailingBytes cur.rest.length) else .ok view

section Fields

open Walk

theorem reads_head (tag : UInt8) (width : ℕ) (expected : ℕ → UInt8 → BudgetDecodeError) :
    Kernel.ReadsHead (readHead tag width expected) tag width :=
  Reads.after_offset fun pos => (Reads.front (width + 1) _).behind tag _ (expected pos)

theorem reads_readUint : Reads readUint (fun w v => w = Kernel.encodeNat v.toNat) :=
  Kernel.reads_uint (reads_head CBE_TAG_UINT 8 _)

theorem takes_skipUint {n : ℕ} (h : n < 2 ^ 64) : Takes skipUint (Kernel.encodeNat n) () := by
  have hback : (UInt64.ofNat n).toNat = n := by rw [UInt64.toNat_ofNat', Nat.mod_eq_of_lt h]
  have hread : Takes readUint (Kernel.encodeNat n) (UInt64.ofNat n) :=
    reads_readUint.takes (by rw [hback])
  exact hread.bind_last (Takes.pure ())

theorem only_skipUint :
    Only skipUint (fun w a => ∃ v : UInt64, a = () ∧ w = Kernel.encodeNat v.toNat) :=
  reads_readUint.field.next fun v => .done ⟨v, rfl, List.append_nil _⟩

theorem reads_readAmount : Reads readAmount (fun w v => w = Kernel.encodeAmount v.toNat) :=
  Kernel.reads_amount (reads_head CBE_TAG_AMOUNT 32 _)

theorem takes_skipAmount (v : Amount) : Takes skipAmount (Kernel.encodeAmount v.toNat) () :=
  (reads_readAmount.takes rfl).bind_last (Takes.pure ())

theorem only_skipAmount :
    Only skipAmount (fun w a => ∃ v : Amount, a = () ∧ w = Kernel.encodeAmount v.toNat) :=
  reads_readAmount.field.next fun v => .done ⟨v, rfl, List.append_nil _⟩

theorem takes_skipBytes {bs : Bytes} (h : bs.length < 2 ^ 64) :
    Takes skipBytes (Kernel.encodeBytes bs) () := by
  obtain ⟨le, hlen, hcount, hbytes⟩ := Kernel.encodeBytes_eq_iff.mp ⟨rfl, h⟩
  rw [hbytes]
  exact ((reads_head CBE_TAG_BYTES 8 _).takes ⟨rfl, hlen⟩).bind
    ((Takes.front _ hcount.symm).bind_last (Takes.pure ()))

/-- The byte strings that have a length field. -/
abbrev ByteString := { bs : Bytes // bs.length < 2 ^ 64 }

theorem only_skipBytes :
    Only skipBytes (fun w a => ∃ bs : ByteString, a = () ∧ w = Kernel.encodeBytes bs.1) := by
  refine (reads_head CBE_TAG_BYTES 8 _).only.after ?_
  rintro _ le ⟨rfl, hlen⟩
  refine (Only.front (leNat le) _).after ?_
  rintro _ bs ⟨rfl, hcount⟩
  obtain ⟨hbytes, hlt⟩ := Kernel.encodeBytes_eq_iff.mpr ⟨le, hlen, hcount.symm, rfl⟩
  exact .done ⟨⟨_, hlt⟩, rfl, by rwa [List.append_nil]⟩

end Fields

end Knomosis.Host
