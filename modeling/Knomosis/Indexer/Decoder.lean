import Knomosis.Kernel.Heads
import Knomosis.Signing.L1Ingest

/-!
# The indexer's codec

The indexer has its own type for events, with fields of fixed width, and reads them
with a cursor that says at which byte something went wrong.  It does not know local
policies and keeps their bytes as they are.
-/

namespace Knomosis.Indexer

open Lib Smt
open Signing.L1Ingest (Amount)

abbrev Nonce := BitVec 128

abbrev BudgetUnits := BitVec 128

abbrev EthAddress := { bytes : Bytes // bytes.length = 20 }

/-- The events as the indexer knows them. -/
inductive Event where
  | balanceChanged (resource actor : UInt64) (oldValue newValue : Amount)
  | nonceAdvanced (actor : UInt64) (oldNonce newNonce : Nonce)
  | identityRegistered (actor : UInt64) (key : Bytes)
  | identityRevoked (actor : UInt64)
  | timeRecorded (time : UInt64)
  | disputeFiled (challenger targetIdx : UInt64)
  | disputeWithdrawn (disputeIdx : UInt64)
  | verdictApplied (disputeIdx outcomeTag : UInt64)
  | rewardIssued (resource recipient : UInt64) (amount : Amount)
  | withdrawalRequested (resource sender : UInt64) (amount : Amount) (recipientL1 : EthAddress)
      (withdrawalId : UInt64)
  | depositCredited (resource recipient : UInt64) (amount : Amount) (depositId : UInt64)
  | localPolicyDeclared (actor : UInt64) (policy : Bytes)
  | localPolicyRevoked (actor : UInt64)
  | faultProofGameOpened (gameId challenger disputedStartIdx disputedEndIdx : UInt64)
      (bindingHash : Bytes)
  | faultProofBisectionStep (gameId round party idx : UInt64) (commit : Bytes)
  | faultProofGameSettled (gameId winner loser : UInt64) (payout : Amount)
  | depositWithFeeCredited (resource recipient poolActor : UInt64)
      (userAmount poolAmount : Amount) (budgetGrant : BudgetUnits) (depositId : UInt64)
  | actionBudgetTopUp (signer gasResource : UInt64) (gasAmount : Amount)
      (budgetIncrement : BudgetUnits) (poolActor : UInt64)
  | gasPoolClaim (resource sequencer : UInt64) (amount : Amount)
  | delegatedActionBudgetTopUp (recipient signer gasResource : UInt64) (gasAmount : Amount)
      (budgetIncrement : BudgetUnits) (poolActor : UInt64)
  | budgetConsumed (actor : UInt64) (amount : BudgetUnits)
  | ammReservesReclaimed (resource : UInt64) (amount : Amount) (reserveActor poolActor : UInt64)
  | reserveSwapExecuted (fromResource toResource user : UInt64) (amountIn amountOut : Amount)
      (reserveActor : UInt64)
  | reserveSeeded (resource : UInt64) (amount : Amount) (reserveActor depositId : UInt64)
deriving DecidableEq

/-- The number of an event's kind. -/
def Event.tag : Event → UInt8
  | balanceChanged .. => 0
  | nonceAdvanced .. => 1
  | identityRegistered .. => 2
  | identityRevoked .. => 3
  | timeRecorded .. => 4
  | disputeFiled .. => 5
  | disputeWithdrawn .. => 6
  | verdictApplied .. => 7
  | rewardIssued .. => 8
  | withdrawalRequested .. => 9
  | depositCredited .. => 10
  | localPolicyDeclared .. => 11
  | localPolicyRevoked .. => 12
  | faultProofGameOpened .. => 13
  | faultProofBisectionStep .. => 14
  | faultProofGameSettled .. => 15
  | depositWithFeeCredited .. => 16
  | actionBudgetTopUp .. => 17
  | gasPoolClaim .. => 18
  | delegatedActionBudgetTopUp .. => 19
  | budgetConsumed .. => 20
  | ammReservesReclaimed .. => 22
  | reserveSwapExecuted .. => 23
  | reserveSeeded .. => 24

def CBE_TAG_UINT : UInt8 := 0x00
def CBE_TAG_AMOUNT : UInt8 := 0x06
def CBE_TAG_BYTES : UInt8 := 0x02
def ETH_ADDRESS_BYTES : ℕ := 20
def HARD_MAX_BYTE_STRING_LEN : ℕ := 1024 * 1024

/-- Why bytes are not an event, and where. -/
inductive DecodeError where
  | truncated (offset expected available : ℕ)
  | badHeadTag (offset : ℕ) (expected actual : UInt8)
  | byteStringTooLong (offset len cap : ℕ)
  | unknownTag (tag : UInt64)
  | trailingBytes (trailing : ℕ)
  | badByteStringLength (offset expected actual : ℕ)
deriving DecidableEq

/-- The reader of an event walks over its bytes. -/
abbrev EventCursor := Walk DecodeError UInt8

/-- The next `n` bytes. -/
def readBytes (n : ℕ) : EventCursor Bytes := do
  let offset ← Walk.offset
  let available ← Walk.remaining
  Walk.front n (.truncated offset n available)

/-- What stands behind a tag, in a fixed width. -/
def readHead (tag : UInt8) (width : ℕ) : EventCursor Bytes := do
  let headOffset ← Walk.offset
  let buf ← readBytes (width + 1)
  Walk.behind tag (.truncated headOffset (width + 1) 0) (.badHeadTag headOffset tag) buf

/-- A number of 64 bits. -/
def readUint : EventCursor UInt64 := do
  let le ← readHead CBE_TAG_UINT 8
  return UInt64.ofNat (leNat le)

/-- An amount of 256 bits. -/
def readAmount : EventCursor Amount := do
  let le ← readHead CBE_TAG_AMOUNT 32
  return BitVec.ofNat 256 (leNat le)

/-- A number of eight bytes in a wider field. -/
def readWide : EventCursor (BitVec 128) := do
  let n ← readUint
  return BitVec.ofNat 128 n.toNat

def readBudgetUnits : EventCursor BudgetUnits := readWide

def readNonce : EventCursor Nonce := readWide

/-- A byte string behind its length, which is capped. -/
def readByteString : EventCursor Bytes := do
  let headOffset ← Walk.offset
  let le ← readHead CBE_TAG_BYTES 8
  if HARD_MAX_BYTE_STRING_LEN < leNat le then
    throw (.byteStringTooLong headOffset (leNat le) HARD_MAX_BYTE_STRING_LEN)
  else readBytes (leNat le)

/-- A byte string of one length only. -/
def readByteStringExact (expected : ℕ) : EventCursor Bytes := do
  let headOffset ← Walk.offset
  let le ← readHead CBE_TAG_BYTES 8
  if leNat le ≠ expected then throw (.badByteStringLength headOffset expected (leNat le))
  else readBytes expected

/-- An address as a byte string. -/
def readEthAddress : EventCursor EthAddress := do
  let payload ← readByteStringExact ETH_ADDRESS_BYTES
  if h : payload.length = 20 then return ⟨payload, h⟩
  -- not reached: the payload was read at this length
  else throw (.badByteStringLength 0 ETH_ADDRESS_BYTES payload.length)

/-- The fields that belong to a tag. -/
def decodeFields (tag : UInt64) : EventCursor Event :=
  match tag.toNat with
  | 0 => do
    return .balanceChanged (← readUint) (← readUint) (← readAmount) (← readAmount)
  | 1 => do
    return .nonceAdvanced (← readUint) (← readNonce) (← readNonce)
  | 2 => do
    return .identityRegistered (← readUint) (← readByteString)
  | 3 => do
    return .identityRevoked (← readUint)
  | 4 => do
    return .timeRecorded (← readUint)
  | 5 => do
    return .disputeFiled (← readUint) (← readUint)
  | 6 => do
    return .disputeWithdrawn (← readUint)
  | 7 => do
    return .verdictApplied (← readUint) (← readUint)
  | 8 => do
    return .rewardIssued (← readUint) (← readUint) (← readAmount)
  | 9 => do
    return .withdrawalRequested (← readUint) (← readUint) (← readAmount) (← readEthAddress)
        (← readUint)
  | 10 => do
    return .depositCredited (← readUint) (← readUint) (← readAmount) (← readUint)
  | 11 => do
    return .localPolicyDeclared (← readUint) (← readByteString)
  | 12 => do
    return .localPolicyRevoked (← readUint)
  | 13 => do
    return .faultProofGameOpened (← readUint) (← readUint) (← readUint) (← readUint)
        (← readByteString)
  | 14 => do
    return .faultProofBisectionStep (← readUint) (← readUint) (← readUint) (← readUint)
        (← readByteString)
  | 15 => do
    return .faultProofGameSettled (← readUint) (← readUint) (← readUint) (← readAmount)
  | 16 => do
    return .depositWithFeeCredited (← readUint) (← readUint) (← readUint) (← readAmount)
        (← readAmount) (← readBudgetUnits) (← readUint)
  | 17 => do
    return .actionBudgetTopUp (← readUint) (← readUint) (← readAmount) (← readBudgetUnits)
        (← readUint)
  | 18 => do
    return .gasPoolClaim (← readUint) (← readUint) (← readAmount)
  | 19 => do
    return .delegatedActionBudgetTopUp (← readUint) (← readUint) (← readUint) (← readAmount)
        (← readBudgetUnits) (← readUint)
  | 20 => do
    return .budgetConsumed (← readUint) (← readBudgetUnits)
  | 22 => do
    return .ammReservesReclaimed (← readUint) (← readAmount) (← readUint) (← readUint)
  | 23 => do
    return .reserveSwapExecuted (← readUint) (← readUint) (← readUint) (← readAmount)
        (← readAmount) (← readUint)
  | 24 => do
    return .reserveSeeded (← readUint) (← readAmount) (← readUint) (← readUint)
  | _ => throw (.unknownTag tag)

/-- A tag and its fields. -/
def event : EventCursor Event := do
  let tag ← readUint
  decodeFields tag

/-- One event, with nothing behind it. -/
def decodeEvent (payload : Bytes) : Except DecodeError Event :=
  match event (Cursor.new payload) with
  | .error e => .error e
  | .ok (event, cursor) =>
    if cursor.rest.length ≠ 0 then .error (.trailingBytes cursor.rest.length) else .ok event

/-- A wide field that eight bytes cannot hold. -/
inductive EncodeError where
  | amountExceedsBound (value : BitVec 128)
deriving DecidableEq

def writeUint (n : UInt64) : Bytes := CBE_TAG_UINT :: leBytes 8 n.toNat

def writeAmount (n : Amount) : Bytes := CBE_TAG_AMOUNT :: leBytes 32 n.toNat

def writeByteString (payload : Bytes) : Bytes :=
  CBE_TAG_BYTES :: leBytes 8 payload.length ++ payload

def writeEthAddress (addr : EthAddress) : Bytes := writeByteString addr.1

/-- A wide field in eight bytes. -/
def writeWideChecked (value : BitVec 128) : Except EncodeError Bytes :=
  if 2 ^ 64 ≤ value.toNat then .error (.amountExceedsBound value)
  else .ok (writeUint (UInt64.ofNat value.toNat))

def writeNonceChecked (nonce : Nonce) : Except EncodeError Bytes := writeWideChecked nonce

def writeBudgetUnitsChecked (units : BudgetUnits) : Except EncodeError Bytes :=
  writeWideChecked units

/-- The fields in the order in which they are read. -/
def encodeFieldsChecked : Event → Except EncodeError Bytes
  | .balanceChanged resource actor oldValue newValue =>
    .ok (writeUint resource ++ writeUint actor ++ writeAmount oldValue ++ writeAmount newValue)
  | .nonceAdvanced actor oldNonce newNonce => do
    let oldNonce ← writeNonceChecked oldNonce
    let newNonce ← writeNonceChecked newNonce
    .ok (writeUint actor ++ oldNonce ++ newNonce)
  | .identityRegistered actor key => .ok (writeUint actor ++ writeByteString key)
  | .identityRevoked actor | .localPolicyRevoked actor => .ok (writeUint actor)
  | .timeRecorded time => .ok (writeUint time)
  | .disputeFiled challenger targetIdx => .ok (writeUint challenger ++ writeUint targetIdx)
  | .disputeWithdrawn disputeIdx => .ok (writeUint disputeIdx)
  | .verdictApplied disputeIdx outcomeTag => .ok (writeUint disputeIdx ++ writeUint outcomeTag)
  | .rewardIssued resource recipient amount =>
    .ok (writeUint resource ++ writeUint recipient ++ writeAmount amount)
  | .withdrawalRequested resource sender amount recipientL1 withdrawalId =>
    .ok (writeUint resource ++ writeUint sender ++ writeAmount amount ++
      writeEthAddress recipientL1 ++ writeUint withdrawalId)
  | .depositCredited resource recipient amount depositId =>
    .ok (writeUint resource ++ writeUint recipient ++ writeAmount amount ++ writeUint depositId)
  | .localPolicyDeclared actor policy => .ok (writeUint actor ++ writeByteString policy)
  | .faultProofGameOpened gameId challenger disputedStartIdx disputedEndIdx bindingHash =>
    .ok (writeUint gameId ++ writeUint challenger ++ writeUint disputedStartIdx ++
      writeUint disputedEndIdx ++ writeByteString bindingHash)
  | .faultProofBisectionStep gameId round party idx commit =>
    .ok (writeUint gameId ++ writeUint round ++ writeUint party ++ writeUint idx ++
      writeByteString commit)
  | .faultProofGameSettled gameId winner loser payout =>
    .ok (writeUint gameId ++ writeUint winner ++ writeUint loser ++ writeAmount payout)
  | .depositWithFeeCredited resource recipient poolActor userAmount poolAmount budgetGrant
      depositId => do
      let budgetGrant ← writeBudgetUnitsChecked budgetGrant
      .ok (writeUint resource ++ writeUint recipient ++ writeUint poolActor ++
        writeAmount userAmount ++ writeAmount poolAmount ++ budgetGrant ++ writeUint depositId)
  | .actionBudgetTopUp signer gasResource gasAmount budgetIncrement poolActor => do
    let budgetIncrement ← writeBudgetUnitsChecked budgetIncrement
    .ok (writeUint signer ++ writeUint gasResource ++ writeAmount gasAmount ++
      budgetIncrement ++ writeUint poolActor)
  | .gasPoolClaim resource sequencer amount =>
    .ok (writeUint resource ++ writeUint sequencer ++ writeAmount amount)
  | .delegatedActionBudgetTopUp recipient signer gasResource gasAmount budgetIncrement
      poolActor => do
      let budgetIncrement ← writeBudgetUnitsChecked budgetIncrement
      .ok (writeUint recipient ++ writeUint signer ++ writeUint gasResource ++
        writeAmount gasAmount ++ budgetIncrement ++ writeUint poolActor)
  | .budgetConsumed actor amount => do
    let amount ← writeBudgetUnitsChecked amount
    .ok (writeUint actor ++ amount)
  | .ammReservesReclaimed resource amount reserveActor poolActor =>
    .ok (writeUint resource ++ writeAmount amount ++ writeUint reserveActor ++ writeUint poolActor)
  | .reserveSwapExecuted fromResource toResource user amountIn amountOut reserveActor =>
    .ok (writeUint fromResource ++ writeUint toResource ++ writeUint user ++
      writeAmount amountIn ++ writeAmount amountOut ++ writeUint reserveActor)
  | .reserveSeeded resource amount reserveActor depositId =>
    .ok (writeUint resource ++ writeAmount amount ++ writeUint reserveActor ++ writeUint depositId)

/-- The tag and the fields. -/
def encodeEventChecked (event : Event) : Except EncodeError Bytes := do
  let fields ← encodeFieldsChecked event
  .ok (writeUint event.tag.toUInt64 ++ fields)

section Fields

open Walk

theorem reads_readBytes (n : ℕ) : Reads (readBytes n) (fun w a => w = a ∧ a.length = n) :=
  Reads.after_offset fun _ => Reads.after_remaining fun _ => Reads.front n _

theorem reads_head (tag : UInt8) (width : ℕ) : Kernel.ReadsHead (readHead tag width) tag width :=
  Reads.after_offset fun _ => (reads_readBytes (width + 1)).behind tag _ _

theorem reads_readUint : Reads readUint (fun w v => w = Kernel.encodeNat v.toNat) :=
  Kernel.reads_uint (reads_head CBE_TAG_UINT 8)

theorem reads_readAmount : Reads readAmount (fun w v => w = Kernel.encodeAmount v.toNat) :=
  Kernel.reads_amount (reads_head CBE_TAG_AMOUNT 32)

theorem takes_count {n : ℕ} (h : n < 2 ^ 64) :
    Takes readUint (Kernel.encodeNat n) (UInt64.ofNat n) :=
  reads_readUint.takes (by rw [UInt64.toNat_ofNat', Nat.mod_eq_of_lt h])

theorem takes_amount {n : ℕ} (h : n < 2 ^ 256) :
    Takes readAmount (Kernel.encodeAmount n) (BitVec.ofNat 256 n) :=
  reads_readAmount.takes (by rw [BitVec.toNat_ofNat, Nat.mod_eq_of_lt h])

theorem takes_wide {n : ℕ} (h : n < 2 ^ 64) :
    Takes readWide (Kernel.encodeNat n) (BitVec.ofNat 128 n) := by
  refine (takes_count h).bind_last ?_
  rw [UInt64.toNat_ofNat', Nat.mod_eq_of_lt h]
  exact Takes.pure _

theorem only_wide :
    Only readWide (fun w a => ∃ v : UInt64, a = BitVec.ofNat 128 v.toNat ∧
    w = Kernel.encodeNat v.toNat) :=
  reads_readUint.field.next fun v => .done ⟨v, rfl, List.append_nil _⟩

theorem takes_byteString {bs : Bytes} (h : bs.length ≤ HARD_MAX_BYTE_STRING_LEN) :
    Takes readByteString (Kernel.encodeBytes bs) bs := by
  obtain ⟨le, hlen, hcount, hbytes⟩ := Kernel.encodeBytes_eq_iff.mp ⟨rfl, h.trans_lt (by decide)⟩
  rw [hbytes]
  refine Takes.after_offset fun _ => ((reads_head CBE_TAG_BYTES 8).takes ⟨rfl, hlen⟩).bind ?_
  rw [hcount, if_neg (by omega)]
  exact (reads_readBytes _).takes ⟨rfl, rfl⟩

/-- The byte strings that are not too long. -/
abbrev ShortBytes := { bs : Bytes // bs.length ≤ HARD_MAX_BYTE_STRING_LEN }

theorem only_byteString :
    Only readByteString (fun w a => ∃ bs : ShortBytes, a = bs.1 ∧ w = Kernel.encodeBytes bs.1) := by
  refine Only.after_offset fun _ => (reads_head CBE_TAG_BYTES 8).only.after ?_
  rintro _ le ⟨rfl, hlen⟩
  split
  · exact Only.throw _ _
  next hcap =>
    refine (reads_readBytes _).only.mono ?_
    rintro _ bs ⟨rfl, hcount⟩
    obtain ⟨hbytes, -⟩ := Kernel.encodeBytes_eq_iff.mpr ⟨le, hlen, hcount.symm, rfl⟩
    exact ⟨⟨_, hcount ▸ not_lt.mp hcap⟩, rfl, hbytes⟩

theorem takes_ethAddress (addr : EthAddress) :
    Takes readEthAddress (Kernel.encodeBytes addr.1) addr := by
  obtain ⟨le, hlen, hcount, hbytes⟩ := Kernel.encodeBytes_eq_iff.mp
    ⟨rfl, addr.2 ▸ (by decide : 20 < 2 ^ 64)⟩
  have hpayload : Takes (readByteStringExact ETH_ADDRESS_BYTES) (Kernel.encodeBytes addr.1)
      addr.1 := by
    rw [hbytes]
    refine Takes.after_offset fun _ => ((reads_head CBE_TAG_BYTES 8).takes ⟨rfl, hlen⟩).bind ?_
    rw [hcount, addr.2, if_neg (by decide)]
    exact (reads_readBytes _).takes ⟨rfl, addr.2⟩
  refine hpayload.bind_last ?_
  rw [dif_pos addr.2]
  exact Takes.pure addr

theorem only_ethAddress :
    Only readEthAddress (fun w a => ∃ addr : EthAddress, a = addr ∧
    w = Kernel.encodeBytes addr.1) := by
  have hpayload : Only (readByteStringExact ETH_ADDRESS_BYTES)
      (fun w a => w = Kernel.encodeBytes a) := by
    refine Only.after_offset fun _ => (reads_head CBE_TAG_BYTES 8).only.after ?_
    rintro _ le ⟨rfl, hlen⟩
    split
    · exact Only.throw _ _
    next heq =>
      rw [← not_not.mp heq]
      refine (reads_readBytes _).only.mono ?_
      rintro _ bs ⟨rfl, hcount⟩
      exact (Kernel.encodeBytes_eq_iff.mpr ⟨le, hlen, hcount.symm, rfl⟩).1
  refine hpayload.after ?_
  rintro _ bs rfl
  split
  · exact .done ⟨_, rfl, List.append_nil _⟩
  · exact Only.throw _ _

end Fields

end Knomosis.Indexer
