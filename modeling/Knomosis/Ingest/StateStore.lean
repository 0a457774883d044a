import Knomosis.Ingest.Translation

/-!
# The state file of the ingest service

The service appends a record to a file for everything it must not forget, and
rebuilds its state from the records when it starts.  A record is one line; the
hashes and addresses in it are hexadecimal strings.

The numbers of the addresses are collected while the records are read, ordered by
number, and then handed out again from an empty book.  The file is refused if the
book hands out other numbers.
-/

namespace Knomosis.Ingest

open Lib Smt List
open Signing.L1Ingest

def hexChar (n : UInt8) : UInt8 := if n ≤ 9 then 48 + n else if n ≤ 15 then 97 + (n - 10) else 63

def hexValue (c : UInt8) : Option UInt8 :=
  if 48 ≤ c ∧ c ≤ 57 then some (c - 48)
  else if 97 ≤ c ∧ c ≤ 102 then some (10 + c - 97)
  else if 65 ≤ c ∧ c ≤ 70 then some (10 + c - 65)
  else none

inductive HexError where
  | missing0x
  | oddLength
  | invalidChar (c : UInt8)
deriving DecidableEq

namespace HexBytes

def hexPair (b : UInt8) : Bytes := [hexChar (b >>> 4), hexChar (b &&& 0x0f)]

/-- The characters of a byte string, in ASCII. -/
def serialize (bytes : Bytes) : Bytes := 48 :: 120 :: bytes.flatMap hexPair

/-- The bytes of pairs of characters. -/
def parsePairs : Bytes → Except HexError Bytes
  | hi :: lo :: rest =>
    match hexValue hi, hexValue lo with
    | none, _ => .error (.invalidChar hi)
    | some _, none => .error (.invalidChar lo)
    | some h, some l => do
      let out ← parsePairs rest
      .ok (((h <<< 4) ||| l) :: out)
  | _ => .ok []

def deserialize (s : Bytes) : Except HexError Bytes :=
  match s with
  | zero :: x :: stripped =>
    if ¬ (zero = 48 ∧ x = 120) then .error .missing0x
    else if stripped.length % 2 ≠ 0 then .error .oddLength
    else parsePairs stripped
  | _ => .error .missing0x

end HexBytes

/-- An address and the number it was given. -/
structure AddressAssignment (H : Type) where
  address : H
  actorId : ActorId

/-- A record, over the form in which it holds byte strings. -/
inductive StateRecord (H : Type) where
  | forwarded (blockHash txHash : H) (logIndex : UInt64)
  | confirmed (blockNumber : UInt64)
  | addressAssigned (assignment : AddressAssignment H)
  | nonceProgressed (nextNonce : Nonce)
  | submitted (blockHash txHash : H) (logIndex : UInt64) (nextNonce : Nonce)
      (assigned : Option (AddressAssignment H))

namespace StateRecord

def toLine : StateRecord Bytes → StateRecord Bytes
  | forwarded blockHash txHash logIndex =>
    .forwarded (HexBytes.serialize blockHash) (HexBytes.serialize txHash) logIndex
  | confirmed blockNumber => .confirmed blockNumber
  | addressAssigned a => .addressAssigned ⟨HexBytes.serialize a.address, a.actorId⟩
  | nonceProgressed nextNonce => .nonceProgressed nextNonce
  | submitted blockHash txHash logIndex nextNonce assigned =>
    .submitted (HexBytes.serialize blockHash) (HexBytes.serialize txHash) logIndex nextNonce
      (assigned.map fun a => ⟨HexBytes.serialize a.address, a.actorId⟩)

def ofLine : StateRecord Bytes → Except HexError (StateRecord Bytes)
  | forwarded blockHash txHash logIndex => do
    let blockHash ← HexBytes.deserialize blockHash
    let txHash ← HexBytes.deserialize txHash
    .ok (.forwarded blockHash txHash logIndex)
  | confirmed blockNumber => .ok (.confirmed blockNumber)
  | addressAssigned a => do
    let address ← HexBytes.deserialize a.address
    .ok (.addressAssigned ⟨address, a.actorId⟩)
  | nonceProgressed nextNonce => .ok (.nonceProgressed nextNonce)
  | submitted blockHash txHash logIndex nextNonce assigned => do
    let blockHash ← HexBytes.deserialize blockHash
    let txHash ← HexBytes.deserialize txHash
    match assigned with
    | none => .ok (.submitted blockHash txHash logIndex nextNonce none)
    | some a => do
      let address ← HexBytes.deserialize a.address
      .ok (.submitted blockHash txHash logIndex nextNonce (some ⟨address, a.actorId⟩))

end StateRecord

/-- The file, a line a record. -/
abbrev StateFile := List (StateRecord Bytes)

/-- Write a record at the end of the file. -/
def StateFile.append (file : StateFile) (record : StateRecord Bytes) : StateFile :=
  file ++ [record.toLine]

structure ForwardedKey where
  blockHash : TopicHash
  txHash : TopicHash
  logIndex : UInt64
deriving DecidableEq

/-- What the service knows. -/
structure WatcherState where
  lastConfirmedBlock : Option UInt64
  forwarded : Finset ForwardedKey
  addressBook : AddressBook
  nextNonce : Nonce

def WatcherState.default : WatcherState where
  lastConfirmedBlock := none
  forwarded := ∅
  addressBook := .new
  nextNonce := 0

inductive Malformed where
  | jsonParse (e : HexError)
  | blockHashLength
  | txHashLength
  | addressLength
  | submittedAddressLength
  | duplicateActorId (id : ActorId) (prior addr : EthAddress)
  | reservedActorId (id : ActorId)
  | replayOverflow (id : ActorId)
  | gapOrDuplicate (addr : EthAddress) (expected assigned : ActorId)

/-- A refused file, with the number of the line. -/
structure StateError where
  lineNumber : ℕ
  message : Malformed

/-- Numbers and their addresses, ascending. -/
abbrev PendingAssignments := List (ActorId × EthAddress)

namespace PendingAssignments

def get (pending : PendingAssignments) (id : ActorId) : Option EthAddress :=
  (pending.find? fun p => p.1 = id).map Prod.snd

def insert (id : ActorId) (addr : EthAddress) : PendingAssignments → PendingAssignments
  | [] => [(id, addr)]
  | (k, a) :: rest =>
    if id < k then (id, addr) :: (k, a) :: rest
    else if id = k then (id, addr) :: rest
    else (k, a) :: insert id addr rest

end PendingAssignments

/-- The state while the records are read, with the assignments still to be made. -/
structure ReplayState where
  lastConfirmedBlock : Option UInt64
  forwarded : Finset ForwardedKey
  nextNonce : Nonce
  pending : PendingAssignments

def toTopicHash (bytes : Bytes) (line : ℕ) (message : Malformed) : Except StateError TopicHash :=
  if h : bytes.length = 32 then .ok ⟨bytes, h⟩ else .error ⟨line, message⟩

def toEthAddress (bytes : Bytes) (line : ℕ) (message : Malformed) : Except StateError EthAddress :=
  if h : bytes.length = 20 then .ok ⟨bytes, h⟩ else .error ⟨line, message⟩

namespace ReplayState

def empty : ReplayState where
  lastConfirmedBlock := none
  forwarded := ∅
  nextNonce := 0
  pending := []

def forward (st : ReplayState) (line : ℕ) (blockHash txHash : Bytes) (logIndex : UInt64) :
    Except StateError ReplayState := do
  let bh ← toTopicHash blockHash line .blockHashLength
  let th ← toTopicHash txHash line .txHashLength
  .ok { st with forwarded := insert ⟨bh, th, logIndex⟩ st.forwarded }

def progressNonce (st : ReplayState) (nextNonce : Nonce) : ReplayState :=
  if nextNonce > st.nextNonce then { st with nextNonce } else st

def assign (st : ReplayState) (line : ℕ) (message : Malformed) (a : AddressAssignment Bytes) :
    Except StateError ReplayState := do
  let addr ← toEthAddress a.address line message
  match st.pending.get a.actorId with
  | none => .ok { st with pending := st.pending.insert a.actorId addr }
  | some prior =>
    if prior ≠ addr then .error ⟨line, .duplicateActorId a.actorId prior addr⟩
    else .ok { st with pending := st.pending.insert a.actorId addr }

/-- Read one record. -/
def record (st : ReplayState) (line : ℕ) : StateRecord Bytes → Except StateError ReplayState
  | .forwarded blockHash txHash logIndex => st.forward line blockHash txHash logIndex
  | .confirmed blockNumber => .ok { st with lastConfirmedBlock := some blockNumber }
  | .addressAssigned a => st.assign line .addressLength a
  | .nonceProgressed nextNonce => .ok (st.progressNonce nextNonce)
  | .submitted blockHash txHash logIndex nextNonce assigned => do
    let st ← st.forward line blockHash txHash logIndex
    let st := st.progressNonce nextNonce
    match assigned with
    | none => .ok st
    | some a => st.assign line .submittedAddressLength a

/-- Read one line; `i` lines stand before it. -/
def line (st : ReplayState) (entry : StateRecord Bytes × ℕ) : Except StateError ReplayState :=
  match entry.1.ofLine with
  | .error e => .error ⟨entry.2 + 1, .jsonParse e⟩
  | .ok r => st.record (entry.2 + 1) r

end ReplayState

/-- Hand out one collected number again. -/
def reassign (book : AddressBook) (p : ActorId × EthAddress) : Except StateError AddressBook :=
  if p.1 < INITIAL_NEXT_ACTOR_ID then .error ⟨0, .reservedActorId p.1⟩
  else
    match book.tryAssign p.2 with
    | .error .overflow => .error ⟨0, .replayOverflow p.1⟩
    | .ok ((assigned, _), book) =>
      if assigned ≠ p.1 then .error ⟨0, .gapOrDuplicate p.2 p.1 assigned⟩ else .ok book

def StateFile.read (file : StateFile) : Except StateError ReplayState :=
  file.zipIdx.foldlM ReplayState.line .empty

def StateFile.replay (file : StateFile) : Except StateError WatcherState := do
  let st ← file.read
  let book ← st.pending.foldlM reassign .new
  .ok {
    lastConfirmedBlock := st.lastConfirmedBlock
    forwarded := st.forwarded
    addressBook := book
    nextNonce := st.nextNonce }

theorem hex_nibbles (b : UInt8) :
    hexValue (hexChar (b >>> 4)) = some (b >>> 4) ∧
    hexValue (hexChar (b &&& 0x0f)) = some (b &&& 0x0f) ∧
    (b >>> 4) <<< 4 ||| (b &&& 0x0f) = b := by
  have hall : ∀ n : Fin 256,
      hexValue (hexChar (UInt8.ofNat n >>> 4)) = some (UInt8.ofNat n >>> 4) ∧
        hexValue (hexChar (UInt8.ofNat n &&& 0x0f)) = some (UInt8.ofNat n &&& 0x0f) ∧
        (UInt8.ofNat n >>> 4) <<< 4 ||| (UInt8.ofNat n &&& 0x0f) = UInt8.ofNat n := by
    decide +kernel
  have hb := hall ⟨b.toNat, b.toNat_lt⟩
  rwa [UInt8.ofNat_toNat] at hb

namespace HexBytes

theorem parsePairs_flatMap (bytes : Bytes) : parsePairs (bytes.flatMap hexPair) = .ok bytes := by
  induction bytes with
  | nil => rfl
  | cons b bytes ih =>
    obtain ⟨hhi, hlo, hb⟩ := hex_nibbles b
    simp only [flatMap_cons, hexPair, cons_append, nil_append, parsePairs, hhi, hlo]
    change (parsePairs (bytes.flatMap hexPair)).bind _ = _
    rw [ih]
    exact congrArg (fun x => Except.ok (x :: bytes)) hb

theorem deserialize_serialize (bytes : Bytes) : deserialize (serialize bytes) = .ok bytes := by
  have hlen : (bytes.flatMap hexPair).length % 2 = 0 := by
    induction bytes with
    | nil => rfl
    | cons =>
      simp only [flatMap_cons, hexPair, length_append, length_cons, length_nil]
      omega
  rw [serialize, deserialize, if_neg (by simp), if_neg (not_not.mpr hlen)]
  exact parsePairs_flatMap bytes

end HexBytes

@[simp] theorem StateRecord.ofLine_toLine (r : StateRecord Bytes) : r.toLine.ofLine = .ok r := by
  cases r with
  | submitted _ _ _ _ assigned =>
    cases assigned <;>
    · simp only [toLine, ofLine, HexBytes.deserialize_serialize, Option.map_none, Option.map_some]
      rfl
  | confirmed | nonceProgressed => rfl
  | forwarded | addressAssigned =>
    simp only [toLine, ofLine, HexBytes.deserialize_serialize]
    rfl

theorem StateFile.read_append (file : StateFile) (r : StateRecord Bytes) :
    (file.append r).read = file.read.bind fun st => st.record (file.length + 1) r := by
  rw [read, append, zipIdx_append, foldlM_append, read]
  congr 1
  funext st
  simp [ReplayState.line]

namespace TopicHash

@[simp] theorem toTopicHash_bytes (h : TopicHash) (line : ℕ) (message : Malformed) :
    toTopicHash h.bytes line message = .ok h := by
  rw [toTopicHash, dif_pos h.length_eq]

end TopicHash

@[simp] theorem toEthAddress_bytes (a : EthAddress) (line : ℕ) (message : Malformed) :
    toEthAddress a.bytes line message = .ok a := by
  rw [toEthAddress, dif_pos a.length_eq]

def ForwardedKey.record (key : ForwardedKey) : StateRecord Bytes :=
  .forwarded key.blockHash.bytes key.txHash.bytes key.logIndex

def ForwardedKey.submittedRecord (key : ForwardedKey) (nextNonce : Nonce)
    (assigned : Option (EthAddress × ActorId)) : StateRecord Bytes :=
  .submitted key.blockHash.bytes key.txHash.bytes key.logIndex nextNonce
    (assigned.map fun p => ⟨p.1.bytes, p.2⟩)

namespace PendingAssignments

variable {pending : PendingAssignments} {id : ActorId}

theorem insert_of_lt {addr : EthAddress} (habove : ∀ p ∈ pending, p.1 < id) :
    insert id addr pending = pending ++ [(id, addr)] := by
  induction pending with
  | nil => rfl
  | cons p _ ih =>
    obtain ⟨k, a⟩ := p
    have hk : k < id := habove (k, a) mem_cons_self
    have hlt : ¬ id < k := fun h => by
      have := UInt64.lt_trans h hk
      exact UInt64.lt_irrefl _ this
    have hne : ¬ id = k := by
      rintro rfl
      exact UInt64.lt_irrefl _ hk
    rw [insert, if_neg hlt, if_neg hne, ih fun q hq => habove q (mem_cons_of_mem _ hq)]
    rfl

theorem get_of_lt (habove : ∀ p ∈ pending, p.1 < id) : pending.get id = none := by
  rw [get, Option.map_eq_none_iff, List.find?_eq_none]
  intro p hp heq
  have hlt := habove p hp
  rw [of_decide_eq_true heq] at hlt
  exact UInt64.lt_irrefl _ hlt

end PendingAssignments

namespace ReplayState

theorem forward_key (st : ReplayState) (line : ℕ) (key : ForwardedKey) :
    st.forward line key.blockHash.bytes key.txHash.bytes key.logIndex =
      .ok { st with forwarded := insert key st.forwarded } := by
  rw [forward, TopicHash.toTopicHash_bytes, TopicHash.toTopicHash_bytes]
  rfl

theorem progressNonce_of_lt {st : ReplayState} {nextNonce : Nonce}
    (hnonce : st.nextNonce < nextNonce) : st.progressNonce nextNonce = { st with nextNonce } :=
  if_pos hnonce

theorem assign_of_lt
    {st : ReplayState} {addr : EthAddress} {id : ActorId} (line : ℕ) (message : Malformed)
    (habove : ∀ q ∈ st.pending, q.1 < id) :
    st.assign line message ⟨addr.bytes, id⟩ =
      .ok { st with pending := st.pending ++ [(id, addr)] } := by
  rw [assign, toEthAddress_bytes]
  change (match st.pending.get id with | none => _ | some _ => _) = _
  rw [PendingAssignments.get_of_lt habove]
  simp only [PendingAssignments.insert_of_lt habove]

theorem record_forwarded (st : ReplayState) (line : ℕ) (key : ForwardedKey) :
    st.record line key.record = .ok { st with forwarded := insert key st.forwarded } :=
  forward_key st line key

theorem record_submitted (st : ReplayState) (line : ℕ) (key : ForwardedKey) {nextNonce : Nonce}
    (hnonce : st.nextNonce < nextNonce) {assigned : Option (EthAddress × ActorId)}
    (habove : ∀ p ∈ assigned, ∀ q ∈ st.pending, q.1 < p.2) :
    st.record line (key.submittedRecord nextNonce assigned) = .ok {
        lastConfirmedBlock := st.lastConfirmedBlock
        forwarded := insert key st.forwarded
        nextNonce := nextNonce
        pending := st.pending ++ assigned.toList.map Prod.swap } := by
  simp only [ForwardedKey.submittedRecord, record, forward_key, ok_bind]
  rw [progressNonce_of_lt (by exact hnonce)]
  cases assigned with
  | none => simp
  | some p =>
    simp only [Option.map_some, Option.toList_some, map_cons, map_nil, Prod.swap]
    exact assign_of_lt line _ (by exact habove p rfl)

end ReplayState

end Knomosis.Ingest
