import Knomosis.Ingest.StateStore
import Knomosis.Lib.Machine

/-!
# The watcher of the ingest service

The watcher follows the confirmed blocks of the chain.  It takes the events of a
block one by one, translates each, signs and submits the action, and writes a
record when the action was accepted.  Only then does it change what it knows.

A step of the model is what happens between two points at which the process may
stop: an answer of the chain or of the consumer, a write to the file, a change of
the memory.  What the chain and the consumer answer is given with the step.  An
error ends the iteration; another one may be begun, except after an address could
not be entered into the book, which ends the process.
-/

namespace Knomosis.Ingest

open Lib Smt
open Signing.L1Ingest

structure BlockHeader where
  number : UInt64
  hash : TopicHash
  parentHash : TopicHash
deriving DecidableEq

inductive ReorgError where
  | deepReorg (incomingNumber windowFloor : UInt64)
  | orphanedParent (incomingNumber : UInt64)
  | nonMonotone (incomingNumber lastSeen : UInt64)
deriving DecidableEq

inductive AdvanceOutcome where
  | advanced
  | reorged (droppedCount : ℕ) (droppedFromNumber : UInt64)
deriving DecidableEq

/-- The newest headers, oldest first. -/
structure ReorgWindow where
  capacity : ℕ
  buffer : List BlockHeader

namespace ReorgWindow

def new (capacity : ℕ) : ReorgWindow where
  capacity := capacity
  buffer := []

/-- Drop the oldest header of a full window. -/
def makeRoom (w : ReorgWindow) : List BlockHeader :=
  if w.buffer.length = w.capacity then w.buffer.drop 1 else w.buffer

def seed (w : ReorgWindow) (header : BlockHeader) : ReorgWindow := { w with buffer := [header] }

/-- The newest header that the incoming one builds on. -/
def parentIndex (w : ReorgWindow) (incoming : BlockHeader) : Option ℕ :=
  (w.buffer.zipIdx.reverse.find? fun p =>
    p.1.hash = incoming.parentHash ∧ p.1.number + 1 = incoming.number).map Prod.snd

/-- Put the incoming header after its parent and drop what stood there. -/
def replaceAfterParent (w : ReorgWindow) (incoming : BlockHeader) :
    Except ReorgError (AdvanceOutcome × ReorgWindow) :=
  match w.parentIndex incoming with
  | none => .error (.orphanedParent incoming.number)
  | some i =>
    .ok (.reorged (w.buffer.length - (i + 1))
        (((w.buffer[i + 1]?).map BlockHeader.number).getD incoming.number),
      { w with buffer := w.buffer.take (i + 1) ++ [incoming] })

def advance (w : ReorgWindow) (incoming : BlockHeader) :
    Except ReorgError (AdvanceOutcome × ReorgWindow) :=
  match w.buffer.head?, w.buffer.getLast? with
  | some tail, some last =>
    if incoming.number ≤ tail.number then .error (.deepReorg incoming.number tail.number)
    else if incoming.number = last.number + 1 ∧ incoming.parentHash = last.hash then
      .ok (.advanced, { w with buffer := w.makeRoom ++ [incoming] })
    else if incoming.number ≤ last.number then w.replaceAfterParent incoming
    else if incoming.number > last.number + 1 then
      .error (.nonMonotone incoming.number last.number)
    else w.replaceAfterParent incoming
  | _, _ => .ok (.advanced, { w with buffer := w.buffer ++ [incoming] })

end ReorgWindow

/-- A log of the chain: its index, and what the decoder makes of it.  It may be no event of the
contracts, or one that is not well formed. -/
structure RawLog where
  logIndex : UInt64
  decoded : Except Unit (Option IngestedEvent)

structure WatcherConfig where
  bridgeContract : EthAddress
  identityRegistryContract : EthAddress
  confirmationDepth : UInt32
  reorgWindowCapacity : ℕ
  deploymentId : Bytes
  blocksPerIteration : UInt32
  materialiseDeposits : Bool

inductive Verdict where
  | ok
  | notAdmissible
  | parseError
  | busy
deriving DecidableEq

inductive SubmitError where
  | encode (e : EncodeError)
  | unknownVerdict (byte : UInt8)
  | notAdmissible
  | parseError
  | transport (message : String)
deriving DecidableEq

inductive WatcherError where
  | source
  | reorg (e : ReorgError)
  | decode
  | state (e : StateError)
  | encode (e : EncodeError)
  | key
  | submit (e : SubmitError)
  | windowCapacity
  | bookCommit (e : CommitError)

structure WatcherLoop where
  config : WatcherConfig
  addressBook : AddressBook
  forwarded : Finset ForwardedKey
  reorgWindow : ReorgWindow
  lastConfirmedBlock : Option UInt64
  nextNonce : Nonce

/-- An action on its way to the consumer, with the event it comes from. -/
structure Attempt where
  event : IngestedEvent
  key : ForwardedKey
  unsigned : UnsignedAction
  signature : Bytes
  assignment : Option (EthAddress × ActorId)

/-- The block that is being processed, the last one of the iteration, and the logs to go. -/
structure Cursor where
  block : UInt64
  last : UInt64
  hash : TopicHash
  rest : List RawLog

inductive Phase where
  | idle
  | fetch (block last : UInt64)
  | logs (cursor : Cursor)
  | submitting (cursor : Cursor) (attempt : Attempt) (retries : ℕ)
  | accepted (cursor : Cursor) (attempt : Attempt)
  | recorded (cursor : Cursor) (attempt : Attempt) (newNextNonce : Nonce)
  | processed (block last : UInt64)
  | confirmed (block last : UInt64)
  | failed (e : WatcherError)

/-- The file, and the process if one is running. -/
structure IngestHost where
  file : StateFile
  process : Option (WatcherLoop × Phase)

inductive IngestOp where
  | start (config : WatcherConfig)
  | stop
  | latestBlock (answer : Option UInt64)
  | fetchBlock (header : Option BlockHeader) (bridgeLogs identityLogs : Option (List RawLog))
  | nextLog (signature : Option Bytes)
  | verdict (answer : Except SubmitError Verdict)
  | persist
  | commit
  | confirm
  | advance

inductive IngestOut where
  | translated (event : IngestedEvent) (result : Translated)
  | answered (attempt : Attempt) (answer : Except SubmitError Verdict)
  | persisted (attempt : Attempt)
  | silent

namespace WatcherLoop

def maxRetries : ℕ := 16

def state (w : WatcherLoop) : WatcherState where
  lastConfirmedBlock := w.lastConfirmedBlock
  forwarded := w.forwarded
  addressBook := w.addressBook
  nextNonce := w.nextNonce

def new (config : WatcherConfig) (file : StateFile) : Except WatcherError WatcherLoop :=
  if config.reorgWindowCapacity = 0 then .error .windowCapacity
  else
    match file.replay with
    | .error e => .error (.state e)
    | .ok state =>
      .ok {
        config := config
        addressBook := state.addressBook
        forwarded := state.forwarded
        reorgWindow := .new config.reorgWindowCapacity
        lastConfirmedBlock := state.lastConfirmedBlock
        nextNonce := state.nextNonce }

def saturatingAdd64 (a b : UInt64) : UInt64 :=
  if a.toNat + b.toNat < 2 ^ 64 then a + b else UInt64.ofNat (2 ^ 64 - 1)

/-- The first and the last block of an iteration, if there is one to process. -/
def planBlocks (w : WatcherLoop) (head : UInt64) : Option (UInt64 × UInt64) :=
  let confirmationDepth := w.config.confirmationDepth.toUInt64
  if head < confirmationDepth then none
  else
    let confirmedHead := head - confirmationDepth
    let startBlock :=
      match w.lastConfirmedBlock with
      | none => 0
      | some b => saturatingAdd64 b 1
    if startBlock > confirmedHead then none
    else
      let availableBlocks := saturatingAdd64 (confirmedHead - startBlock) 1
      let configuredBatch := w.config.blocksPerIteration.toUInt64
      if configuredBatch = 0 then none
      else
        let blocksToProcess := min availableBlocks configuredBatch
        some (startBlock, startBlock + (blocksToProcess - 1))

/-- Feed a header to the window; the first one starts it. -/
def observe (w : WatcherLoop) (header : BlockHeader) : Except ReorgError WatcherLoop :=
  if w.reorgWindow.buffer.isEmpty then
    .ok { w with reorgWindow := w.reorgWindow.seed header }
  else
    match w.reorgWindow.advance header with
    | .error e => .error e
    | .ok (_, window) => .ok { w with reorgWindow := window }

/-- The logs of a block in their order.  Two contracts at one address are asked once. -/
def collectLogs (config : WatcherConfig) (bridgeLogs identityLogs : Option (List RawLog)) :
    Option (List RawLog) := do
  let logs ← bridgeLogs
  let logs ←
    if config.bridgeContract ≠ config.identityRegistryContract then
      identityLogs.map (logs ++ ·)
    else some logs
  some (logs.mergeSort fun a b => a.logIndex ≤ b.logIndex)

/-- Sign an action; the key's own answer is given. -/
def sign (w : WatcherLoop) (unsigned : UnsignedAction) (signature : Option Bytes) :
    Except WatcherError Bytes :=
  match signingInput unsigned.action unsigned.signer unsigned.nonce w.config.deploymentId with
  | .error e => .error (.encode e)
  | .ok _ =>
    match signature with
    | none => .error .key
    | some signature => .ok signature

def saturatingSuccNonce (n : Nonce) : Nonce := if n.toNat + 1 < 2 ^ 128 then n + 1 else n

/-- The memory after an accepted action, or what a failure leaves. -/
def commit (w : WatcherLoop) (attempt : Attempt) (newNextNonce : Nonce) :
    Except CommitError Unit × WatcherLoop :=
  match attempt.assignment with
  | none =>
    (.ok (), { w with
      nextNonce := newNextNonce
      forwarded := insert attempt.key w.forwarded })
  | some (address, newActorId) =>
    match commitAssignment w.addressBook address newActorId with
    | (.error e, book) => (.error e, { w with addressBook := book })
    | (.ok _, book) =>
      (.ok (), { w with
        addressBook := book
        nextNonce := newNextNonce
        forwarded := insert attempt.key w.forwarded })

end WatcherLoop

namespace IngestHost

def empty : IngestHost where
  file := []
  process := none

section Steps

variable (file : StateFile) (w : WatcherLoop)

/-- The process goes on with a memory and a phase. -/
def running (phase : Phase) : IngestHost where
  file := file
  process := some (w, phase)

/-- Sign an action and go on to submit it. -/
def beginSubmit (cursor : Cursor) (event : IngestedEvent) (key : ForwardedKey)
    (signature : Option Bytes) (unsigned : UnsignedAction)
    (assignment : Option (EthAddress × ActorId)) : IngestHost :=
  match w.sign unsigned signature with
  | .error e => running file w (.failed e)
  | .ok signature =>
    running file w (.submitting cursor ⟨event, key, unsigned, signature, assignment⟩ 0)

/-- `process_event` up to the submission.  An event without an action is entered into the memory
and the file at once: a stop between the two writes leaves what a stop before them leaves. -/
def processEvent (cursor : Cursor) (event : IngestedEvent) (signature : Option Bytes) :
    IngestHost × IngestOut :=
  let key : ForwardedKey := ⟨cursor.hash, event.originKey.1, event.originKey.2⟩
  if key ∈ w.forwarded then (running file w (.logs cursor), .silent)
  else
    let result := translate w.config.materialiseDeposits w.addressBook event w.nextNonce
    (match result with
      | .noAction =>
        running (file.append key.record) { w with forwarded := insert key w.forwarded }
          (.logs cursor)
      | .emit unsigned => beginSubmit file w cursor event key signature unsigned none
      | .emitWithAssignment unsigned address newActorId =>
        beginSubmit file w cursor event key signature unsigned (some (address, newActorId)),
      .translated event result)

def processLog (cursor : Cursor) (log : RawLog) (signature : Option Bytes) :
    IngestHost × IngestOut :=
  match log.decoded with
  | .error () => (running file w (.failed .decode), .silent)
  | .ok none => (running file w (.logs cursor), .silent)
  | .ok (some event) => processEvent file w cursor event signature

/-- Take the consumer's answer to a submission. -/
def takeVerdict (cursor : Cursor) (attempt : Attempt) (retries : ℕ) :
    Except SubmitError Verdict → Phase
  | .ok .ok => .accepted cursor attempt
  | .ok .busy =>
    if retries ≥ WatcherLoop.maxRetries then
      .failed (.submit (.transport "exceeded retry budget on Busy verdict"))
    else .submitting cursor attempt (retries + 1)
  | .ok .notAdmissible => .failed (.submit .notAdmissible)
  | .ok .parseError => .failed (.submit .parseError)
  | .error e => .failed (.submit e)

/-- Another iteration may be begun. -/
def mayIterate : Phase → Bool
  | .idle => true
  | .failed (.bookCommit _) => false
  | .failed _ => true
  | _ => false

def step : Phase → IngestOp → Option (IngestHost × IngestOut)
  | phase, .latestBlock answer =>
    if mayIterate phase then
      match answer with
      | none => some (running file w (.failed .source), .silent)
      | some head =>
        match w.planBlocks head with
        | none => some (running file w .idle, .silent)
        | some (first, last) => some (running file w (.fetch first last), .silent)
    else none
  | .fetch block last, .fetchBlock header bridgeLogs identityLogs =>
    match header with
    | none => some (running file w (.failed .source), .silent)
    | some header =>
      match w.observe header with
      | .error e => some (running file w (.failed (.reorg e)), .silent)
      | .ok w =>
        match WatcherLoop.collectLogs w.config bridgeLogs identityLogs with
        | none => some (running file w (.failed .source), .silent)
        | some logs => some (running file w (.logs ⟨block, last, header.hash, logs⟩), .silent)
  | .logs cursor, .nextLog signature =>
    match cursor.rest with
    | [] => some (running file w (.processed cursor.block cursor.last), .silent)
    | log :: rest => some (processLog file w { cursor with rest } log signature)
  | .submitting cursor attempt retries, .verdict answer =>
    some (running file w (takeVerdict cursor attempt retries answer), .answered attempt answer)
  | .accepted cursor attempt, .persist =>
    let newNextNonce := WatcherLoop.saturatingSuccNonce w.nextNonce
    some (running
      (file.append (attempt.key.submittedRecord newNextNonce attempt.assignment)) w
      (.recorded cursor attempt newNextNonce), .persisted attempt)
  | .recorded cursor attempt newNextNonce, .commit =>
    match w.commit attempt newNextNonce with
    | (.error e, w) => some (running file w (.failed (.bookCommit e)), .silent)
    | (.ok (), w) => some (running file w (.logs cursor), .silent)
  | .processed block last, .confirm =>
    some (running (file.append (.confirmed block)) w (.confirmed block last), .silent)
  | .confirmed block last, .advance =>
    let w := { w with lastConfirmedBlock := some block }
    if block = last then some (running file w .idle, .silent)
    else some (running file w (.fetch (block + 1) last), .silent)
  | _, _ => none

end Steps

end IngestHost

/-- The service: a file, and processes that come and go. -/
def ingestHost : Machine IngestHost IngestOp IngestOut where
  step s op :=
    match s.process, op with
    | none, .start config =>
      match WatcherLoop.new config s.file with
      | .error _ => some (s, .silent)
      | .ok w => some ({ s with process := some (w, .idle) }, .silent)
    | some _, .stop => some ({ s with process := none }, .silent)
    | some (w, phase), op => IngestHost.step s.file w phase op
    | none, _ => none

end Knomosis.Ingest
