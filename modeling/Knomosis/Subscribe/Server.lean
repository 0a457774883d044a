import Knomosis.Lib.Machine
import Knomosis.Subscribe.EventCache

/-!
# The event server

One thread extracts the events of the log, a batch for each frame, puts them into
the cache and offers them to every subscriber, each of whom has a bounded channel.
Each subscriber has a thread that first writes what the cache holds above the number
the client gave, then discards what has meanwhile come twice, and then writes what
comes through the channel.  A batch that finds the channel full is dropped and
counted; a subscriber with too many drops in a row is sent away.

The extractor holds the cache while it pushes and offers a batch.  A step of the
system is a step of one thread.  To offer a batch to one subscriber is one step: what
it tests and changes is changed by no other thread in between, up to the flag of a
subscriber who leaves, and what is offered to such a one is never read.
-/

namespace Knomosis.Subscribe

open Lib Smt

def HARD_MAX_SEND_QUEUE_DEPTH : ℕ := 65536

def HARD_MAX_SUBSCRIBER_LAG : ℕ := 1000000

structure Config where
  sendQueueDepth : ℕ
  maxSubscriberLag : ℕ
  maxSubscribers : ℕ
  keepHistory : ℕ

def Config.queueDepth (cfg : Config) : ℕ := max 1 (min cfg.sendQueueDepth HARD_MAX_SEND_QUEUE_DEPTH)

def Config.maxLag (cfg : Config) : ℕ := min cfg.maxSubscriberLag HARD_MAX_SUBSCRIBER_LAG

inductive DeliveryEvent where
  | live (batch : List CachedEvent)
  | shutdown
deriving DecidableEq

inductive OutboundFrame where
  | event (e : CachedEvent)
  | lagExceeded (lastDeliveredSeq : ℕ)
  | truncated (oldestAvailableSeq : ℕ)
  | serverShutdown (lastDeliveredSeq : ℕ)
deriving DecidableEq

/-- Where the thread of a subscriber stands.  Whether a write failed is kept to the end. -/
inductive Phase where
  | range
  | backfill (events : List CachedEvent)
  | drain
  | checkShutdown
  | checkDisconnected
  | receive
  | write (seq : ℕ) (events : List CachedEvent)
  | unregister (writeFailed : Bool)
  | gone (writeFailed : Bool)
deriving DecidableEq

/-- A subscriber, its thread, and what was written to its socket. -/
structure Subscriber where
  resumeFrom : ℕ
  channel : List DeliveryEvent
  lag : ℕ
  lastDeliveredSeq : ℕ
  disconnected : Bool
  shutdownRequested : Bool
  pending : List DeliveryEvent
  phase : Phase
  written : List OutboundFrame
deriving DecidableEq

/-- What is outside of a thread's hands: whether a write goes through, and whether the socket is
found open after a wait without an event. -/
structure Socket where
  writable : Bool
  connected : Bool

namespace Subscriber

def new (resumeFrom : ℕ) : Subscriber where
  resumeFrom := resumeFrom
  channel := []
  lag := 0
  lastDeliveredSeq := 0
  disconnected := false
  shutdownRequested := false
  pending := []
  phase := .range
  written := []

def isGone (sub : Subscriber) : Bool :=
  match sub.phase with
  | .gone _ => true
  | _ => false

/-- The next step of the thread takes the subscriber out of the registry. -/
def unregisters (sub : Subscriber) : Bool :=
  match sub.phase with
  | .unregister _ => true
  | _ => false

def markDisconnected (sub : Subscriber) : Subscriber := { sub with disconnected := true }

def goTo (sub : Subscriber) (phase : Phase) : Subscriber := { sub with phase := phase }

def recordDelivered (sub : Subscriber) (seq : ℕ) : Subscriber :=
  { sub with lastDeliveredSeq := seq }

def put (sub : Subscriber) (frame : OutboundFrame) : Subscriber :=
  { sub with written := sub.written ++ [frame] }

/-- A last frame, whether it goes through or not. -/
def finish (sub : Subscriber) (socket : Socket) (frame : OutboundFrame) : Subscriber :=
  (if socket.writable then sub.put frame else sub).goTo (.unregister false)

def tryEnqueue (cfg : Config) (sub : Subscriber) (batch : List CachedEvent) : Subscriber :=
  if sub.disconnected then sub
  else if sub.isGone then sub.markDisconnected
  else if sub.channel.length < cfg.queueDepth then
    { sub with channel := sub.channel ++ [.live batch], lag := 0 }
  else
    let sub := { sub with lag := sub.lag + 1 }
    if cfg.maxLag < sub.lag then sub.markDisconnected else sub

def requestShutdown (cfg : Config) (sub : Subscriber) : Subscriber :=
  if sub.disconnected then sub
  else
    let sub := { sub with shutdownRequested := true }
    if sub.isGone then sub.markDisconnected
    else if sub.channel.length < cfg.queueDepth then
      { sub with channel := sub.channel ++ [.shutdown] }
    else sub

/-- The answer of the cache. -/
def backfill (cache : EventCache) (sub : Subscriber) (socket : Socket) : Subscriber :=
  match cache.range sub.resumeFrom with
  | .outOfWindow oldestAvailableSeq =>
    if socket.writable then (sub.put (.truncated oldestAvailableSeq)).goTo (.unregister false)
    -- the error is passed on at once, and the subscriber stays in the registry
    else sub.goTo (.gone true)
  | .inWindow events => sub.goTo (.backfill events)
  | .atLiveTail => sub.goTo .drain

/-- Keep a delivery unless it was written from the cache. -/
def keep (sub : Subscriber) (delivery : DeliveryEvent) : Subscriber :=
  match delivery with
  | .live (first :: rest) =>
    if sub.lastDeliveredSeq < first.seq then
      { sub with pending := sub.pending ++ [.live (first :: rest)] }
    else sub
  | .live [] => sub
  | .shutdown => { sub with pending := sub.pending ++ [.shutdown] }

/-- What is next, from what was kept or else from the channel. -/
def next (sub : Subscriber) : Option (DeliveryEvent × Subscriber) :=
  match sub.pending, sub.channel with
  | delivery :: pending, _ => some (delivery, { sub with pending })
  | [], delivery :: channel => some (delivery, { sub with channel })
  | [], [] => none

/-- One step of `handle_connection` and `dispatch_live`. -/
def step (cache : EventCache) (sub : Subscriber) (socket : Socket) : Option Subscriber :=
  match sub.phase with
  | .range => some (sub.backfill cache socket)
  | .backfill [] => some (sub.goTo .drain)
  | .backfill (e :: events) =>
    if socket.writable then
      some (((sub.put (.event e)).recordDelivered e.seq).goTo (.backfill events))
    else some (sub.markDisconnected.goTo (.unregister true))
  | .drain =>
    match sub.channel with
    | delivery :: channel =>
      if sub.lastDeliveredSeq = 0 then some (sub.goTo .checkShutdown)
      else some ({ sub with channel }.keep delivery)
    | [] => some (sub.goTo .checkShutdown)
  | .checkShutdown =>
    if sub.shutdownRequested then
      some (sub.finish socket (.serverShutdown sub.lastDeliveredSeq))
    else some (sub.goTo .checkDisconnected)
  | .checkDisconnected =>
    if sub.disconnected then some (sub.finish socket (.lagExceeded sub.lastDeliveredSeq))
    else some (sub.goTo .receive)
  | .receive =>
    match sub.next with
    | some (.live batch, sub) =>
      some (sub.goTo (.write ((batch.head?.map CachedEvent.seq).getD sub.lastDeliveredSeq) batch))
    | some (.shutdown, sub) => some (sub.finish socket (.serverShutdown sub.lastDeliveredSeq))
    | none =>
      if socket.connected then some (sub.goTo .checkShutdown)
      else some (sub.markDisconnected.goTo (.unregister false))
  | .write seq [] => some ((sub.recordDelivered seq).goTo .checkShutdown)
  | .write seq (e :: events) =>
    if socket.writable then some ((sub.put (.event e)).goTo (.write seq events))
    else some (sub.markDisconnected.goTo (.unregister true))
  | .unregister writeFailed => some (sub.goTo (.gone writeFailed))
  | .gone _ => none

end Subscriber

/-- Where the extractor stands.  From `push` to the end of `offer` it holds the cache. -/
inductive Extractor where
  | poll
  | pushed (batch : List CachedEvent)
  | offer (batch : List CachedEvent) (todo : List ℕ)
deriving DecidableEq

/-- The server.  The number of a subscriber is its place in the order of registration. -/
structure Server where
  cache : EventCache
  nextSeq : ℕ
  extractor : Extractor
  registry : List ℕ
  subscribers : ℕ → Option Subscriber
  nextId : ℕ
  stop : Bool

inductive ServerOp where
  | extract
  | snapshot
  | offer
  | release
  | halt
  | requestShutdown (id : ℕ)
  | subscribe (resumeFrom : ℕ)
  | dispatch (id : ℕ) (socket : Socket)

namespace Server

def start (cfg : Config) : Server where
  cache := .new cfg.keepHistory
  nextSeq := 1
  extractor := .poll
  registry := []
  subscribers := fun _ => none
  nextId := 0
  stop := false

def setSubscriber (s : Server) (id : ℕ) (sub : Subscriber) : Server :=
  { s with subscribers := Function.update s.subscribers id (some sub) }

def batch (log : ℕ → List Bytes) (seq : ℕ) : List CachedEvent :=
  (log seq).map (fun payload => ⟨seq, payload⟩)

/-- The next frame.  A frame without events is not offered, and a cache that refuses an event
stops the extractor. -/
def extract (log : ℕ → List Bytes) (s : Server) : Server :=
  let events := batch log s.nextSeq
  match s.cache.pushAll events with
  | .error _ => { s with nextSeq := s.nextSeq + 1, stop := true }
  | .ok cache =>
    { s with
      cache
      nextSeq := s.nextSeq + 1
      extractor := if events = [] then .poll else .pushed events }

/-- The registration of a client, unless there are too many. -/
def subscribe (cfg : Config) (s : Server) (resumeFrom : ℕ) : Server :=
  if cfg.maxSubscribers ≠ 0 ∧ cfg.maxSubscribers ≤ s.registry.length then s
  else
    { s.setSubscriber s.nextId (.new resumeFrom) with
      registry := s.registry ++ [s.nextId], nextId := s.nextId + 1 }

/-- A step of a subscriber's thread.  The cache is asked only when nobody holds it. -/
def dispatch (s : Server) (id : ℕ) (socket : Socket) : Option Server :=
  match s.subscribers id with
  | none => none
  | some sub =>
    if sub.phase = .range ∧ s.extractor ≠ .poll then none
    else
      (sub.step s.cache socket).map fun sub' =>
        { s.setSubscriber id sub' with
          registry := if sub.unregisters then s.registry.filter (· ≠ id) else s.registry }

end Server

def server (cfg : Config) (log : ℕ → List Bytes) : Machine Server ServerOp Unit where
  step s
    | .extract => if s.extractor = .poll ∧ ¬ s.stop then some (s.extract log, ()) else none
    | .snapshot =>
      match s.extractor with
      | .pushed batch => some ({ s with extractor := .offer batch s.registry }, ())
      | _ => none
    | .offer =>
      match s.extractor with
      | .offer batch (id :: todo) =>
        let s := { s with extractor := .offer batch todo }
        match s.subscribers id with
        | some sub => some (s.setSubscriber id (sub.tryEnqueue cfg batch), ())
        | none => some (s, ())
      | _ => none
    | .release =>
      match s.extractor with
      | .offer _ [] => some ({ s with extractor := .poll }, ())
      | _ => none
    | .halt => some ({ s with stop := true }, ())
    | .requestShutdown id =>
      match s.subscribers id with
      | some sub => if s.stop then some (s.setSubscriber id (sub.requestShutdown cfg), ()) else none
      | none => none
    | .subscribe resumeFrom =>
      if resumeFrom ≤ U64_MAX then some (s.subscribe cfg resumeFrom, ()) else none
    | .dispatch id socket => (s.dispatch id socket).map fun s => (s, ())

end Knomosis.Subscribe
