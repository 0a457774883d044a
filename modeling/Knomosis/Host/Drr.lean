import Knomosis.Lib.Keyed
import Knomosis.Lib.Machine

/-!
# The round-robin scheduler of the host

Requests wait in flows.  A tier keeps its flows in a map, the keys of its flows in
the order in which they take turns, and a cached count of what all flows hold.
The front flow of a tier serves one request and goes to the back of the order, or
is dropped where nothing is left in it.

The scheduler nests two tiers: the outer one has a flow for each connection, and
the content of such a flow is a tier with a flow for each signer hint of that
connection.

A method that changes its receiver is a function that returns the receiver, also
where it fails, so that what a failure leaves behind is not decided by the model.
-/

namespace Knomosis.Host

open Lib

/-- Connections, numbered as they are accepted. -/
abbrev ConnId := UInt64

/-- The signer that a frame claims to come from. -/
abbrev SignerHint := UInt64

/-- The hint of every frame of a connection without hints. -/
def legacySignerHint : SignerHint := 0

def hardMaxQueueDepth : ℕ := 65536

def hardMaxFlows : ℕ := 65536

def hardMaxSignersPerConn : ℕ := 65536

def defaultMaxSignersPerConn : ℕ := 256

def u64Max : ℕ := 2 ^ 64 - 1

def saturatingAdd (a b : ℕ) : ℕ := min (a + b) u64Max

structure Caps where
  perFlow : ℕ
  maxFlows : ℕ
  maxSigners : ℕ
  maxConnBacklog : ℕ
  global : ℕ
deriving DecidableEq

namespace Caps

def new (perFlow maxFlows global : ℕ) : Caps :=
  let global := min global hardMaxQueueDepth
  { perFlow
    maxFlows := min maxFlows hardMaxFlows
    maxSigners := defaultMaxSignersPerConn
    maxConnBacklog := min perFlow global
    global }

def withMaxSigners (caps : Caps) (maxSigners : ℕ) : Caps :=
  { caps with maxSigners := min maxSigners hardMaxSignersPerConn }

def withMaxConnBacklog (caps : Caps) (maxConnBacklog : ℕ) : Caps :=
  { caps with maxConnBacklog := min maxConnBacklog hardMaxQueueDepth }

end Caps

/-- Which bound of a tier refused a request. -/
inductive RejectReason where
  | maxFlows
  | maxSigners
  | connBacklog
  | perFlow
deriving DecidableEq

structure Rejected (R : Type) where
  reason : RejectReason
  req : R
deriving DecidableEq

section Stores

/-- The ways in which a turn can panic: no flow stands behind a key of the order, the flow has
nothing to serve, or the credit of the flow does not cover one request. -/
inductive PickPanic where
  | missingFlow
  | emptyFlow
  | noCredit
deriving DecidableEq

/-- What a tier asks of the content of a flow. -/
class FlowStore (S : Type) (R : outParam Type) where
  serve : S → Except PickPanic (Option R × S)
  depth : S → ℕ

/-- The requests of one leaf, oldest first. -/
structure RequestFifo (R : Type) where
  deque : List R
deriving DecidableEq

variable {R : Type}

namespace RequestFifo

def new : RequestFifo R where
  deque := []

def push (fifo : RequestFifo R) (req : R) (perFlow : ℕ) :
    RequestFifo R × Except (Rejected R) Unit :=
  if fifo.deque.length ≥ perFlow then (fifo, .error { reason := .perFlow, req })
  else ({ deque := fifo.deque ++ [req] }, .ok ())

instance : FlowStore (RequestFifo R) R where
  serve fifo :=
    match fifo.deque with
    | [] => .ok (none, fifo)
    | req :: deque => .ok (some req, { deque })
  depth fifo := fifo.deque.length

end RequestFifo

structure FlowEntry (S : Type) where
  store : S
  deficit : ℕ
  quantum : ℕ
deriving DecidableEq

/-- The credit a flow gets on each of its turns. -/
def defaultQuantum : ℕ := 1

/-- What one request costs. -/
def cost : ℕ := 1

def FlowEntry.new {S : Type} (store : S) : FlowEntry S where
  store
  deficit := 0
  quantum := defaultQuantum

end Stores

section Tiers

variable {K S R : Type}

/-- Flows that take turns. -/
structure Tier (K S : Type) where
  flows : Keyed K (FlowEntry S)
  active : List K
  totalDepth : ℕ

namespace Tier

def new : Tier K S where
  flows := ∅
  active := []
  totalDepth := 0

def activeLen (t : Tier K S) : ℕ := t.active.length

variable [DecidableEq K]

/-- Bring a request to the flow of a key; a key without a flow gets one made by `make`, up to
`maxKeys` of them, and only if the request gets into it. -/
def enqueueRouted (t : Tier K S) (key : K) (maxKeys : ℕ) (maxKeysReason : RejectReason) (req : R)
    (make : S) (push : S → R → S × Except (Rejected R) Unit) :
    Tier K S × Except (Rejected R) Unit :=
  match t.flows.lookup key with
  | some entry =>
    let (store, result) := push entry.store req
    let t := { t with flows := t.flows.insert key { entry with store } }
    match result with
    | .error rejected => (t, .error rejected)
    | .ok () => ({ t with totalDepth := t.totalDepth + 1 }, .ok ())
  | none =>
    if t.flows.keys.card ≥ maxKeys then (t, .error { reason := maxKeysReason, req })
    else
      let (store, result) := push make req
      match result with
      | .error rejected => (t, .error rejected)
      | .ok () =>
        ({ flows := t.flows.insert key (FlowEntry.new store)
           active := t.active ++ [key]
           totalDepth := t.totalDepth + 1 }, .ok ())

/-- The turn of the front flow. -/
def pick [FlowStore S R] (t : Tier K S) : Except PickPanic (Option R × Tier K S) :=
  match t.active with
  | [] => .ok (none, t)
  | key :: rest =>
    match t.flows.lookup key with
    | none => .error .missingFlow
    | some entry =>
      let deficit := saturatingAdd entry.deficit entry.quantum
      if deficit < cost then .error .noCredit
      else
        match FlowStore.serve entry.store with
        | .error panic => .error panic
        | .ok (none, _) => .error .emptyFlow
        | .ok (some req, store) =>
          let entry := { entry with store, deficit := deficit - cost }
          if FlowStore.depth store = 0 then
            .ok (some req,
              { flows := t.flows.erase key, active := rest, totalDepth := t.totalDepth - 1 })
          else
            .ok (some req,
              { flows := t.flows.insert key entry
                active := rest ++ [key]
                totalDepth := t.totalDepth - 1 })

/-- A tier is the content of a flow of a tier above it. -/
instance [FlowStore S R] : FlowStore (Tier K S) R where
  serve := pick
  depth t := t.totalDepth

def enqueueLeaf (t : Tier K (RequestFifo R)) (key : K) (req : R) (perFlow maxKeys : ℕ)
    (maxKeysReason : RejectReason) : Tier K (RequestFifo R) × Except (Rejected R) Unit :=
  t.enqueueRouted key maxKeys maxKeysReason req RequestFifo.new
    (fun fifo req => fifo.push req perFlow)

end Tier

/-- The flows of one connection. -/
abbrev ConnBucket (R : Type) := Tier SignerHint (RequestFifo R)

/-- The three bounds of a connection: of the leaf if there is one, of all leaves together, and of
the number of leaves. -/
def ConnBucket.enqueueSigner (bucket : ConnBucket R) (signer : SignerHint) (req : R)
    (perFlow maxSigners maxConnBacklog : ℕ) : ConnBucket R × Except (Rejected R) Unit :=
  if (bucket.flows.lookup signer).any (fun entry => FlowStore.depth entry.store ≥ perFlow) then
    (bucket, .error { reason := .perFlow, req })
  else if bucket.totalDepth ≥ maxConnBacklog then
    (bucket, .error { reason := .connBacklog, req })
  else bucket.enqueueLeaf signer req perFlow maxSigners .maxSigners

end Tiers

section Scheduler

variable {R : Type}

/-- What the scheduler reports of itself. -/
structure DrrStats where
  totalDepth : ℕ
  activeFlows : ℕ
  activeSigners : ℕ
  dispatched : ℕ
  rejectedPerFlow : ℕ
  rejectedMaxFlows : ℕ
  rejectedMaxSigners : ℕ
  rejectedConnBacklog : ℕ
  rejectedGlobal : ℕ
deriving DecidableEq

/-- The scheduler: connections take turns, and in the turn of a connection its hints do. -/
structure DrrState (R : Type) where
  outer : Tier ConnId (ConnBucket R)
  caps : Caps
  dispatched : ℕ
  rejectedPerFlow : ℕ
  rejectedMaxFlows : ℕ
  rejectedMaxSigners : ℕ
  rejectedConnBacklog : ℕ
  rejectedGlobal : ℕ
  closed : Bool

namespace DrrState

/-- The bounds that are in force: those asked for, within the hard limits. -/
def clampedCaps (caps : Caps) : Caps :=
  ((Caps.new caps.perFlow caps.maxFlows caps.global).withMaxSigners
    caps.maxSigners).withMaxConnBacklog caps.maxConnBacklog

def new (caps : Caps) : DrrState R where
  outer := Tier.new
  caps := clampedCaps caps
  dispatched := 0
  rejectedPerFlow := 0
  rejectedMaxFlows := 0
  rejectedMaxSigners := 0
  rejectedConnBacklog := 0
  rejectedGlobal := 0
  closed := false

/-- Count a refusal by a tier. -/
def tally (s : DrrState R) : RejectReason → DrrState R
  | .maxFlows => { s with rejectedMaxFlows := saturatingAdd s.rejectedMaxFlows 1 }
  | .maxSigners => { s with rejectedMaxSigners := saturatingAdd s.rejectedMaxSigners 1 }
  | .connBacklog => { s with rejectedConnBacklog := saturatingAdd s.rejectedConnBacklog 1 }
  | .perFlow => { s with rejectedPerFlow := saturatingAdd s.rejectedPerFlow 1 }

def enqueue (s : DrrState R) (conn : ConnId) (signer : SignerHint) (req : R) :
    DrrState R × Except R Unit :=
  if s.outer.totalDepth ≥ s.caps.global then
    ({ s with rejectedGlobal := saturatingAdd s.rejectedGlobal 1 }, .error req)
  else
    let (outer, result) :=
      s.outer.enqueueRouted conn s.caps.maxFlows .maxFlows req Tier.new
        (fun bucket req => ConnBucket.enqueueSigner bucket signer req s.caps.perFlow
          s.caps.maxSigners s.caps.maxConnBacklog)
    let s := { s with outer }
    match result with
    | .ok () => (s, .ok ())
    | .error rejected => (s.tally rejected.reason, .error rejected.req)

def pick (s : DrrState R) : Except PickPanic (Option R × DrrState R) :=
  match s.outer.pick with
  | .error panic => .error panic
  | .ok (none, outer) => .ok (none, { s with outer })
  | .ok (some req, outer) =>
    .ok (some req, { s with outer, dispatched := saturatingAdd s.dispatched 1 })

def isEmpty (s : DrrState R) : Bool := s.outer.totalDepth = 0

def setClosed (s : DrrState R) : DrrState R := { s with closed := true }

def activeSigners (s : DrrState R) : ℕ :=
  Keyed.total (fun entry => entry.store.activeLen) s.outer.flows

def stats (s : DrrState R) : DrrStats where
  totalDepth := s.outer.totalDepth
  activeFlows := s.outer.activeLen
  activeSigners := s.activeSigners
  dispatched := s.dispatched
  rejectedPerFlow := s.rejectedPerFlow
  rejectedMaxFlows := s.rejectedMaxFlows
  rejectedMaxSigners := s.rejectedMaxSigners
  rejectedConnBacklog := s.rejectedConnBacklog
  rejectedGlobal := s.rejectedGlobal

end DrrState

inductive DrrOp (R : Type) where
  | enqueue (conn : ConnId) (signer : SignerHint) (req : R)
  | pick
deriving DecidableEq

inductive DrrOut (R : Type) where
  | enqueued (result : Except R Unit)
  | picked (req : Option R)
deriving DecidableEq

/-- The scheduler as a machine.  A panic is the only step that is not there. -/
def drr (R : Type) : Machine (DrrState R) (DrrOp R) (DrrOut R) where
  step s
    | .enqueue conn signer req =>
      let (s, result) := s.enqueue conn signer req
      some (s, .enqueued result)
    | .pick =>
      match s.pick with
      | .error _ => none
      | .ok (req, s) => some (s, .picked req)

end Scheduler

end Knomosis.Host
