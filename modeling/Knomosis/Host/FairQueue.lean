import Knomosis.Host.DrrRuns
import Mathlib.Logic.Function.Basic

/-!
# The fair queue and its worker

Connection handlers submit requests to a scheduler behind a lock, and a single
worker takes them out, hands each to the kernel and sends the answer back on the
request's own channel.  While nothing waits the worker is parked on a condition
variable, from which a notification, a timeout or nothing at all may wake it.  At
shutdown the worker closes the queue, serves what is left and exits.

Every thread is a program counter, and a step of the system is a step of one
thread.  The steps are those between which another thread can get in: to acquire
the lock, each test and each change under it, to give it back, to notify, to call
the kernel, to send.  The last action under the lock is one step with giving it
back, except where the source gives it back in a statement of its own.

The stop flag is read without synchronisation; a read that misses the flag is a
read that came earlier.  A panic of the kernel is caught.  In a build that aborts
instead, the run ends there.
-/

namespace Knomosis.Host

open Lib

inductive Verdict where
  | ok
  | notAdmissible
  | parseError
  | busy
deriving DecidableEq

structure VerdictResponse where
  verdict : Verdict
  reason : String
deriving DecidableEq

/-- A request with the channel on which its answer is awaited. -/
structure QueuedRequest where
  payload : List UInt8
  reply : ℕ
deriving DecidableEq

inductive SubmitOutcome where
  | enqueued
  | busy
deriving DecidableEq

/-- A channel with room for one answer. -/
structure ReplyChannel where
  buffer : Option VerdictResponse
  receiver : Bool
deriving DecidableEq

inductive SendOutcome where
  | sent
  | full
  | disconnected
deriving DecidableEq

/-- Send without waiting. -/
def ReplyChannel.trySend (ch : ReplyChannel) (response : VerdictResponse) :
    ReplyChannel × SendOutcome :=
  if ¬ ch.receiver then (ch, .disconnected)
  else if ch.buffer.isSome then (ch, .full)
  else ({ ch with buffer := some response }, .sent)

/-- The answer of the kernel, or an answer that reports its panic. -/
def catchUnwindingSubmit : Except String VerdictResponse → VerdictResponse
  | .ok response => response
  | .error detail => { verdict := .notAdmissible, reason := "kernel panicked: " ++ detail }

inductive SubmitPhase where
  | lock (conn : ConnId) (signer : SignerHint) (request : QueuedRequest)
  | checkClosed (conn : ConnId) (signer : SignerHint) (request : QueuedRequest)
  | testEmpty (conn : ConnId) (signer : SignerHint) (request : QueuedRequest)
  | enqueue (conn : ConnId) (signer : SignerHint) (request : QueuedRequest) (wasEmpty : Bool)
  | unlock (outcome : SubmitOutcome) (wasEmpty : Bool)
  | notifyOne
  | return (outcome : SubmitOutcome)
  | answered (outcome : SubmitOutcome)
deriving DecidableEq

/-- Only a request that went into an empty queue is announced. -/
def SubmitPhase.afterUnlock : SubmitOutcome → Bool → SubmitPhase
  | .enqueued, true => .notifyOne
  | outcome, _ => .return outcome

/-- The two loops in which the worker dispatches. -/
inductive WorkerLoop where
  | serving
  | draining
deriving DecidableEq

inductive WorkerPhase where
  | loadStop
  | statsLock (shutdown : Bool)
  | stats (shutdown : Bool)
  | nextLock
  | testEmpty
  | parked
  | woken
  | closeLock
  | setClosed
  | notifyAll
  | tryNextLock
  | pick (loop : WorkerLoop)
  | submit (loop : WorkerLoop) (request : QueuedRequest)
  | reply (loop : WorkerLoop) (request : QueuedRequest) (response : VerdictResponse)
  | exited
  | panicked
deriving DecidableEq

/-- The worker after one request. -/
def WorkerLoop.again : WorkerLoop → WorkerPhase
  | serving => .loadStop
  | draining => .tryNextLock

/-- The worker after it found nothing to pick. -/
def WorkerLoop.idle : WorkerLoop → WorkerPhase
  | serving => .loadStop
  | draining => .statsLock true

inductive LockOwner where
  | caller (id : ℕ)
  | worker
deriving DecidableEq

/-- The queue, the threads and the channels.  A call of `try_submit` and the channel it
creates have the same number. -/
structure FairHost where
  inner : DrrState QueuedRequest
  lock : Option LockOwner
  calls : ℕ → Option SubmitPhase
  nextCall : ℕ
  worker : WorkerPhase
  stop : Bool
  channels : ℕ → ReplyChannel

/-- What happens next: a call, a step of a thread, the end of a wait that nobody asked for, or
something outside the queue. -/
inductive FairOp where
  | trySubmit (conn : ConnId) (signer : SignerHint) (payload : List UInt8)
  | caller (id : ℕ)
  | worker (summaryDue : Bool) (answer : Except String VerdictResponse)
  | wakeUp
  | wakeAll
  | setStop
  | receive (id : ℕ)
  | hangUp (id : ℕ)

inductive FairOut where
  | called (id : ℕ)
  | enqueued (request : QueuedRequest)
  | notified (id : ℕ)
  | answered (id : ℕ) (outcome : SubmitOutcome)
  | submitted (request : QueuedRequest)
  | replied (request : QueuedRequest) (outcome : SendOutcome)
  | exited
  | silent
deriving DecidableEq

namespace FairHost

def new (caps : Caps) : FairHost where
  inner := .new caps
  lock := none
  calls := fun _ => none
  nextCall := 0
  worker := .loadStop
  stop := false
  channels := fun _ => { buffer := none, receiver := true }

/-- Acquire the lock if it is free. -/
def acquire (s : FairHost) (owner : LockOwner) : Option FairHost :=
  if s.lock = none then some { s with lock := some owner } else none

/-- Wake the worker if it is parked; no one else ever waits. -/
def notify (s : FairHost) : FairHost :=
  if s.worker = .parked then { s with worker := .woken } else s

def setCall (s : FairHost) (id : ℕ) (phase : SubmitPhase) : FairHost :=
  { s with calls := Function.update s.calls id (some phase) }

def setWorker (s : FairHost) (phase : WorkerPhase) : FairHost := { s with worker := phase }

def stepCall (s : FairHost) (id : ℕ) : SubmitPhase → Option (FairHost × FairOut)
  | .lock conn signer request =>
    (s.acquire (.caller id)).map fun s => (s.setCall id (.checkClosed conn signer request), .silent)
  | .checkClosed conn signer request =>
    if s.inner.closed then some (s.setCall id (.unlock .busy false), .silent)
    else some (s.setCall id (.testEmpty conn signer request), .silent)
  | .testEmpty conn signer request =>
    some (s.setCall id (.enqueue conn signer request s.inner.isEmpty), .silent)
  | .enqueue conn signer request wasEmpty =>
    match s.inner.enqueue conn signer request with
    | (inner, .ok ()) =>
      some ({ s with inner }.setCall id (.unlock .enqueued wasEmpty), .enqueued request)
    | (inner, .error _) => some ({ s with inner }.setCall id (.unlock .busy false), .silent)
  | .unlock outcome wasEmpty =>
    some ({ s with lock := none }.setCall id (.afterUnlock outcome wasEmpty), .silent)
  | .notifyOne => some (s.notify.setCall id (.return .enqueued), .notified id)
  | .return outcome => some (s.setCall id (.answered outcome), .answered id outcome)
  | .answered _ => none

def stepWorker (s : FairHost) (summaryDue : Bool) (answer : Except String VerdictResponse) :
    WorkerPhase → Option (FairHost × FairOut)
  | .loadStop =>
    if s.stop then some (s.setWorker .closeLock, .silent)
    else some (s.setWorker (if summaryDue then .statsLock false else .nextLock), .silent)
  | .statsLock shutdown => (s.acquire .worker).map fun s => (s.setWorker (.stats shutdown), .silent)
  | .stats shutdown =>
    let s := { s with lock := none }
    if shutdown then some (s.setWorker .exited, .exited)
    else some (s.setWorker .nextLock, .silent)
  | .nextLock => (s.acquire .worker).map fun s => (s.setWorker .testEmpty, .silent)
  | .testEmpty =>
    if s.inner.isEmpty then some ({ s with lock := none }.setWorker .parked, .silent)
    else some (s.setWorker (.pick .serving), .silent)
  | .parked => none
  | .woken => (s.acquire .worker).map fun s => (s.setWorker (.pick .serving), .silent)
  | .closeLock => (s.acquire .worker).map fun s => (s.setWorker .setClosed, .silent)
  | .setClosed =>
    some ({ s with inner := s.inner.setClosed, lock := none }.setWorker .notifyAll, .silent)
  | .notifyAll => some (s.notify.setWorker .tryNextLock, .silent)
  | .tryNextLock => (s.acquire .worker).map fun s => (s.setWorker (.pick .draining), .silent)
  | .pick loop =>
    match s.inner.pick with
    | .error _ => some ({ s with lock := none }.setWorker .panicked, .silent)
    | .ok (none, inner) => some ({ s with inner, lock := none }.setWorker loop.idle, .silent)
    | .ok (some request, inner) =>
      some ({ s with inner, lock := none }.setWorker (.submit loop request), .silent)
  | .submit loop request =>
    some (s.setWorker (.reply loop request (catchUnwindingSubmit answer)), .submitted request)
  | .reply loop request response =>
    match (s.channels request.reply).trySend response with
    | (ch, outcome) =>
      some ({ s with channels := Function.update s.channels request.reply ch }.setWorker
        loop.again, .replied request outcome)
  | .exited => none
  | .panicked => none

end FairHost

/-- The queue with any number of callers, its worker and the threads around them. -/
def fairHost : Machine FairHost FairOp FairOut where
  step s
    | .trySubmit conn signer payload =>
      let request := { payload, reply := s.nextCall }
      some ({ s with nextCall := s.nextCall + 1 }.setCall s.nextCall (.lock conn signer request),
        .called s.nextCall)
    | .caller id => (s.calls id).bind (s.stepCall id)
    | .worker summaryDue answer => s.stepWorker summaryDue answer s.worker
    | .wakeUp => if s.worker = .parked then some (s.setWorker .woken, .silent) else none
    | .wakeAll => some (s.notify, .silent)
    | .setStop => some ({ s with stop := true }, .silent)
    | .receive id =>
      if s.calls id = some (.answered .enqueued) then
        some ({ s with channels :=
          Function.update s.channels id { s.channels id with buffer := none } }, .silent)
      else none
    | .hangUp id =>
      if s.calls id = some (.answered .enqueued) then
        some ({ s with channels :=
          Function.update s.channels id { s.channels id with receiver := false } }, .silent)
      else none

end Knomosis.Host
