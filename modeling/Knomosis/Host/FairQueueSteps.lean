import Knomosis.Host.FairQueue
import Knomosis.Lib.Mutex

/-!
# The steps of the fair queue

What a thread can do in each of its phases, as one relation for the callers and one
for the worker, and the invariant that all interleavings of these steps preserve.

The invariant ties the lock to the phase of its owner, so that what a thread has
tested under the lock still holds when it acts on it.  Where the worker is parked
beside a request, a caller is on its way to notify it.
-/

namespace Knomosis.Host

open Lib Option SubmitPhase

namespace DrrState

variable {R : Type}

theorem Effect.closed_eq {s s' : DrrState R} {op : DrrOp R} {out : DrrOut R}
    (heffect : s.Effect op s' out) : s'.closed = s.closed := by
  cases heffect with
  | refused _ _ _ cap => rcases cap with - | (_ | _ | _ | _) <;> rfl
  | accepted | idle | served => rfl

theorem Sound.isEmpty_iff {s : DrrState R} (hsound : s.Sound) :
    s.isEmpty = true ↔ s.requests = 0 := by
  rw [isEmpty, decide_eq_true_eq, Tier.Sound.totalDepth_eq hsound]
  exact Multiset.card_eq_zero

theorem Sound.effect_enqueue {s : DrrState R} (hsound : s.Sound)
    (conn : ConnId) (signer : SignerHint) (req : R) :
    s.Effect (.enqueue conn signer req) (s.enqueue conn signer req).1
      (.enqueued (s.enqueue conn signer req).2) :=
  hsound.effect rfl

theorem Sound.effect_pick {s : DrrState R} (hsound : s.Sound) :
    ∃ req s', s.pick = .ok (req, s') ∧ s.Effect .pick s' (.picked req) := by
  rcases hsound.pick_cases with ⟨hactive, hpick⟩ |
    ⟨conn, rest, signer, hints, req, deque, hfront, hpick⟩
  · exact ⟨none, s, hpick, .idle hactive⟩
  · exact ⟨some req, _, hpick, .served conn rest signer hints req deque hfront⟩

theorem Effect.eq_of_error {s s' : DrrState R} {conn : ConnId} {signer : SignerHint} {req e : R}
    (heffect : s.Effect (.enqueue conn signer req) s' (.enqueued (.error e))) : e = req := by
  cases heffect
  rfl

end DrrState

namespace SubmitPhase

def holdsLock : SubmitPhase → Bool
  | checkClosed _ _ _ => true
  | testEmpty _ _ _ => true
  | enqueue _ _ _ _ => true
  | unlock _ _ => true
  | _ => false

/-- The request that the call still holds. -/
def request : SubmitPhase → Option QueuedRequest
  | lock _ _ r => some r
  | checkClosed _ _ r => some r
  | testEmpty _ _ r => some r
  | enqueue _ _ r _ => some r
  | _ => none

/-- The call has put its request into the queue. -/
def accepted : SubmitPhase → Bool
  | unlock o _ => o = .enqueued
  | notifyOne => true
  | «return» o => o = .enqueued
  | answered o => o = .enqueued
  | _ => false

/-- The call has found the queue open and has not let go of it. -/
def foundOpen : SubmitPhase → Bool
  | testEmpty _ _ _ => true
  | enqueue _ _ _ _ => true
  | _ => false

/-- The call is going to notify. -/
def willNotify : SubmitPhase → Bool
  | unlock o wasEmpty => wasEmpty && o = .enqueued
  | notifyOne => true
  | _ => false

/-- A bound on the steps that a call has left. -/
def stepsLeft : SubmitPhase → ℕ
  | lock _ _ _ => 7
  | checkClosed _ _ _ => 6
  | testEmpty _ _ _ => 5
  | enqueue _ _ _ _ => 4
  | unlock _ _ => 3
  | notifyOne => 2
  | «return» _ => 1
  | answered _ => 0

end SubmitPhase

namespace WorkerPhase

def holdsLock : WorkerPhase → Bool
  | stats _ => true
  | testEmpty => true
  | setClosed => true
  | pick _ => true
  | _ => false

/-- The worker has closed the queue. -/
def hasClosed : WorkerPhase → Bool
  | notifyAll => true
  | tryNextLock => true
  | pick loop => loop = .draining
  | submit loop _ => loop = .draining
  | reply loop _ _ => loop = .draining
  | statsLock shutdown => shutdown
  | stats shutdown => shutdown
  | exited => true
  | _ => false

/-- The worker has found the closed queue empty. -/
def hasDrained : WorkerPhase → Bool
  | statsLock shutdown => shutdown
  | stats shutdown => shutdown
  | exited => true
  | _ => false

/-- The request that the worker has taken out and not yet submitted. -/
def inHand : WorkerPhase → Multiset QueuedRequest
  | submit _ r => {r}
  | _ => 0

/-- The request that the worker has submitted and not yet answered. -/
def unanswered : WorkerPhase → Multiset QueuedRequest
  | reply _ r _ => {r}
  | _ => 0

/-- Where the worker goes on once it has the lock it waits for. -/
def afterLock : WorkerPhase → Option WorkerPhase
  | statsLock shutdown => some (stats shutdown)
  | nextLock => some testEmpty
  | woken => some (pick .serving)
  | closeLock => some setClosed
  | tryNextLock => some (pick .draining)
  | _ => none

end WorkerPhase

namespace FairHost

section Relations

/-- A step of a call from one phase to the next; `t` is the rest of the state after it. -/
inductive CallStep (s : FairHost) (id : ℕ) :
    SubmitPhase → SubmitPhase → FairHost → FairOut → Prop
  | locked (conn signer request) (hfree : s.lock = none) :
      CallStep s id (.lock conn signer request) (.checkClosed conn signer request)
        { s with lock := some (.caller id) } .silent
  | foundClosed (conn signer request) (hclosed : s.inner.closed = true) :
      CallStep s id (.checkClosed conn signer request) (.unlock .busy false) s .silent
  | foundOpen (conn signer request) (hopen : s.inner.closed = false) :
      CallStep s id (.checkClosed conn signer request) (.testEmpty conn signer request) s .silent
  | tested (conn signer request) :
      CallStep s id (.testEmpty conn signer request)
        (.enqueue conn signer request s.inner.isEmpty) s .silent
  | accepted (conn signer request wasEmpty) (inner : DrrState QueuedRequest)
      (heffect : s.inner.Effect (.enqueue conn signer request) inner (.enqueued (.ok ()))) :
      CallStep s id (.enqueue conn signer request wasEmpty) (.unlock .enqueued wasEmpty)
        { s with inner } (.enqueued request)
  | rejected (conn signer request wasEmpty) (inner : DrrState QueuedRequest)
      (heffect : s.inner.Effect (.enqueue conn signer request) inner (.enqueued (.error request))) :
      CallStep s id (.enqueue conn signer request wasEmpty) (.unlock .busy false)
        { s with inner } .silent
  | unlocked (outcome wasEmpty) :
      CallStep s id (.unlock outcome wasEmpty) (.afterUnlock outcome wasEmpty)
        { s with lock := none } .silent
  | notified : CallStep s id .notifyOne (.return .enqueued) s.notify (.notified id)
  | returned (outcome) :
      CallStep s id (.return outcome) (.answered outcome) s (.answered id outcome)

/-- A step of the worker from one phase to the next; `t` is the rest of the state after it. -/
inductive WorkerStep (s : FairHost) : WorkerPhase → WorkerPhase → FairHost → FairOut → Prop
  | goOn (phase) (hstop : s.stop = false) (hphase : phase = .statsLock false ∨ phase = .nextLock) :
      WorkerStep s .loadStop phase s .silent
  | stopping (hstop : s.stop = true) : WorkerStep s .loadStop .closeLock s .silent
  | locked (phase phase') (hfree : s.lock = none) (hphase : phase.afterLock = some phase') :
      WorkerStep s phase phase' { s with lock := some .worker } .silent
  | reported : WorkerStep s (.stats false) .nextLock { s with lock := none } .silent
  | exited : WorkerStep s (.stats true) .exited { s with lock := none } .exited
  | parked (hempty : s.inner.isEmpty = true) :
      WorkerStep s .testEmpty .parked { s with lock := none } .silent
  | ready (hempty : s.inner.isEmpty = false) : WorkerStep s .testEmpty (.pick .serving) s .silent
  | closing :
      WorkerStep s .setClosed .notifyAll { s with inner := s.inner.setClosed, lock := none } .silent
  | broadcast : WorkerStep s .notifyAll .tryNextLock s .silent
  | foundNothing (loop) (inner : DrrState QueuedRequest)
      (heffect : s.inner.Effect .pick inner (.picked none)) :
      WorkerStep s (.pick loop) loop.idle { s with inner, lock := none } .silent
  | picked (loop request) (inner : DrrState QueuedRequest)
      (heffect : s.inner.Effect .pick inner (.picked (some request))) :
      WorkerStep s (.pick loop) (.submit loop request) { s with inner, lock := none } .silent
  | submitted (loop request answer) :
      WorkerStep s (.submit loop request)
        (.reply loop request (catchUnwindingSubmit answer)) s (.submitted request)
  | replied (loop request response) :
      WorkerStep s (.reply loop request response) loop.again
        { s with
          channels := Function.update s.channels request.reply
            ((s.channels request.reply).trySend response).1 }
        (.replied request ((s.channels request.reply).trySend response).2)

/-- A step of anything else. -/
inductive OtherStep (s : FairHost) : FairOp → FairHost → FairOut → Prop
  | called (conn : ConnId) (signer : SignerHint) (payload : List UInt8) :
      OtherStep s (.trySubmit conn signer payload)
        ({ s with nextCall := s.nextCall + 1 }.setCall s.nextCall
          (.lock conn signer { payload, reply := s.nextCall })) (.called s.nextCall)
  | woken (hparked : s.worker = .parked) : OtherStep s .wakeUp (s.setWorker .woken) .silent
  | wokenByAll : OtherStep s .wakeAll s.notify .silent
  | stopped : OtherStep s .setStop { s with stop := true } .silent
  | received (id : ℕ) (hanswered : s.calls id = some (.answered .enqueued)) :
      OtherStep s (.receive id)
        { s with channels := Function.update s.channels id { s.channels id with buffer := none } }
        .silent
  | hungUp (id : ℕ) (hanswered : s.calls id = some (.answered .enqueued)) :
      OtherStep s (.hangUp id)
        { s with
          channels := Function.update s.channels id { s.channels id with receiver := false } }
        .silent

variable {s s' : FairHost} {out : FairOut}

theorem callStep_of_stepCall {id : ℕ} {phase : SubmitPhase} (hsound : s.inner.Sound)
    (hstep : s.stepCall id phase = some (s', out)) :
    ∃ phase' t, CallStep s id phase phase' t out ∧ s' = t.setCall id phase' := by
  cases phase with
  | lock conn signer request =>
    simp only [stepCall, acquire, map_eq_some_iff, ite_none_right_eq_some] at hstep
    obtain ⟨t, ⟨hfree, ht⟩, heq⟩ := hstep
    cases ht
    cases heq
    exact ⟨_, _, .locked conn signer request hfree, rfl⟩
  | checkClosed conn signer request =>
    simp only [stepCall] at hstep
    split at hstep <;> cases hstep
    · exact ⟨_, _, .foundClosed conn signer request ‹_›, rfl⟩
    · exact ⟨_, _, .foundOpen conn signer request (Bool.not_eq_true _ ▸ ‹_›), rfl⟩
  | testEmpty conn signer request =>
    cases hstep
    exact ⟨_, _, .tested conn signer request, rfl⟩
  | enqueue conn signer request wasEmpty =>
    have heffect := hsound.effect_enqueue conn signer request
    simp only [stepCall] at hstep
    generalize s.inner.enqueue conn signer request = result at heffect hstep
    rcases result with ⟨inner, e | ⟨⟨⟩⟩⟩
    · cases hstep
      obtain rfl := heffect.eq_of_error
      exact ⟨_, _, .rejected conn signer e wasEmpty inner heffect, rfl⟩
    · cases hstep
      exact ⟨_, _, .accepted conn signer request wasEmpty inner heffect, rfl⟩
  | unlock outcome wasEmpty =>
    cases hstep
    exact ⟨_, _, .unlocked outcome wasEmpty, rfl⟩
  | notifyOne =>
    cases hstep
    exact ⟨_, _, .notified, rfl⟩
  | «return» outcome =>
    cases hstep
    exact ⟨_, _, .returned outcome, rfl⟩
  | answered => cases hstep

theorem workerStep_of_stepWorker {summaryDue : Bool} {answer : Except String VerdictResponse}
    {phase : WorkerPhase} (hsound : s.inner.Sound) (hphase : s.worker = phase)
    (hstep : s.stepWorker summaryDue answer phase = some (s', out)) :
    ∃ phase' t, WorkerStep s phase phase' t out ∧ s' = t.setWorker phase' := by
  have hlock : ∀ next : FairHost → FairHost × FairOut,
      (s.acquire .worker).map next = some (s', out) →
        s.lock = none ∧ (s', out) = next { s with lock := some .worker } := by
    intro next hnext
    simp only [acquire, map_eq_some_iff, ite_none_right_eq_some] at hnext
    obtain ⟨t, ⟨hfree, ht⟩, heq⟩ := hnext
    cases ht
    exact ⟨hfree, heq.symm⟩
  cases phase with
  | loadStop =>
    simp only [stepWorker] at hstep
    split at hstep <;> cases hstep
    · exact ⟨_, _, .stopping ‹_›, rfl⟩
    refine ⟨_, _, .goOn _ (Bool.not_eq_true _ ▸ ‹_›) ?_, rfl⟩
    cases summaryDue
    · exact .inr rfl
    · exact .inl rfl
  | statsLock | nextLock | woken | closeLock | tryNextLock =>
    obtain ⟨hfree, heq⟩ := hlock _ hstep
    cases heq
    exact ⟨_, _, .locked _ _ hfree rfl, rfl⟩
  | stats shutdown =>
    cases shutdown <;> cases hstep
    · exact ⟨_, _, .reported, rfl⟩
    · exact ⟨_, _, .exited, rfl⟩
  | testEmpty =>
    simp only [stepWorker] at hstep
    split at hstep <;> cases hstep
    · exact ⟨_, _, .parked ‹_›, rfl⟩
    · exact ⟨_, _, .ready (Bool.not_eq_true _ ▸ ‹_›), rfl⟩
  | setClosed =>
    cases hstep
    exact ⟨_, _, .closing, rfl⟩
  | notifyAll =>
    rw [stepWorker, notify, if_neg (by simp [hphase])] at hstep
    cases hstep
    exact ⟨_, _, .broadcast, rfl⟩
  | pick loop =>
    obtain ⟨request, inner, hpick, heffect⟩ := hsound.effect_pick
    simp only [stepWorker, hpick] at hstep
    cases request <;> cases hstep
    · exact ⟨_, _, .foundNothing loop inner heffect, rfl⟩
    · exact ⟨_, _, .picked loop _ inner heffect, rfl⟩
  | submit loop request =>
    cases hstep
    exact ⟨_, _, .submitted loop request answer, rfl⟩
  | reply loop request response =>
    cases hstep
    exact ⟨_, _, .replied loop request response, rfl⟩
  | parked | exited | panicked => cases hstep

/-- Whose step an operation is. -/
inductive Stepped (s : FairHost) : FairOp → FairHost → FairOut → Prop
  | caller (id phase phase' t out) (hphase : s.calls id = some phase)
      (hstep : CallStep s id phase phase' t out) :
      Stepped s (.caller id) (t.setCall id phase') out
  | worker (summaryDue answer phase' t out) (hstep : WorkerStep s s.worker phase' t out) :
      Stepped s (.worker summaryDue answer) (t.setWorker phase') out
  | other (op s' out) (hstep : OtherStep s op s' out) : Stepped s op s' out

theorem stepped {op : FairOp} (hsound : s.inner.Sound)
    (hstep : fairHost.step s op = some (s', out)) : Stepped s op s' out := by
  cases op with
  | trySubmit conn signer payload =>
    cases hstep
    exact .other _ _ _ (.called conn signer payload)
  | caller id =>
    simp only [fairHost, bind_eq_some_iff] at hstep
    obtain ⟨phase, hphase, hcall⟩ := hstep
    obtain ⟨phase', t, hstep, rfl⟩ := callStep_of_stepCall hsound hcall
    exact .caller id phase phase' t out hphase hstep
  | worker summaryDue answer =>
    obtain ⟨phase', t, hworker, rfl⟩ := workerStep_of_stepWorker hsound rfl hstep
    exact .worker summaryDue answer phase' t out hworker
  | wakeUp =>
    simp only [fairHost, ite_none_right_eq_some] at hstep
    obtain ⟨hparked, heq⟩ := hstep
    cases heq
    exact .other _ _ _ (.woken hparked)
  | wakeAll =>
    cases hstep
    exact .other _ _ _ .wokenByAll
  | setStop =>
    cases hstep
    exact .other _ _ _ .stopped
  | receive id =>
    simp only [fairHost, ite_none_right_eq_some] at hstep
    obtain ⟨hanswered, heq⟩ := hstep
    cases heq
    exact .other _ _ _ (.received id hanswered)
  | hangUp id =>
    simp only [fairHost, ite_none_right_eq_some] at hstep
    obtain ⟨hanswered, heq⟩ := hstep
    cases heq
    exact .other _ _ _ (.hungUp id hanswered)

end Relations

section Frames

variable {s t : FairHost} {id : ℕ} {phase phase' : SubmitPhase} {out : FairOut}

@[simp] theorem notify_frame : s.notify.inner = s.inner ∧ s.notify.lock = s.lock ∧
    s.notify.calls = s.calls ∧ s.notify.nextCall = s.nextCall ∧
    s.notify.channels = s.channels ∧ s.notify.stop = s.stop := by
  unfold notify
  split <;> exact ⟨rfl, rfl, rfl, rfl, rfl, rfl⟩

theorem notify_worker_ne_parked : s.notify.worker ≠ .parked := by
  unfold notify
  split
  · simp
  · assumption

theorem notify_view {α : Type} (f : WorkerPhase → α) (hf : f .woken = f .parked) :
    f s.notify.worker = f s.worker := by
  unfold notify
  split
  · simp_all
  · rfl

attribute [local simp] holdsLock afterUnlock WorkerPhase.holdsLock

section

variable (hstep : CallStep s id phase phase' t out)
include hstep

theorem CallStep.view {α : Type} (f : WorkerPhase → α) (hf : f .woken = f .parked) :
    f t.worker = f s.worker := by
  cases hstep with
  | notified => exact notify_view f hf
  | _ => rfl

theorem CallStep.calls_eq : t.calls = s.calls := by
  cases hstep <;> simp

theorem CallStep.nextCall_eq : t.nextCall = s.nextCall := by
  cases hstep <;> simp

theorem CallStep.lockStep :
    LockStep (.caller id) s.lock t.lock (phase.holdsLock = true) (phase'.holdsLock = true) := by
  cases hstep with
  | locked _ _ _ hfree => exact .take hfree rfl rfl
  | unlocked outcome wasEmpty =>
    refine .release rfl rfl ?_
    cases wasEmpty <;> cases outcome <;> simp
  | notified => exact .keep notify_frame.2.1 (by simp)
  | _ => exact .keep rfl (by simp)

theorem CallStep.inner_eq (hout : ¬ phase.foundOpen = true) : t.inner = s.inner := by
  cases hstep with
  | accepted | rejected => exact absurd rfl hout
  | notified => exact notify_frame.1
  | _ => rfl

end

theorem WorkerStep.lockStep {phase phase' : WorkerPhase} (hstep : WorkerStep s phase phase' t out) :
    LockStep .worker s.lock t.lock (phase.holdsLock = true) (phase'.holdsLock = true) := by
  cases hstep with
  | goOn _ _ hphase =>
    refine .keep rfl ?_
    rcases hphase with rfl | rfl <;> simp
  | locked phase _ hfree hphase =>
    refine .take hfree rfl ?_
    cases phase <;> cases hphase <;> rfl
  | reported | exited | parked | closing | picked => exact .release rfl rfl (by simp)
  | foundNothing loop =>
    refine .release rfl rfl ?_
    cases loop <;> simp [WorkerLoop.idle]
  | replied loop =>
    refine .keep rfl ?_
    cases loop <;> simp [WorkerLoop.again]
  | stopping | ready | broadcast | submitted => exact .keep rfl (by simp)

theorem WorkerStep.inner_eq {phase phase' : WorkerPhase} (hstep : WorkerStep s phase phase' t out)
    (hout : ¬ phase.holdsLock = true) : t.inner = s.inner := by
  cases hstep with
  | closing | foundNothing | picked => exact absurd rfl hout
  | _ => rfl

end Frames

section Invariant

/-- Who is inside a critical section. -/
def inside (s : FairHost) : LockOwner → Prop
  | .caller id => ∃ phase, s.calls id = some phase ∧ phase.holdsLock = true
  | .worker => s.worker.holdsLock = true

structure Inv (s : FairHost) : Prop where
  sound : s.inner.Sound
  within : ∀ cap, s.inner.Within cap
  lock : Exclusive s.lock s.inside
  closed : s.inner.closed = s.worker.hasClosed
  foundOpen : ∀ id phase, s.calls id = some phase → phase.foundOpen = true → s.inner.closed = false
  wasEmpty : ∀ id conn signer request wasEmpty,
    s.calls id = some (.enqueue conn signer request wasEmpty) → wasEmpty = s.inner.isEmpty
  drained : s.worker.hasDrained = true → s.inner.requests = 0
  alive : s.worker ≠ .panicked
  wake : s.worker = .parked → s.inner.isEmpty = false →
    ∃ id phase, s.calls id = some phase ∧ phase.willNotify = true
  fresh : ∀ id, s.nextCall ≤ id → s.calls id = none
  own : ∀ id phase request, s.calls id = some phase → phase.request = some request →
    request.reply = id

theorem inv_new (caps : Caps) : (new caps).Inv where
  sound := DrrState.sound_new caps
  within := DrrState.within_new caps
  lock := by rintro (id | -) <;> simp [new, inside, WorkerPhase.holdsLock]
  closed := rfl
  foundOpen := by simp [new]
  wasEmpty := by simp [new]
  drained := by simp [new, WorkerPhase.hasDrained]
  alive := by simp [new]
  wake := by simp [new]
  fresh := by simp [new]
  own := by simp [new]

variable {s t : FairHost} {id : ℕ} {phase phase' : SubmitPhase} {out : FairOut}

theorem calls_setCall (t : FairHost) (id id' : ℕ) (phase p : SubmitPhase) :
    (t.setCall id phase).calls id' = some p ↔
      (id' = id ∧ p = phase) ∨ (id' ≠ id ∧ t.calls id' = some p) := by
  by_cases h : id' = id
  · simp [setCall, h, eq_comm]
  · simp [setCall, h]

theorem Inv.worker_outside (hinv : s.Inv)
    (hphase : s.calls id = some phase) (hin : phase.holdsLock = true) :
    ¬ s.worker.holdsLock = true := by
  intro hworker
  have := hinv.lock.unique (a := .caller id) (b := .worker) ⟨phase, hphase, hin⟩ hworker
  cases this

variable {id' : ℕ} {p : SubmitPhase} {request : QueuedRequest}

theorem Inv.caller_unique (hinv : s.Inv)
    (hphase : s.calls id = some phase) (hin : phase.holdsLock = true)
    (hp : s.calls id' = some p) (hin' : p.holdsLock = true) : id' = id := by
  have := hinv.lock.unique (a := .caller id') (b := .caller id) ⟨p, hp, hin'⟩ ⟨phase, hphase, hin⟩
  exact LockOwner.caller.inj this

theorem SubmitPhase.holdsLock_of_foundOpen (hopen : phase.foundOpen = true) :
    phase.holdsLock = true := by
  cases phase <;> first | rfl | cases hopen

theorem WorkerPhase.hasClosed_of_hasDrained {worker : WorkerPhase}
    (hdrained : worker.hasDrained = true) : worker.hasClosed = true := by
  cases worker <;> first | exact hdrained | cases hdrained

/-- While a caller is between its test and its unlocking, no other step changes the queue. -/
theorem Inv.inner_call (hinv : s.Inv) (hphase : s.calls id = some phase)
    (hstep : CallStep s id phase phase' t out)
    (hne : id' ≠ id) (hp : s.calls id' = some p) (hopen : p.foundOpen = true) :
    t.inner = s.inner := by
  refine hstep.inner_eq fun hin => hne ?_
  exact hinv.caller_unique hphase (SubmitPhase.holdsLock_of_foundOpen hin) hp
    (SubmitPhase.holdsLock_of_foundOpen hopen)

theorem CallStep.sound_within (hstep : CallStep s id phase phase' t out) (hinv : s.Inv) :
    t.inner.Sound ∧ ∀ cap, t.inner.Within cap := by
  cases hstep with
  | accepted _ _ _ _ _ heffect
  | rejected _ _ _ _ _ heffect =>
    exact ⟨heffect.sound hinv.sound, heffect.within hinv.sound hinv.within⟩
  | notified =>
    rw [notify_frame.1]
    exact ⟨hinv.sound, hinv.within⟩
  | _ => exact ⟨hinv.sound, hinv.within⟩

theorem CallStep.closed_eq (hstep : CallStep s id phase phase' t out) :
    t.inner.closed = s.inner.closed := by
  cases hstep with
  | accepted _ _ _ _ _ heffect
  | rejected _ _ _ _ _ heffect => exact heffect.closed_eq
  | notified => rw [notify_frame.1]
  | _ => rfl

attribute [local simp] afterUnlock foundOpen request
  willNotify WorkerPhase.hasDrained

theorem CallStep.wasEmpty_after {conn : ConnId} {signer : SignerHint} {wasEmpty : Bool}
    (hstep : CallStep s id phase (.enqueue conn signer request wasEmpty) t out) :
    wasEmpty = t.inner.isEmpty := by
  generalize hphase' : enqueue conn signer request wasEmpty = phase' at hstep
  cases hstep with
  | tested =>
    cases hphase'
    rfl
  | unlocked outcome wasEmpty => cases wasEmpty <;> cases outcome <;> simp at hphase'
  | _ => simp at hphase'

section

variable (hstep : CallStep s id phase phase' t out)
include hstep

theorem CallStep.foundOpen_after
    (hopen : phase.foundOpen = true → s.inner.closed = false) (hopen' : phase'.foundOpen = true) :
    s.inner.closed = false := by
  cases hstep with
  | foundOpen _ _ _ hclosed => exact hclosed
  | tested => exact hopen rfl
  | unlocked outcome wasEmpty => cases wasEmpty <;> cases outcome <;> simp at hopen'
  | _ => simp at hopen'

theorem CallStep.request_of_after
    (hrequest : phase'.request = some request) : phase.request = some request := by
  cases hstep with
  | unlocked outcome wasEmpty => cases wasEmpty <;> cases outcome <;> simp at hrequest
  | _ => first | exact hrequest | simp at hrequest

/-- A request that arrives at a parked worker is announced. -/
theorem CallStep.wake (hinv : s.Inv) (hphase : s.calls id = some phase)
    (hparked : t.worker = .parked) (hempty : t.inner.isEmpty = false) :
    phase'.willNotify = true ∨ ∃ id' p, id' ≠ id ∧ s.calls id' = some p ∧ p.willNotify = true := by
  -- a call that is on its way to notify before the step is so after it, or has notified
  have hkeep : s.inner.isEmpty = false → s.worker = .parked →
      (phase.willNotify = true → phase'.willNotify = true) →
      phase'.willNotify = true ∨
        ∃ id' p, id' ≠ id ∧ s.calls id' = some p ∧ p.willNotify = true := by
    intro hempty hparked hsame
    obtain ⟨id', p, hp, hwill⟩ := hinv.wake hparked hempty
    by_cases hid : id' = id
    · subst hid
      rw [hphase] at hp
      cases hp
      exact .inl (hsame hwill)
    · exact .inr ⟨id', p, hid, hp, hwill⟩
  cases hstep with
  | accepted _ _ _ wasEmpty inner =>
    cases hwas : s.inner.isEmpty with
    | true =>
      have := hinv.wasEmpty _ _ _ _ _ hphase
      simp [this, hwas]
    | false => exact hkeep hwas hparked (by simp)
  | rejected _ _ _ _ inner heffect =>
    have hsame : inner.requests = s.inner.requests := by
      have := heffect.requests_eq hinv.sound
      simpa [DrrState.acceptedOf, DrrState.pickedOf] using this.symm
    have hwas : s.inner.isEmpty = false := by
      have hsound := heffect.sound hinv.sound
      rw [Bool.eq_false_iff, Ne, hinv.sound.isEmpty_iff, ← hsame, ← hsound.isEmpty_iff]
      simp [hempty]
    exact hkeep hwas hparked (by simp)
  | unlocked outcome wasEmpty =>
    refine hkeep hempty hparked ?_
    cases wasEmpty <;> cases outcome <;> simp
  | notified => exact absurd hparked notify_worker_ne_parked
  | _ => exact hkeep hempty hparked (by simp)

end

theorem Inv.call (hinv : s.Inv) (hphase : s.calls id = some phase)
    (hstep : CallStep s id phase phase' t out) : (t.setCall id phase').Inv where
  sound := (hstep.sound_within hinv).1
  within := (hstep.sound_within hinv).2
  lock := by
    refine hinv.lock.step (o := .caller id) ?_ ?_
    · have hbefore : s.inside (.caller id) ↔ phase.holdsLock = true := by simp [inside, hphase]
      have hafter : (t.setCall id phase').inside (.caller id) ↔ phase'.holdsLock = true := by
        simp [inside, setCall]
      rw [hbefore, hafter]
      exact hstep.lockStep
    · rintro (id' | -) hne
      · have hid : id' ≠ id := fun h => hne (h ▸ rfl)
        simp [inside, calls_setCall, hid, hstep.calls_eq]
      · change t.worker.holdsLock = true ↔ s.worker.holdsLock = true
        rw [hstep.view WorkerPhase.holdsLock rfl]
  closed := hstep.closed_eq.trans (hinv.closed.trans (hstep.view WorkerPhase.hasClosed rfl).symm)
  foundOpen := by
    intro id' p hp hopen
    refine hstep.closed_eq.trans ?_
    rcases (calls_setCall ..).mp hp with ⟨rfl, rfl⟩ | ⟨hne, hp⟩
    · exact hstep.foundOpen_after (hinv.foundOpen id' phase hphase) hopen
    · exact hinv.foundOpen id' p (hstep.calls_eq ▸ hp) hopen
  wasEmpty := by
    intro id' conn signer request wasEmpty hp
    rcases (calls_setCall ..).mp hp with ⟨rfl, rfl⟩ | ⟨hne, hp⟩
    · exact hstep.wasEmpty_after
    · rw [hstep.calls_eq] at hp
      have hsame : t.inner = s.inner := hinv.inner_call hphase hstep hne hp rfl
      exact (hinv.wasEmpty id' _ _ _ _ hp).trans (congrArg _ hsame.symm)
  drained := by
    intro hdrained
    have hdrained' : s.worker.hasDrained = true :=
      (hstep.view WorkerPhase.hasDrained rfl).symm.trans hdrained
    have hsame : t.inner = s.inner := by
      refine hstep.inner_eq fun hopen => ?_
      have hclosed := hinv.closed.trans (WorkerPhase.hasClosed_of_hasDrained hdrained')
      rw [hinv.foundOpen id phase hphase hopen] at hclosed
      cases hclosed
    exact (congrArg _ hsame).trans (hinv.drained hdrained')
  alive := by
    have := hstep.view (fun w => decide (w = .panicked)) rfl
    change t.worker ≠ .panicked
    simpa [hinv.alive] using this
  wake := by
    intro hparked hempty
    rcases hstep.wake hinv hphase hparked hempty with hwill | ⟨id', p, hne, hp, hwill⟩
    · exact ⟨id, phase', by simp [setCall], hwill⟩
    · exact ⟨id', p, (calls_setCall ..).mpr (.inr ⟨hne, hstep.calls_eq ▸ hp⟩), hwill⟩
  fresh := by
    intro id' hle
    have hle' : s.nextCall ≤ id' := by
      rw [← hstep.nextCall_eq]
      exact hle
    have hne : id' ≠ id := by
      rintro rfl
      rw [hinv.fresh id' hle'] at hphase
      cases hphase
    simp only [setCall, Function.update_of_ne hne, hstep.calls_eq]
    exact hinv.fresh id' hle'
  own := by
    intro id' p request hp hrequest
    rcases (calls_setCall ..).mp hp with ⟨rfl, rfl⟩ | ⟨hne, hp⟩
    · exact hinv.own id' phase request hphase (hstep.request_of_after hrequest)
    · exact hinv.own id' p request (hstep.calls_eq ▸ hp) hrequest

section Worker

variable {phase phase' : WorkerPhase}

section

variable (hstep : WorkerStep s phase phase' t out)
include hstep

theorem WorkerStep.calls_eq : t.calls = s.calls := by
  cases hstep <;> rfl

theorem WorkerStep.nextCall_eq : t.nextCall = s.nextCall := by
  cases hstep <;> rfl

theorem WorkerStep.sound_within (hinv : s.Inv) : t.inner.Sound ∧ ∀ cap, t.inner.Within cap := by
  cases hstep with
  | foundNothing _ _ heffect | picked _ _ _ heffect =>
    exact ⟨heffect.sound hinv.sound, heffect.within hinv.sound hinv.within⟩
  | closing =>
    refine ⟨hinv.sound, fun cap => ?_⟩
    have hcap := hinv.within cap
    rcases cap with - | (_ | _ | _ | _) <;> exact hcap
  | _ => exact ⟨hinv.sound, hinv.within⟩

theorem WorkerStep.closed_eq
    (hclosed : s.inner.closed = phase.hasClosed) : t.inner.closed = phase'.hasClosed := by
  cases hstep with
  | goOn _ _ hphase => rcases hphase with rfl | rfl <;> exact hclosed
  | locked phase _ _ hphase =>
    refine hclosed.trans ?_
    cases phase <;> cases hphase <;> rfl
  | foundNothing loop _ heffect =>
    refine (heffect.closed_eq.trans hclosed).trans ?_
    cases loop <;> rfl
  | picked _ _ _ heffect => exact heffect.closed_eq.trans hclosed
  | replied loop =>
    refine hclosed.trans ?_
    cases loop <;> rfl
  | closing => rfl
  | _ => exact hclosed

theorem WorkerStep.drained_after (hsound : s.inner.Sound)
    (hbefore : phase.hasDrained = true → s.inner.requests = 0)
    (hdrained : phase'.hasDrained = true) : t.inner.requests = 0 := by
  cases hstep with
  | goOn _ _ hphase => rcases hphase with rfl | rfl <;> simp at hdrained
  | locked phase _ _ hphase =>
    refine hbefore ?_
    cases phase <;> cases hphase <;> exact hdrained
  | foundNothing _ _ heffect =>
    cases heffect with
    | idle hactive =>
      rw [← hsound.isEmpty_iff, DrrState.isEmpty, decide_eq_true_eq]
      exact (Tier.Sound.totalDepth_eq_zero_iff hsound).mpr hactive
  | exited => exact hbefore rfl
  | replied loop => cases loop <;> simp [WorkerLoop.again] at hdrained
  | _ => simp at hdrained

theorem WorkerStep.alive_after : phase' ≠ .panicked := by
  cases hstep with
  | goOn _ _ hphase => rcases hphase with rfl | rfl <;> simp
  | locked phase _ _ hphase => cases phase <;> cases hphase <;> simp
  | foundNothing loop | replied loop => cases loop <;> simp [WorkerLoop.idle, WorkerLoop.again]
  | _ => simp

end

theorem WorkerStep.empty_of_parked (hstep : WorkerStep s phase .parked t out) :
    t.inner.isEmpty = true := by
  generalize hphase' : WorkerPhase.parked = phase' at hstep
  cases hstep with
  | parked hempty => exact hempty
  | goOn _ _ hphase => rcases hphase with rfl | rfl <;> cases hphase'
  | locked phase _ _ hphase =>
    subst hphase'
    cases phase <;> cases hphase
  | foundNothing loop | replied loop => cases loop <;> cases hphase'
  | _ => cases hphase'

end Worker

theorem Inv.worker {phase' : WorkerPhase} (hinv : s.Inv)
    (hstep : WorkerStep s s.worker phase' t out) : (t.setWorker phase').Inv where
  sound := (hstep.sound_within hinv).1
  within := (hstep.sound_within hinv).2
  lock := by
    refine hinv.lock.step (o := .worker) hstep.lockStep ?_
    rintro (id' | -) hne
    · simp [inside, setWorker, hstep.calls_eq]
    · exact absurd rfl hne
  closed := hstep.closed_eq hinv.closed
  foundOpen := by
    intro id p hp hopen
    have hp' : s.calls id = some p := hstep.calls_eq ▸ hp
    have hsame : t.inner = s.inner :=
      hstep.inner_eq (hinv.worker_outside hp' (SubmitPhase.holdsLock_of_foundOpen hopen))
    exact (congrArg _ hsame).trans (hinv.foundOpen id p hp' hopen)
  wasEmpty := by
    intro id conn signer request wasEmpty hp
    have hp' : s.calls id = some (.enqueue conn signer request wasEmpty) := hstep.calls_eq ▸ hp
    have hsame : t.inner = s.inner := hstep.inner_eq (hinv.worker_outside hp' rfl)
    exact (hinv.wasEmpty id _ _ _ _ hp').trans (congrArg _ hsame.symm)
  drained := hstep.drained_after hinv.sound hinv.drained
  alive := hstep.alive_after
  wake := by
    intro hparked hempty
    have hparked' : phase' = .parked := hparked
    subst hparked'
    rw [show (t.setWorker .parked).inner = t.inner from rfl, hstep.empty_of_parked] at hempty
    cases hempty
  fresh := by
    intro id hle
    exact (congrFun hstep.calls_eq id).trans (hinv.fresh id (hstep.nextCall_eq ▸ hle))
  own := by
    intro id p request hp hrequest
    exact hinv.own id p request (hstep.calls_eq ▸ hp) hrequest

theorem Inv.congr (hinv : s.Inv)
    (hinner : t.inner = s.inner) (hlock : t.lock = s.lock) (hcalls : t.calls = s.calls)
    (hnext : t.nextCall = s.nextCall) (hworker : t.worker = s.worker) : t.Inv := by
  rcases s with ⟨inner, lock, calls, nextCall, worker, stop, channels⟩
  rcases t with ⟨inner', lock', calls', nextCall', worker', stop', channels'⟩
  cases hinner
  cases hlock
  cases hcalls
  cases hnext
  cases hworker
  exact ⟨hinv.sound, hinv.within, hinv.lock, hinv.closed, hinv.foundOpen, hinv.wasEmpty,
    hinv.drained, hinv.alive, hinv.wake, hinv.fresh, hinv.own⟩

theorem Inv.woken (hinv : s.Inv) (hparked : s.worker = .parked) : (s.setWorker .woken).Inv where
  sound := hinv.sound
  within := hinv.within
  lock := by
    refine hinv.lock.step (o := .worker) (.keep rfl ?_) ?_
    · simp [inside, setWorker, hparked, WorkerPhase.holdsLock]
    · rintro (id' | -) hne
      · rfl
      · exact absurd rfl hne
  closed := hinv.closed.trans (by rw [hparked]; rfl)
  foundOpen := hinv.foundOpen
  wasEmpty := hinv.wasEmpty
  drained := by simp [setWorker]
  alive := by simp [setWorker]
  wake := by simp [setWorker]
  fresh := hinv.fresh
  own := hinv.own

theorem Inv.notify (hinv : s.Inv) : s.notify.Inv := by
  rw [FairHost.notify]
  split
  · exact hinv.woken ‹_›
  · exact hinv

theorem Inv.called (hinv : s.Inv) (conn : ConnId) (signer : SignerHint) (payload : List UInt8) :
    ({ s with nextCall := s.nextCall + 1 }.setCall s.nextCall
      (.lock conn signer { payload, reply := s.nextCall })).Inv where
  sound := hinv.sound
  within := hinv.within
  lock := by
    have hnone := hinv.fresh s.nextCall le_rfl
    refine hinv.lock.step (o := .caller s.nextCall) (.keep rfl ?_) ?_
    · simp [inside, setCall, hnone, holdsLock]
    rintro (id' | -) hne
    · have hid : id' ≠ s.nextCall := fun h => hne (h ▸ rfl)
      simp [inside, calls_setCall, hid]
    · rfl
  closed := hinv.closed
  foundOpen := by
    intro id p hp hopen
    rcases (calls_setCall ..).mp hp with ⟨rfl, rfl⟩ | ⟨-, hp⟩
    · cases hopen
    · exact hinv.foundOpen id p hp hopen
  wasEmpty := by
    intro id c g request wasEmpty hp
    rcases (calls_setCall ..).mp hp with ⟨-, heq⟩ | ⟨-, hp⟩
    · cases heq
    · exact hinv.wasEmpty id _ _ _ _ hp
  drained := hinv.drained
  alive := hinv.alive
  wake := by
    intro hparked hempty
    obtain ⟨id, p, hp, hwill⟩ := hinv.wake hparked hempty
    refine ⟨id, p, (calls_setCall ..).mpr (.inr ⟨?_, hp⟩), hwill⟩
    rintro rfl
    rw [hinv.fresh _ le_rfl] at hp
    cases hp
  fresh := by
    intro id hle
    have hle' : s.nextCall + 1 ≤ id := hle
    have hne : id ≠ s.nextCall := by omega
    simp only [setCall, Function.update_of_ne hne]
    exact hinv.fresh id (by omega)
  own := by
    intro id p request hp hrequest
    rcases (calls_setCall ..).mp hp with ⟨rfl, rfl⟩ | ⟨-, hp⟩
    · cases hrequest
      rfl
    · exact hinv.own id p request hp hrequest

theorem Inv.step {s' : FairHost} {op : FairOp} (hinv : s.Inv) (hstep : Stepped s op s' out) :
    s'.Inv := by
  cases hstep with
  | caller _ _ _ _ _ hphase hcall => exact hinv.call hphase hcall
  | worker _ _ _ _ _ hworker => exact hinv.worker hworker
  | other _ _ _ hother =>
    cases hother with
    | called conn signer payload => exact hinv.called conn signer payload
    | woken hparked => exact hinv.woken hparked
    | wokenByAll => exact hinv.notify
    | stopped | received | hungUp => exact hinv.congr rfl rfl rfl rfl rfl

end Invariant

end FairHost

end Knomosis.Host
