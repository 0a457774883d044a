import Knomosis.Host.FairQueueSteps

/-!
# What the fair queue does with a request

A request that is answered `Enqueued` goes from the queue into the hand of the worker,
from there to the kernel, and its answer goes back.  The books over a whole run follow
from the books of each step: what was enqueued is what was submitted, what the worker
has in hand and what waits.

The worker exits after it has found the closed queue empty, and no caller puts
anything into a closed queue, so the books are even when it exits.
-/

namespace Knomosis.Host

open Lib Function FairOut Multiset SubmitPhase

abbrev FairEntry := Entry FairHost FairOp FairOut

namespace FairOut

def enqueues : FairOut → Multiset QueuedRequest
  | enqueued request => {request}
  | _ => 0

def submits : FairOut → Multiset QueuedRequest
  | submitted request => {request}
  | _ => 0

def replies : FairOut → Multiset QueuedRequest
  | replied request _ => {request}
  | _ => 0

end FairOut

/-- What a history shows of one kind. -/
def shown (f : FairOut → Multiset QueuedRequest) (h : List FairEntry) : Multiset QueuedRequest :=
  (h.map fun e => f e.out).sum

@[simp] theorem shown_cons (f : FairOut → Multiset QueuedRequest) (e : FairEntry)
    (h : List FairEntry) : shown f (e :: h) = f e.out + shown f h :=
  List.sum_cons

theorem shown_append (f : FairOut → Multiset QueuedRequest) (h h' : List FairEntry) :
    shown f (h ++ h') = shown f h + shown f h' := by
  simp [shown]

/-- How often a history shows the request of a call. -/
def timesShown (f : FairOut → Multiset QueuedRequest) (h : List FairEntry) (id : ℕ) : ℕ :=
  ((shown f h).map QueuedRequest.reply).count id

def Answered (h : List FairEntry) (id : ℕ) (outcome : SubmitOutcome) : Prop :=
  ∃ e ∈ h, e.out = .answered id outcome

namespace FairOp

def ofCaller (id : ℕ) : FairOp → Bool
  | caller i => i = id
  | _ => false

/-- A step of the worker, or the end of its wait. -/
def ofWorker : FairOp → Bool
  | worker _ _ => true
  | wakeUp => true
  | _ => false

end FairOp

namespace FairHost

/-- Whether the request of a call is in the queue or has been there. -/
def acceptedCount (s : FairHost) (id : ℕ) : ℕ :=
  if (s.calls id).any accepted then 1 else 0

variable {s t s' : FairHost} {op : FairOp} {out : FairOut} {id : ℕ} {phase phase' : SubmitPhase}

theorem CallStep.submits_eq (hstep : CallStep s id phase phase' t out) :
    out.submits = 0 ∧ out.replies = 0 := by
  cases hstep <;> exact ⟨rfl, rfl⟩

attribute [local simp] DrrState.acceptedOf DrrState.pickedOf enqueues submits
  replies WorkerPhase.inHand WorkerPhase.unanswered accepted
  afterUnlock willNotify

theorem CallStep.requests_eq (hstep : CallStep s id phase phase' t out) (hsound : s.inner.Sound) :
    t.inner.requests = s.inner.requests + out.enqueues := by
  cases hstep with
  | accepted _ _ _ _ _ heffect
  | rejected _ _ _ _ _ heffect =>
    have := heffect.requests_eq hsound
    simpa using this.symm
  | notified => simp
  | _ => exact (add_zero _).symm

section

variable {phase phase' : WorkerPhase} (hstep : WorkerStep s phase phase' t out)
include hstep

theorem WorkerStep.requests_eq (hsound : s.inner.Sound) :
    s.inner.requests + phase.inHand = out.submits + (t.inner.requests + phase'.inHand) := by
  cases hstep with
  | goOn _ _ hphase => rcases hphase with rfl | rfl <;> simp
  | locked phase _ _ hphase => cases phase <;> cases hphase <;> simp
  | foundNothing loop _ heffect =>
    have := heffect.requests_eq hsound
    cases loop <;> simpa [WorkerLoop.idle] using this
  | picked _ _ _ heffect =>
    have := heffect.requests_eq hsound
    simpa [add_comm] using this
  | replied loop => cases loop <;> simp [WorkerLoop.again]
  | submitted => simp [add_comm]
  | closing => simp [DrrState.requests, DrrState.setClosed]
  | _ => simp

theorem WorkerStep.unanswered_eq :
    phase.unanswered + out.submits = out.replies + phase'.unanswered := by
  cases hstep with
  | goOn _ _ hphase => rcases hphase with rfl | rfl <;> rfl
  | locked phase _ _ hphase => cases phase <;> cases hphase <;> rfl
  | foundNothing loop => cases loop <;> rfl
  | replied loop => cases loop <;> simp [WorkerLoop.again]
  | submitted => simp
  | _ => rfl

theorem WorkerStep.enqueues_eq : out.enqueues = 0 := by
  cases hstep <;> rfl

end

theorem OtherStep.books (hstep : OtherStep s op s' out) :
    out.enqueues = 0 ∧ out.submits = 0 ∧ out.replies = 0 ∧
      s'.inner.requests = s.inner.requests ∧ s'.worker.inHand = s.worker.inHand ∧
      s'.worker.unanswered = s.worker.unanswered := by
  cases hstep with
  | woken hparked => exact ⟨rfl, rfl, rfl, rfl, by rw [hparked]; rfl, by rw [hparked]; rfl⟩
  | wokenByAll =>
    exact ⟨rfl, rfl, rfl, by rw [notify_frame.1], notify_view WorkerPhase.inHand rfl,
      notify_view WorkerPhase.unanswered rfl⟩
  | _ => exact ⟨rfl, rfl, rfl, rfl, rfl, rfl⟩

/-- The books of one step. -/
theorem Stepped.books (hstep : Stepped s op s' out) (hsound : s.inner.Sound) :
    s.inner.requests + s.worker.inHand + out.enqueues =
        out.submits + (s'.inner.requests + s'.worker.inHand) ∧
      s.worker.unanswered + out.submits = out.replies + s'.worker.unanswered := by
  cases hstep with
  | caller _ _ _ _ _ _ hcall =>
    obtain ⟨hsubmits, hreplies⟩ := hcall.submits_eq
    have hhand := hcall.view WorkerPhase.inHand rfl
    have hunanswered := hcall.view WorkerPhase.unanswered rfl
    rw [hsubmits, hreplies]
    simp only [setCall, hcall.requests_eq hsound, hhand, hunanswered, zero_add, add_zero, and_true]
    exact add_right_comm _ _ _
  | worker _ _ _ _ _ hworker =>
    rw [hworker.enqueues_eq, add_zero]
    exact ⟨hworker.requests_eq hsound, hworker.unanswered_eq⟩
  | other _ _ _ hother =>
    obtain ⟨henqueues, hsubmits, hreplies, hrequests, hhand, hunanswered⟩ := hother.books
    rw [henqueues, hsubmits, hreplies, hrequests, hhand, hunanswered]
    simp

/-- A call is accepted when it enqueues, and only then. -/
theorem CallStep.accepted_eq (hstep : CallStep s id phase phase' t out)
    (hown : ∀ request, phase.request = some request → request.reply = id) :
    (out.enqueues.map QueuedRequest.reply =
        if phase'.accepted ∧ ¬ phase.accepted then {id} else 0) ∧
      (phase.accepted = true → phase'.accepted = true) := by
  cases hstep with
  | accepted _ _ request => simp [hown request rfl]
  | unlocked outcome wasEmpty => cases wasEmpty <;> cases outcome <;> simp
  | returned outcome => cases outcome <;> simp
  | _ => simp

/-- What a step does to one call: nothing, a step of the call, or its beginning. -/
inductive CallChange (s : FairHost) (id : ℕ) : FairOp → FairHost → FairOut → Prop
  | same (op : FairOp) (s' : FairHost) (out : FairOut) (hsame : s'.calls id = s.calls id)
      (henqueues : id ∉ out.enqueues.map (·.reply))
      (hout : ∀ outcome, out ≠ .answered id outcome) (hop : op ≠ .caller id) :
      CallChange s id op s' out
  | step (phase phase' : SubmitPhase) (t s' : FairHost) (out : FairOut)
      (hphase : s.calls id = some phase) (hstep : CallStep s id phase phase' t out)
      (hafter : s'.calls id = some phase') :
      CallChange s id (.caller id) s' out
  | begin (conn : ConnId) (signer : SignerHint) (payload : List UInt8) (s' : FairHost)
      (hnone : s.calls id = none)
      (hafter : s'.calls id = some (.lock conn signer { payload, reply := id })) :
      CallChange s id (.trySubmit conn signer payload) s' (.called id)

theorem Stepped.callChange (hstep : Stepped s op s' out) (hinv : s.Inv) (id : ℕ) :
    CallChange s id op s' out := by
  cases hstep with
  | caller id' phase phase' t out hphase hcall =>
    by_cases hid : id = id'
    · subst hid
      exact .step phase phase' t _ out hphase hcall (by simp [setCall])
    refine .same _ _ _ ?_ ?_ ?_ ?_
    · simp [setCall, update_of_ne hid, hcall.calls_eq]
    · have := hinv.own id' phase
      cases hcall <;> simp_all [request]
    · cases hcall <;> simp_all [Ne.symm hid]
    · simp [Ne.symm hid]
  | worker _ _ _ _ _ hworker =>
    refine .same _ _ _ ?_ ?_ ?_ ?_
    · simp [setWorker, hworker.calls_eq]
    · simp [-enqueues, hworker.enqueues_eq]
    · generalize s.worker = phase at hworker
      cases hworker <;> simp
    · simp
  | other _ _ _ hother =>
    cases hother with
    | called conn signer payload =>
      by_cases hid : id = s.nextCall
      · subst hid
        exact .begin conn signer payload _ (hinv.fresh _ le_rfl) (by simp [setCall])
      refine .same _ _ _ ?_ ?_ ?_ ?_
      · simp [setCall, update_of_ne hid]
      · simp
      · simp
      · simp
    | wokenByAll => exact .same _ _ _ (by simp) (by simp) (by simp) (by simp)
    | woken | stopped | received | hungUp => exact .same _ _ _ rfl (by simp) (by simp) (by simp)

theorem CallChange.acceptedCount_eq (hchange : CallChange s id op s' out) (hinv : s.Inv) :
    (out.enqueues.map QueuedRequest.reply).count id + s.acceptedCount id = s'.acceptedCount id := by
  cases hchange with
  | same _ _ _ hsame henqueues =>
    rw [acceptedCount, acceptedCount, hsame, count_eq_zero.mpr henqueues, zero_add]
  | step phase phase' _ _ _ hphase hstep hafter =>
    obtain ⟨henqueues, hkeep⟩ := hstep.accepted_eq (hinv.own id phase · hphase)
    rw [acceptedCount, acceptedCount, hphase, hafter, henqueues]
    cases hbefore : phase.accepted with
    | false => cases hthen : phase'.accepted <;> simp [-accepted, hbefore, hthen]
    | true => simp [-accepted, hbefore, hkeep hbefore]
  | begin _ _ _ _ hnone hafter => simp [acceptedCount, hnone, hafter]

theorem CallChange.answered {outcome : SubmitOutcome} (hchange : CallChange s id op s' out)
    (hanswered : out = .answered id outcome ∨ s.calls id = some (.answered outcome)) :
    s'.calls id = some (.answered outcome) := by
  cases hchange with
  | same _ _ _ hsame _ hout =>
    rw [hsame]
    exact hanswered.resolve_left (hout outcome)
  | step _ _ _ _ _ _ hstep hafter => cases hstep <;> simp_all
  | begin _ _ _ _ hnone => simp [hnone] at hanswered

/-- A call that is to notify has notified or still is. -/
theorem CallChange.willNotify (hchange : CallChange s id op s' out)
    (hphase : s.calls id = some phase) (hwill : phase.willNotify = true) :
    out = .notified id ∨ ∃ phase', s'.calls id = some phase' ∧ phase'.willNotify = true := by
  cases hchange with
  | same _ _ _ hsame => exact .inr ⟨phase, hsame.trans hphase, hwill⟩
  | step _ _ _ _ _ hp hstep hafter =>
    rw [hphase] at hp
    cases hp
    cases hstep with
    | notified => exact .inl rfl
    | unlocked outcome wasEmpty =>
      refine .inr ⟨_, hafter, ?_⟩
      cases wasEmpty <;> cases outcome <;> simp_all
    | _ => simp at hwill
  | begin _ _ _ _ hnone =>
    rw [hnone] at hphase
    cases hphase

/-- A bound on the steps that a call has left, with those of a call that is still to come. -/
def callStepsLeft (s : FairHost) (id : ℕ) : ℕ := ((s.calls id).map stepsLeft).getD 7

theorem CallStep.stepsLeft_lt (hstep : CallStep s id phase phase' t out) :
    phase'.stepsLeft < phase.stepsLeft := by
  cases hstep with
  | unlocked outcome wasEmpty => cases wasEmpty <;> cases outcome <;> simp [stepsLeft]
  | _ => simp [stepsLeft]

theorem CallChange.stepsLeft_le (hchange : CallChange s id op s' out) :
    s'.callStepsLeft id + (op.ofCaller id).toNat ≤ s.callStepsLeft id := by
  cases hchange with
  | same op _ _ hsame =>
    have hno : op.ofCaller id = false := by cases op <;> simp_all [FairOp.ofCaller]
    rw [callStepsLeft, hsame, hno]
    exact le_rfl
  | step _ _ _ _ _ hphase hstep hafter =>
    have hlt := hstep.stepsLeft_lt
    simp only [callStepsLeft, hphase, hafter, Option.map_some, Option.getD_some, FairOp.ofCaller,
      decide_true, Bool.toNat_true]
    omega
  | begin _ _ _ _ hnone hafter =>
    simp [callStepsLeft, hnone, hafter, stepsLeft, FairOp.ofCaller]

end FairHost

/-- The steps that a stopping worker has left, for those that a full queue and the queue as it is
cost. -/
def WorkerPhase.stepsLeft (full queued : ℕ) : WorkerPhase → ℕ
  | statsLock false => full + 17
  | stats false => full + 16
  | nextLock => full + 15
  | testEmpty => full + 14
  | parked => full + 13
  | woken => full + 12
  | pick .serving => full + 11
  | submit .serving _ => full + 10
  | reply .serving _ _ => full + 9
  | loadStop => full + 8
  | closeLock => full + 7
  | setClosed => full + 6
  | submit .draining _ => queued + 6
  | reply .draining _ _ => queued + 5
  | notifyAll => queued + 5
  | tryNextLock => queued + 4
  | pick .draining => queued + 3
  | statsLock true => 2
  | stats true => 1
  | exited => 0
  | panicked => 0

namespace FairHost

variable {s t s' : FairHost} {op : FairOp} {out : FairOut}

/-- The steps that a stopping worker has left.  Before it closes the queue, the queue may still
fill up; a request costs four steps. -/
def stepsLeft (s : FairHost) : ℕ :=
  s.worker.stepsLeft (4 * s.inner.caps.global) (4 * s.inner.requests.card)

theorem Inv.card_le (hinv : s.Inv) : s.inner.requests.card ≤ s.inner.caps.global :=
  hinv.within .global

theorem Inv.stepsLeft_le (hinv : s.Inv) : s.stepsLeft ≤ 4 * s.inner.caps.global + 17 := by
  have hcard := hinv.card_le
  unfold stepsLeft WorkerPhase.stepsLeft
  split <;> omega

variable {phase' : WorkerPhase} {id : ℕ} {phase : SubmitPhase}

attribute [local simp] stepsLeft WorkerPhase.stepsLeft setWorker

theorem WorkerStep.stepsLeft_lt (hstep : WorkerStep s s.worker phase' t out)
    (hinv : s.Inv) (hstop : s.stop = true) : (t.setWorker phase').stepsLeft < s.stepsLeft := by
  have hcard := hinv.card_le
  generalize hphase : s.worker = phase at hstep
  cases hstep with
  | goOn _ hgo =>
    rw [hstop] at hgo
    cases hgo
  | locked phase _ _ hnext =>
    cases phase with
    | statsLock shutdown =>
      cases hnext
      cases shutdown <;> simp [hphase]
    | nextLock | woken | closeLock | tryNextLock =>
      cases hnext
      simp [hphase]
    | _ => cases hnext
  | foundNothing loop _ heffect =>
    cases heffect with
    | idle => cases loop <;> simp [hphase, WorkerLoop.idle]
  | picked loop _ inner heffect =>
    have hrequests : s.inner.requests.card = inner.requests.card + 1 := by
      have := congrArg card (heffect.requests_eq hinv.sound)
      simpa [DrrState.acceptedOf, DrrState.pickedOf, add_comm] using this
    cases loop <;> simp [hphase, heffect.caps_eq]
    omega
  | submitted loop | replied loop => cases loop <;> simp [hphase, WorkerLoop.again]
  | closing =>
    simp [hphase, DrrState.requests, DrrState.setClosed] at hcard ⊢
    omega
  | _ => simp [hphase]

theorem notify_stepsLeft_le : s.notify.stepsLeft ≤ s.stepsLeft := by
  rw [notify]
  split
  case isTrue hparked =>
    simp [hparked]
  case isFalse => exact le_rfl

/-- While the queue is open, what waits in it does not count. -/
theorem WorkerPhase.stepsLeft_of_open {worker : WorkerPhase}
    (hopen : worker.hasClosed = false) (full queued queued' : ℕ) :
    worker.stepsLeft full queued = worker.stepsLeft full queued' := by
  cases worker with
  | pick loop | submit loop | reply loop => cases loop <;> first | rfl | cases hopen
  | statsLock shutdown | stats shutdown => cases shutdown <;> rfl
  | notifyAll | tryNextLock => cases hopen
  | _ => rfl

theorem CallStep.stepsLeft_le {phase' : SubmitPhase} (hstep : CallStep s id phase phase' t out)
    (hinv : s.Inv) (hphase : s.calls id = some phase) : t.stepsLeft ≤ s.stepsLeft := by
  have hopen : phase.foundOpen = true → s.worker.hasClosed = false := fun hfound =>
    hinv.closed.symm.trans (hinv.foundOpen id phase hphase hfound)
  cases hstep with
  | accepted _ _ _ _ _ heffect
  | rejected _ _ _ _ _ heffect =>
    simp only [stepsLeft, heffect.caps_eq]
    exact (WorkerPhase.stepsLeft_of_open (hopen rfl) _ _ _).le
  | notified => exact notify_stepsLeft_le
  | _ => exact le_rfl

theorem CallStep.stop_eq {phase' : SubmitPhase} (hstep : CallStep s id phase phase' t out) :
    t.stop = s.stop := by
  cases hstep <;> simp

theorem WorkerStep.stop_eq {phase : WorkerPhase} (hstep : WorkerStep s phase phase' t out) :
    t.stop = s.stop := by
  cases hstep <;> rfl

/-- A step of a stopping worker is one step less, and no other step adds any. -/
theorem Stepped.stepsLeft_le (hstep : Stepped s op s' out) (hinv : s.Inv) (hstop : s.stop = true) :
    s'.stop = true ∧ s'.stepsLeft + op.ofWorker.toNat ≤ s.stepsLeft := by
  cases hstep with
  | caller _ _ _ _ _ hphase hcall =>
    exact ⟨hcall.stop_eq.trans hstop, hcall.stepsLeft_le hinv hphase⟩
  | worker _ _ _ _ _ hworker => exact ⟨hworker.stop_eq.trans hstop, hworker.stepsLeft_lt hinv hstop⟩
  | other _ _ _ hother =>
    cases hother with
    | woken hparked =>
      refine ⟨hstop, ?_⟩
      simp [hparked, FairOp.ofWorker]
    | wokenByAll => exact ⟨notify_frame.2.2.2.2.2.trans hstop, notify_stepsLeft_le⟩
    | stopped => exact ⟨rfl, le_rfl⟩
    | called | received | hungUp => exact ⟨hstop, le_rfl⟩

def Enabled (s : FairHost) (op : FairOp) : Prop := (fairHost.step s op).isSome = true

theorem enabled_of_holdsLock (hphase : s.calls id = some phase) (hin : phase.holdsLock = true) :
    s.Enabled (.caller id) := by
  simp only [Enabled, fairHost, hphase, Option.bind_some]
  cases phase with
  | checkClosed | enqueue =>
    simp only [stepCall]
    split <;> rfl
  | testEmpty | unlock => rfl
  | lock | notifyOne | «return» | answered => cases hin

theorem enabled_of_willNotify (hphase : s.calls id = some phase) (hwill : phase.willNotify = true) :
    s.Enabled (.caller id) := by
  simp only [Enabled, fairHost, hphase, Option.bind_some]
  cases phase with
  | unlock | notifyOne => rfl
  | lock | checkClosed | testEmpty | enqueue | «return» | answered => cases hwill

/-- The worker can go on unless a caller is inside, who then can go on. -/
theorem Inv.progress (hinv : s.Inv) (hexited : s.worker ≠ .exited) :
    (∃ op, op.ofWorker = true ∧ s.Enabled op) ∨
      ∃ id, s.lock = some (.caller id) ∧ s.Enabled (.caller id) := by
  by_cases hcaller : ∃ id, s.lock = some (.caller id)
  · obtain ⟨id, howner⟩ := hcaller
    obtain ⟨phase, hphase, hin⟩ := (hinv.lock (.caller id)).mp howner
    exact .inr ⟨id, howner, enabled_of_holdsLock hphase hin⟩
  left
  -- a worker that waits for the lock gets it
  have hfree : ¬ s.worker.holdsLock = true → s.lock = none := by
    intro hout
    rcases howner : s.lock with - | (id | -)
    · rfl
    · exact absurd ⟨id, howner⟩ hcaller
    · exact absurd ((hinv.lock .worker).mp howner) hout
  have hworker (hsome : (s.stepWorker false (.error "") s.worker).isSome = true) :
      ∃ op, op.ofWorker = true ∧ s.Enabled op := ⟨.worker false (.error ""), rfl, hsome⟩
  cases hphase : s.worker with
  | statsLock | nextLock | woken | closeLock | tryNextLock =>
    have hnone := hfree (by simp [hphase, WorkerPhase.holdsLock])
    exact hworker (by simp [hphase, stepWorker, acquire, hnone])
  | parked => exact ⟨.wakeUp, rfl, by simp [Enabled, fairHost, hphase]⟩
  | pick =>
    obtain ⟨request, inner, hpick, -⟩ := hinv.sound.effect_pick
    refine hworker ?_
    rw [hphase, stepWorker, hpick]
    cases request <;> rfl
  | exited => exact absurd hphase hexited
  | panicked => exact absurd hphase hinv.alive
  | loadStop | testEmpty =>
    refine hworker ?_
    rw [hphase, stepWorker]
    split <;> rfl
  | stats shutdown =>
    refine hworker ?_
    cases shutdown <;> simp [hphase, stepWorker]
  | setClosed | notifyAll | submit | reply =>
    refine hworker ?_
    rw [hphase]
    rfl

end FairHost

namespace FairHost

variable {caps : Caps} {h : List FairEntry} {s s' : FairHost} {op : FairOp} {out : FairOut}

theorem run_inv {s₀ : FairHost} (hinit : s₀.Inv) (hrun : Run fairHost s₀ h s) : s.Inv := by
  refine hrun.invariant hinit ?_
  intro h s op s' out _ hinv hstep
  exact hinv.step (stepped hinv.sound hstep)

/-- Every step of a run is a step of one of the relations, from a state with the invariant. -/
@[elab_as_elim]
theorem run_induction {s₀ : FairHost} {motive : List FairEntry → FairHost → Prop}
    (hrun : Run fairHost s₀ h s) (hinit : s₀.Inv) (hnil : motive [] s₀)
    (hcons : ∀ h s op s' out, s.Inv → motive h s → Stepped s op s' out →
      motive (⟨s, op, out⟩ :: h) s') : motive h s := by
  refine hrun.invariant hnil ?_
  intro h s op s' out hprev ih hstep
  have hinv := run_inv hinit hprev
  exact hcons h s op s' out hinv ih (stepped hinv.sound hstep)

theorem run_books (hrun : Run fairHost (new caps) h s) :
    shown enqueues h =
        shown submits h + (s.inner.requests + s.worker.inHand) ∧
      shown submits h = shown replies h + s.worker.unanswered := by
  refine run_induction hrun (inv_new caps) ⟨rfl, rfl⟩ ?_
  intro h s op s' out hinv ⟨ihqueue, ihreply⟩ hstep
  obtain ⟨hqueue, hreply⟩ := hstep.books hinv.sound
  simp only [shown_cons]
  constructor
  · rw [ihqueue, add_left_comm, add_comm out.enqueues, hqueue, add_left_comm, add_assoc]
  · calc out.submits + shown submits h
        = shown replies h + (s.worker.unanswered + out.submits) := by
          rw [ihreply, add_comm, add_assoc]
      _ = out.replies + shown replies h + s'.worker.unanswered := by
          rw [hreply, add_left_comm, add_assoc]

theorem run_accepted (hrun : Run fairHost (new caps) h s) (id : ℕ) :
    timesShown enqueues h id = s.acceptedCount id := by
  refine run_induction hrun (inv_new caps) rfl ?_
  intro h s op s' out hinv ih hstep
  have hone := (hstep.callChange hinv id).acceptedCount_eq hinv
  simp only [timesShown, shown_cons, map_add, count_add] at ih ⊢
  rw [ih, hone]

theorem run_answered (hrun : Run fairHost (new caps) h s) {id : ℕ} {outcome : SubmitOutcome}
    (hanswered : Answered h id outcome) : s.calls id = some (.answered outcome) := by
  refine run_induction hrun (inv_new caps) ?_ ?_ hanswered
  · rintro ⟨e, he, -⟩
    cases he
  rintro h s op s' out hinv ih hstep ⟨e, he, hout⟩
  refine (hstep.callChange hinv id).answered ?_
  rcases List.mem_cons.mp he with rfl | he
  · exact .inl hout
  · exact .inr (ih ⟨e, he, hout⟩)

theorem timesShown_submits_le (hrun : Run fairHost (new caps) h s) (id : ℕ) :
    timesShown submits h id ≤ s.acceptedCount id := by
  rw [← run_accepted hrun id, timesShown, timesShown, (run_books hrun).1, map_add,
    count_add]
  exact Nat.le_add_right _ _

theorem acceptedCount_le (s : FairHost) (id : ℕ) : s.acceptedCount id ≤ 1 := by
  rw [acceptedCount]
  split <;> omega

theorem run_exited {s₀ : FairHost} (hinit : s₀.Inv) (hexited : s₀.worker = .exited)
    (hrun : Run fairHost s₀ h s) :
    shown submits h = 0 ∧ shown replies h = 0 ∧ s.worker = .exited := by
  refine run_induction hrun hinit ⟨rfl, rfl, hexited⟩ ?_
  intro h s op s' out hinv ⟨hsubmits, hreplies, hworker⟩ hstep
  simp only [shown_cons, hsubmits, hreplies, add_zero]
  cases hstep with
  | caller _ _ _ t _ _ hcall =>
    have hview := hcall.view (fun w => decide (w = .exited)) rfl
    obtain ⟨hnone, hnone'⟩ := hcall.submits_eq
    refine ⟨hnone, hnone', ?_⟩
    change t.worker = .exited
    simpa [hworker] using hview
  | worker _ _ phase' _ _ hstep =>
    rw [hworker] at hstep
    cases hstep with
    | locked _ _ _ hphase => cases hphase
  | other _ _ _ hother =>
    obtain ⟨-, hnone, hnone', -⟩ := hother.books
    refine ⟨hnone, hnone', ?_⟩
    cases hother with
    | woken hparked =>
      rw [hworker] at hparked
      cases hparked
    | wokenByAll => simp [notify, hworker]
    | called | stopped | received | hungUp => exact hworker

theorem worker_of_exited (hstep : Stepped s op s' .exited) : s'.worker = .exited := by
  cases hstep with
  | caller _ _ _ _ _ _ hcall => cases hcall
  | worker _ _ _ _ _ hworker =>
    generalize s.worker = phase at hworker
    cases hworker
    rfl
  | other _ _ _ hother => cases hother

/-- Every request in the queue when the worker exits has been submitted and answered by then. -/
theorem served_at_exit {later earlier : List FairEntry} {e : FairEntry}
    (hrun : Run fairHost (new caps) (later ++ e :: earlier) s) (hexit : e.out = .exited)
    {id : ℕ} (hanswered : Answered (later ++ e :: earlier) id .enqueued) :
    timesShown submits earlier id = 1 ∧ timesShown replies earlier id = 1 := by
  obtain ⟨s₁, hbefore, hstep, hafter⟩ := hrun.split
  have hinv := run_inv (inv_new caps) hbefore
  have hstepped := stepped hinv.sound hstep
  rw [hexit] at hstepped
  have hexited := worker_of_exited hstepped
  obtain ⟨hsubmits, hreplies, hworker⟩ := run_exited (hinv.step hstepped) hexited hafter
  have hone : s.acceptedCount id = 1 := by
    simp [acceptedCount, run_answered hrun hanswered, accepted]
  have hdrained : s.inner.requests = 0 :=
    (run_inv (inv_new caps) hrun).drained (by rw [hworker]; rfl)
  obtain ⟨hqueue, hreply⟩ := run_books hrun
  have hall := run_accepted hrun id
  -- the books are even at the end, and the end shows no more than the exit
  rw [timesShown, hqueue, hdrained, hworker] at hall
  rw [hworker] at hreply
  simp only [shown_append, shown_cons, hexit, hsubmits, hreplies, submits,
    replies, WorkerPhase.inHand, WorkerPhase.unanswered, zero_add, add_zero] at hall hreply
  rw [timesShown, timesShown, ← hreply]
  exact ⟨hall.trans hone, hall.trans hone⟩

section Channels

variable {ch : ReplyChannel} {response : VerdictResponse} {request : QueuedRequest}
variable {outcome : SendOutcome}

theorem trySend_full (hfull : (ch.trySend response).2 = .full) : ch.buffer.isSome = true := by
  rw [ReplyChannel.trySend] at hfull
  split at hfull
  · cases hfull
  split at hfull
  · assumption
  · cases hfull

theorem trySend_disconnected (hgone : (ch.trySend response).2 = .disconnected) :
    ch.receiver = false := by
  rw [ReplyChannel.trySend] at hgone
  split at hgone
  · exact Bool.eq_false_iff.mpr ‹_›
  split at hgone
  · cases hgone
  · cases hgone

theorem receiver_trySend (ch : ReplyChannel) (response : VerdictResponse) :
    (ch.trySend response).1.receiver = ch.receiver := by
  rw [ReplyChannel.trySend]
  split
  · rfl
  split <;> rfl

/-- A buffer is filled by a reply, and a receiver is dropped by hanging up. -/
theorem Stepped.channels (hstep : Stepped s op s' out) (id : ℕ) :
    ((s'.channels id).buffer.isSome = true →
        (s.channels id).buffer.isSome = true ∨ ∃ request outcome,
          out = .replied request outcome ∧ request.reply = id) ∧
      ((s'.channels id).receiver = false → (s.channels id).receiver = false ∨ op = .hangUp id) := by
  by_cases hsame : s'.channels id = s.channels id
  · rw [hsame]
    exact ⟨.inl, .inl⟩
  cases hstep with
  | caller _ _ _ _ _ _ hcall =>
    refine absurd ?_ hsame
    cases hcall with
    | notified => exact congrFun notify_frame.2.2.2.2.1 id
    | _ => rfl
  | worker _ _ _ _ _ hworker =>
    generalize s.worker = phase at hworker
    cases hworker with
    | replied _ request =>
      by_cases hid : id = request.reply
      · subst hid
        refine ⟨fun _ => .inr ⟨request, _, rfl, rfl⟩, fun hgone => .inl ?_⟩
        simpa [setWorker, receiver_trySend] using hgone
      · exact absurd (update_of_ne hid _ _) hsame
    | _ => exact absurd rfl hsame
  | other _ _ _ hother =>
    cases hother with
    | received id' | hungUp id' =>
      by_cases hid : id = id'
      · subst hid
        simp +contextual
      · exact absurd (update_of_ne hid _ _) hsame
    | wokenByAll => exact absurd (congrFun notify_frame.2.2.2.2.1 id) hsame
    | called | woken | stopped => exact absurd rfl hsame

theorem run_channels (hrun : Run fairHost (new caps) h s) (id : ℕ) :
    ((s.channels id).buffer.isSome = true → 1 ≤ timesShown replies h id) ∧
      ((s.channels id).receiver = false → ∃ e ∈ h, e.call = .hangUp id) := by
  refine run_induction hrun (inv_new caps) (by simp [new]) ?_
  rintro h s op s' out - ⟨ihbuffer, ihreceiver⟩ hstep
  obtain ⟨hbuffer, hreceiver⟩ := hstep.channels id
  constructor
  · intro hsome
    simp only [timesShown, shown_cons, map_add, count_add] at ihbuffer ⊢
    rcases hbuffer hsome with hbefore | ⟨request, outcome, rfl, rfl⟩
    · exact le_add_of_le_right (ihbuffer hbefore)
    · simp [replies]
  · intro hgone
    rcases hreceiver hgone with hbefore | rfl
    · obtain ⟨e, he, hcall⟩ := ihreceiver hbefore
      exact ⟨e, .tail _ he, hcall⟩
    · exact ⟨_, .head _, rfl⟩

theorem worker_of_replied (hstep : Stepped s op s' (.replied request outcome)) :
    ∃ loop response, s.worker = .reply loop request response ∧
      outcome = ((s.channels request.reply).trySend response).2 := by
  cases hstep with
  | caller _ _ _ _ _ _ hcall => cases hcall
  | worker _ _ _ _ _ hworker =>
    generalize s.worker = phase at hworker
    cases hworker
    exact ⟨_, _, rfl, rfl⟩
  | other _ _ _ hother => cases hother

/-- A reply finds its channel empty, and it arrives unless the receiver has hung up. -/
theorem replied_sent {later earlier : List FairEntry} {e : FairEntry}
    (hrun : Run fairHost (new caps) (later ++ e :: earlier) s)
    (hreply : e.out = .replied request outcome) :
    outcome = .sent ∨ ∃ e' ∈ earlier, e'.call = .hangUp request.reply := by
  obtain ⟨s₁, hbefore, hstep, -⟩ := hrun.split
  have hinv := run_inv (inv_new caps) hbefore
  have hstepped := stepped hinv.sound hstep
  rw [hreply] at hstepped
  obtain ⟨loop, response, hworker, rfl⟩ := worker_of_replied hstepped
  obtain ⟨hbuffer, hreceiver⟩ := run_channels hbefore request.reply
  cases hsend : ((e.pre.channels request.reply).trySend response).2 with
  | sent => exact .inl rfl
  | disconnected => exact .inr (hreceiver (trySend_disconnected hsend))
  | full =>
    -- the request would have been submitted once for the reply before and once for this one
    have hbooks : timesShown submits earlier request.reply =
        timesShown replies earlier request.reply + 1 := by
      rw [timesShown, (run_books hbefore).2, hworker]
      simp [timesShown, WorkerPhase.unanswered]
    have hle := (timesShown_submits_le hbefore request.reply).trans (acceptedCount_le _ _)
    have hmany := hbuffer (trySend_full hsend)
    omega

end Channels

/-- The request is that of a call in the history. -/
def Called (h : List FairEntry) (request : QueuedRequest) : Prop :=
  ∃ e ∈ h, ∃ conn signer, e.call = .trySubmit conn signer request.payload ∧
    e.out = .called request.reply

theorem Called.cons {request : QueuedRequest} (hcalled : Called h request) (e : FairEntry) :
    Called (e :: h) request := by
  obtain ⟨d, hd, hfacts⟩ := hcalled
  exact ⟨d, .tail _ hd, hfacts⟩

theorem CallStep.request_of_enqueues {t : FairHost} {id : ℕ} {phase phase' : SubmitPhase}
    (hstep : CallStep s id phase phase' t out)
    {request : QueuedRequest} (hmem : request ∈ out.enqueues) : phase.request = some request := by
  cases hstep with
  | accepted =>
    rw [mem_singleton.mp hmem]
    rfl
  | _ => simp [enqueues] at hmem

theorem run_called (hrun : Run fairHost (new caps) h s) :
    (∀ id phase request, s.calls id = some phase → phase.request = some request →
        Called h request) ∧ ∀ request ∈ shown enqueues h, Called h request := by
  refine run_induction hrun (inv_new caps) (by simp [new, shown]) ?_
  rintro h s op s' out hinv ⟨ihcalls, ihqueue⟩ hstep
  constructor
  · intro id phase request hphase hrequest
    cases hstep.callChange hinv id with
    | same _ _ _ hsame => exact (ihcalls id phase request (hsame ▸ hphase) hrequest).cons _
    | step before _ _ _ _ hbefore hcall hafter =>
      rw [hafter] at hphase
      cases hphase
      exact (ihcalls id before request hbefore (hcall.request_of_after hrequest)).cons _
    | begin conn signer _ _ _ hafter =>
      rw [hafter] at hphase
      cases hphase
      cases hrequest
      exact ⟨_, .head _, conn, signer, rfl, rfl⟩
  · intro request hmem
    rcases mem_add.mp ((shown_cons _ _ _) ▸ hmem) with hnew | hold
    · cases hstep with
      | caller id phase _ _ _ hphase hcall =>
        exact (ihcalls id phase request hphase (hcall.request_of_enqueues hnew)).cons _
      | worker _ _ _ _ _ hworker => simp [hworker.enqueues_eq] at hnew
      | other _ _ _ hother => simp [hother.books.1] at hnew
    · exact (ihqueue request hold).cons _

/-- A call that is to notify does so or still is to. -/
theorem run_willNotify {s₀ : FairHost} {id : ℕ} {phase : SubmitPhase}
    (hinit : s₀.Inv) (hphase : s₀.calls id = some phase) (hwill : phase.willNotify = true)
    (hrun : Run fairHost s₀ h s) :
    (∃ e ∈ h, e.out = .notified id) ∨
      ∃ phase', s.calls id = some phase' ∧ phase'.willNotify = true := by
  refine run_induction hrun hinit (.inr ⟨phase, hphase, hwill⟩) ?_
  intro h s op s' out hinv ih hstep
  rcases ih with ⟨e, he, hout⟩ | ⟨p, hp, hpwill⟩
  · exact .inl ⟨e, .tail _ he, hout⟩
  · rcases (hstep.callChange hinv id).willNotify hp hpwill with rfl | hstill
    · exact .inl ⟨_, .head _, rfl⟩
    · exact .inr hstill

theorem willNotify_of_enqueued {request : QueuedRequest} (hinv : s.Inv)
    (hstep : Stepped s op s' (.enqueued request)) (hempty : s.inner.isEmpty = true) :
    ∃ phase, s'.calls request.reply = some phase ∧ phase.willNotify = true := by
  cases hstep with
  | caller id _ _ _ _ hphase hcall =>
    cases hcall
    have hown := hinv.own id _ request hphase rfl
    have hwas := hinv.wasEmpty id _ _ _ _ hphase
    refine ⟨_, by rw [hown]; exact update_self _ _ _, ?_⟩
    simp [willNotify, hwas, hempty]
  | worker _ _ _ _ _ hworker =>
    generalize s.worker = phase at hworker
    cases hworker
  | other _ _ _ hother => cases hother

/-- A request that goes into an empty queue is announced. -/
theorem announced_of_enqueued {later earlier : List FairEntry} {e : FairEntry}
    (hrun : Run fairHost (new caps) (later ++ e :: earlier) s)
    {request : QueuedRequest} (hout : e.out = .enqueued request)
    (hempty : e.pre.inner.isEmpty = true) :
    (∃ e' ∈ later, e'.out = .notified request.reply) ∨
      ∃ phase, s.calls request.reply = some phase ∧ phase.willNotify = true := by
  obtain ⟨s₁, hbefore, hstep, hafter⟩ := hrun.split
  have hinv := run_inv (inv_new caps) hbefore
  have hstepped := stepped hinv.sound hstep
  have hinv₁ := hinv.step hstepped
  rw [hout] at hstepped
  obtain ⟨phase, hphase, hwill⟩ := willNotify_of_enqueued hinv hstepped hempty
  exact run_willNotify hinv₁ hphase hwill hafter

theorem woken_of_notified {id : ℕ} (hstep : Stepped s op s' (.notified id)) :
    s'.worker ≠ .parked := by
  cases hstep with
  | caller _ _ _ _ _ _ hcall =>
    cases hcall
    exact notify_worker_ne_parked
  | worker _ _ _ _ _ hworker =>
    generalize s.worker = phase at hworker
    cases hworker
  | other _ _ _ hother => cases hother

/-- The worker takes no more steps after the stop flag is set than `stepsLeft` says. -/
theorem run_stepsLeft {s₀ : FairHost} (hinit : s₀.Inv) (hstop : s₀.stop = true)
    (hrun : Run fairHost s₀ h s) :
    s.stop = true ∧ (h.map fun e => e.call.ofWorker.toNat).sum + s.stepsLeft ≤ s₀.stepsLeft := by
  refine run_induction hrun hinit ⟨hstop, by simp⟩ ?_
  intro h s op s' out hinv ⟨hstop, hle⟩ hstep
  obtain ⟨hstop', hless⟩ := hstep.stepsLeft_le hinv hstop
  refine ⟨hstop', ?_⟩
  rw [List.map_cons, List.sum_cons]
  dsimp only
  omega

theorem run_callSteps (hrun : Run fairHost (new caps) h s) (id : ℕ) :
    (h.map fun e => (e.call.ofCaller id).toNat).sum + s.callStepsLeft id ≤ 7 := by
  refine run_induction hrun (inv_new caps) le_rfl ?_
  intro h s op s' out hinv ih hstep
  have hless := (hstep.callChange hinv id).stepsLeft_le
  rw [List.map_cons, List.sum_cons]
  dsimp only
  omega

theorem run_caps (hrun : Run fairHost (new caps) h s) :
    s.inner.caps = DrrState.clampedCaps caps := by
  refine run_induction hrun (inv_new caps) rfl ?_
  intro h s op s' out _ ih hstep
  rw [← ih]
  cases hstep with
  | caller _ _ _ _ _ _ hcall =>
    cases hcall with
    | accepted _ _ _ _ _ heffect
    | rejected _ _ _ _ _ heffect => exact heffect.caps_eq
    | notified => exact congrArg DrrState.caps notify_frame.1
    | _ => rfl
  | worker _ _ _ _ _ hworker =>
    generalize s.worker = phase at hworker
    cases hworker with
    | foundNothing _ _ heffect | picked _ _ _ heffect => exact heffect.caps_eq
    | _ => rfl
  | other _ _ _ hother =>
    cases hother with
    | wokenByAll => exact congrArg DrrState.caps notify_frame.1
    | _ => rfl

def workerSteps (h : List FairEntry) : ℕ := (h.map fun e => e.call.ofWorker.toNat).sum

def callSteps (h : List FairEntry) (id : ℕ) : ℕ := (h.map fun e => (e.call.ofCaller id).toNat).sum

/-- What holds at the end of every interleaving.

A request is submitted to the kernel and answered at most once, it is the request of a call, a
refused one is never submitted, and one that is answered `Enqueued` is submitted and answered
before the worker exits.  An answer arrives unless the receiver has hung up.

A request that goes into an empty queue is announced to the worker.  Until then a parked worker
beside a request is waited for by a call that can go on to notify, and the notification wakes it.

The worker can go on, or a caller holds the lock and can; a call takes at most seven steps, and
from the stop flag to its exit the worker takes a bounded number. -/
structure NothingStranded (caps : Caps) (h : List FairEntry) (s : FairHost) : Prop where
  busy : ∀ id, Answered h id .busy → timesShown submits h id = 0
  once : ∀ id, timesShown submits h id ≤ 1 ∧ timesShown replies h id ≤ 1
  called : ∀ request ∈ shown submits h, Called h request
  served : ∀ later e earlier, h = later ++ e :: earlier → e.out = .exited →
    ∀ id, Answered h id .enqueued →
      timesShown submits earlier id = 1 ∧ timesShown replies earlier id = 1
  sent : ∀ later e earlier request outcome, h = later ++ e :: earlier →
    e.out = .replied request outcome →
      outcome = .sent ∨ ∃ e' ∈ earlier, e'.call = .hangUp request.reply
  announced : ∀ later e earlier request, h = later ++ e :: earlier →
    e.out = .enqueued request → e.pre.inner.isEmpty = true →
      (∃ e' ∈ later, e'.out = .notified request.reply) ∨
        ∃ phase, s.calls request.reply = some phase ∧ phase.willNotify = true
  parked : s.worker = .parked → s.inner.isEmpty = false →
    ∃ id phase, s.calls id = some phase ∧ phase.willNotify = true ∧ s.Enabled (.caller id)
  woken : ∀ e h' id, h = e :: h' → e.out = .notified id → s.worker ≠ .parked
  progress : s.worker ≠ .exited →
    (∃ op, op.ofWorker = true ∧ s.Enabled op) ∨
      ∃ id, s.lock = some (.caller id) ∧ s.Enabled (.caller id)
  callBounded : ∀ id, callSteps h id ≤ 7
  exitBounded : s.stop = true → ∀ h' s', Run fairHost s h' s' →
    workerSteps h' ≤ 4 * (DrrState.clampedCaps caps).global + 17

/-- No interleaving of callers, worker and shutdown strands a request. -/
theorem fair_queue_strands_nothing (hrun : Run fairHost (new caps) h s) :
    NothingStranded caps h s where
  busy := by
    intro id hanswered
    have hle := timesShown_submits_le hrun id
    rw [acceptedCount, run_answered hrun hanswered] at hle
    simpa [accepted] using hle
  once := by
    intro id
    have hsubmits := (timesShown_submits_le hrun id).trans (acceptedCount_le s id)
    refine ⟨hsubmits, le_trans ?_ hsubmits⟩
    rw [timesShown, timesShown, (run_books hrun).2, map_add, count_add]
    exact Nat.le_add_right _ _
  called := by
    intro request hmem
    refine (run_called hrun).2 request ?_
    rw [(run_books hrun).1]
    exact mem_add.mpr (.inl hmem)
  served := by
    rintro later e earlier rfl hexit id hanswered
    exact served_at_exit hrun hexit hanswered
  sent := by
    rintro later e earlier request outcome rfl hreply
    exact replied_sent hrun hreply
  announced := by
    rintro later e earlier request rfl hout hempty
    exact announced_of_enqueued hrun hout hempty
  parked := by
    intro hparked hempty
    obtain ⟨id, phase, hphase, hwill⟩ := (run_inv (inv_new caps) hrun).wake hparked hempty
    exact ⟨id, phase, hphase, hwill, enabled_of_willNotify hphase hwill⟩
  woken := by
    rintro e h' id rfl hout
    cases hrun with
    | snoc prev hstep =>
      have hinv := run_inv (inv_new caps) prev
      cases hout
      exact woken_of_notified (stepped hinv.sound hstep)
  progress := (run_inv (inv_new caps) hrun).progress
  callBounded := fun id => (Nat.le_add_right _ _).trans (run_callSteps hrun id)
  exitBounded := by
    intro hstop h' s' hthen
    have hinv := run_inv (inv_new caps) hrun
    have hle := (run_stepsLeft hinv hstop hthen).2
    have hbound := hinv.stepsLeft_le
    rw [run_caps hrun] at hbound
    rw [workerSteps]
    omega

/-- A request is enqueued, and the worker is stopped before it has taken it out. -/
def stoppedAndDrained : List FairOp :=
  [.trySubmit 1 2 [7]] ++ List.replicate 7 (.caller 0) ++ [.setStop] ++
    List.replicate 12 (.worker false (.ok { verdict := .ok, reason := "" }))

/-- The request waits when the queue is closed, and is answered before the worker exits. -/
theorem fair_queue_strands_nothing_closing :
    ∃ h s,
      Run fairHost (new (.new 1 1 1)) h s ∧
      s.worker = .exited ∧
      (∃ e ∈ h, e.pre.worker = .setClosed ∧ e.pre.inner.isEmpty = false) ∧
      timesShown replies h 0 = 1 ∧
      NothingStranded (.new 1 1 1) h s := by
  obtain ⟨h, s, hrun, hexited, hwaits, hreplied⟩ :=
    Run.exists_of_decide fairHost (new (.new 1 1 1)) stoppedAndDrained
      (fun h s => s.worker = .exited ∧
        (∃ e ∈ h, e.pre.worker = .setClosed ∧ e.pre.inner.isEmpty = false) ∧
        timesShown replies h 0 = 1) (by decide +kernel)
  exact ⟨h, s, hrun, hexited, hwaits, hreplied, fair_queue_strands_nothing hrun⟩

end FairHost

end Knomosis.Host
