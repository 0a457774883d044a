import Knomosis.Ingest.Watcher

/-!
# What a step of the watcher does

A step of a running process changes the file or the memory in one of a few ways.
Most steps change neither.  An action on its way fits the memory it was made from:
it carries the next nonce, its event was not forwarded yet, and it is about the
actor of the event's address.
-/

namespace Knomosis.Ingest

open Lib Smt
open Signing.L1Ingest

/-- An action is about the actor of its event's address; an unknown address takes the next
number. -/
inductive Attempt.Resolved (book : AddressBook) (event : IngestedEvent) (action : Action) :
    Option (EthAddress × ActorId) → Prop
  | known (addr id) (haddr : event.address = some addr)
      (hknown : book.lookup addr = some id) (hsubject : subject action = some id)
      (hkind : ∀ actor pk, action ≠ .registerIdentity actor pk) :
      Attempt.Resolved book event action none
  | fresh (addr) (haddr : event.address = some addr)
      (hunknown : book.lookup addr = none) (hsubject : subject action = some book.nextActorId) :
      Attempt.Resolved book event action (some (addr, book.nextActorId))

/-- An action was made from what the watcher knows. -/
structure Attempt.Fits (a : Attempt) (st : WatcherState) : Prop where
  key_fresh : a.key ∉ st.forwarded
  nonce_eq : a.unsigned.nonce = st.nextNonce
  nonce_lt : st.nextNonce.toNat < 2 ^ 64
  resolved : Attempt.Resolved st.addressBook a.event a.unsigned.action a.assignment

theorem nonce_lt_of_signingInput
    {action : Action} {signer : UInt64} {nonce : Nonce} {deploymentId bytes : Bytes}
    (h : signingInput action signer nonce deploymentId = .ok bytes) : nonce.toNat < 2 ^ 64 := by
  by_contra hge
  have herror : ∃ e, encodeNonce nonce = .error e := by
    rw [encodeNonce, encodeU128Checked, if_pos (by omega)]
    exact ⟨_, rfl⟩
  obtain ⟨e, herror⟩ := herror
  rw [signingInput, herror] at h
  simp only [bind_eq_ok] at h
  obtain ⟨_, _, _, _, _, _, _, hnonce, _⟩ := h
  cases hnonce

theorem WatcherLoop.nonce_lt_of_sign
    {w : WatcherLoop} {unsigned : UnsignedAction} {answer : Option Bytes} {signature : Bytes}
    (h : w.sign unsigned answer = .ok signature) : unsigned.nonce.toNat < 2 ^ 64 := by
  unfold sign at h
  split at h
  · cases h
  · exact nonce_lt_of_signingInput ‹_›

/-- No action is on its way, and the file and the memory are level. -/
def Phase.rests : Phase → Bool
  | .idle => true
  | .fetch _ _ => true
  | .logs _ => true
  | .processed _ _ => true
  | .failed (.bookCommit _) => false
  | .failed _ => true
  | _ => false

namespace IngestHost

/-- What a step of a running process does. -/
inductive ProcessStep (file : StateFile) (w : WatcherLoop) : Phase → IngestHost → IngestOut → Prop
  | quiet (w' : WatcherLoop) (phase phase' : Phase) (hfrom : phase.rests = true)
      (hto : phase'.rests = true) (hstate : w'.state = w.state) :
      ProcessStep file w phase (running file w' phase') .silent
  | ignored (cursor cursor' : Cursor) (event : IngestedEvent) (key : ForwardedKey)
      (hfresh : key ∉ w.forwarded) :
      ProcessStep file w (.logs cursor)
        (running (file.append key.record) { w with forwarded := insert key w.forwarded }
          (.logs cursor'))
        (.translated event .noAction)
  | unsigned (cursor : Cursor) (event : IngestedEvent) (result : Translated) (phase' : Phase)
      (hresult : TranslateResult w.addressBook event w.nextNonce result)
      (hto : phase'.rests = true) :
      ProcessStep file w (.logs cursor) (running file w phase') (.translated event result)
  | signed (cursor cursor' : Cursor) (result : Translated) (attempt : Attempt)
      (hresult : TranslateResult w.addressBook attempt.event w.nextNonce result)
      (hfits : attempt.Fits w.state) :
      ProcessStep file w (.logs cursor) (running file w (.submitting cursor' attempt 0))
        (.translated attempt.event result)
  | retried (cursor : Cursor) (attempt : Attempt) (retries : ℕ) :
      ProcessStep file w (.submitting cursor attempt retries)
        (running file w (.submitting cursor attempt (retries + 1))) (.answered attempt (.ok .busy))
  | refused (cursor : Cursor) (attempt : Attempt) (retries : ℕ)
      (answer : Except SubmitError Verdict) (phase' : Phase) (hanswer : answer ≠ .ok .ok)
      (hto : phase'.rests = true) :
      ProcessStep file w (.submitting cursor attempt retries) (running file w phase')
        (.answered attempt answer)
  | accepted (cursor : Cursor) (attempt : Attempt) (retries : ℕ) :
      ProcessStep file w (.submitting cursor attempt retries)
        (running file w (.accepted cursor attempt)) (.answered attempt (.ok .ok))
  | persisted (cursor : Cursor) (attempt : Attempt) :
      ProcessStep file w (.accepted cursor attempt)
        (running
          (file.append (attempt.key.submittedRecord (WatcherLoop.saturatingSuccNonce w.nextNonce)
            attempt.assignment)) w
          (.recorded cursor attempt (WatcherLoop.saturatingSuccNonce w.nextNonce)))
        (.persisted attempt)
  | committed (cursor : Cursor) (attempt : Attempt) (nonce : Nonce)
      (hcommit : (w.commit attempt nonce).1 = .ok ()) :
      ProcessStep file w (.recorded cursor attempt nonce)
        (running file (w.commit attempt nonce).2 (.logs cursor)) .silent
  | full (cursor : Cursor) (attempt : Attempt) (nonce : Nonce) (e : CommitError)
      (hcommit : (w.commit attempt nonce).1 = .error e) :
      ProcessStep file w (.recorded cursor attempt nonce)
        (running file (w.commit attempt nonce).2 (.failed (.bookCommit e))) .silent
  | confirmed (block last : UInt64) :
      ProcessStep file w (.processed block last)
        (running (file.append (.confirmed block)) w (.confirmed block last)) .silent
  | advanced (block last : UInt64) (phase' : Phase) (hto : phase'.rests = true) :
      ProcessStep file w (.confirmed block last)
        (running file { w with lastConfirmedBlock := some block } phase') .silent

variable {file : StateFile} {w : WatcherLoop}

theorem rests_of_mayIterate {phase : Phase} (h : mayIterate phase = true) : phase.rests = true := by
  cases phase with
  | failed e => cases e <;> first | rfl | cases h
  | _ => first | rfl | cases h

theorem state_observe {header : BlockHeader} {w' : WatcherLoop} (h : w.observe header = .ok w') :
    w'.state = w.state := by
  rw [WatcherLoop.observe] at h
  split at h
  · cases h
    rfl
  split at h
  · cases h
  · cases h
    rfl

theorem rests_of_sign_error {unsigned : UnsignedAction} {answer : Option Bytes} {e : WatcherError}
    (h : w.sign unsigned answer = .error e) : (Phase.failed e).rests = true := by
  unfold WatcherLoop.sign at h
  split at h
  · cases h
    rfl
  · split at h <;> cases h
    rfl

theorem processStep_beginSubmit
    {cursor cursor' : Cursor} {event : IngestedEvent} {key : ForwardedKey}
    {signature : Option Bytes} {action : Action} {assignment : Option (EthAddress × ActorId)}
    {result : Translated} (hresult : TranslateResult w.addressBook event w.nextNonce result)
    (hfresh : key ∉ w.forwarded)
    (hresolved : Attempt.Resolved w.addressBook event action assignment) :
    ProcessStep file w (.logs cursor)
      (beginSubmit file w cursor' event key signature ⟨action, BRIDGE_ACTOR_ID, w.nextNonce⟩
        assignment) (.translated event result) := by
  rw [beginSubmit]
  split
  next e hsign => exact .unsigned cursor event result _ hresult (rests_of_sign_error hsign)
  next signature hsign =>
    exact .signed cursor cursor' result ⟨event, key, _, signature, assignment⟩ hresult
      ⟨hfresh, rfl, WatcherLoop.nonce_lt_of_sign hsign, hresolved⟩

theorem processStep_processEvent (cursor cursor' : Cursor) (event : IngestedEvent)
    (signature : Option Bytes) :
    ProcessStep file w (.logs cursor) (processEvent file w cursor' event signature).1
      (processEvent file w cursor' event signature).2 := by
  rw [processEvent]
  split
  next => exact .quiet w _ _ rfl rfl rfl
  next hfresh =>
    have hresult := translateResult w.config.materialiseDeposits w.addressBook event w.nextNonce
    dsimp only
    generalize translate w.config.materialiseDeposits w.addressBook event w.nextNonce = result
      at hresult ⊢
    cases hresult with
    | noAction => exact .ignored cursor cursor' event _ hfresh
    | known addr id action haddr hknown hsubject hkind =>
      exact processStep_beginSubmit (.known addr id action haddr hknown hsubject hkind) hfresh
        (.known addr id haddr hknown hsubject hkind)
    | fresh addr action haddr hunknown hsubject =>
      exact processStep_beginSubmit (.fresh addr action haddr hunknown hsubject) hfresh
        (.fresh addr haddr hunknown hsubject)

theorem processStep_processLog (cursor cursor' : Cursor) (log : RawLog) (signature : Option Bytes) :
    ProcessStep file w (.logs cursor) (processLog file w cursor' log signature).1
      (processLog file w cursor' log signature).2 := by
  rw [processLog]
  split
  · exact .quiet w _ _ rfl rfl rfl
  · exact .quiet w _ _ rfl rfl rfl
  · exact processStep_processEvent cursor cursor' _ signature

theorem processStep_takeVerdict (cursor : Cursor) (attempt : Attempt) (retries : ℕ)
    (answer : Except SubmitError Verdict) :
    ProcessStep file w (.submitting cursor attempt retries)
      (running file w (takeVerdict cursor attempt retries answer)) (.answered attempt answer) := by
  cases answer with
  | error => exact .refused cursor attempt retries _ _ nofun rfl
  | ok verdict =>
    cases verdict with
    | ok => exact .accepted cursor attempt retries
    | busy =>
      rw [takeVerdict]
      split
      · exact .refused cursor attempt retries _ _ nofun rfl
      · exact .retried cursor attempt retries
    | notAdmissible | parseError => exact .refused cursor attempt retries _ _ nofun rfl

theorem processStep {phase : Phase} {op : IngestOp} {s' : IngestHost} {out : IngestOut}
    (h : step file w phase op = some (s', out)) : ProcessStep file w phase s' out := by
  unfold step at h
  split at h
  next phase answer =>
    -- an iteration is begun
    split at h
    next hmay =>
      have hfrom := rests_of_mayIterate hmay
      split at h
      · cases h
        exact .quiet w _ _ hfrom rfl rfl
      · split at h <;> cases h <;> exact .quiet w _ _ hfrom rfl rfl
    next => cases h
  next block last header bridgeLogs identityLogs =>
    split at h
    · cases h
      exact .quiet w _ _ rfl rfl rfl
    split at h
    · cases h
      exact .quiet w _ _ rfl rfl rfl
    next w' hobserve =>
      split at h <;> cases h <;> exact .quiet w' _ _ rfl rfl (state_observe hobserve)
  next cursor signature =>
    split at h
    · cases h
      exact .quiet w _ _ rfl rfl rfl
    next log rest _ =>
      have hlog : ProcessStep file w _ _ _ :=
        processStep_processLog cursor { cursor with rest } log signature
      rwa [Option.some.inj h] at hlog
  next cursor attempt retries answer =>
    cases h
    exact processStep_takeVerdict cursor attempt retries answer
  next cursor attempt =>
    cases h
    exact .persisted cursor attempt
  next cursor attempt nonce =>
    split at h
    next e w' hcommit =>
      cases h
      have hfull : ProcessStep file w _ _ _ :=
        .full cursor attempt nonce e (congrArg Prod.fst hcommit)
      rwa [congrArg Prod.snd hcommit] at hfull
    next w' hcommit =>
      cases h
      have hdone : ProcessStep file w _ _ _ :=
        .committed cursor attempt nonce (congrArg Prod.fst hcommit)
      rwa [congrArg Prod.snd hcommit] at hdone
  next block last =>
    cases h
    exact .confirmed block last
  next block last => split at h <;> cases h <;> exact .advanced block last _ rfl
  next => cases h

end IngestHost

/-- What a step of the service does: a start, a stop, or a step of the process. -/
inductive HostStep (s : IngestHost) : IngestOp → IngestHost → IngestOut → Prop
  | refusedStart (config : WatcherConfig) (hdown : s.process = none) :
      HostStep s (.start config) s .silent
  | started (config : WatcherConfig) (w : WatcherLoop) (hdown : s.process = none)
      (hreplay : s.file.replay = .ok w.state) :
      HostStep s (.start config) (IngestHost.running s.file w .idle) .silent
  | stopped (w : WatcherLoop) (phase : Phase) (hup : s.process = some (w, phase)) :
      HostStep s .stop ⟨s.file, none⟩ .silent
  | stepped (op : IngestOp) (w : WatcherLoop) (phase : Phase) (s' : IngestHost) (out : IngestOut)
      (hop : op ≠ .stop) (hup : s.process = some (w, phase))
      (hstep : IngestHost.ProcessStep s.file w phase s' out) :
      HostStep s op s' out

theorem replay_of_new {config : WatcherConfig} {file : StateFile} {w : WatcherLoop}
    (h : WatcherLoop.new config file = .ok w) : file.replay = .ok w.state := by
  rw [WatcherLoop.new] at h
  split at h
  · cases h
  split at h
  · cases h
  next st hst =>
    cases h
    exact hst

theorem step_running (file : StateFile) (w : WatcherLoop) (phase : Phase) {op : IngestOp}
    (hop : op ≠ .stop) :
    ingestHost.step ⟨file, some (w, phase)⟩ op = IngestHost.step file w phase op := by
  cases op with
  | stop => exact absurd rfl hop
  | _ => rfl

theorem hostStep {s s' : IngestHost} {op : IngestOp} {out : IngestOut}
    (h : ingestHost.step s op = some (s', out)) : HostStep s op s' out := by
  obtain ⟨file, process⟩ := s
  cases process with
  | none =>
    cases op with
    | start config =>
      simp only [ingestHost] at h
      split at h
      · cases h
        exact .refusedStart config rfl
      next w hnew =>
        cases h
        exact .started config w rfl (replay_of_new hnew)
    | _ => cases h
  | some p =>
    obtain ⟨w, phase⟩ := p
    by_cases hop : op = .stop
    · subst hop
      cases h
      exact .stopped w phase rfl
    · rw [step_running file w phase hop] at h
      exact .stepped op w phase s' out hop rfl (IngestHost.processStep h)

end Knomosis.Ingest
