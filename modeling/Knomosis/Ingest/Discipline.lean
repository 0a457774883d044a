import Knomosis.Ingest.RecoveryRuns

/-!
# Nonces, events and numbers across restarts

The actions that the consumer accepted are counted against what the watcher knows:
their nonces are the numbers below the next one, their events are forwarded, and
their actors are those of the book.  The count is kept through failures and
restarts, as long as no process is stopped between an acceptance and its record.
-/

namespace Knomosis.Ingest

open Lib Smt List
open Signing.L1Ingest

section Tally

/-- The action that an output reports as accepted. -/
def IngestOut.acceptedAttempt : IngestOut → Option Attempt
  | .answered attempt (.ok .ok) => some attempt
  | _ => none

def accepted (h : IngestHistory) : List Attempt := h.filterMap fun e => e.out.acceptedAttempt

/-- The nonces of a list of actions, newest first, are the first numbers. -/
def Consecutive (attempts : List Attempt) : Prop :=
  attempts.reverse.map (fun a => a.unsigned.nonce.toNat) = List.range attempts.length

variable {attempts : List Attempt} {w : WatcherLoop} {phase : Phase}

theorem Consecutive.cons {a : Attempt} (h : Consecutive attempts)
    (hnonce : a.unsigned.nonce.toNat = attempts.length) : Consecutive (a :: attempts) := by
  rw [Consecutive, reverse_cons, map_append, h, length_cons, range_succ]
  simp [hnonce]

/-- The accepted actions are those that a state accounts for. -/
structure Booked (attempts : List Attempt) (st : WatcherState) : Prop where
  consecutive : Consecutive attempts
  count : st.nextNonce.toNat = attempts.length
  keys : ∀ a ∈ attempts, a.key ∈ st.forwarded
  actors : ∀ a ∈ attempts, ∃ addr id,
    a.event.address = some addr ∧ subject a.unsigned.action = some id ∧
      st.addressBook.lookup addr = some id
  below : ∀ addr id, st.addressBook.lookup addr = some id → id < st.addressBook.nextActorId

namespace Booked

variable {attempts : List Attempt} {st : WatcherState} {w : WatcherLoop} {a : Attempt}

theorem empty : Booked [] .default where
  consecutive := rfl
  count := rfl
  keys _ ha := absurd ha not_mem_nil
  actors _ ha := absurd ha not_mem_nil
  below _ _ h := nomatch h

theorem forwarded (h : Booked attempts st) (key : ForwardedKey) :
    Booked attempts { st with forwarded := insert key st.forwarded } where
  consecutive := h.consecutive
  count := h.count
  keys a ha := Finset.mem_insert_of_mem (h.keys a ha)
  actors := h.actors
  below := h.below

theorem confirmed (h : Booked attempts st) (block : Option UInt64) :
    Booked attempts { st with lastConfirmedBlock := block } where
  consecutive := h.consecutive
  count := h.count
  keys := h.keys
  actors := h.actors
  below := h.below

theorem key_ne (h : Booked attempts st) (hfits : a.Fits st) : ∀ b ∈ attempts, b.key ≠ a.key := by
  intro b hb heq
  exact hfits.key_fresh (heq ▸ h.keys b hb)

theorem consecutive_cons (h : Booked attempts st) (hfits : a.Fits st) :
    Consecutive (a :: attempts) :=
  h.consecutive.cons (by rw [hfits.nonce_eq, h.count])

theorem commit (h : Booked attempts w.state) (hfits : a.Fits w.state)
    (hroom : ∀ p ∈ a.assignment, p.2 ≠ lastActorId) :
    Booked (a :: attempts) (w.commit a (WatcherLoop.saturatingSuccNonce w.nextNonce)).2.state := by
  have hcount : (WatcherLoop.saturatingSuccNonce w.nextNonce).toNat = (a :: attempts).length := by
    have hsucc : (WatcherLoop.saturatingSuccNonce w.nextNonce).toNat = w.nextNonce.toNat + 1 :=
      succNonce_toNat hfits.nonce_lt
    rw [hsucc, length_cons, ← h.count]
    rfl
  have hkeys : ∀ b ∈ a :: attempts, b.key ∈ insert a.key w.forwarded := by
    intro b hb
    rcases mem_cons.mp hb with rfl | hb
    · exact Finset.mem_insert_self _ _
    · exact Finset.mem_insert_of_mem (h.keys b hb)
  have hresolved := hfits.resolved
  generalize hassign : a.assignment = assignment at hresolved hroom
  cases hresolved with
  | known addr id haddr hknown hsubject =>
    rw [WatcherLoop.commit_of_none hassign]
    refine ⟨h.consecutive_cons hfits, hcount, hkeys, ?_, h.below⟩
    intro b hb
    rcases mem_cons.mp hb with rfl | hb
    · exact ⟨addr, id, haddr, hsubject, hknown⟩
    · exact h.actors b hb
  | fresh addr haddr hunknown hsubject =>
    have hne : w.addressBook.nextActorId ≠ lastActorId := hroom _ rfl
    have hlt : w.addressBook.nextActorId < w.addressBook.nextActorId + 1 := by
      rw [UInt64.lt_iff_toNat_lt, succ_toNat_of_ne_last hne]
      exact Nat.lt_succ_self _
    rw [WatcherLoop.commit_of_unknown hassign hunknown hne]
    refine ⟨h.consecutive_cons hfits, hcount, hkeys, ?_, ?_⟩
    · intro b hb
      rcases mem_cons.mp hb with rfl | hb
      · exact ⟨addr, _, haddr, hsubject, (AddressBook.lookup_extend _ _ _).trans (if_pos rfl)⟩
      · obtain ⟨other, id, hother, hactor, hlookup⟩ := h.actors b hb
        have hdiff : other ≠ addr := by
          rintro rfl
          rw [hunknown] at hlookup
          cases hlookup
        exact ⟨other, id, hother, hactor,
          (AddressBook.lookup_extend _ _ _).trans ((if_neg hdiff).trans hlookup)⟩
    · intro x id hx
      rw [show WatcherState.addressBook _ = w.addressBook.extend addr from rfl,
        AddressBook.lookup_extend] at hx
      split at hx
      · cases hx
        exact hlt
      · exact UInt64.lt_trans (h.below x id hx) hlt

end Booked

/-- What a phase says about the accepted actions: between an acceptance and its record there is
one more than the memory accounts for. -/
def Phase.Booked (w : WatcherLoop) (attempts : List Attempt) : Phase → Prop
  | .accepted _ attempt => ∃ earlier, attempts = attempt :: earlier ∧ Ingest.Booked earlier w.state
  | phase => Ingest.Booked attempts (phase.applied w)

theorem Phase.booked_of_rests (hrests : phase.rests = true) :
    phase.Booked w attempts ↔ Ingest.Booked attempts w.state := by
  cases phase <;> first | exact Iff.rfl | cases hrests

/-- The accepted actions are those that the process, or the file without one, accounts for. -/
def IngestHost.Booked (attempts : List Attempt) (s : IngestHost) : Prop :=
  match s.process with
  | none => ∀ st, Written s.file st → Ingest.Booked attempts st
  | some (w, phase) => phase.Booked w attempts

theorem IngestHost.Booked.running {s : IngestHost} (hbooked : s.Booked attempts)
    (hup : s.process = some (w, phase)) : phase.Booked w attempts := by
  rwa [IngestHost.Booked, hup] at hbooked

end Tally

section Steps

variable {h : IngestHistory}

theorem accepted_cons (e : Entry IngestHost IngestOp IngestOut) :
    accepted (e :: h) = e.out.acceptedAttempt.toList ++ accepted h := by
  rw [accepted, filterMap_cons]
  cases e.out.acceptedAttempt <;> rfl

theorem accepted_cons_of_none {e : Entry IngestHost IngestOp IngestOut}
    (hout : e.out.acceptedAttempt = none) : accepted (e :: h) = accepted h := by
  rw [accepted_cons, hout]
  rfl

theorem acceptedAttempt_of_ne {attempt : Attempt} {answer : Except SubmitError Verdict}
    (hanswer : answer ≠ .ok .ok) : (IngestOut.answered attempt answer).acceptedAttempt = none := by
  rw [IngestOut.acceptedAttempt.eq_def]
  split
  next heq =>
    cases heq
    exact absurd rfl hanswer
  next => rfl

variable {w : WatcherLoop} {phase : Phase} {s' : IngestHost} {out : IngestOut}
variable {attempts : List Attempt}

/-- A step of the process that hands out no last number keeps the account. -/
theorem booked_processStep {file : StateFile} (hfits : phase.Fits w)
    (hbooked : phase.Booked w attempts) (hstep : IngestHost.ProcessStep file w phase s' out)
    (hout : ¬ out.HandsOutLast) : s'.Booked (out.acceptedAttempt.toList ++ attempts) := by
  cases hstep with
  | quiet _ _ _ hfrom hto hstate =>
    refine (Phase.booked_of_rests hto).mpr ?_
    rw [hstate]
    exact (Phase.booked_of_rests hfrom).mp hbooked
  | ignored _ _ _ key => exact hbooked.forwarded key
  | unsigned _ _ _ _ _ hto | advanced _ _ _ hto => exact (Phase.booked_of_rests hto).mpr hbooked
  | signed | retried | committed => exact hbooked
  | refused _ _ _ _ _ hanswer hto =>
    rw [acceptedAttempt_of_ne hanswer]
    exact (Phase.booked_of_rests hto).mpr hbooked
  | accepted => exact ⟨attempts, rfl, hbooked⟩
  | persisted _ attempt =>
    obtain ⟨earlier, rfl, hearlier⟩ := hbooked
    refine hearlier.commit hfits ?_
    rintro ⟨addr, id⟩ hassign rfl
    exact hout ⟨attempt, addr, rfl, hassign⟩
  | full _ _ _ _ hcommit =>
    rw [Phase.Fits, hcommit] at hfits
    cases hfits
  | confirmed block => exact hbooked.confirmed (some block)

/-- The accepted actions of a history are accounted for, or the numbers ran out. -/
inductive Tallied (h : IngestHistory) (s : IngestHost) : Prop
  | sound (hsound : Sound s) (hbooked : s.Booked (accepted h))
  | overflowed (hover : Overflowed s) (hconsecutive : Consecutive (accepted h))

/-- No process is stopped between an acceptance and its record. -/
def RecordsBeforeStop (e : Entry IngestHost IngestOp IngestOut) : Prop :=
  e.call = .stop → ∀ w cursor attempt, e.pre.process ≠ some (w, .accepted cursor attempt)

theorem Phase.Booked.of_not_accepted (hbooked : phase.Booked w attempts)
    (hphase : ∀ cursor attempt, phase ≠ .accepted cursor attempt) :
    Ingest.Booked attempts (phase.applied w) := by
  cases phase with
  | accepted cursor attempt => exact absurd rfl (hphase cursor attempt)
  | _ => exact hbooked

theorem Tallied.step {s : IngestHost} {op : IngestOp} (htallied : Tallied h s)
    (hstep : HostStep s op s' out) (hstop : RecordsBeforeStop ⟨s, op, out⟩) :
    Tallied (⟨s, op, out⟩ :: h) s' := by
  cases htallied with
  | overflowed hover hconsecutive =>
    obtain ⟨hnext, rfl⟩ := hover.step hstep
    exact .overflowed hnext hconsecutive
  | sound hsound hbooked =>
    by_cases hout : out.HandsOutLast
    · refine .overflowed (hsound.overflow hstep hout) ?_
      obtain ⟨attempt, addr, rfl, _⟩ := hout
      cases hstep with
      | stepped _ _ _ _ _ _ hup hprocess =>
        cases hprocess with
        | persisted =>
          obtain ⟨earlier, heq, hearlier⟩ := hbooked.running hup
          rw [accepted_cons_of_none rfl, heq]
          exact hearlier.consecutive_cons (hsound.running hup).2
    · refine .sound (hsound.step hstep hout) ?_
      cases hstep with
      | refusedStart => exact hbooked
      | started _ w hdown hreplay =>
        cases hsound with
        | up => cases hdown
        | down _ st hwritten =>
          have hst : st = w.state := Except.ok.inj (hwritten.replay.symm.trans hreplay)
          have hstart := hbooked st hwritten
          rw [hst] at hstart
          exact hstart
      | stopped w _ hup =>
        intro st hst
        rw [hst.unique (hsound.running hup).1]
        refine (hbooked.running hup).of_not_accepted ?_
        rintro cursor attempt rfl
        exact hstop rfl w cursor attempt hup
      | stepped _ _ _ _ _ _ hup hprocess =>
        rw [accepted_cons]
        exact booked_processStep (hsound.running hup).2 (hbooked.running hup) hprocess hout

end Steps

section Runs

variable {h : IngestHistory} {s : IngestHost}

theorem tallied_of_run (hrun : Run ingestHost .empty h s) (hstops : ∀ e ∈ h, RecordsBeforeStop e) :
    Tallied h s := by
  refine Run.invariant_of_guard RecordsBeforeStop Tallied ?_ ?_ hrun hstops
  · refine .sound (.down [] _ Written.empty) ?_
    intro st hst
    rw [hst.unique Written.empty]
    exact Booked.empty
  · intro h s op s' out _ htallied hstep hstop
    exact htallied.step (hostStep hstep) hstop

theorem Tallied.consecutive (h' : Tallied h s) : Consecutive (accepted h) := by
  cases h' with
  | overflowed _ hconsecutive => exact hconsecutive
  | sound hsound hbooked =>
    cases hsound with
    | down _ st hwritten => exact (hbooked st hwritten).consecutive
    | up _ _ phase _ hfits =>
      cases phase with
      | accepted =>
        obtain ⟨earlier, heq, hearlier⟩ := hbooked
        rw [heq]
        exact hearlier.consecutive_cons hfits
      | _ => exact Booked.consecutive hbooked

variable {a : Attempt} {s' : IngestHost} {op : IngestOp}

/-- What holds in a state in which an action is submitted. -/
theorem Tallied.submitting {w : WatcherLoop} {cursor : Cursor} {retries : ℕ} (h' : Tallied h s)
    (hup : s.process = some (w, .submitting cursor a retries)) :
    Booked (accepted h) w.state ∧ a.Fits w.state ∧ Written s.file w.state := by
  cases h' with
  | overflowed hover => cases hover <;> cases hup
  | sound hsound hbooked =>
    obtain ⟨hwritten, hfits⟩ := hsound.running hup
    exact ⟨hbooked.running hup, hfits, hwritten⟩

theorem submitting_of_answered {answer : Except SubmitError Verdict}
    (hstep : HostStep s op s' (.answered a answer)) :
    ∃ w cursor retries, s.process = some (w, .submitting cursor a retries) := by
  cases hstep with
  | stepped _ w _ _ _ _ hup hprocess => cases hprocess <;> exact ⟨w, _, _, hup⟩

/-- A translation is made in a state in which nothing is on its way. -/
theorem Tallied.translated {event : IngestedEvent} {result : Translated} (h' : Tallied h s)
    (hstep : HostStep s op s' (.translated event result)) :
    ∃ w : WatcherLoop, Booked (accepted h) w.state ∧
      TranslateResult w.addressBook event w.nextNonce result := by
  cases h' with
  | overflowed hover => cases (hover.step hstep).2
  | sound _ hbooked =>
    cases hstep with
    | stepped _ w _ _ _ _ hup hprocess =>
      have hbooks := hbooked.running hup
      cases hprocess with
      | ignored => exact ⟨w, hbooks, .noAction⟩
      | unsigned _ _ _ _ hresult | signed _ _ _ _ hresult => exact ⟨w, hbooks, hresult⟩

/-- The rules that the submissions of a run keep.  The accepted ones carry the nonces 0, 1, 2 and
so on.  What is submitted has not been accepted before.  A registered identity is a number outside
the reserved ones that no accepted action was about before, and every later event of its address
is translated under it. -/
structure Disciplined (h : IngestHistory) (s : IngestHost) : Prop where
  nonces : (accepted h).reverse.map (fun a => a.unsigned.nonce.toNat) =
    List.range (accepted h).length
  once : ∀ w cursor a retries, s.process = some (w, .submitting cursor a retries) →
    ∀ b ∈ accepted h, b.key ≠ a.key
  identities : ∀ later e earlier a id pk, h = later ++ e :: earlier →
    e.out = .answered a (.ok .ok) → a.unsigned.action = .registerIdentity id pk →
    ∃ addr, a.event.address = some addr ∧ INITIAL_NEXT_ACTOR_ID ≤ id ∧
      (∀ b ∈ accepted earlier, subject b.unsigned.action ≠ some id) ∧
      ∀ e' ∈ later, ∀ event result, e'.out = .translated event result →
        event.address = some addr →
        result = .noAction ∨ ∃ u, result = .emit u ∧ subject u.action = some id

/-- A registered identity takes the next number. -/
theorem Attempt.Fits.registered {st : WatcherState} {id : ActorId} {pk : Bytes} (hfits : a.Fits st)
    (haction : a.unsigned.action = .registerIdentity id pk) :
    id = st.addressBook.nextActorId ∧ ∃ addr, a.event.address = some addr := by
  have hresolved := hfits.resolved
  generalize a.assignment = assignment at hresolved
  cases hresolved with
  | known _ _ _ _ _ hkind => exact absurd haction (hkind id pk)
  | fresh addr haddr _ hsubject =>
    rw [haction] at hsubject
    exact ⟨Option.some.inj hsubject, addr, haddr⟩

/-- Every run keeps the rules, through any failures and any number of restarts, as long as no
process is stopped between an acceptance and its record. -/
theorem submissions_disciplined (hrun : Run ingestHost .empty h s)
    (hstops : ∀ e ∈ h, RecordsBeforeStop e) : Disciplined h s := by
  have htallied := tallied_of_run hrun hstops
  refine ⟨htallied.consecutive, ?_, ?_⟩
  · intro w cursor a retries hup
    obtain ⟨hbooked, hfits, _⟩ := htallied.submitting hup
    exact hbooked.key_ne hfits
  rintro later e earlier a id pk rfl hout haction
  obtain ⟨s₁, hearlier, hstep, hlater⟩ := hrun.split
  rw [hout] at hstep
  have hbefore := tallied_of_run hearlier fun e' he' =>
    hstops e' (mem_append_right _ (mem_cons_of_mem _ he'))
  obtain ⟨w, cursor, retries, hup⟩ := submitting_of_answered (hostStep hstep)
  obtain ⟨hbooked, hfits, hwritten⟩ := hbefore.submitting hup
  obtain ⟨rfl, addr, haddr⟩ := hfits.registered haction
  refine ⟨addr, haddr, hwritten.reserved, ?_, ?_⟩
  · intro b hb hsubject
    obtain ⟨other, id, _, hactor, hlookup⟩ := hbooked.actors b hb
    have hlt := hbooked.below other id hlookup
    rw [Option.some.inj (hactor.symm.trans hsubject)] at hlt
    exact UInt64.lt_irrefl _ hlt
  · intro e' he' event result htranslated hevent
    obtain ⟨after, between, rfl⟩ := append_of_mem he'
    rw [append_assoc, cons_append] at hrun
    obtain ⟨s₂, hbetween, htranslate, _⟩ := hrun.split
    rw [htranslated] at htranslate
    have hthen := tallied_of_run hbetween fun x hx => hstops x (by
      rw [append_assoc, cons_append]
      exact mem_append_right _ (mem_cons_of_mem _ hx))
    obtain ⟨w', hbooked', hresult⟩ := hthen.translated (hostStep htranslate)
    have haccepted : a ∈ accepted (between ++ e :: earlier) := by
      refine mem_filterMap.mpr ⟨e, mem_append_right _ mem_cons_self, ?_⟩
      rw [hout]
      rfl
    obtain ⟨other, id, hother, hactor, hlookup⟩ := hbooked'.actors a haccepted
    cases haddr.symm.trans hother
    rw [haction] at hactor
    cases hactor
    exact hresult.of_known hevent hlookup

/-- A registration, a stop after its record, and a new start. -/
theorem disciplined_after_restart :
    ∃ h s,
      Run ingestHost .empty h s ∧ (∃ e ∈ h, e.call = .stop) ∧ accepted h ≠ [] ∧
        Disciplined h s := by
  obtain ⟨h, hrun, hcalls⟩ := @exists_unpopulated 1 (by norm_num)
  obtain ⟨out, hlog⟩ := populated_probeWatcher.step_log [] []
  have hsubmitted := hrun.snoc hlog
  have haccepted := @Run.snoc _ _ _ _ _ _ _ _ (.verdict (.ok .ok)) _ hsubmitted rfl
  have hrecorded := @Run.snoc _ _ _ _ _ _ _ _ .persist _ haccepted rfl
  have hstopped := @Run.snoc _ _ _ _ _ _ _ _ .stop _ hrecorded rfl
  have hrestarted := @Run.snoc _ _ _ _ _ _ _ _ (.start probeConfig) _ hstopped rfl
  refine ⟨_, _, hrestarted, ?_, ?_, submissions_disciplined hrestarted ?_⟩
  · exact ⟨_, mem_cons_of_mem _ mem_cons_self, rfl⟩
  · simp [accepted_cons, IngestOut.acceptedAttempt]
  intro e he
  simp only [mem_cons] at he
  rcases he with rfl | rfl | rfl | rfl | rfl | he
  · nofun
  · rintro _ w cursor attempt heq
    cases heq
  · nofun
  · nofun
  · nofun
  · exact fun hstop => absurd hstop (hcalls e he)

end Runs

end Knomosis.Ingest
