import Knomosis.Ingest.WatcherSteps

/-!
# The state file holds what the watcher knows

The records of the file rebuild the watcher's memory, brought up to the last
record, and every step keeps it so.  The one exception is the very last number: an
action that hands it out is accepted and recorded, but the book cannot take it,
neither in the process nor when the file is read again.
-/

namespace Knomosis.Ingest

open Lib Smt WatcherLoop AddressBook
open Signing.L1Ingest

/-- The number that no book can hand out. -/
def lastActorId : ActorId := UInt64.ofNat (2 ^ 64 - 1)

/-- The records of a file come to a state, through the given assignments. -/
structure WrittenWith (file : StateFile) (st : WatcherState) (pending : PendingAssignments) :
    Prop where
  read_eq : file.read = .ok ⟨st.lastConfirmedBlock, st.forwarded, st.nextNonce, pending⟩
  below : ∀ p ∈ pending, p.1 < st.addressBook.nextActorId
  book_eq : pending.foldlM reassign new = .ok st.addressBook
  reserved : INITIAL_NEXT_ACTOR_ID ≤ st.addressBook.nextActorId

/-- The records of a file come to a state. -/
def Written (file : StateFile) (st : WatcherState) : Prop := ∃ pending, WrittenWith file st pending

namespace Written

variable {file : StateFile} {st : WatcherState}

theorem empty : Written [] .default := by
  refine ⟨[], rfl, ?_, rfl, ?_⟩
  · intro p hp
    cases hp
  · decide

section

variable (h : Written file st)
include h

theorem replay : file.replay = .ok st := by
  obtain ⟨pending, hread, _, hbook, _⟩ := h
  rw [StateFile.replay, hread, ok_bind]
  change (pending.foldlM reassign new).bind _ = _
  rw [hbook]
  rfl

theorem unique {st' : WatcherState} (h' : Written file st') : st = st' := by
  have heq := h.replay.symm.trans h'.replay
  exact Except.ok.inj heq

theorem reserved : INITIAL_NEXT_ACTOR_ID ≤ st.addressBook.nextActorId := by
  obtain ⟨_, hwith⟩ := h
  exact hwith.reserved

theorem forwarded (key : ForwardedKey) :
    Written (file.append key.record) { st with forwarded := insert key st.forwarded } := by
  obtain ⟨pending, hread, hbelow, hbook, hreserved⟩ := h
  refine ⟨pending, ?_, hbelow, hbook, hreserved⟩
  rw [StateFile.read_append, hread]
  exact ReplayState.record_forwarded _ _ key

theorem confirmed (block : UInt64) :
    Written (file.append (.confirmed block)) { st with lastConfirmedBlock := some block } := by
  obtain ⟨pending, hread, hbelow, hbook, hreserved⟩ := h
  refine ⟨pending, ?_, hbelow, hbook, hreserved⟩
  rw [StateFile.read_append, hread]
  rfl

end

end Written

section Commit

variable {n : Nonce} {id : ActorId} {book : AddressBook} {addr : EthAddress}

theorem succNonce_toNat (hlt : n.toNat < 2 ^ 64) :
    (saturatingSuccNonce n).toNat = n.toNat + 1 := by
  rw [saturatingSuccNonce, if_pos (by omega), BitVec.toNat_add]
  exact Nat.mod_eq_of_lt (by simp; omega)

theorem lt_succNonce (hlt : n.toNat < 2 ^ 64) : n < saturatingSuccNonce n := by
  rw [BitVec.lt_def, succNonce_toNat hlt]
  omega

theorem room_of_ne_last (hne : id ≠ lastActorId) : id.toNat + 1 < 2 ^ 64 := by
  have hlt := id.toNat_lt
  have hnat : id.toNat ≠ 2 ^ 64 - 1 := by
    intro heq
    exact hne (UInt64.toNat_inj.mp (by rw [heq]; rfl))
  omega

/-- The book with one more address. -/
def AddressBook.extend (book : AddressBook) (addr : EthAddress) : AddressBook where
  forward := book.forward.insert addr book.nextActorId
  reverse := book.reverse.insert book.nextActorId addr
  nextActorId := book.nextActorId + 1

theorem AddressBook.lookup_extend (book : AddressBook) (addr x : EthAddress) :
    (book.extend addr).lookup x = if x = addr then some book.nextActorId else book.lookup x :=
  Keyed.lookup_insert_eq book.forward addr x book.nextActorId

theorem commitAssignment_of_unknown (hunknown : book.lookup addr = none)
    (hroom : book.nextActorId.toNat + 1 < 2 ^ 64) :
    commitAssignment book addr book.nextActorId = (.ok book.nextActorId, book.extend addr) := by
  simp [commitAssignment, tryAssign_of_unknown hunknown hroom, extend]

theorem succ_toNat_of_ne_last (hne : id ≠ lastActorId) : (id + 1).toNat = id.toNat + 1 := by
  rw [UInt64.toNat_add]
  exact Nat.mod_eq_of_lt (room_of_ne_last hne)

theorem reassign_of_unknown (hreserved : INITIAL_NEXT_ACTOR_ID ≤ book.nextActorId)
    (hunknown : book.lookup addr = none) (hne : book.nextActorId ≠ lastActorId) :
    reassign book (book.nextActorId, addr) = .ok (book.extend addr) := by
  rw [reassign, if_neg (UInt64.not_lt.mpr hreserved)]
  simp [tryAssign_of_unknown hunknown (room_of_ne_last hne), extend]

theorem reassign_last (hunknown : book.lookup addr = none)
    (hlast : book.nextActorId = lastActorId) :
    reassign book (book.nextActorId, addr) = .error ⟨0, .replayOverflow lastActorId⟩ := by
  have hfull : ¬ book.nextActorId.toNat + 1 < 2 ^ 64 := by
    rw [hlast]
    decide
  have hreserved : ¬ book.nextActorId < INITIAL_NEXT_ACTOR_ID := by
    rw [hlast]
    decide
  rw [reassign, if_neg hreserved]
  simp [tryAssign_overflow hunknown hfull, hlast]

namespace WatcherLoop

variable {w : WatcherLoop} {a : Attempt} {n : Nonce}

theorem commit_of_none (hassign : a.assignment = none) :
    w.commit a n = (.ok (), { w with nextNonce := n, forwarded := insert a.key w.forwarded }) := by
  rw [commit, hassign]

theorem commit_of_unknown {addr : EthAddress}
    (hassign : a.assignment = some (addr, w.addressBook.nextActorId))
    (hunknown : w.addressBook.lookup addr = none) (hne : w.addressBook.nextActorId ≠ lastActorId) :
    w.commit a n = (.ok (), { w with
        addressBook := w.addressBook.extend addr
        nextNonce := n
        forwarded := insert a.key w.forwarded }) := by
  simp only [commit, hassign, commitAssignment_of_unknown hunknown (room_of_ne_last hne)]

theorem commit_last {addr : EthAddress}
    (hassign : a.assignment = some (addr, w.addressBook.nextActorId))
    (hunknown : w.addressBook.lookup addr = none)
    (hlast : w.addressBook.nextActorId = lastActorId) : w.commit a n = (.error .overflow, w) := by
  have hfull : ¬ w.addressBook.nextActorId.toNat + 1 < 2 ^ 64 := by
    rw [hlast]
    decide
  have hcommit : commitAssignment w.addressBook addr w.addressBook.nextActorId =
      (.error .overflow, w.addressBook) := by
    simp [commitAssignment, tryAssign_overflow hunknown hfull]
  simp only [commit, hassign, hcommit]

end WatcherLoop

end Commit

section Submitted

variable {file : StateFile} {w : WatcherLoop} {a : Attempt}

/-- An accepted action is about the actor it hands out, which is the next one. -/
theorem Attempt.Fits.assigned {st : WatcherState} {addr : EthAddress} {id : ActorId}
    (hfits : a.Fits st) (hassign : a.assignment = some (addr, id)) :
    id = st.addressBook.nextActorId ∧ st.addressBook.lookup addr = none := by
  have hresolved := hfits.resolved
  rw [hassign] at hresolved
  cases hresolved with
  | fresh _ _ hunknown => exact ⟨rfl, hunknown⟩

/-- The records after an accepted action. -/
theorem WrittenWith.read_submitted {pending : PendingAssignments}
    (h : WrittenWith file w.state pending) (hfits : a.Fits w.state) :
    (file.append
        (a.key.submittedRecord (saturatingSuccNonce w.nextNonce) a.assignment)).read =
      .ok ⟨w.lastConfirmedBlock, insert a.key w.forwarded,
        saturatingSuccNonce w.nextNonce,
        pending ++ a.assignment.toList.map Prod.swap⟩ := by
  rw [StateFile.read_append, h.read_eq]
  refine ReplayState.record_submitted _ _ _ (lt_succNonce hfits.nonce_lt) ?_
  rintro ⟨addr, id⟩ hassign q hq
  rw [(hfits.assigned hassign).1]
  exact h.below q hq

/-- An accepted action that leaves the book a number is committed, and the file follows. -/
theorem Written.submitted (h : Written file w.state) (hfits : a.Fits w.state)
    (hroom : ∀ p ∈ a.assignment, p.2 ≠ lastActorId) :
    (w.commit a (saturatingSuccNonce w.nextNonce)).1 = .ok () ∧ Written (file.append
          (a.key.submittedRecord (saturatingSuccNonce w.nextNonce) a.assignment))
        (w.commit a (saturatingSuccNonce w.nextNonce)).2.state := by
  obtain ⟨pending, hwith⟩ := h
  have hread := hwith.read_submitted hfits
  cases hassign : a.assignment with
  | none =>
    rw [hassign] at hread
    rw [commit_of_none hassign]
    rw [Option.toList_none, List.map_nil, List.append_nil] at hread
    exact ⟨rfl, pending, hread, hwith.below, hwith.book_eq, hwith.reserved⟩
  | some p =>
    obtain ⟨addr, id⟩ := p
    obtain ⟨rfl, hunknown⟩ := hfits.assigned hassign
    have hne : w.addressBook.nextActorId ≠ lastActorId := hroom _ hassign
    have hlt : w.addressBook.nextActorId < w.addressBook.nextActorId + 1 := by
      rw [UInt64.lt_iff_toNat_lt, succ_toNat_of_ne_last hne]
      exact Nat.lt_succ_self _
    rw [hassign] at hread
    rw [commit_of_unknown hassign hunknown hne]
    refine ⟨rfl, pending ++ [(w.addressBook.nextActorId, addr)], hread, ?_, ?_, ?_⟩
    · intro p hp
      rcases List.mem_append.mp hp with hp | hp
      · exact UInt64.lt_trans (hwith.below p hp) hlt
      · cases List.mem_singleton.mp hp
        exact hlt
    · rw [List.foldlM_append, hwith.book_eq]
      have hnew := reassign_of_unknown hwith.reserved hunknown hne
      exact congrArg (fun r => Except.bind r fun book => List.foldlM reassign book []) hnew
    · exact UInt64.le_trans hwith.reserved (UInt64.le_of_lt hlt)

/-- An accepted action that hands out the last number fails in the book and in the file. -/
theorem Written.overflow {addr : EthAddress} (h : Written file w.state) (hfits : a.Fits w.state)
    (hassign : a.assignment = some (addr, lastActorId)) :
    (w.commit a (saturatingSuccNonce w.nextNonce)).1 = .error .overflow ∧
      StateFile.replay (file.append
          (a.key.submittedRecord (saturatingSuccNonce w.nextNonce) a.assignment)) =
        .error ⟨0, .replayOverflow lastActorId⟩ := by
  obtain ⟨pending, hwith⟩ := h
  obtain ⟨hlast, hunknown⟩ := hfits.assigned hassign
  have hread := hwith.read_submitted hfits
  have hcommit := @WatcherLoop.commit_last w a (saturatingSuccNonce w.nextNonce) addr
    (hassign.trans (by rw [hlast]; rfl)) hunknown hlast.symm
  refine ⟨congrArg Prod.fst hcommit, ?_⟩
  rw [StateFile.replay, hread, ok_bind, hassign]
  have hfold : (pending ++ [(lastActorId, addr)]).foldlM reassign new =
      .error ⟨0, .replayOverflow lastActorId⟩ := by
    rw [List.foldlM_append, hwith.book_eq]
    have hfull := reassign_last hunknown hlast.symm
    rw [← hlast] at hfull
    exact congrArg (fun r => Except.bind r fun book => List.foldlM reassign book []) hfull
  change ((pending ++ [(lastActorId, addr)]).foldlM reassign new).bind _ = _
  rw [hfold]
  rfl

end Submitted

section Invariant

/-- The memory once the mutations of the last record have been applied. -/
def Phase.applied (w : WatcherLoop) : Phase → WatcherState
  | .recorded _ attempt nonce => (w.commit attempt nonce).2.state
  | .confirmed block _ => { w.state with lastConfirmedBlock := some block }
  | _ => w.state

/-- What a phase says about the memory. -/
def Phase.Fits (w : WatcherLoop) : Phase → Prop
  | .submitting _ attempt _ => attempt.Fits w.state
  | .accepted _ attempt => attempt.Fits w.state
  | .recorded _ attempt nonce => (w.commit attempt nonce).1 = .ok ()
  | .failed (.bookCommit _) => False
  | _ => True

theorem Phase.applied_of_rests {phase : Phase} (w : WatcherLoop) (h : phase.rests = true) :
    phase.applied w = w.state := by
  cases phase <;> first | rfl | cases h

theorem Phase.fits_of_rests {phase : Phase} (w : WatcherLoop) (h : phase.rests = true) :
    phase.Fits w := by
  cases phase with
  | failed e => cases e <;> trivial
  | _ => trivial

/-- The file holds what the process knows, or knew. -/
inductive Sound : IngestHost → Prop
  | down (file : StateFile) (st : WatcherState) (hwritten : Written file st) : Sound ⟨file, none⟩
  | up (file : StateFile) (w : WatcherLoop) (phase : Phase)
      (hwritten : Written file (phase.applied w)) (hfits : phase.Fits w) :
      Sound (IngestHost.running file w phase)

variable {file : StateFile} {w : WatcherLoop} {phase : Phase} {s s' : IngestHost} {out : IngestOut}
variable {op : IngestOp}

theorem Sound.of_rests (hwritten : Written file w.state) (hrests : phase.rests = true) :
    Sound (IngestHost.running file w phase) :=
  .up file w phase ((Phase.applied_of_rests w hrests).symm ▸ hwritten)
    (Phase.fits_of_rests w hrests)

theorem Sound.running (hsound : Sound s) (hup : s.process = some (w, phase)) :
    Written s.file (phase.applied w) ∧ phase.Fits w := by
  cases hsound with
  | down => cases hup
  | up _ _ _ hwritten hfits =>
    cases hup
    exact ⟨hwritten, hfits⟩

/-- A file without a future: the last number was handed out. -/
inductive Overflowed : IngestHost → Prop
  | down (file : StateFile)
      (hreplay : file.replay = .error ⟨0, .replayOverflow lastActorId⟩) :
      Overflowed ⟨file, none⟩
  | recorded (file : StateFile) (w : WatcherLoop) (cursor : Cursor) (attempt : Attempt)
      (nonce : Nonce)
      (hreplay : file.replay = .error ⟨0, .replayOverflow lastActorId⟩)
      (hcommit : (w.commit attempt nonce).1 = .error .overflow) :
      Overflowed (IngestHost.running file w (.recorded cursor attempt nonce))
  | failed (file : StateFile) (w : WatcherLoop) (e : CommitError)
      (hreplay : file.replay = .error ⟨0, .replayOverflow lastActorId⟩) :
      Overflowed (IngestHost.running file w (.failed (.bookCommit e)))

theorem Overflowed.replay (h : Overflowed s) :
    s.file.replay = .error ⟨0, .replayOverflow lastActorId⟩ := by
  cases h <;> assumption

theorem Sound.replay (h : Sound s) (hup : s.process = some (w, phase)) :
    s.file.replay = .ok (phase.applied w) := by
  cases h with
  | down => cases hup
  | up _ _ _ hwritten =>
    cases hup
    exact hwritten.replay

/-- An output hands out the last number. -/
def IngestOut.HandsOutLast (out : IngestOut) : Prop :=
  ∃ attempt addr, out = .persisted attempt ∧ attempt.assignment = some (addr, lastActorId)

theorem Sound.processStep (hwritten : Written file (phase.applied w)) (hfits : phase.Fits w)
    (hstep : IngestHost.ProcessStep file w phase s' out) (hout : ¬ out.HandsOutLast) :
    Sound s' := by
  cases hstep with
  | quiet _ _ _ hfrom hto hstate =>
    rw [Phase.applied_of_rests w hfrom] at hwritten
    exact .of_rests (hstate ▸ hwritten) hto
  | ignored _ _ _ key => exact .of_rests (hwritten.forwarded key) rfl
  | unsigned _ _ _ _ _ hto | refused _ _ _ _ _ _ hto | advanced _ _ _ hto =>
    exact .of_rests hwritten hto
  | signed _ _ _ _ _ hattempt => exact .up file w _ hwritten hattempt
  | retried | accepted => exact .up file w _ hwritten hfits
  | persisted _ attempt =>
    have hroom : ∀ p ∈ attempt.assignment, p.2 ≠ lastActorId := by
      rintro ⟨addr, id⟩ hassign rfl
      exact hout ⟨attempt, addr, rfl, hassign⟩
    obtain ⟨hcommit, hnext⟩ := Written.submitted hwritten hfits hroom
    exact .up _ w _ hnext hcommit
  | committed => exact .of_rests hwritten rfl
  | full _ _ _ _ hcommit =>
    rw [Phase.Fits, hcommit] at hfits
    cases hfits
  | confirmed block => exact .up _ w _ (hwritten.confirmed block) trivial

theorem Sound.step (h : Sound s) (hstep : HostStep s op s' out) (hout : ¬ out.HandsOutLast) :
    Sound s' := by
  cases hstep with
  | refusedStart => exact h
  | started _ w hdown hreplay =>
    cases h with
    | down _ st hwritten =>
      have hst : st = w.state := Except.ok.inj (hwritten.replay.symm.trans hreplay)
      exact .of_rests (hst ▸ hwritten) rfl
    | up => cases hdown
  | stopped _ _ hup => exact .down s.file _ (h.running hup).1
  | stepped _ _ _ _ _ _ hup hprocess =>
    obtain ⟨hwritten, hfits⟩ := h.running hup
    exact .processStep hwritten hfits hprocess hout

theorem Sound.overflow (h : Sound s) (hstep : HostStep s op s' out) (hout : out.HandsOutLast) :
    Overflowed s' := by
  obtain ⟨attempt, addr, rfl, hassign⟩ := hout
  cases hstep with
  | stepped _ w _ _ _ _ hup hprocess =>
    obtain ⟨hwritten, hfits⟩ := h.running hup
    cases hprocess with
    | persisted cursor attempt =>
      obtain ⟨hcommit, hreplay⟩ := Written.overflow hwritten hfits hassign
      exact .recorded _ w cursor attempt _ hreplay hcommit

/-- Nothing mends the file: the process ends, and no other can start. -/
theorem Overflowed.step (h : Overflowed s) (hstep : HostStep s op s' out) :
    Overflowed s' ∧ out = .silent := by
  cases hstep with
  | refusedStart => exact ⟨h, rfl⟩
  | started _ _ _ hreplay =>
    rw [h.replay] at hreplay
    cases hreplay
  | stopped => exact ⟨.down s.file h.replay, rfl⟩
  | stepped _ w phase _ _ _ hup hprocess =>
    cases h with
    | down => cases hup
    | recorded file w cursor attempt nonce hreplay hcommit =>
      cases hup
      cases hprocess with
      | quiet _ _ _ hfrom => cases hfrom
      | committed _ _ _ hok =>
        rw [hcommit] at hok
        cases hok
      | full _ _ _ e => exact ⟨.failed file _ e hreplay, rfl⟩
    | failed =>
      cases hup
      cases hprocess with
      | quiet _ _ _ hfrom => cases hfrom

end Invariant

end Knomosis.Ingest
