import Knomosis.Ingest.Recovery

/-!
# Reading the state file back

At every moment of every run the state file is read back as what the watcher
knows.  A run that registers so many addresses that it hands out the last number
is the one that loses its file; such a run exists.
-/

namespace Knomosis.Ingest

open Lib Smt IngestHost WatcherLoop
open Signing.L1Ingest

abbrev IngestHistory := List (Entry IngestHost IngestOp IngestOut)

/-- The last number was handed out in a history. -/
def HandedOutLast (h : IngestHistory) : Prop := ∃ e ∈ h, e.out.HandsOutLast

theorem sound_or_overflowed {h : IngestHistory} {s : IngestHost}
    (hrun : Run ingestHost .empty h s) :
    (¬ HandedOutLast h ∧ Sound s) ∨ (HandedOutLast h ∧ Overflowed s) := by
  refine hrun.invariant ?_ ?_
  · left
    refine ⟨?_, .down [] _ Written.empty⟩
    rintro ⟨e, he, _⟩
    cases he
  · intro h s op s' out _ hinv hstep
    have hhost := hostStep hstep
    rcases hinv with ⟨hnone, hsound⟩ | ⟨⟨e, he, hlast⟩, hover⟩
    · by_cases hout : out.HandsOutLast
      · right
        exact ⟨⟨_, .head _, hout⟩, hsound.overflow hhost hout⟩
      · left
        refine ⟨?_, hsound.step hhost hout⟩
        rintro ⟨e, he, hlast⟩
        rcases List.mem_cons.mp he with rfl | he
        · exact hout hlast
        · exact hnone ⟨e, he, hlast⟩
    · right
      exact ⟨⟨e, .tail _ he, hlast⟩, (hover.step hhost).1⟩

/-- At every moment of every run, with any stops and starts, any chain and any answers, the file
is read back as the memory brought up to the last record.  Only a run that handed out the last
number ends with a file that cannot be read. -/
theorem replay_recovers_memory
    {h : IngestHistory}
    {s : IngestHost}
    (hrun : Run ingestHost .empty h s) :
    (¬ HandedOutLast h →
      (∃ st, s.file.replay = .ok st) ∧
      ∀ w phase, s.process = some (w, phase) → s.file.replay = .ok (phase.applied w)) ∧
    (HandedOutLast h → s.file.replay = .error ⟨0, .replayOverflow lastActorId⟩) := by
  rcases sound_or_overflowed hrun with ⟨hnone, hsound⟩ | ⟨hlast, hover⟩
  · refine ⟨fun _ => ⟨?_, fun w phase hup => hsound.replay hup⟩, fun hlast => absurd hlast hnone⟩
    cases hsound with
    | down _ st hwritten => exact ⟨st, hwritten.replay⟩
    | up _ _ _ hwritten => exact ⟨_, hwritten.replay⟩
  · exact ⟨fun hnone => absurd hlast hnone, fun _ => hover.replay⟩

def zeroHash : TopicHash where
  bytes := List.replicate 32 0
  length_eq := rfl

def numberedAddress (i : ℕ) : EthAddress where
  bytes := beBytes 20 i
  length_eq := beBytes_length 20 i

theorem numberedAddress_inj {i j : ℕ} (hi : i < 2 ^ 64) (hj : j < 2 ^ 64)
    (h : numberedAddress i = numberedAddress j) : i = j := by
  have hnat := congrArg (fun a => beNat a.bytes) h
  simp only [numberedAddress, beNat_beBytes] at hnat
  rw [Nat.mod_eq_of_lt (by omega), Nat.mod_eq_of_lt (by omega)] at hnat
  exact hnat

def probeConfig : WatcherConfig where
  bridgeContract := numberedAddress 0
  identityRegistryContract := numberedAddress 0
  confirmationDepth := 0
  reorgWindowCapacity := 1
  deploymentId := []
  blocksPerIteration := 1
  materialiseDeposits := false

def registration (i : ℕ) : IngestedEvent :=
  .registeredEcdsa (numberedAddress i) [] zeroHash (UInt64.ofNat i)

def registrationLog (i : ℕ) : RawLog where
  logIndex := UInt64.ofNat i
  decoded := .ok (some (registration i))

/-- One block that registers the addresses below `n`. -/
def registrationLogs (n : ℕ) : List RawLog := (List.range n).map registrationLog

/-- The watcher has the addresses below `i`, and no other that has a number. -/
structure Populated (w : WatcherLoop) (i : ℕ) : Prop where
  config_eq : w.config = probeConfig
  nextId : w.addressBook.nextActorId.toNat = 4 + i
  nonce : w.nextNonce.toNat = i
  keys : ∀ key ∈ w.forwarded, key.logIndex.toNat < i
  unknown : ∀ j, i ≤ j → j < 2 ^ 64 → w.addressBook.lookup (numberedAddress j) = none

/-- The action that registers the address with number `i`. -/
def registrationAttempt (w : WatcherLoop) (i : ℕ) : Attempt where
  event := registration i
  key := ⟨zeroHash, zeroHash, UInt64.ofNat i⟩
  unsigned := ⟨.registerIdentity w.addressBook.nextActorId [], BRIDGE_ACTOR_ID, w.nextNonce⟩
  signature := []
  assignment := some (numberedAddress i, w.addressBook.nextActorId)

section OneRegistration

variable {w : WatcherLoop} {i : ℕ}

theorem Populated.lt (h : Populated w i) : 4 + i < 2 ^ 64 := by
  rw [← h.nextId]
  exact w.addressBook.nextActorId.toNat_lt

theorem Populated.sign (h : Populated w i) :
    w.sign (registrationAttempt w i).unsigned (some []) = .ok [] := by
  have hlt := h.lt
  have hinput : signingInput (.registerIdentity w.addressBook.nextActorId []) BRIDGE_ACTOR_ID
      w.nextNonce w.config.deploymentId = .ok _ :=
    signingInput_eq BRIDGE_ACTOR_ID (by simp [Action.toKernel, Kernel.Action.FieldsBounded])
      (by rw [h.nonce]; omega) (by rw [h.config_eq]; simp [probeConfig])
  simp only [WatcherLoop.sign, registrationAttempt, hinput]

theorem Populated.step_log (h : Populated w i) (file : StateFile) (rest : List RawLog) :
    ∃ out,
      ingestHost.step
          (running file w (.logs ⟨0, 0, zeroHash, registrationLog i :: rest⟩))
          (.nextLog (some [])) = some (running file w
          (.submitting ⟨0, 0, zeroHash, rest⟩ (registrationAttempt w i) 0), out) := by
  have hlt := h.lt
  have hfresh : (registrationAttempt w i).key ∉ w.forwarded := by
    intro hmem
    have hkey := h.keys _ hmem
    simp only [registrationAttempt, UInt64.toNat_ofNat'] at hkey
    omega
  have htranslate : translate w.config.materialiseDeposits w.addressBook (registration i)
      w.nextNonce =
      .emitWithAssignment (registrationAttempt w i).unsigned (numberedAddress i)
        w.addressBook.nextActorId := by
    simp only [h.config_eq, probeConfig, translate, Bool.false_eq_true, if_false, registration,
      previewIngest, previewRegistration, previewFor, h.unknown i le_rfl (by omega)]
    rfl
  refine ⟨.translated (registration i) (translate w.config.materialiseDeposits w.addressBook
    (registration i) w.nextNonce), congrArg some ?_⟩
  change processEvent file w ⟨0, 0, zeroHash, rest⟩ (registration i) (some []) = _
  rw [processEvent, if_neg (by exact hfresh)]
  simp only [htranslate, beginSubmit, h.sign]
  rfl

/-- The registration is accepted and recorded. -/
theorem Populated.exists_recorded {hist : IngestHistory} {file : StateFile} {rest : List RawLog}
    (h : Populated w i) (hrun : Run ingestHost .empty hist
      (running file w (.logs ⟨0, 0, zeroHash, registrationLog i :: rest⟩))) :
    ∃ hist' file', Run ingestHost .empty hist' (running file' w
          (.recorded ⟨0, 0, zeroHash, rest⟩ (registrationAttempt w i)
            (saturatingSuccNonce w.nextNonce))) ∧
      ∃ e ∈ hist', e.out = .persisted (registrationAttempt w i) := by
  obtain ⟨out, hlog⟩ := h.step_log file rest
  have hsubmitted := hrun.snoc hlog
  have haccepted := @Run.snoc _ _ _ _ _ _ _ _ (.verdict (.ok .ok)) _ hsubmitted rfl
  exact ⟨_, _, @Run.snoc _ _ _ _ _ _ _ _ .persist _ haccepted rfl, _, .head _, rfl⟩

theorem Populated.commit (h : Populated w i) (hroom : 4 + i < 2 ^ 64 - 1) :
    (w.commit (registrationAttempt w i) (saturatingSuccNonce w.nextNonce)).1 = .ok () ∧
      Populated (w.commit (registrationAttempt w i) (saturatingSuccNonce w.nextNonce)).2
        (i + 1) := by
  have hne : w.addressBook.nextActorId ≠ lastActorId := by
    intro heq
    have hnat := h.nextId
    rw [heq] at hnat
    have hlast : lastActorId.toNat = 2 ^ 64 - 1 := by decide
    omega
  rw [commit_of_unknown rfl (h.unknown i le_rfl (by omega)) hne]
  refine ⟨rfl, h.config_eq, ?_, ?_, ?_, ?_⟩
  · exact (succ_toNat_of_ne_last hne).trans (by rw [h.nextId]; omega)
  · exact (succNonce_toNat (by rw [h.nonce]; omega)).trans (by rw [h.nonce])
  · intro key hkey
    rcases Finset.mem_insert.mp hkey with rfl | hkey
    · simp only [registrationAttempt, UInt64.toNat_ofNat']
      omega
    · exact (h.keys key hkey).trans (Nat.lt_succ_self i)
  · intro j hj hlt
    have hother : numberedAddress j ≠ numberedAddress i := by
      intro heq
      have := numberedAddress_inj hlt (by omega) heq
      omega
    refine (AddressBook.lookup_extend _ _ _).trans ?_
    rw [if_neg hother]
    exact h.unknown j (by omega) hlt

end OneRegistration

theorem step_commit {w : WatcherLoop} {a : Attempt} {n : Nonce} (file : StateFile) (cursor : Cursor)
    (hcommit : (w.commit a n).1 = .ok ()) :
    ingestHost.step (running file w (.recorded cursor a n)) .commit =
      some (running file (w.commit a n).2 (.logs cursor), .silent) := by
  rw [running, step_running file w _ (by simp), step]
  split
  next e w' heq =>
    rw [heq] at hcommit
    cases hcommit
  next w' heq => rw [heq]

theorem step_fetchBlock
    {w w' : WatcherLoop} {header : BlockHeader} {bridgeLogs identityLogs : Option (List RawLog)}
    {logs : List RawLog} (file : StateFile) (block last : UInt64)
    (hobserve : w.observe header = .ok w')
    (hlogs : collectLogs w'.config bridgeLogs identityLogs = some logs) :
    ingestHost.step (running file w (.fetch block last))
        (.fetchBlock (some header) bridgeLogs identityLogs) =
      some (running file w' (.logs ⟨block, last, header.hash, logs⟩), .silent) := by
  rw [running, step_running file w _ (by simp), step]
  simp only [hobserve, hlogs]

theorem registrationLogs_sorted {n : ℕ} (hn : n < 2 ^ 64) :
    (registrationLogs n).mergeSort (fun a b => a.logIndex ≤ b.logIndex) = registrationLogs n := by
  refine List.mergeSort_of_pairwise (List.pairwise_map.mpr ?_)
  refine List.pairwise_lt_range.imp_of_mem ?_
  intro i j hi hj hij
  rw [List.mem_range] at hi hj
  simp only [registrationLog, decide_eq_true_eq, UInt64.le_iff_toNat_le, UInt64.toNat_ofNat']
  rw [Nat.mod_eq_of_lt (by omega), Nat.mod_eq_of_lt (by omega)]
  exact hij.le

theorem drop_registrationLogs {n i : ℕ} (hi : i < n) :
    (registrationLogs n).drop i = registrationLog i :: (registrationLogs n).drop (i + 1) := by
  rw [List.drop_eq_getElem_cons (by simpa [registrationLogs] using hi)]
  simp [registrationLogs]

/-- The watcher of an empty file, at its first block. -/
def probeWatcher : WatcherLoop where
  config := probeConfig
  addressBook := .new
  forwarded := ∅
  reorgWindow := ⟨1, [⟨0, zeroHash, zeroHash⟩]⟩
  lastConfirmedBlock := none
  nextNonce := 0

theorem populated_probeWatcher : Populated probeWatcher 0 where
  config_eq := rfl
  nextId := rfl
  nonce := rfl
  keys key hkey := absurd hkey (Finset.notMem_empty key)
  unknown _ _ _ := rfl

/-- A watcher that has just read a block with `n` registrations. -/
theorem exists_unpopulated {n : ℕ} (hn : n < 2 ^ 64) :
    ∃ h, Run ingestHost .empty h
        (running [] probeWatcher (.logs ⟨0, 0, zeroHash, registrationLogs n⟩)) ∧
      ∀ e ∈ h, e.call ≠ .stop := by
  have hlogs : collectLogs probeConfig (some (registrationLogs n)) none =
      some (registrationLogs n) := by
    simp [collectLogs, probeConfig, registrationLogs_sorted hn]
  have hstarted := @Run.snoc _ _ _ ingestHost .empty _ _ _ (.start probeConfig) _ .nil rfl
  have hplanned := @Run.snoc _ _ _ _ _ _ _ _ (.latestBlock (some 0)) _ hstarted rfl
  have hfetched : ingestHost.step
      (running [] { probeWatcher with reorgWindow := .new 1 } (.fetch 0 0))
      (.fetchBlock (some ⟨0, zeroHash, zeroHash⟩) (some (registrationLogs n)) none) =
      some (running [] probeWatcher (.logs ⟨0, 0, zeroHash, registrationLogs n⟩),
        .silent) :=
    step_fetchBlock [] 0 0 rfl hlogs
  exact ⟨_, hplanned.snoc hfetched, by simp⟩

/-- The addresses of a block are registered one after the other. -/
theorem exists_populated {n : ℕ} (i : ℕ) (hn : n < 2 ^ 64) (hi : i ≤ n) (hroom : 4 + i < 2 ^ 64) :
    ∃ h file w, Run ingestHost .empty h
        (running file w (.logs ⟨0, 0, zeroHash, (registrationLogs n).drop i⟩)) ∧
      Populated w i := by
  induction i with
  | zero =>
    obtain ⟨h, hrun, _⟩ := exists_unpopulated hn
    exact ⟨h, [], probeWatcher, hrun, populated_probeWatcher⟩
  | succ i ih =>
    obtain ⟨h, file, w, hrun, hpop⟩ := ih (by omega) (by omega)
    rw [drop_registrationLogs (by omega)] at hrun
    obtain ⟨h', file', hrecorded, _⟩ := hpop.exists_recorded hrun
    obtain ⟨hcommit, hnext⟩ := hpop.commit (by omega)
    exact ⟨_, file', _, hrecorded.snoc (step_commit file' _ hcommit), hnext⟩

/-- After the first registration was recorded, the file is read back with it. -/
theorem replay_recovers_first_registration :
    ∃ h s w phase,
      Run ingestHost .empty h s ∧ s.process = some (w, phase) ∧
        (phase.applied w).nextNonce = 1 ∧ s.file.replay = .ok (phase.applied w) := by
  obtain ⟨h, hrun, _⟩ := @exists_unpopulated 1 (by norm_num)
  obtain ⟨h', file', hrecorded, _⟩ := populated_probeWatcher.exists_recorded hrun
  have hnone : ¬ HandedOutLast h' := by
    rcases sound_or_overflowed hrecorded with ⟨hnone, _⟩ | ⟨_, hover⟩
    · exact hnone
    · cases hover with
      | recorded _ _ _ _ _ _ hcommit => cases hcommit
  exact ⟨h', _, _, _, hrecorded, rfl, rfl, ((replay_recovers_memory hrecorded).1 hnone).2 _ _ rfl⟩

/-- A run that registers more addresses than there are numbers leaves a file that is refused. -/
theorem registrations_lose_the_file :
    ∃ h s w phase,
      Run ingestHost .empty h s ∧ s.process = some (w, phase) ∧
        s.file.replay = .error ⟨0, .replayOverflow lastActorId⟩ := by
  obtain ⟨h, file, w, hrun, hpop⟩ :=
    @exists_populated (2 ^ 64 - 4) (2 ^ 64 - 5) (by norm_num) (by norm_num) (by norm_num)
  rw [drop_registrationLogs (by norm_num)] at hrun
  obtain ⟨h', file', hrecorded, e, he, hout⟩ := hpop.exists_recorded hrun
  have hlast : w.addressBook.nextActorId = lastActorId := by
    refine UInt64.toNat_inj.mp (hpop.nextId.trans ?_)
    decide
  have hhanded : HandedOutLast h' := by
    refine ⟨e, he, _, numberedAddress (2 ^ 64 - 5), hout, ?_⟩
    rw [registrationAttempt, hlast]
  rcases sound_or_overflowed hrecorded with ⟨hnone, _⟩ | ⟨_, hover⟩
  · exact absurd hhanded hnone
  · exact ⟨h', _, w, _, hrecorded, rfl, hover.replay⟩

end Knomosis.Ingest
