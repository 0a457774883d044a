import Knomosis.Contracts.Evm
import Knomosis.Lib.Chain
import Knomosis.Lib.Word

/-!
# KnomosisStateRootSubmission

The registry of batch records.  A record is keyed by its `endIndex` and covers
the log entries from its `prevEndIndex` on; the parent of a new record is always
the record at `canonicalTip`.  Reverted records are described by one floor, one
ceiling and the block of the most recent revert, shared by all reverts so far.

Every function answers with the new storage and the effect it had, or with the
error it reverts with.  Ether sent out is part of the effect: the balance is
lowered here, and a transfer that the recipient refuses reverts the call, so it
is no step at all.
-/

namespace Knomosis.Contracts

open Lib

/-- The block a transaction is mined in; the genesis block holds no transaction. -/
structure Block where
  number : ℕ
  pos : 0 < number
  lt : number < 2 ^ 64

/-- The caller of a function, the ether sent along and the current block. -/
structure Msg where
  sender : Address
  value : ℕ
  block : Block

section LogChain

variable [Keccak]

def nextEntryHash (prevLogEntryHash stateCommit actionsRoot : Bytes32) : Bytes32 :=
  keccak256 (bytes32Bytes prevLogEntryHash ++ bytes32Bytes stateCommit ++ bytes32Bytes actionsRoot)

def genesisChainSeed (genesisStateCommit : Bytes32) : Bytes32 :=
  nextEntryHash 0 genesisStateCommit 0

end LogChain

/-- The immutables of the registry, as its constructor admits them. -/
structure RegistryConfig where
  stateRootSubmissionBond : ℕ
  faultProofDisputeWindow : ℕ
  minSubmissionIntervalBlocks : ℕ
  maxOutstandingRootsPerSequencer : ℕ
  sequencer : Address
  faultProofGame : Address
  submissionBreaker : Address
  deploymentId : Bytes32
  maxActionsPerBatch : ℕ
  withdrawalFinalisationWindow : ℕ
  genesisStateCommit : Bytes32
  sequencer_ne_zero : sequencer ≠ 0
  faultProofGame_ne_zero : faultProofGame ≠ 0
  submissionBreaker_ne_zero : submissionBreaker ≠ 0
  submissionBreaker_ne_sequencer : submissionBreaker ≠ sequencer
  sequencer_ne_faultProofGame : sequencer ≠ faultProofGame
  bond_pos : 0 < stateRootSubmissionBond
  bond_lt : stateRootSubmissionBond < 2 ^ 128
  window_pos : 0 < faultProofDisputeWindow
  window_lt : faultProofDisputeWindow < 2 ^ 64
  window_ge : withdrawalFinalisationWindow ≤ faultProofDisputeWindow
  interval_pos : 0 < minSubmissionIntervalBlocks
  interval_lt : minSubmissionIntervalBlocks < 2 ^ 64
  outstanding_pos : 0 < maxOutstandingRootsPerSequencer
  outstanding_lt : maxOutstandingRootsPerSequencer < 2 ^ 64
  genesis_ne_zero : genesisStateCommit ≠ 0
  batch_pos : 0 < maxActionsPerBatch
  batch_lt : maxActionsPerBatch < 2 ^ 64

structure SubmittedRoot where
  sequencer : Address
  stateCommit : Bytes32
  prevLogEntryHash : Bytes32
  expectedNextHash : Bytes32
  bond : ℕ
  submittedAtBlock : ℕ
  finalised : Bool
  disputed : Bool
  prevEndIndex : ℕ
  actionsRoot : Bytes32
deriving DecidableEq

/-- The storage value of a key that was never written. -/
def SubmittedRoot.absent : SubmittedRoot where
  sequencer := 0
  stateCommit := 0
  prevLogEntryHash := 0
  expectedNextHash := 0
  bond := 0
  submittedAtBlock := 0
  finalised := false
  disputed := false
  prevEndIndex := 0
  actionsRoot := 0

def noRevertedFloor : ℕ := 2 ^ 64 - 1

structure Registry where
  submissionsHalted : Bool
  roots : ℕ → SubmittedRoot
  canonicalTip : ℕ
  lastRevertAtBlock : ℕ
  lastSubmissionBlock : Address → ℕ
  outstandingRootsCount : Address → ℕ
  lowestRevertedLogIndex : ℕ
  highestRevertedLogIndex : ℕ
  latestSubmittedLogIndex : ℕ
  balance : ℕ

inductive RegistryError where
  | notSequencer
  | notFaultProofGame
  | submissionTooFrequent
  | tooManyOutstandingRoots
  | alreadyClaimed
  | invalidBond
  | rootMissing
  | alreadyDisputed
  | bondAlreadyZero
  | slashTransferFailed
  | bondReleaseFailed
  | notYetFinalisable
  | alreadyFinalised
  | disputeInProgress
  | notCanonicalTip
  | emptyBatch
  | batchTooLarge
  | bondNotReclaimed
  | rootReverted
  | submissionsAreHalted
  | notSubmissionBreaker
  | haltStateUnchanged
  | arithmeticPanic
  | calldataOutOfRange
deriving DecidableEq

/-- What an accepted call did: the record it touched and the ether it moved. -/
inductive RegistryEffect where
  | submitted (endIndex : ℕ) (sequencer : Address) (bond : ℕ)
  | finalised (logIndex : ℕ) (recipient : Address) (amount : ℕ)
  | disputed (logIndex : ℕ)
  | disputeCleared (logIndex : ℕ)
  | slashed (logIndex : ℕ) (recipient : Address) (amount : ℕ)
  | revertedFrom (fromIdx : ℕ)
  | reclaimed (logIndex : ℕ) (recipient : Address) (amount : ℕ)
  | halted
  | resumed
deriving DecidableEq

abbrev RegistryResult := Except RegistryError (Registry × RegistryEffect)

namespace Registry

def construct [Keccak] (cfg : RegistryConfig) (b : Block) : Registry where
  submissionsHalted := false
  roots := Function.update (fun _ => SubmittedRoot.absent) 0
    { SubmittedRoot.absent with
      stateCommit := cfg.genesisStateCommit
      expectedNextHash := genesisChainSeed cfg.genesisStateCommit
      submittedAtBlock := truncate 64 b.number
      finalised := true }
  canonicalTip := 0
  lastRevertAtBlock := 0
  lastSubmissionBlock := fun _ => 0
  outstandingRootsCount := fun _ => 0
  lowestRevertedLogIndex := noRevertedFloor
  highestRevertedLogIndex := 0
  latestSubmittedLogIndex := 0
  balance := 0

def isRecordReverted (s : Registry) (logIndex : ℕ) : Prop :=
  s.lowestRevertedLogIndex ≤ logIndex ∧
    logIndex ≤ s.highestRevertedLogIndex ∧
    (s.roots logIndex).submittedAtBlock ≤ s.lastRevertAtBlock

instance (s : Registry) (k : ℕ) : Decidable (s.isRecordReverted k) :=
  inferInstanceAs (Decidable (_ ∧ _ ∧ _))

/-- A record was submitted under this key (and maybe overwritten since). -/
def Exists (s : Registry) (logIndex : ℕ) : Prop := (s.roots logIndex).submittedAtBlock ≠ 0

instance (s : Registry) (k : ℕ) : Decidable (s.Exists k) := inferInstanceAs (Decidable (_ ≠ _))

def setRoot (s : Registry) (k : ℕ) (r : SubmittedRoot) : Registry :=
  { s with roots := Function.update s.roots k r }

/-- `outstandingRootsCount[a]--`, guarded by the counter being positive. -/
def releaseOutstanding (s : Registry) (a : Address) : Registry :=
  { s with
    outstandingRootsCount :=
      if 0 < s.outstandingRootsCount a then
        Function.update s.outstandingRootsCount a (s.outstandingRootsCount a - 1)
      else
        s.outstandingRootsCount }

def freshRoot [Keccak] (s : Registry) (msg : Msg) (prevEndIndex : ℕ)
    (stateCommit actionsRoot : Bytes32) : SubmittedRoot where
  sequencer := msg.sender
  stateCommit := stateCommit
  prevLogEntryHash := (s.roots prevEndIndex).expectedNextHash
  expectedNextHash := nextEntryHash (s.roots prevEndIndex).expectedNextHash stateCommit actionsRoot
  bond := truncate 128 msg.value
  submittedAtBlock := truncate 64 msg.block.number
  finalised := false
  disputed := false
  prevEndIndex := prevEndIndex
  actionsRoot := actionsRoot

def recordSubmission [Keccak] (s : Registry) (msg : Msg) (endIndex prevEndIndex : ℕ)
    (stateCommit actionsRoot : Bytes32) : Registry :=
  { s.setRoot endIndex (s.freshRoot msg prevEndIndex stateCommit actionsRoot) with
    lastSubmissionBlock :=
      Function.update s.lastSubmissionBlock msg.sender (truncate 64 msg.block.number)
    outstandingRootsCount :=
      Function.update s.outstandingRootsCount msg.sender (s.outstandingRootsCount msg.sender + 1)
    canonicalTip := endIndex
    latestSubmittedLogIndex := max s.latestSubmittedLogIndex endIndex
    balance := s.balance + msg.value }

def submitStateRoot [Keccak] (cfg : RegistryConfig) (s : Registry) (msg : Msg)
    (endIndex prevEndIndex : ℕ) (stateCommit actionsRoot : Bytes32) : RegistryResult :=
  if 2 ^ 64 ≤ endIndex ∨ 2 ^ 64 ≤ prevEndIndex then .error .calldataOutOfRange
  else if s.submissionsHalted then .error .submissionsAreHalted
  else if msg.sender ≠ cfg.sequencer then .error .notSequencer
  else if msg.value ≠ cfg.stateRootSubmissionBond then .error .invalidBond
  else if endIndex ≤ prevEndIndex then .error .emptyBatch
  else if cfg.maxActionsPerBatch < endIndex - prevEndIndex then .error .batchTooLarge
  else if prevEndIndex ≠ s.canonicalTip then .error .notCanonicalTip
  else if s.Exists endIndex ∧ ¬ s.isRecordReverted endIndex then .error .alreadyClaimed
  else if s.Exists endIndex ∧ (s.roots endIndex).bond ≠ 0 then .error .bondNotReclaimed
  else
    checked (checkedAdd 64 (s.lastSubmissionBlock msg.sender)
        cfg.minSubmissionIntervalBlocks) .arithmeticPanic fun earliest =>
      if msg.block.number < earliest then .error .submissionTooFrequent
      else if cfg.maxOutstandingRootsPerSequencer ≤
          s.outstandingRootsCount msg.sender then
        .error .tooManyOutstandingRoots
      else
        .ok (s.recordSubmission msg endIndex prevEndIndex stateCommit actionsRoot,
          .submitted endIndex msg.sender (truncate 128 msg.value))

/-- Empty the record's bond and pay it out. -/
def payOutBond (s : Registry) (k : ℕ) : Registry :=
  { (s.setRoot k { s.roots k with bond := 0 }).releaseOutstanding
      (s.roots k).sequencer with
    balance := s.balance - (s.roots k).bond }

def setFinalised (s : Registry) (k : ℕ) : Registry :=
  s.setRoot k { s.roots k with finalised := true }

def setDisputed (s : Registry) (k : ℕ) (disputed : Bool) : Registry :=
  s.setRoot k { s.roots k with disputed := disputed }

def finaliseStateRoot (cfg : RegistryConfig) (s : Registry) (msg : Msg)
    (logIndex : ℕ) : RegistryResult :=
  let r := s.roots logIndex
  if 2 ^ 64 ≤ logIndex then .error .calldataOutOfRange
  else if ¬ s.Exists logIndex then .error .rootMissing
  else if s.isRecordReverted logIndex then .error .rootReverted
  else if r.finalised then .error .alreadyFinalised
  else if r.disputed then .error .disputeInProgress
  else
    checked (checkedAdd 64 r.submittedAtBlock cfg.faultProofDisputeWindow)
        .arithmeticPanic fun finalisableAt =>
      if msg.block.number < finalisableAt then .error .notYetFinalisable
      else if s.balance < r.bond then .error .bondReleaseFailed
      else
        .ok ((s.setFinalised logIndex).payOutBond logIndex, .finalised logIndex r.sequencer r.bond)

def markDisputed (cfg : RegistryConfig) (s : Registry) (sender : Address)
    (logIndex : ℕ) : RegistryResult :=
  let r := s.roots logIndex
  if sender ≠ cfg.faultProofGame then .error .notFaultProofGame
  else if ¬ s.Exists logIndex then .error .rootMissing
  else if s.isRecordReverted logIndex then .error .rootReverted
  else if r.finalised then .error .alreadyFinalised
  else if r.disputed then .error .alreadyDisputed
  else .ok (s.setDisputed logIndex true, .disputed logIndex)

def clearDisputed (cfg : RegistryConfig) (s : Registry) (sender : Address)
    (logIndex : ℕ) : RegistryResult :=
  if sender ≠ cfg.faultProofGame then .error .notFaultProofGame
  else if ¬ s.Exists logIndex then .error .rootMissing
  else .ok (s.setDisputed logIndex false, .disputeCleared logIndex)

def slashSequencerBond (cfg : RegistryConfig) (s : Registry) (sender : Address)
    (logIndex : ℕ) (recipient : Address) : RegistryResult :=
  let r := s.roots logIndex
  if sender ≠ cfg.faultProofGame then .error .notFaultProofGame
  else if recipient = 0 then .error .notSequencer
  else if ¬ s.Exists logIndex then .error .rootMissing
  else if r.finalised then .error .alreadyFinalised
  else if r.bond = 0 then .error .bondAlreadyZero
  else if s.balance < r.bond then .error .slashTransferFailed
  else .ok (s.payOutBond logIndex, .slashed logIndex recipient r.bond)

def haltSubmissions (cfg : RegistryConfig) (s : Registry) (sender : Address) : RegistryResult :=
  if sender ≠ cfg.submissionBreaker then .error .notSubmissionBreaker
  else if s.submissionsHalted then .error .haltStateUnchanged
  else .ok ({ s with submissionsHalted := true }, .halted)

def resumeSubmissions (cfg : RegistryConfig) (s : Registry) (sender : Address) : RegistryResult :=
  if sender ≠ cfg.submissionBreaker then .error .notSubmissionBreaker
  else if ¬ s.submissionsHalted then .error .haltStateUnchanged
  else .ok ({ s with submissionsHalted := false }, .resumed)

/-- The storage writes of `revertStateRootsFrom`. -/
def sweepFrom (s : Registry) (block : Block) (fromIdx : ℕ) : Registry :=
  { s with
    lowestRevertedLogIndex := min s.lowestRevertedLogIndex fromIdx
    highestRevertedLogIndex := max s.highestRevertedLogIndex (max s.latestSubmittedLogIndex fromIdx)
    lastRevertAtBlock := truncate 64 block.number
    canonicalTip := min s.canonicalTip (s.roots fromIdx).prevEndIndex }

def revertStateRootsFrom (cfg : RegistryConfig) (s : Registry) (sender : Address)
    (block : Block) (fromIdx : ℕ) : RegistryResult :=
  if sender ≠ cfg.faultProofGame then .error .notFaultProofGame
  else .ok (s.sweepFrom block fromIdx, .revertedFrom fromIdx)

def reclaimRevertedBond (s : Registry) (logIndex : ℕ) : RegistryResult :=
  let r := s.roots logIndex
  if 2 ^ 64 ≤ logIndex then .error .calldataOutOfRange
  else if ¬ s.Exists logIndex then .error .rootMissing
  else if ¬ s.isRecordReverted logIndex then .error .rootMissing
  else if r.finalised then .error .alreadyFinalised
  else if r.disputed then .error .disputeInProgress
  else if r.bond = 0 then .error .bondAlreadyZero
  else if s.balance < r.bond then .error .slashTransferFailed
  else .ok (s.payOutBond logIndex, .reclaimed logIndex r.sequencer r.bond)

/-! ## What an accepted call has checked -/

section Accepted

variable {cfg : RegistryConfig} {s s' : Registry} {eff : RegistryEffect}

structure MaySubmit (cfg : RegistryConfig) (s : Registry) (msg : Msg)
    (endIndex prevEndIndex : ℕ) : Prop where
  endIndex_lt : endIndex < 2 ^ 64
  not_halted : s.submissionsHalted = false
  sender_eq : msg.sender = cfg.sequencer
  value_eq : msg.value = cfg.stateRootSubmissionBond
  prev_lt : prevEndIndex < endIndex
  size_le : endIndex - prevEndIndex ≤ cfg.maxActionsPerBatch
  prev_eq : prevEndIndex = s.canonicalTip
  reuse : s.Exists endIndex → s.isRecordReverted endIndex ∧ (s.roots endIndex).bond = 0
  interval_le : s.lastSubmissionBlock msg.sender + cfg.minSubmissionIntervalBlocks ≤
    msg.block.number
  capacity : s.outstandingRootsCount msg.sender < cfg.maxOutstandingRootsPerSequencer

theorem submitStateRoot_ok
    [Keccak] {msg : Msg} {endIndex prevEndIndex : ℕ} {stateCommit actionsRoot : Bytes32}
    (h : s.submitStateRoot cfg msg endIndex prevEndIndex stateCommit actionsRoot = .ok (s', eff)) :
    MaySubmit cfg s msg endIndex prevEndIndex ∧
      s' = s.recordSubmission msg endIndex prevEndIndex stateCommit actionsRoot ∧
      eff = .submitted endIndex msg.sender cfg.stateRootSubmissionBond := by
  simp only [submitStateRoot, guard_eq_ok, checked_eq_ok, checkedAdd_eq_some,
    not_not, not_le, not_lt, not_or, Except.ok.injEq, Prod.mk.injEq, not_and,
    Bool.not_eq_true] at h
  obtain ⟨hrange, hhalt, hsender, hvalue, hlt, hsize, htip, hclaimed, hbond, _,
    ⟨_, rfl⟩, hinterval, hcap, rfl, rfl⟩ := h
  refine ⟨⟨hrange.1, hhalt, hsender, hvalue, hlt, hsize, htip,
    fun hex => ⟨hclaimed hex, hbond hex⟩, hinterval, hcap⟩, rfl, ?_⟩
  rw [hvalue, truncate_of_lt cfg.bond_lt]

structure MayFinalise (cfg : RegistryConfig) (s : Registry) (block : Block)
    (logIndex : ℕ) : Prop where
  logIndex_lt : logIndex < 2 ^ 64
  exist : s.Exists logIndex
  not_reverted : ¬ s.isRecordReverted logIndex
  not_finalised : (s.roots logIndex).finalised = false
  not_disputed : (s.roots logIndex).disputed = false
  window_le : (s.roots logIndex).submittedAtBlock + cfg.faultProofDisputeWindow ≤ block.number
  funded : (s.roots logIndex).bond ≤ s.balance

variable {logIndex : ℕ} {sender : Address}

theorem finaliseStateRoot_ok {msg : Msg}
    (h : s.finaliseStateRoot cfg msg logIndex = .ok (s', eff)) :
    MayFinalise cfg s msg.block logIndex ∧ s' = (s.setFinalised logIndex).payOutBond logIndex ∧
      eff = .finalised logIndex (s.roots logIndex).sequencer (s.roots logIndex).bond := by
  simp only [finaliseStateRoot, guard_eq_ok, checked_eq_ok, checkedAdd_eq_some,
    not_not, not_lt, not_le, Except.ok.injEq, Prod.mk.injEq, Bool.not_eq_true] at h
  obtain ⟨hrange, hex, hrev, hfin, hdis, _, ⟨_, rfl⟩, hwindow, hfund, rfl, rfl⟩ := h
  exact ⟨⟨hrange, hex, hrev, hfin, hdis, hwindow, hfund⟩, rfl, rfl⟩

structure MayReclaim (s : Registry) (logIndex : ℕ) : Prop where
  logIndex_lt : logIndex < 2 ^ 64
  exist : s.Exists logIndex
  reverted : s.isRecordReverted logIndex
  not_finalised : (s.roots logIndex).finalised = false
  not_disputed : (s.roots logIndex).disputed = false
  bond_ne : (s.roots logIndex).bond ≠ 0
  funded : (s.roots logIndex).bond ≤ s.balance

theorem reclaimRevertedBond_ok (h : s.reclaimRevertedBond logIndex = .ok (s', eff)) :
    MayReclaim s logIndex ∧ s' = s.payOutBond logIndex ∧
      eff = .reclaimed logIndex (s.roots logIndex).sequencer (s.roots logIndex).bond := by
  simp only [reclaimRevertedBond, guard_eq_ok, not_not, not_lt, not_le, Except.ok.injEq,
    Prod.mk.injEq, Bool.not_eq_true] at h
  obtain ⟨hrange, hex, hrev, hfin, hdis, hbond, hfund, rfl, rfl⟩ := h
  exact ⟨⟨hrange, hex, hrev, hfin, hdis, hbond, hfund⟩, rfl, rfl⟩

structure MayDispute (s : Registry) (logIndex : ℕ) : Prop where
  exist : s.Exists logIndex
  not_reverted : ¬ s.isRecordReverted logIndex
  not_finalised : (s.roots logIndex).finalised = false
  not_disputed : (s.roots logIndex).disputed = false

theorem markDisputed_ok (h : s.markDisputed cfg sender logIndex = .ok (s', eff)) :
    sender = cfg.faultProofGame ∧ MayDispute s logIndex ∧ s' = s.setDisputed logIndex true ∧
      eff = .disputed logIndex := by
  simp only [markDisputed, guard_eq_ok, not_not, Except.ok.injEq,
    Prod.mk.injEq, Bool.not_eq_true] at h
  obtain ⟨hsender, hex, hrev, hfin, hdis, rfl, rfl⟩ := h
  exact ⟨hsender, ⟨hex, hrev, hfin, hdis⟩, rfl, rfl⟩

theorem clearDisputed_ok (h : s.clearDisputed cfg sender logIndex = .ok (s', eff)) :
    sender = cfg.faultProofGame ∧ s.Exists logIndex ∧ s' = s.setDisputed logIndex false ∧
      eff = .disputeCleared logIndex := by
  simp only [clearDisputed, guard_eq_ok, not_not, Except.ok.injEq, Prod.mk.injEq] at h
  obtain ⟨hsender, hex, rfl, rfl⟩ := h
  exact ⟨hsender, hex, rfl, rfl⟩

structure MaySlash (s : Registry) (logIndex : ℕ) : Prop where
  exist : s.Exists logIndex
  not_finalised : (s.roots logIndex).finalised = false
  bond_ne : (s.roots logIndex).bond ≠ 0
  funded : (s.roots logIndex).bond ≤ s.balance

theorem slashSequencerBond_ok {recipient : Address}
    (h : s.slashSequencerBond cfg sender logIndex recipient = .ok (s', eff)) :
    sender = cfg.faultProofGame ∧ MaySlash s logIndex ∧ s' = s.payOutBond logIndex ∧
      eff = .slashed logIndex recipient (s.roots logIndex).bond := by
  simp only [slashSequencerBond, guard_eq_ok, not_not, not_lt, Except.ok.injEq,
    Prod.mk.injEq, Bool.not_eq_true] at h
  obtain ⟨hsender, _, hex, hfin, hbond, hfund, rfl, rfl⟩ := h
  exact ⟨hsender, ⟨hex, hfin, hbond, hfund⟩, rfl, rfl⟩

theorem revertStateRootsFrom_ok {block : Block} {fromIdx : ℕ}
    (h : s.revertStateRootsFrom cfg sender block fromIdx = .ok (s', eff)) :
    sender = cfg.faultProofGame ∧ s' = s.sweepFrom block fromIdx ∧ eff = .revertedFrom fromIdx := by
  simp only [revertStateRootsFrom, guard_eq_ok, not_not, Except.ok.injEq, Prod.mk.injEq] at h
  obtain ⟨hsender, rfl, rfl⟩ := h
  exact ⟨hsender, rfl, rfl⟩

theorem haltSubmissions_ok (h : s.haltSubmissions cfg sender = .ok (s', eff)) :
    s' = { s with submissionsHalted := true } ∧ eff = .halted := by
  simp only [haltSubmissions, guard_eq_ok, Except.ok.injEq, Prod.mk.injEq] at h
  exact ⟨h.2.2.1.symm, h.2.2.2.symm⟩

theorem resumeSubmissions_ok (h : s.resumeSubmissions cfg sender = .ok (s', eff)) :
    s' = { s with submissionsHalted := false } ∧ eff = .resumed := by
  simp only [resumeSubmissions, guard_eq_ok, Except.ok.injEq, Prod.mk.injEq] at h
  exact ⟨h.2.2.1.symm, h.2.2.2.symm⟩

end Accepted

end Registry

end Knomosis.Contracts
