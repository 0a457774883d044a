import Knomosis.Disputes.ClaimVerifiers
import Knomosis.Lib.Reentrant

/-!
# The first dispute verifier and the stake it locks

A dispute is filed with a bond and stays open until a quorum of adjudicators signs
a verdict that the evidence bears out.  While any dispute is open the stake of the
sequencer cannot be withdrawn.  Ether leaves the two contracts in four places only,
and in each of them the recipient may call back before the call is over.
-/

namespace Knomosis.Disputes

open Lib Contracts Kernel

inductive DisputeStatus where
  | opened
  | upheld
  | rejected
  | inconclusive
  | withdrawn
deriving DecidableEq

structure DisputeRecord where
  impugnedLogIndex : ℕ
  challenger : Address
  claimVariant : ℕ
  status : DisputeStatus
  filedAtBlock : ℕ
deriving DecidableEq

/-- What storage reads as where no dispute was filed. -/
def DisputeRecord.zero : DisputeRecord where
  impugnedLogIndex := 0
  challenger := 0
  claimVariant := 0
  status := .opened
  filedAtBlock := 0

/-- What the verifier logs about bonds. -/
inductive BondEvent where
  | refunded (disputeId : ℕ) (challenger : Address) (amount : ℕ)
  | forfeited (disputeId : ℕ) (challenger beneficiary : Address) (amount : ℕ)
  | claimed (beneficiary : Address) (amount : ℕ)
deriving DecidableEq

structure Verifier where
  disputes : ℕ → DisputeRecord
  nextDisputeId : ℕ
  openDisputeCount : ℕ
  disputeBond : ℕ → ℕ
  bondCredit : Address → ℕ
  entered : Bool
  balance : ℕ
  events : List BondEvent

structure Stake where
  totalStaked : ℕ
  slashedDispute : ℕ → Bool
  slashCredit : Address → ℕ
  entered : Bool
  balance : ℕ

structure World where
  verifier : Verifier
  stake : Stake
  identities : Address → IdentityRecord

inductive DisputeError where
  | incorrectChallengerBond (sent required : ℕ)
  | invalidClaimVariant
  | evidenceBlobTooLarge (actual maxBytes : ℕ)
  | arithmetic
  | reentrantCall
  | unknownDispute
  | alreadyDecided
  | tooManySigners (supplied maxAllowed : ℕ)
  | tally (e : TallyError)
  | quorumNotMet (verified required : ℕ)
  | evidence (e : EvidenceError)
  | evidenceNotUpheld
  | evidenceNotRejected
  | noBondToClaim
  | transferFailed
  | bridgeReverted
  | notSequencer
  | notDisputeVerifier
  | insufficientStake
  | withdrawDuringOpenDispute
  | alreadySlashed (disputeId : ℕ)
  | zeroAddress
  | nothingToClaim
  | noSuchCaller
  | wrongPubkeyLength (actual : ℕ)
  | pubkeyAddressMismatch (expected derived : Address)
  | alreadyRegistered (actor : Address)
  | notEip1271Conforming
  | notRegistered (actor : Address)
deriving DecidableEq

def MAX_EVIDENCE_BLOB_BYTES : ℕ := 100000

def addWord (width a b : ℕ) : Except DisputeError ℕ :=
  if a + b < 2 ^ width then .ok (a + b) else .error .arithmetic

/-- Ether that comes in with a call; no account holds `2 ^ 256` wei. -/
def receiveValue (balance value : ℕ) : Except DisputeError ℕ := addWord 256 balance value

def sendValue (balance amount : ℕ) : Except DisputeError ℕ :=
  if balance < amount then .error .transferFailed else .ok (balance - amount)

section Verifier

variable (D : Deployment)

def fileDispute (caller : Address) (value impugnedLogIndex claimVariant : ℕ)
    (evidenceBlob : List UInt8) (block : ℕ) (v : Verifier) : Except DisputeError Verifier :=
  if value ≠ D.challengerBond then .error (.incorrectChallengerBond value D.challengerBond)
  else if claimVariant ≠ CLAIM_SIGNATURE_INVALID ∧ claimVariant ≠ CLAIM_NONCE_MISMATCH ∧
      claimVariant ≠ CLAIM_DOUBLE_APPLY then .error .invalidClaimVariant
  else if MAX_EVIDENCE_BLOB_BYTES < evidenceBlob.length then
    .error (.evidenceBlobTooLarge evidenceBlob.length MAX_EVIDENCE_BLOB_BYTES)
  else do
    let balance ← receiveValue v.balance value
    let nextDisputeId ← addWord 64 v.nextDisputeId 1
    let openDisputeCount ← addWord 64 v.openDisputeCount 1
    .ok { v with
      disputes := Function.update v.disputes v.nextDisputeId
        ⟨impugnedLogIndex, caller, claimVariant, .opened, block % 2 ^ 64⟩
      nextDisputeId := nextDisputeId
      disputeBond := Function.update v.disputeBond v.nextDisputeId value
      openDisputeCount := openDisputeCount
      balance := balance }

/-- One dispute less is open, and its bond goes to the challenger or to the sequencer. -/
def closeDispute (disputeId : ℕ) (challenger : Address) (refund : Bool) (v : Verifier) :
    Except DisputeError Verifier :=
  let v := if 0 < v.openDisputeCount then
      { v with openDisputeCount := v.openDisputeCount - 1 } else v
  let bond := v.disputeBond disputeId
  if bond = 0 then .ok v
  else
    let beneficiary := if refund then challenger else D.sequencer
    let event := if refund then BondEvent.refunded disputeId challenger bond
      else .forfeited disputeId challenger D.sequencer bond
    do
      let credit ← addWord 256 (v.bondCredit beneficiary) bond
      .ok { v with
        disputeBond := Function.update v.disputeBond disputeId 0
        bondCredit := Function.update v.bondCredit beneficiary credit
        events := event :: v.events }

/-- Up to the transfer. -/
def claimBond (caller : Address) (v : Verifier) : Except DisputeError Verifier :=
  if v.entered then .error .reentrantCall
  else if v.bondCredit caller = 0 then .error .noBondToClaim
  else do
    let balance ← sendValue v.balance (v.bondCredit caller)
    .ok { v with
      bondCredit := Function.update v.bondCredit caller 0
      events := .claimed caller (v.bondCredit caller) :: v.events
      entered := true
      balance := balance }

variable [Keccak] [Ecdsa]

def verdictDigest (disputeId outcome : ℕ) : Bytes32 :=
  KnomosisEip712.digest
    (KnomosisEip712.domainSeparator "KnomosisDisputeVerifier" "1" D.chainId 0 D.verifier)
    (keccak256 (
      bytes32Bytes (keccak256 (asciiBytes
        "Verdict(uint64 disputeId,uint8 outcome,bytes32 deploymentId)")) ++
      wordBytes disputeId ++ wordBytes outcome ++ bytes32Bytes D.deploymentId))

def verdictCode : EvidenceVerdict → ℕ
  | .upheld => 0
  | .rejected => 1
  | .inconclusive => 2

/-- What both ways of closing a dispute check; `wrong` is the revert if the evidence says
otherwise. -/
def requireVerdict (outcome : EvidenceVerdict) (wrong : DisputeError)
    (identities : Address → IdentityRecord) (disputeId : ℕ) (reEvidenceBlob : List UInt8)
    (signerHint : Address) (signers : List Address) (sigs : List (List UInt8)) (v : Verifier) :
    Except DisputeError Unit :=
  let d := v.disputes disputeId
  if v.entered then .error .reentrantCall
  else if d.challenger = 0 then .error .unknownDispute
  else if d.status ≠ .opened then .error .alreadyDecided
  else if MAX_VERDICT_SIGNERS < signers.length then
    .error (.tooManySigners signers.length MAX_VERDICT_SIGNERS)
  else do
    let verified ← (countVerifiedSignatures D.approvedAdjudicator
      (verdictDigest D disputeId (verdictCode outcome)) signers sigs).mapError .tally
    if verified < D.quorumThreshold then .error (.quorumNotMet verified D.quorumThreshold)
    else do
      let verdict ← (runClaimVerifier D identities d.claimVariant d.impugnedLogIndex
        reEvidenceBlob signerHint).mapError .evidence
      if verdict ≠ outcome then .error wrong else .ok ()

def setStatus (disputeId : ℕ) (status : DisputeStatus) (v : Verifier) : Verifier :=
  { v with
    disputes := Function.update v.disputes disputeId
      { v.disputes disputeId with status := status } }

end Verifier

section Stake

variable (D : Deployment)

def deposit (caller : Address) (value : ℕ) (s : Stake) : Except DisputeError Stake :=
  if caller ≠ D.sequencer then .error .notSequencer
  else do
    let balance ← receiveValue s.balance value
    let totalStaked ← addWord 256 s.totalStaked value
    .ok { s with totalStaked := totalStaked, balance := balance }

/-- Up to the transfer.  `rootInWindow` is what the bridge answers about its last state root. -/
def withdraw (caller : Address) (amount openDisputeCount : ℕ) (rootInWindow : Bool) (s : Stake) :
    Except DisputeError Stake :=
  if s.entered then .error .reentrantCall
  else if caller ≠ D.sequencer then .error .notSequencer
  else if amount = 0 ∨ s.totalStaked < amount then .error .insufficientStake
  else if openDisputeCount ≠ 0 then .error .withdrawDuringOpenDispute
  else if rootInWindow then .error .withdrawDuringOpenDispute
  else do
    let balance ← sendValue s.balance amount
    .ok { s with totalStaked := s.totalStaked - amount, entered := true, balance := balance }

/-- Up to the transfer of what is burned, if anything is. -/
def slash (caller : Address) (disputeId : ℕ) (challenger : Address) (s : Stake) :
    Except DisputeError (Stake × Bool) :=
  if s.entered then .error .reentrantCall
  else if caller ≠ D.verifier then .error .notDisputeVerifier
  else if s.slashedDispute disputeId then .error (.alreadySlashed disputeId)
  else if challenger = 0 then .error .zeroAddress
  else if ¬ s.totalStaked * D.slashRatioBps < 2 ^ 256 then .error .arithmetic
  else
    let paid := s.totalStaked * D.slashRatioBps / 10000
    let burned := s.totalStaked - paid
    do
      let credit ← addWord 256 (s.slashCredit challenger) paid
      let s' := { s with
        slashedDispute := Function.update s.slashedDispute disputeId true
        totalStaked := 0
        slashCredit := Function.update s.slashCredit challenger credit }
      if burned = 0 then .ok (s', false)
      else do
        let balance ← sendValue s.balance burned
        .ok ({ s' with entered := true, balance := balance }, true)

/-- Up to the transfer. -/
def claimSlashReward (caller : Address) (s : Stake) : Except DisputeError Stake :=
  if s.entered then .error .reentrantCall
  else if s.slashCredit caller = 0 then .error .nothingToClaim
  else do
    let balance ← sendValue s.balance (s.slashCredit caller)
    .ok { s with
      slashCredit := Function.update s.slashCredit caller 0
      entered := true
      balance := balance }

end Stake

section Identities

variable [Keccak] (identities : Address → IdentityRecord)

def registerECDSA (caller : Address) (uncompressedPubkey : List UInt8) (block : ℕ) :
    Except DisputeError (Address → IdentityRecord) :=
  let derived := addressOf (keccak256 uncompressedPubkey)
  if uncompressedPubkey.length ≠ 64 then .error (.wrongPubkeyLength uncompressedPubkey.length)
  else if derived ≠ caller then .error (.pubkeyAddressMismatch caller derived)
  else if (identities caller).kind ≠ .unregistered then .error (.alreadyRegistered caller)
  else .ok (Function.update identities caller ⟨.ecdsaEoa, uncompressedPubkey, block % 2 ^ 64⟩)

/-- `conforming` is what the probe of the signer contract finds. -/
def registerEIP1271 (caller contractSigner : Address) (conforming : Bool) (block : ℕ) :
    Except DisputeError (Address → IdentityRecord) :=
  if contractSigner = 0 then .error .notEip1271Conforming
  else if (identities caller).kind ≠ .unregistered then .error (.alreadyRegistered caller)
  else if !conforming then .error .notEip1271Conforming
  else .ok (Function.update identities caller
    ⟨.eip1271Contract, addressBytes contractSigner, block % 2 ^ 64⟩)

def revoke (caller : Address) : Except DisputeError (Address → IdentityRecord) :=
  if (identities caller).kind = .unregistered then .error (.notRegistered caller)
  else .ok (Function.update identities caller ⟨.unregistered, [], 0⟩)

end Identities

section System

/-- Calls on the contracts.  What other contracts answer comes with the call. -/
inductive Call where
  | fileDispute (caller : Address) (value impugnedLogIndex claimVariant : ℕ)
      (evidenceBlob : List UInt8) (block : ℕ)
  | finalizeUpheld (disputeId : ℕ) (reEvidenceBlob : List UInt8) (signerHint : Address)
      (signers : List Address) (sigs : List (List UInt8)) (bridgeReverts : Bool)
  | finalizeRejected (disputeId : ℕ) (reEvidenceBlob : List UInt8) (signerHint : Address)
      (signers : List Address) (sigs : List (List UInt8))
  | claimBond (caller : Address)
  | deposit (caller : Address) (value : ℕ)
  | withdraw (caller : Address) (amount : ℕ) (rootInWindow : Bool)
  | slash (caller : Address) (disputeId : ℕ) (challenger : Address)
  | claimSlashReward (caller : Address)
  | registerECDSA (caller : Address) (uncompressedPubkey : List UInt8) (block : ℕ)
  | registerEIP1271 (caller contractSigner : Address) (conforming : Bool) (block : ℕ)
  | revoke (caller : Address)
  | forceVerifier (value : ℕ)
  | forceStake (value : ℕ)
  | outside

/-- What is left of a call after its transfer. -/
inductive Pending where
  | claimBond
  | burn (bridgeReverts : Bool)
  | withdraw
  | slash
  | claimSlashReward
  | outside
deriving DecidableEq

variable [Keccak] [Ecdsa] (D : Deployment)

/-- Up to the transfer of what is burned, or to the end if nothing is. -/
def finalizeUpheld (disputeId : ℕ) (reEvidenceBlob : List UInt8) (signerHint : Address)
    (signers : List Address) (sigs : List (List UInt8)) (bridgeReverts : Bool) (w : World) :
    Except DisputeError (World × Option Pending) := do
  let challenger := (w.verifier.disputes disputeId).challenger
  requireVerdict D .upheld .evidenceNotUpheld w.identities disputeId reEvidenceBlob signerHint
    signers sigs w.verifier
  let v ← closeDispute D disputeId challenger true (setStatus disputeId .upheld w.verifier)
  let (s, burning) ← slash D D.verifier disputeId challenger w.stake
  if burning then
    .ok ({ w with verifier := { v with entered := true }, stake := s }, some (.burn bridgeReverts))
  else if bridgeReverts then .error .bridgeReverted
  else .ok ({ w with verifier := v, stake := s }, none)

def finalizeRejected (disputeId : ℕ) (reEvidenceBlob : List UInt8) (signerHint : Address)
    (signers : List Address) (sigs : List (List UInt8)) (w : World) :
    Except DisputeError World := do
  requireVerdict D .rejected .evidenceNotRejected w.identities disputeId reEvidenceBlob signerHint
    signers sigs w.verifier
  let v ← closeDispute D disputeId (w.verifier.disputes disputeId).challenger false
    (setStatus disputeId .rejected w.verifier)
  .ok { w with verifier := v }

/-- The effects of a call up to its end or its transfer.  No call comes from the zero address, and
the verifier calls the stake from `finalizeUpheld` only. -/
def act (w : World) : Call → Except DisputeError (World × Option Pending)
  | .fileDispute caller value idx variant blob block =>
    if caller = 0 then .error .noSuchCaller
    else do
      let v ← fileDispute D caller value idx variant blob block w.verifier
      .ok ({ w with verifier := v }, none)
  | .finalizeUpheld id blob hint signers sigs bridgeReverts =>
    finalizeUpheld D id blob hint signers sigs bridgeReverts w
  | .finalizeRejected id blob hint signers sigs => do
    let w ← finalizeRejected D id blob hint signers sigs w
    .ok (w, none)
  | .claimBond caller => do
    let v ← claimBond caller w.verifier
    .ok ({ w with verifier := v }, some .claimBond)
  | .deposit caller value => do
    let s ← deposit D caller value w.stake
    .ok ({ w with stake := s }, none)
  | .withdraw caller amount rootInWindow => do
    let s ← withdraw D caller amount w.verifier.openDisputeCount rootInWindow w.stake
    .ok ({ w with stake := s }, some .withdraw)
  | .slash caller id challenger =>
    if caller = D.verifier then .error .noSuchCaller
    else do
      let (s, burning) ← slash D caller id challenger w.stake
      .ok ({ w with stake := s }, if burning then some .slash else none)
  | .claimSlashReward caller => do
    let s ← claimSlashReward caller w.stake
    .ok ({ w with stake := s }, some .claimSlashReward)
  | .registerECDSA caller pubkey block => do
    let identities ← registerECDSA w.identities caller pubkey block
    .ok ({ w with identities := identities }, none)
  | .registerEIP1271 caller contractSigner conforming block => do
    let identities ← registerEIP1271 w.identities caller contractSigner conforming block
    .ok ({ w with identities := identities }, none)
  | .revoke caller => do
    let identities ← revoke w.identities caller
    .ok ({ w with identities := identities }, none)
  | .forceVerifier value => do
    let balance ← receiveValue w.verifier.balance value
    .ok ({ w with verifier := { w.verifier with balance := balance } }, none)
  | .forceStake value => do
    let balance ← receiveValue w.stake.balance value
    .ok ({ w with stake := { w.stake with balance := balance } }, none)
  | .outside => .ok (w, some .outside)

/-- The rest of a call after a transfer that went through. -/
def rest : Pending → World → Option World
  | .claimBond, w => some { w with verifier := { w.verifier with entered := false } }
  | .burn bridgeReverts, w =>
    if bridgeReverts then none
    else some { w with
      verifier := { w.verifier with entered := false }
      stake := { w.stake with entered := false } }
  | .withdraw, w => some { w with stake := { w.stake with entered := false } }
  | .slash, w => some { w with stake := { w.stake with entered := false } }
  | .claimSlashReward, w => some { w with stake := { w.stake with entered := false } }
  | .outside, w => some w

/-- The two contracts and the registry under any calls, also during transfers. -/
def system : Reentrant World Call Pending where
  act w c := (act D w c).toOption
  rest := rest

end System

def World.genesis : World where
  verifier :=
    { disputes := fun _ => DisputeRecord.zero, nextDisputeId := 0, openDisputeCount := 0,
      disputeBond := fun _ => 0, bondCredit := fun _ => 0, entered := false, balance := 0,
      events := [] }
  stake :=
    { totalStaked := 0, slashedDispute := fun _ => false, slashCredit := fun _ => 0,
      entered := false, balance := 0 }
  identities := fun _ => ⟨.unregistered, [], 0⟩

end Knomosis.Disputes
