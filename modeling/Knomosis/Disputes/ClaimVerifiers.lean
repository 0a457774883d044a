import Knomosis.Contracts.Eip712
import Knomosis.Disputes.Evidence
import Knomosis.Disputes.Quorum

/-!
# The claim verifiers of the first dispute verifier

Three kinds of claims can be filed.  Each has a verifier that reads an evidence
blob and gives a verdict: a signature claim looks the signer up in the identity
registry and recovers the signature, a nonce claim replays a prefix of the log, and
a double-apply claim compares two entries.
-/

namespace Knomosis.Disputes

open Lib Contracts Kernel

/-- The contracts that the verifier is deployed with, and its parameters. -/
structure Deployment where
  chainId : ℕ
  verifier : Address
  deploymentId : Bytes32
  bridge : Address
  bridgeDeploymentId : Bytes32
  sequencer : Address
  quorumThreshold : ℕ
  approvedAdjudicator : Address → Bool
  challengerBond : ℕ
  slashRatioBps : ℕ
  slashRatioBps_le : slashRatioBps ≤ 10000

inductive SignerKind where
  | unregistered
  | ecdsaEoa
  | eip1271Contract
deriving DecidableEq

structure IdentityRecord where
  kind : SignerKind
  pubkey : List UInt8
  registeredAt : ℕ
deriving DecidableEq

def CLAIM_SIGNATURE_INVALID : ℕ := 1
def CLAIM_NONCE_MISMATCH : ℕ := 2
def CLAIM_DOUBLE_APPLY : ℕ := 4

section Signature

variable [Keccak] [Ecdsa] (D : Deployment)

def actionDigest (fields : EntryFields) : Bytes32 :=
  KnomosisEip712.digest
    (KnomosisEip712.domainSeparator "KnomosisAction" "1" (l2ChainId D.chainId) 0 D.bridge)
    (KnomosisEip712.actionStructHash fields.actionHash fields.signer fields.nonce
      D.bridgeDeploymentId)

def ownsKey (identities : Address → IdentityRecord) (a : Address) : Bool :=
  (identities a).kind == .ecdsaEoa && addressOf (keccak256 (identities a).pubkey) == a

def checkSignatureInvalid (identities : Address → IdentityRecord) (logEntryBlob : List UInt8)
    (expectedSignerAddr : Address) : Except EvidenceError EvidenceVerdict := do
  let (fields, sig, _) ← readEntry logEntryBlob 0
  if expectedSignerAddr = 0 then .ok .inconclusive
  else if !ownsKey identities expectedSignerAddr then .ok .inconclusive
  else if sig.length ≠ 65 then .ok .upheld
  else
    match Ecdsa.recover (actionDigest D fields) sig with
    | .error _ => .ok .upheld
    | .ok recovered =>
      if recovered = 0 then .ok .upheld
      else if recovered = expectedSignerAddr then .ok .rejected
      else .ok .upheld

end Signature

/-- Two entries with the same signer and nonce at different places. -/
def checkDoubleApply (impugnedLogIndex secondaryLogIndex : ℕ)
    (impugnedBlob secondaryBlob : List UInt8) : Except EvidenceError EvidenceVerdict :=
  if impugnedLogIndex = secondaryLogIndex then .error .selfClaimInvalid
  else do
    let (a, _) ← readEntryFields impugnedBlob 0
    let (b, _) ← readEntryFields secondaryBlob 0
    if a.signer = b.signer ∧ a.nonce = b.nonce then .ok .upheld else .ok .rejected

/-- The two entries come in one blob behind the index of the second. -/
def runDoubleApplyFromConcat (impugnedLogIndex : ℕ) (blob : List UInt8) :
    Except EvidenceError EvidenceVerdict := do
  let (secondaryLogIndex, off) ← reading (CBEDecode.readUint blob 0)
  let (count, off) ← reading (CBEDecode.readArrayHead blob off)
  if count ≠ 2 then .error (.doubleApplyConcatBadCount count 2)
  else do
    let (impugnedBytes, off) ← reading (CBEDecode.readBytes blob off)
    let (secondaryBytes, off) ← reading (CBEDecode.readBytes blob off)
    reading (CBEDecode.assertFullyConsumed blob off)
    checkDoubleApply impugnedLogIndex secondaryLogIndex impugnedBytes secondaryBytes

section Dispatch

variable [Keccak] [Ecdsa] (D : Deployment)

def runClaimVerifier (identities : Address → IdentityRecord) (claimVariant impugnedLogIndex : ℕ)
    (reEvidenceBlob : List UInt8) (signerHint : Address) : Except EvidenceError EvidenceVerdict :=
  if claimVariant = CLAIM_SIGNATURE_INVALID then
    if signerHint = 0 then .error .missingSignerHint
    else checkSignatureInvalid D identities reEvidenceBlob signerHint
  else if claimVariant = CLAIM_NONCE_MISMATCH then
    checkNonceMismatch impugnedLogIndex reEvidenceBlob
  else if claimVariant = CLAIM_DOUBLE_APPLY then
    runDoubleApplyFromConcat impugnedLogIndex reEvidenceBlob
  else .error .invalidClaimVariant

end Dispatch

end Knomosis.Disputes
