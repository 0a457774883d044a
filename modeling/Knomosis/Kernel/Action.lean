import Knomosis.Kernel.Cbe
import Knomosis.Kernel.State

/-!
# Actions

What an actor can sign.  Most actions move balances; others change the registry
of keys, an actor's own policy or the records of the bridge, and the dispute and
fault-proof actions only leave their mark in the log.
-/

namespace Knomosis.Kernel

open Lib Smt

abbrev PublicKey := Bytes

abbrev Signature := Bytes

abbrev Nonce := ℕ

abbrev LogIndex := ℕ

/-- Accounts of the chain below. -/
abbrev EthAddress := Contracts.Address

abbrev DepositId := ℕ

abbrev WithdrawalId := ℕ

/-- The 20 bytes of an account, the most significant first. -/
def ethAddressBytes (a : EthAddress) : Bytes := beBytes 20 a.val

/-- The actor that speaks for the chain below. -/
def bridgeActor : ActorId := 0

/-- The actor that collects fees. -/
def gasPoolActor : ActorId := 1

/-- The actor that holds the reserves of the exchange. -/
def ammReserveActor : ActorId := 3

inductive DisputeClaim where
  | preconditionFalse (idx : LogIndex)
  | signatureInvalid (idx : LogIndex)
  | nonceMismatch (idx : LogIndex)
  | oracleMisreported (idx : LogIndex) (evidence : Bytes)
  | doubleApply (idx₁ idx₂ : LogIndex)
deriving DecidableEq

inductive EvidenceVerdict where
  | upheld
  | rejected
  | inconclusive
deriving DecidableEq

structure Dispute where
  challenger : ActorId
  claim : DisputeClaim
  evidence : Bytes
  nonce : Nonce
  sig : Signature
deriving DecidableEq

structure Verdict where
  disputeId : LogIndex
  outcome : EvidenceVerdict
  rationale : Bytes
  signatures : List (ActorId × Signature)
deriving DecidableEq

/-- One rule that an actor lays on their own actions, or one consent. -/
inductive LocalPolicyClause where
  | denyTags (tags : List ℕ)
  | requireRecipientIn (resource : ResourceId) (allowed : List ActorId)
  | capAmount (resource : ResourceId) (max : Amount)
  | allowTopUpFrom (delegates : List ActorId)
deriving DecidableEq

structure LocalPolicy where
  clauses : List LocalPolicyClause
deriving DecidableEq

/-- The policy of an actor who has declared none. -/
def LocalPolicy.empty : LocalPolicy where
  clauses := []

inductive Action where
  | transfer (r : ResourceId) (sender receiver : ActorId) (amount : Amount)
  | mint (r : ResourceId) (recipient : ActorId) (amount : Amount)
  | burn (r : ResourceId) (holder : ActorId) (amount : Amount)
  | freezeResource (r : ResourceId)
  | replaceKey (actor : ActorId) (newKey : PublicKey)
  | reward (r : ResourceId) (recipient : ActorId) (amount : Amount)
  | distributeOthers (r : ResourceId) (excluded : ActorId) (amount : Amount)
  | proportionalDilute (r : ResourceId) (excluded : ActorId) (totalReward : Amount)
  | dispute (d : Dispute)
  | disputeWithdraw (idx : LogIndex)
  | verdict (v : Verdict)
  | rollback (targetIdx : LogIndex)
  | registerIdentity (actor : ActorId) (pk : PublicKey)
  | deposit (r : ResourceId) (recipient : ActorId) (amount : Amount) (depositId : DepositId)
  | withdraw (r : ResourceId) (sender : ActorId) (amount : Amount) (recipientL1 : EthAddress)
  | declareLocalPolicy (policy : LocalPolicy)
  | revokeLocalPolicy
  | faultProofChallenge (bindingHash : Bytes) (startIdx endIdx : LogIndex)
      (challengerCommit : Bytes)
  | faultProofResolution (bindingHash : Bytes) (gameId : ℕ) (winner : ActorId)
      (revertFromIdx : LogIndex)
  | depositWithFee (r : ResourceId) (recipient poolActor : ActorId)
      (userAmount poolAmount : Amount) (budgetGrant : ℕ) (depositId : DepositId)
      (seedAmount : Amount)
  | topUpActionBudget (gasResource : ResourceId) (gasAmount : Amount) (budgetIncrement : ℕ)
      (poolActor : ActorId)
  | topUpActionBudgetFor (recipient : ActorId) (gasResource : ResourceId) (gasAmount : Amount)
      (budgetIncrement : ℕ) (poolActor : ActorId)
  | claimBudgetRefund (gasResource : ResourceId) (budgetUnits weiPerBudgetUnit : ℕ)
      (poolActor : ActorId)
  | reclaimAmmReserves (r : ResourceId) (amount : Amount) (reserveActor poolActor : ActorId)
  | reserveSwap (fromResource toResource : ResourceId) (user : ActorId)
      (amountIn minAmountOut : Amount) (reserveActor : ActorId)
deriving DecidableEq

namespace Action

/-- The index of the action's kind.  Index 23 belonged to a kind that was taken out. -/
def tag : Action → ℕ
  | transfer .. => 0
  | mint .. => 1
  | burn .. => 2
  | freezeResource .. => 3
  | replaceKey .. => 4
  | reward .. => 5
  | distributeOthers .. => 6
  | proportionalDilute .. => 7
  | dispute .. => 8
  | disputeWithdraw .. => 9
  | verdict .. => 10
  | rollback .. => 11
  | registerIdentity .. => 12
  | deposit .. => 13
  | withdraw .. => 14
  | declareLocalPolicy .. => 15
  | revokeLocalPolicy => 16
  | faultProofChallenge .. => 17
  | faultProofResolution .. => 18
  | depositWithFee .. => 19
  | topUpActionBudget .. => 20
  | topUpActionBudgetFor .. => 21
  | claimBudgetRefund .. => 22
  | reclaimAmmReserves .. => 24
  | reserveSwap .. => 25

theorem tag_lt (a : Action) : a.tag < 26 := by cases a <;> simp [tag]

end Action

/-- An action with the signature that its signer put under it. -/
structure SignedAction where
  action : Action
  signer : ActorId
  nonce : Nonce
  sig : Signature
deriving DecidableEq

end Knomosis.Kernel
