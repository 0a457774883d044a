import Knomosis.Kernel.Budget
import Knomosis.Kernel.Laws

/-!
# The extended state

The balances together with everything else that an action can read or change: the
expected nonces, the registered keys, the records of the bridge, the actors' own
policies and the budgets.
-/

namespace Knomosis.Kernel

open Std (TreeMap)

/-- What the bridge remembers of a deposit that it has credited. -/
structure DepositRecord where
  resource : ResourceId
  userAmount : Amount
  poolAmount : Amount
  budgetGrant : ℕ
deriving DecidableEq

/-- A withdrawal that the chain below may pay out. -/
structure PendingWithdrawal where
  resource : ResourceId
  recipient : EthAddress
  amount : Amount
  l2LogIndex : ℕ
  wdId : WithdrawalId
deriving DecidableEq

structure BridgeState where
  consumed : TreeMap DepositId DepositRecord compare
  pending : TreeMap WithdrawalId PendingWithdrawal compare
  nextWdId : WithdrawalId
  boldCircuitClosed : Bool
  boldTvlCap : Amount
  boldTotalLockedValue : Amount
  ammDisabled : Bool

namespace BridgeState

def empty : BridgeState where
  consumed := ∅
  pending := ∅
  nextWdId := 0
  boldCircuitClosed := false
  boldTvlCap := 0
  boldTotalLockedValue := 0
  ammDisabled := false

def markConsumed (bs : BridgeState) (depositId : DepositId) (record : DepositRecord) :
    BridgeState :=
  { bs with consumed := bs.consumed.insert depositId record }

/-- File a withdrawal under the next identifier. -/
def appendWithdrawal (bs : BridgeState) (wd : PendingWithdrawal) : BridgeState :=
  { bs with
    pending := bs.pending.insert bs.nextWdId { wd with wdId := bs.nextWdId }
    nextWdId := bs.nextWdId + 1 }

end BridgeState

abbrev KeyRegistry := TreeMap ActorId PublicKey compare

abbrev LocalPolicies := TreeMap ActorId LocalPolicy compare

/-- The policy of an actor, the empty one where none was declared. -/
def LocalPolicies.lookup (lp : LocalPolicies) (a : ActorId) : LocalPolicy :=
  lp[a]?.getD LocalPolicy.empty

structure ExtendedState where
  base : State
  nonces : TreeMap ActorId Nonce compare
  registry : KeyRegistry
  bridge : BridgeState
  localPolicies : LocalPolicies
  epochBudgets : EpochBudgetState
  budgetPolicy : BudgetPolicy

namespace ExtendedState

/-- The state before the first action, under a budget policy. -/
def empty (budgetPolicy : BudgetPolicy) : ExtendedState where
  base := ⟨∅⟩
  nonces := ∅
  registry := ∅
  bridge := BridgeState.empty
  localPolicies := ∅
  epochBudgets := ∅
  budgetPolicy := budgetPolicy

def withAdvancedEpoch (es : ExtendedState) (epochLength logIndex : ℕ) : ExtendedState :=
  { es with budgetPolicy := es.budgetPolicy.advanceEpoch epochLength logIndex }

end ExtendedState

/-- The nonce that the next action of an actor carries. -/
def expectsNonce (es : ExtendedState) (a : ActorId) : Nonce := es.nonces[a]?.getD 0

def advanceNonce (es : ExtendedState) (a : ActorId) : ExtendedState :=
  { es with nonces := es.nonces.insert a (expectsNonce es a + 1) }

def applyActionToRegistry (kr : KeyRegistry) : Action → KeyRegistry
  | .replaceKey actor newKey => kr.insert actor newKey
  | .registerIdentity actor pk => kr.insert actor pk
  | _ => kr

def applyActionToLocalPolicies (lp : LocalPolicies) (signer : ActorId) : Action → LocalPolicies
  | .declareLocalPolicy policy => lp.insert signer policy
  | .revokeLocalPolicy => lp.erase signer
  | _ => lp

def applyActionToBridgeState (bs : BridgeState) (a : Action) (l2LogIndex : ℕ) : BridgeState :=
  match a with
  | .deposit r _ amount depositId => bs.markConsumed depositId ⟨r, amount, 0, 0⟩
  | .depositWithFee r _ _ userAmount poolAmount budgetGrant depositId _ =>
    bs.markConsumed depositId ⟨r, userAmount, poolAmount, budgetGrant⟩
  | .withdraw r _ amount recipientL1 =>
    bs.appendWithdrawal ⟨r, recipientL1, amount, l2LogIndex, bs.nextWdId⟩
  | _ => bs

/-- Who is granted a budget by an action of `signer`, and how much. -/
def grantOf (signer : ActorId) : Action → Option (ActorId × ℕ)
  | .depositWithFee _ recipient _ _ _ grant _ _ => some (recipient, grant)
  | .topUpActionBudget _ _ increment _ => some (signer, increment)
  | .topUpActionBudgetFor recipient _ _ increment _ => some (recipient, increment)
  | _ => none

/-- The budgets after the grant of an action, if it makes one. -/
def budgetGrant (signer : ActorId) (a : Action) (freeTier currentEpoch : ℕ)
    (ebs : EpochBudgetState) : EpochBudgetState :=
  match grantOf signer a with
  | none => ebs
  | some (recipient, grant) => ebs.topUp recipient currentEpoch freeTier grant

/-- What a refund burns of the budget, on top of the price of the action. -/
def refundConsumeExtra : Action → ℕ
  | .claimBudgetRefund _ budgetUnits _ _ => budgetUnits
  | _ => 0

end Knomosis.Kernel
