import Knomosis.Kernel.Encoding

/-!
# Admission

The conditions under which the ledger takes a signed action, and what it does with
it then.  An action needs the consent of the deployment's authority policy, the
next nonce of its signer, a signature under the key registered for the signer, the
precondition of its law and the consent of the signer's own policy; an action of
the bridge needs more.

The budget is looked at last, and a grant comes after the charge.
-/

namespace Knomosis.Kernel

open Smt

/-- How a signature under a message is checked against a key. -/
abbrev Verifier := PublicKey → Bytes → Signature → Bool

/-- Which actions a deployment lets an actor sign. -/
structure AuthorityPolicy where
  authorized : ActorId → Action → Prop
  decAuth : ∀ a act, Decidable (authorized a act)

instance (P : AuthorityPolicy) (a : ActorId) (act : Action) : Decidable (P.authorized a act) :=
  P.decAuth a act

/-- Every actor may sign every action. -/
def AuthorityPolicy.unrestricted : AuthorityPolicy where
  authorized _ _ := True
  decAuth _ _ := isTrue trivial

/-- The resource and the recipient of the actions whose recipients a policy can restrict. -/
def Action.policyRecipient : Action → Option (ResourceId × ActorId)
  | transfer r _ recipient _ | mint r recipient _ | reward r recipient _
  | deposit r recipient _ _ => some (r, recipient)
  | _ => none

/-- The resource and the amount of the actions whose amounts a policy can cap. -/
def Action.policyAmount : Action → Option (ResourceId × Amount)
  | transfer r _ _ amount | mint r _ amount | burn r _ amount | reward r _ amount
  | distributeOthers r _ amount | deposit r _ amount _ | withdraw r _ amount _ => some (r, amount)
  | _ => none

/-- A clause lets its owner sign an action.  A consent to top-ups restricts nothing. -/
def LocalPolicyClause.Permits (a : Action) : LocalPolicyClause → Prop
  | denyTags tags => a.tag ∉ tags
  | requireRecipientIn resource allowed => ∀ p ∈ a.policyRecipient, p.1 ≠ resource ∨ p.2 ∈ allowed
  | capAmount resource max => ∀ p ∈ a.policyAmount, p.1 ≠ resource ∨ p.2 ≤ max
  | allowTopUpFrom _ => True

instance (a : Action) (c : LocalPolicyClause) : Decidable (c.Permits a) :=
  match c with
  | .denyTags tags => inferInstanceAs (Decidable (a.tag ∉ tags))
  | .requireRecipientIn resource allowed =>
    inferInstanceAs (Decidable (∀ p ∈ a.policyRecipient, p.1 ≠ resource ∨ p.2 ∈ allowed))
  | .capAmount resource max =>
    inferInstanceAs (Decidable (∀ p ∈ a.policyAmount, p.1 ≠ resource ∨ p.2 ≤ max))
  | .allowTopUpFrom _ => isTrue trivial

def LocalPolicy.Permits (a : Action) (p : LocalPolicy) : Prop := ∀ c ∈ p.clauses, c.Permits a

instance (a : Action) (p : LocalPolicy) : Decidable (p.Permits a) :=
  inferInstanceAs (Decidable (∀ c ∈ p.clauses, c.Permits a))

/-- Nobody can lock themselves out of changing their policy. -/
def isMetaPolicyAction : Action → Bool
  | .declareLocalPolicy _ => true
  | .revokeLocalPolicy => true
  | _ => false

def LocalPolicyPermits (es : ExtendedState) (signer : ActorId) (a : Action) : Prop :=
  isMetaPolicyAction a = true ∨ (es.localPolicies.lookup signer).Permits a

instance (es : ExtendedState) (signer : ActorId) (a : Action) :
    Decidable (LocalPolicyPermits es signer a) :=
  inferInstanceAs (Decidable (_ ∨ _))

section Admissibility

variable (verify : Verifier) (P : AuthorityPolicy) (deploymentId : Bytes)
variable (es : ExtendedState) (st : SignedAction)

/-- The conditions on every action. -/
structure AdmissibleWith : Prop where
  authorized : P.authorized st.signer st.action
  nonce : st.nonce = expectsNonce es st.signer
  signed : ∃ pk ∈ es.registry[st.signer]?,
    verify pk (signingInput st.action st.signer st.nonce deploymentId) st.sig = true
  pre : st.action.compileTransition.pre es.base
  permitted : LocalPolicyPermits es st.signer st.action

instance : Decidable (AdmissibleWith verify P deploymentId es st) :=
  decidable_of_iff
    (P.authorized st.signer st.action ∧ st.nonce = expectsNonce es st.signer ∧
      (∃ pk ∈ es.registry[st.signer]?,
        verify pk (signingInput st.action st.signer st.nonce deploymentId) st.sig = true) ∧
      st.action.compileTransition.pre es.base ∧ LocalPolicyPermits es st.signer st.action)
    ⟨fun h => ⟨h.1, h.2.1, h.2.2.1, h.2.2.2.1, h.2.2.2.2⟩,
      fun h => ⟨h.authorized, h.nonce, h.signed, h.pre, h.permitted⟩⟩

/-- The actions that only the bridge may sign. -/
def Action.isBridgeOnly : Action → Bool
  | registerIdentity .. | deposit .. | depositWithFee .. | reclaimAmmReserves .. => true
  | _ => false

/-- What the bridge's records must allow: no deposit twice, no identity twice, no reclaim before
the exchange is disabled and no swap after it. -/
def bridgeAllows (es : ExtendedState) : Action → Bool
  | .deposit _ _ _ depositId | .depositWithFee _ _ _ _ _ _ depositId _ =>
    !es.bridge.consumed.contains depositId
  | .registerIdentity actor _ => (es.registry[actor]?).isNone
  | .reclaimAmmReserves _ _ reserveActor poolActor =>
    reserveActor == ammReserveActor && poolActor == gasPoolActor && es.bridge.ammDisabled
  | .reserveSwap .. => !es.bridge.ammDisabled
  | _ => true

/-- The conditions on every action, and those of the bridge. -/
structure BridgeAdmissibleWith : Prop extends AdmissibleWith verify P deploymentId es st where
  bridge : bridgeAllows es st.action = true
  bridgeOnly : st.action.isBridgeOnly = true → st.signer = bridgeActor

instance : Decidable (BridgeAdmissibleWith verify P deploymentId es st) :=
  decidable_of_iff
    (AdmissibleWith verify P deploymentId es st ∧ bridgeAllows es st.action = true ∧
      (st.action.isBridgeOnly = true → st.signer = bridgeActor))
    ⟨fun h => ⟨h.1, h.2.1, h.2.2⟩, fun h => ⟨h.toAdmissibleWith, h.bridge, h.bridgeOnly⟩⟩

end Admissibility

section Application

variable (es : ExtendedState) (st : SignedAction)

/-- The effect on balances, nonces, keys and policies. -/
def applyAdmissible : ExtendedState :=
  let es' := { es with base := stepImpl es.base (st.action.toTransition st.signer) }
  let es'' := advanceNonce es' st.signer
  { es'' with
    registry := applyActionToRegistry es''.registry st.action
    localPolicies := applyActionToLocalPolicies es''.localPolicies st.signer st.action }

/-- The effect on the bridge as well. -/
def applyBridgeAdmissible (l2LogIndex : ℕ) : ExtendedState :=
  { applyAdmissible es st with
    bridge := applyActionToBridgeState es.bridge st.action l2LogIndex }

end Application

section BudgetGates

variable (a : Action) (signer : ActorId) (es : ExtendedState) (refundRate : ResourceId → ℕ)

/-- The most that one action may add to a budget. -/
def maxTopUpBudgetPerAction : ℕ := 1000000

/-- Whoever tops up a budget pays for it, to the gas pool. -/
def PaysForTopUp (gasResource : ResourceId) (gasAmount : Amount) (budgetIncrement : ℕ)
    (poolActor : ActorId) : Prop :=
  signer ≠ bridgeActor ∧ signer ≠ poolActor ∧ poolActor = gasPoolActor ∧
    (gasResource = 0 ∨ gasResource = 1) ∧ budgetIncrement ≤ maxTopUpBudgetPerAction ∧
    0 < gasAmount ∧ gasAmount ≤ getBalance es.base gasResource signer

instance (gasResource : ResourceId) (gasAmount : Amount) (budgetIncrement : ℕ)
    (poolActor : ActorId) :
    Decidable (PaysForTopUp signer es gasResource gasAmount budgetIncrement poolActor) :=
  inferInstanceAs (Decidable (_ ∧ _))

def topUpActionBudgetGasCheck : Bool :=
  match a with
  | .topUpActionBudget gasResource gasAmount budgetIncrement poolActor =>
    decide (PaysForTopUp signer es gasResource gasAmount budgetIncrement poolActor)
  | _ => true

def depositWithFeeSignerCheck : Bool :=
  match a with
  | .depositWithFee .. => decide (signer = bridgeActor)
  | _ => true

/-- The recipient has named the signer in a consent to top-ups. -/
def delegatedTopUpConsent (recipient : ActorId) : Bool :=
  (es.localPolicies.lookup recipient).clauses.any (fun c =>
    match c with
    | .allowTopUpFrom delegates => decide (signer ∈ delegates)
    | _ => false)

def topUpActionBudgetForGate : Bool :=
  match a with
  | .topUpActionBudgetFor recipient gasResource gasAmount budgetIncrement poolActor =>
    decide (PaysForTopUp signer es gasResource gasAmount budgetIncrement poolActor ∧
      recipient ≠ signer) && delegatedTopUpConsent signer es recipient
  | _ => true

/-- A topped-up budget is worth no more at the refund rate than was paid for it. -/
def topUpRoundTripCheck : Bool :=
  match a with
  | .topUpActionBudget gasResource gasAmount budgetIncrement _
  | .topUpActionBudgetFor _ gasResource gasAmount budgetIncrement _ =>
    decide (budgetIncrement * refundRate gasResource ≤ gasAmount)
  | _ => true

/-- What an actor can be refunded: nothing of the free tier and of the price of the action. -/
def refundableBudget (ebs : EpochBudgetState) (actor : ActorId) (now freeTier actionCost : ℕ) : ℕ :=
  ebs.currentBudget actor now freeTier - (actionCost + freeTier)

def claimBudgetRefundGate : Bool :=
  match a with
  | .claimBudgetRefund gasResource budgetUnits weiPerBudgetUnit poolActor =>
    match es.budgetPolicy with
    | .bounded freeTier actionCost currentEpoch =>
      decide (signer ≠ bridgeActor ∧ signer ≠ poolActor ∧ poolActor = gasPoolActor ∧
        (gasResource = 0 ∨ gasResource = 1) ∧ weiPerBudgetUnit = refundRate gasResource ∧
        1 ≤ weiPerBudgetUnit ∧ 1 ≤ budgetUnits ∧
        budgetUnits ≤ refundableBudget es.epochBudgets signer currentEpoch freeTier actionCost ∧
        budgetUnits * weiPerBudgetUnit ≤ getBalance es.base gasResource poolActor)
  | _ => true

end BudgetGates

/-- Apply an admissible action, unless the budget gate refuses it. -/
def applyBridgeAdmissibleWithBudget (es : ExtendedState) (st : SignedAction) (l2LogIndex : ℕ)
    (refundRate : ResourceId → ℕ) : Option ExtendedState :=
  match es.budgetPolicy with
  | .bounded freeTier actionCost currentEpoch =>
    if ¬ topUpActionBudgetGasCheck st.action st.signer es then none
    else if ¬ depositWithFeeSignerCheck st.action st.signer then none
    else if ¬ topUpActionBudgetForGate st.action st.signer es then none
    else if ¬ topUpRoundTripCheck st.action refundRate then none
    else if ¬ claimBudgetRefundGate st.action st.signer es refundRate then none
    else
      let grant := budgetGrant st.signer st.action freeTier currentEpoch
      if st.signer = bridgeActor then
        some { applyBridgeAdmissible es st l2LogIndex with epochBudgets := grant es.epochBudgets }
      else
        match es.epochBudgets.consume st.signer currentEpoch freeTier
            (actionCost + refundConsumeExtra st.action) with
        | none => none
        | some ebs => some { applyBridgeAdmissible es st l2LogIndex with epochBudgets := grant ebs }

end Knomosis.Kernel
