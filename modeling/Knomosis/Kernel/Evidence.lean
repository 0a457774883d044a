import Knomosis.Kernel.ExtendedState

/-!
# The kernel's replay for disputes

A dispute about a log entry is decided against the state before the entry.  That
state is rebuilt by a replay that asks nothing about admissibility: each entry
takes its kernel step and counts one nonce of its signer, whatever nonce the
entry itself carries.
-/

namespace Knomosis.Kernel

open Std Smt

/-- An entry of the transition log. -/
structure LogEntry where
  prevHash : Bytes
  signedAction : SignedAction
  postStateHash : Bytes
deriving DecidableEq

/-- The effect of one entry, without any check. -/
def kernelOnlyApply (es : ExtendedState) (entry : LogEntry) : ExtendedState :=
  let action := entry.signedAction.action
  let signer := entry.signedAction.signer
  let es' := { es with base := stepImpl es.base (action.toTransition signer) }
  let es'' := advanceNonce es' signer
  match action with
  | .replaceKey actor newKey => { es'' with registry := es''.registry.insert actor newKey }
  | .registerIdentity actor pk => { es'' with registry := es''.registry.insert actor pk }
  | .declareLocalPolicy policy =>
    { es'' with localPolicies := es''.localPolicies.insert signer policy }
  | .revokeLocalPolicy => { es'' with localPolicies := es''.localPolicies.erase signer }
  | _ => es''

def kernelOnlyReplay (genesis : ExtendedState) (entries : List LogEntry) : ExtendedState :=
  entries.foldl kernelOnlyApply genesis

/-- The state before entry `idx`. -/
def replayPrefix (genesis : ExtendedState) (log : List LogEntry) (idx : LogIndex) :
    Option ExtendedState :=
  if log.length < idx then none else some (kernelOnlyReplay genesis (log.take idx))

def checkPreconditionFalse (genesis : ExtendedState) (log : List LogEntry) (idx : LogIndex) :
    EvidenceVerdict :=
  match log[idx]? with
  | none => .inconclusive
  | some entry =>
    match replayPrefix genesis log idx with
    | none => .inconclusive
    | some preState =>
      if entry.signedAction.action.compileTransition.pre preState.base then .rejected else .upheld

def checkNonceMismatch (genesis : ExtendedState) (log : List LogEntry) (idx : LogIndex) :
    EvidenceVerdict :=
  match log[idx]? with
  | none => .inconclusive
  | some entry =>
    match replayPrefix genesis log idx with
    | none => .inconclusive
    | some preState =>
      if entry.signedAction.nonce = expectsNonce preState entry.signedAction.signer then
        .rejected
      else .upheld

section Nonces

variable {genesis : ExtendedState}

theorem kernelOnlyApply_nonces (es : ExtendedState) (entry : LogEntry) :
    (kernelOnlyApply es entry).nonces = (advanceNonce es entry.signedAction.signer).nonces := by
  rw [kernelOnlyApply]
  cases entry.signedAction.action <;> rfl

def signedBy (a : ActorId) (entry : LogEntry) : Bool := entry.signedAction.signer == a

theorem expectsNonce_kernelOnlyApply (es : ExtendedState) (entry : LogEntry) (a : ActorId) :
    expectsNonce (kernelOnlyApply es entry) a =
      expectsNonce es a + if signedBy a entry then 1 else 0 := by
  rw [expectsNonce, kernelOnlyApply_nonces, advanceNonce, TreeMap.getElem?_insert, signedBy]
  by_cases ha : entry.signedAction.signer = a
  · simp [ha, expectsNonce]
  · simp [ha, expectsNonce]

theorem expectsNonce_kernelOnlyReplay
    (genesis : ExtendedState) (entries : List LogEntry) (a : ActorId) :
    expectsNonce (kernelOnlyReplay genesis entries) a =
      expectsNonce genesis a + entries.countP (signedBy a) := by
  rw [kernelOnlyReplay]
  induction entries generalizing genesis with
  | nil => rfl
  | cons _ entries ih =>
    rw [List.foldl_cons, ih, expectsNonce_kernelOnlyApply, List.countP_cons, Nat.add_assoc,
      Nat.add_comm (List.countP _ entries)]

theorem checkNonceMismatch_eq (hgenesis : ∀ a, expectsNonce genesis a = 0)
    (log : List LogEntry) (idx : LogIndex) :
    checkNonceMismatch genesis log idx =
      match log[idx]? with
      | none => .inconclusive
      | some entry =>
        if entry.signedAction.nonce =
            (log.take idx).countP (signedBy entry.signedAction.signer) then .rejected
        else .upheld := by
  rw [checkNonceMismatch]
  cases hentry : log[idx]? with
  | none => rfl
  | some =>
    have hidx : ¬ log.length < idx := by
      obtain ⟨hlt, -⟩ := List.getElem?_eq_some_iff.mp hentry
      omega
    rw [replayPrefix, if_neg hidx]
    change (if _ = expectsNonce (kernelOnlyReplay genesis _) _ then _ else _) = _
    rw [expectsNonce_kernelOnlyReplay, hgenesis, Nat.zero_add]

end Nonces

end Knomosis.Kernel
