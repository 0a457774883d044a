import Knomosis.Kernel.ExtendedState

/-!
# Charges and grants

A charge and a grant move a budget to the current epoch before they change it.  Seen
from that epoch they are a subtraction and an addition, and nobody else's budget
changes.  An epoch that begins raises every budget to the free tier, whether the
ledger has moved it there or not.
-/

namespace Knomosis.Kernel

open EpochBudgetState

open Std (TreeMap)

namespace ActorBudget

variable {b : ActorBudget} {now freeTier : ℕ}

theorem normalise_of_le (h : now ≤ b.lastSeenEpoch) : b.normalise now freeTier = b :=
  if_neg (Nat.not_lt.mpr h)

theorem le_lastSeenEpoch_normalise : now ≤ (b.normalise now freeTier).lastSeenEpoch := by
  unfold normalise
  split
  · exact le_rfl
  next h => exact Nat.not_lt.mp h

theorem lastSeenEpoch_normalise_le (h : b.lastSeenEpoch ≤ now) :
    (b.normalise now freeTier).lastSeenEpoch ≤ now := by
  unfold normalise
  split
  · exact le_rfl
  · exact h

/-- The next epoch raises a budget to the free tier. -/
theorem budgetBalance_normalise_succ (h : b.lastSeenEpoch ≤ now) :
    (b.normalise (now + 1) freeTier).budgetBalance =
      max (b.normalise now freeTier).budgetBalance freeTier := by
  unfold normalise
  rw [if_pos (Nat.lt_succ_of_le h)]
  split
  · exact (max_eq_left (le_max_right _ _)).symm
  · rfl

end ActorBudget

namespace EpochBudgetState

variable {ebs ebs' : EpochBudgetState} {now freeTier : ℕ}

/-- No budget was moved beyond this epoch. -/
def SeenBy (ebs : EpochBudgetState) (now : ℕ) : Prop := ∀ a, (budgetOf ebs a).lastSeenEpoch ≤ now

theorem budgetOf_empty (a : ActorId) : budgetOf ∅ a = ActorBudget.empty := by simp [budgetOf]

theorem seenBy_empty (now : ℕ) : SeenBy ∅ now := by
  intro a
  exact Nat.zero_le now

theorem SeenBy.mono {now' : ℕ} (h : SeenBy ebs now) (hle : now ≤ now') : SeenBy ebs now' :=
  fun a => (h a).trans hle

/-- The ledger with an actor's budget moved to the current epoch and set to a balance. -/
def settle (ebs : EpochBudgetState) (a : ActorId) (now freeTier balance : ℕ) : EpochBudgetState :=
  ebs.insert a ⟨((budgetOf ebs a).normalise now freeTier).lastSeenEpoch, balance⟩

theorem SeenBy.settle (h : SeenBy ebs now) (a : ActorId) (balance : ℕ) :
    SeenBy (settle ebs a now freeTier balance) now := by
  intro a'
  unfold EpochBudgetState.settle
  rw [budgetOf_insert]
  split
  · exact ActorBudget.lastSeenEpoch_normalise_le (h a)
  · exact h a'

theorem currentBudget_settle (a a' : ActorId) (balance : ℕ) :
    currentBudget (settle ebs a now freeTier balance) a' now freeTier =
      if a' = a then balance else currentBudget ebs a' now freeTier := by
  unfold currentBudget settle
  rw [budgetOf_insert]
  split
  · rw [ActorBudget.normalise_of_le]
    exact ActorBudget.le_lastSeenEpoch_normalise
  · rfl

theorem topUp_eq (a : ActorId) (amount : ℕ) :
    topUp ebs a now freeTier amount =
      settle ebs a now freeTier (currentBudget ebs a now freeTier + amount) :=
  rfl

variable {a : ActorId} {cost : ℕ}

theorem consume_eq_some (h : consume ebs a now freeTier cost = some ebs') :
    cost ≤ currentBudget ebs a now freeTier ∧
      ebs' = settle ebs a now freeTier (currentBudget ebs a now freeTier - cost) := by
  obtain ⟨b, hb, rfl⟩ := Option.map_eq_some_iff.mp h
  obtain ⟨hcost, hsettled⟩ := Option.ite_none_right_eq_some.mp hb
  cases hsettled
  exact ⟨hcost, rfl⟩

theorem currentBudget_topUp (a a' : ActorId) (amount : ℕ) :
    currentBudget (topUp ebs a now freeTier amount) a' now freeTier =
      currentBudget ebs a' now freeTier + if a' = a then amount else 0 := by
  rw [topUp_eq, currentBudget_settle]
  split
  next heq => rw [heq]
  · rfl

theorem currentBudget_consume (h : consume ebs a now freeTier cost = some ebs') (a' : ActorId) :
    currentBudget ebs' a' now freeTier + (if a' = a then cost else 0) =
      currentBudget ebs a' now freeTier := by
  obtain ⟨hcost, rfl⟩ := consume_eq_some h
  rw [currentBudget_settle]
  split
  next heq =>
    rw [heq]
    exact Nat.sub_add_cancel hcost
  · rfl

theorem SeenBy.consume (hseen : SeenBy ebs now) (h : consume ebs a now freeTier cost = some ebs') :
    SeenBy ebs' now := by
  obtain ⟨-, rfl⟩ := consume_eq_some h
  exact hseen.settle a _

theorem currentBudget_succ (h : SeenBy ebs now) (a : ActorId) :
    currentBudget ebs a (now + 1) freeTier = max (currentBudget ebs a now freeTier) freeTier :=
  ActorBudget.budgetBalance_normalise_succ (h a)

end EpochBudgetState

section Grants

variable {ebs : EpochBudgetState} {now freeTier : ℕ}

/-- What an action of `signer` grants an actor. -/
def granted (signer : ActorId) (action : Action) (a : ActorId) : ℕ :=
  match grantOf signer action with
  | none => 0
  | some (recipient, grant) => if a = recipient then grant else 0

theorem currentBudget_budgetGrant (signer : ActorId) (action : Action) (a : ActorId) :
    currentBudget (budgetGrant signer action freeTier now ebs) a now freeTier =
      currentBudget ebs a now freeTier + granted signer action a := by
  unfold budgetGrant granted
  cases grantOf signer action with
  | none => rfl
  | some => exact currentBudget_topUp _ _ _

theorem seenBy_budgetGrant (h : SeenBy ebs now)
    (signer : ActorId) (action : Action) :
    SeenBy (budgetGrant signer action freeTier now ebs) now := by
  unfold budgetGrant
  cases grantOf signer action with
  | none => exact h
  | some => exact h.settle _ _

end Grants

end Knomosis.Kernel
