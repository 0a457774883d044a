import Knomosis.Kernel.Action

/-!
# Action budgets

Every actor but the bridge pays for an action out of a budget.  A budget that was
last seen in an earlier epoch is first raised to the free tier; charging and
topping up both look at the budget only after that.
-/

namespace Knomosis.Kernel

open Std (TreeMap)
open Lib Smt

structure ActorBudget where
  lastSeenEpoch : ℕ
  budgetBalance : ℕ
deriving DecidableEq

namespace ActorBudget

/-- The budget of an actor who was never seen. -/
def empty : ActorBudget where
  lastSeenEpoch := 0
  budgetBalance := 0

variable (b : ActorBudget) (now freeTier : ℕ)

/-- The budget as the current epoch sees it. -/
def normalise : ActorBudget :=
  if b.lastSeenEpoch < now then ⟨now, max b.budgetBalance freeTier⟩ else b

/-- Pay for an action, if the budget allows it. -/
def consume (cost : ℕ) : Option ActorBudget :=
  let bn := b.normalise now freeTier
  if cost ≤ bn.budgetBalance then some { bn with budgetBalance := bn.budgetBalance - cost }
  else none

/-- Raise the budget.  Topping up by nothing still moves it to the current epoch. -/
def topUp (amount : ℕ) : ActorBudget :=
  let bn := b.normalise now freeTier
  { bn with budgetBalance := bn.budgetBalance + amount }

end ActorBudget

abbrev EpochBudgetState := TreeMap ActorId ActorBudget compare

namespace EpochBudgetState

variable (ebs : EpochBudgetState) (a : ActorId) (now freeTier : ℕ)

/-- An actor's budget; actors who were never seen have the empty one. -/
def budgetOf : ActorBudget := ebs[a]?.getD ActorBudget.empty

def currentBudget : ℕ := ((budgetOf ebs a).normalise now freeTier).budgetBalance

def consume (cost : ℕ) : Option EpochBudgetState :=
  ((budgetOf ebs a).consume now freeTier cost).map (fun b => ebs.insert a b)

def topUp (amount : ℕ) : EpochBudgetState :=
  ebs.insert a ((budgetOf ebs a).topUp now freeTier amount)

variable (a' : ActorId) (b : ActorBudget)

theorem budgetOf_insert : budgetOf (ebs.insert a b) a' = if a' = a then b else budgetOf ebs a' := by
  rcases eq_or_ne a a' with rfl | h
  · simp [budgetOf]
  · simp [budgetOf, TreeMap.getElem?_insert, h, h.symm]

end EpochBudgetState

/-- The free tier, the price of an action and the number of the current epoch. -/
inductive BudgetPolicy where
  | bounded (freeTier actionCost currentEpoch : ℕ)
deriving DecidableEq

namespace BudgetPolicy

/-- A policy under which no action is free. -/
def mkBounded (freeTier actionCost currentEpoch : ℕ) : BudgetPolicy :=
  bounded freeTier (max actionCost 1) currentEpoch

/-- The next epoch starts with every log index that is a multiple of the epoch length. -/
def advanceEpoch (epochLength logIndex : ℕ) : BudgetPolicy → BudgetPolicy
  | bounded freeTier actionCost currentEpoch =>
    if epochLength ≠ 0 ∧ logIndex ≠ 0 ∧ logIndex % epochLength = 0 then
      bounded freeTier actionCost (currentEpoch + 1)
    else
      bounded freeTier actionCost currentEpoch

def encode : BudgetPolicy → Bytes
  | bounded freeTier actionCost currentEpoch =>
    encodeNat 0 ++ encodeNat freeTier ++ encodeNat actionCost ++ encodeNat currentEpoch

/-- Read a policy back.  A policy under which actions are free is refused. -/
def decode (s : Bytes) : Except DecodeError (BudgetPolicy × Bytes) := do
  let (constructor, s₁) ← decodeNat s
  if constructor ≠ 0 then
    .error (.nonCanonical "budgetPolicy tag must be 0")
  else
    let (freeTier, s₂) ← decodeNat s₁
    let (actionCost, s₃) ← decodeNat s₂
    if actionCost = 0 then
      .error (.nonCanonical "budgetPolicy actionCost must be >= 1")
    else
      let (currentEpoch, s₄) ← decodeNat s₃
      .ok (mkBounded freeTier actionCost currentEpoch, s₄)

/-- Only a policy that charges for actions is read back. -/
theorem exactly_decode {s : Bytes} {p : BudgetPolicy} :
    exactly (decode s) = some p ↔
      ∃ freeTier actionCost currentEpoch,
        freeTier < 2 ^ 64 ∧ actionCost < 2 ^ 64 ∧ currentEpoch < 2 ^ 64 ∧ actionCost ≠ 0 ∧
        p = bounded freeTier actionCost currentEpoch ∧ s = encode p := by
  rw [exactly_eq_some]
  simp only [decode, bind_eq_ok, guard_eq_ok, decodeNat_eq_ok, Prod.exists, not_not,
    Except.ok.injEq, Prod.mk.injEq]
  constructor
  · rintro ⟨_, _, ⟨-, rfl⟩, rfl, freeTier, _, ⟨hf, rfl⟩, actionCost, _, ⟨ha, rfl⟩, hcost,
      currentEpoch, _, ⟨hc, rfl⟩, rfl, rfl⟩
    have hmax : max actionCost 1 = actionCost := by omega
    exact ⟨freeTier, actionCost, currentEpoch, hf, ha, hc, hcost, by rw [mkBounded, hmax],
      by simp [mkBounded, hmax, encode]⟩
  · rintro ⟨freeTier, actionCost, currentEpoch, hf, ha, hc, hcost, rfl, rfl⟩
    have hmax : max actionCost 1 = actionCost := by omega
    exact ⟨0, _, ⟨by norm_num, by simp [encode]; rfl⟩, rfl, freeTier, _, ⟨hf, rfl⟩, actionCost,
      _, ⟨ha, rfl⟩, hcost, currentEpoch, [], ⟨hc, by simp⟩, by rw [mkBounded, hmax], rfl⟩

end BudgetPolicy

namespace ActorBudget

def encode (b : ActorBudget) : Bytes := encodeNat b.lastSeenEpoch ++ encodeNat b.budgetBalance

def decode (s : Bytes) : Except DecodeError (ActorBudget × Bytes) := do
  let (lastSeenEpoch, s₁) ← decodeNat s
  let (budgetBalance, s₂) ← decodeNat s₁
  .ok (⟨lastSeenEpoch, budgetBalance⟩, s₂)

theorem decode_eq_ok {s rest : Bytes} {b : ActorBudget} :
    decode s = .ok (b, rest) ↔
      b.lastSeenEpoch < 2 ^ 64 ∧ b.budgetBalance < 2 ^ 64 ∧ s = encode b ++ rest := by
  simp only [decode, bind_eq_ok, decodeNat_eq_ok, Prod.exists, Except.ok.injEq, Prod.mk.injEq]
  constructor
  · rintro ⟨epoch, _, ⟨he, rfl⟩, balance, _, ⟨hb, rfl⟩, rfl, rfl⟩
    exact ⟨he, hb, by simp [encode]⟩
  · rintro ⟨he, hb, rfl⟩
    exact ⟨_, _, ⟨he, by rw [encode, List.append_assoc]⟩, _, rest, ⟨hb, rfl⟩, rfl, rfl⟩

theorem exactly_decode {s : Bytes} {b : ActorBudget} :
    exactly (decode s) = some b ↔
      b.lastSeenEpoch < 2 ^ 64 ∧ b.budgetBalance < 2 ^ 64 ∧ s = encode b := by
  rw [exactly_eq_some, decode_eq_ok, List.append_nil]

end ActorBudget

end Knomosis.Kernel
