import Mathlib.Tactic

/-!
# Balances and transitions

The kernel keeps one map of balances for each resource.  A law is a precondition
and an effect on the balances; a law whose precondition fails leaves the balances
as they are.

Every law changes balances by crediting and debiting one actor at a time, and a
credit reads the balance that the steps before it have left.
-/

namespace Knomosis.Kernel

open Std (TreeMap)

abbrev ActorId := UInt64

abbrev ResourceId := UInt64

abbrev Amount := ℕ

abbrev BalanceMap := TreeMap ActorId Amount compare

structure State where
  balances : TreeMap ResourceId BalanceMap compare

def getBalance (s : State) (r : ResourceId) (a : ActorId) : Amount :=
  (s.balances[r]?).elim 0 (fun bm => bm[a]?.getD 0)

def setBalance (s : State) (r : ResourceId) (a : ActorId) (v : Amount) : State :=
  { balances := s.balances.insert r ((s.balances[r]?.getD ∅).insert a v) }

structure Transition where
  pre : State → Prop
  decPre : DecidablePred pre
  applyImpl : State → State

instance (t : Transition) : DecidablePred t.pre := t.decPre

/-- Apply a law, or nothing where its precondition fails. -/
def stepImpl (s : State) (t : Transition) : State := if t.pre s then t.applyImpl s else s

/-- The bound on every balance: one more than the largest machine word. -/
def maxAmount : ℕ := 256 ^ 32

def credit (s : State) (r : ResourceId) (a : ActorId) (amount : Amount) : State :=
  setBalance s r a (getBalance s r a + amount)

def debit (s : State) (r : ResourceId) (a : ActorId) (amount : Amount) : State :=
  setBalance s r a (getBalance s r a - amount)

/-- The credit keeps the balance below the bound. -/
def AmountBounded (s : State) (r : ResourceId) (a : ActorId) (amount : Amount) : Prop :=
  getBalance s r a + amount < maxAmount

instance (s : State) (r : ResourceId) (a : ActorId) (amount : Amount) :
    Decidable (AmountBounded s r a amount) :=
  inferInstanceAs (Decidable (_ < _))

def totalSupply (s : State) (r : ResourceId) : Amount :=
  (s.balances[r]?).elim 0 (fun bm => bm.foldl (fun acc _ v => acc + v) 0)

def sumOthers (s : State) (r : ResourceId) (excluded : ActorId) : Amount :=
  totalSupply s r - getBalance s r excluded

/-- The holders of a resource other than `excluded`. -/
def bulkRecipients (s : State) (r : ResourceId) (excluded : ActorId) : List (ActorId × Amount) :=
  (s.balances[r]?.getD ∅).toList.filter (fun kv => kv.1 != excluded && kv.2 != 0)

section Balances

variable (s : State) (r r' : ResourceId) (a a' : ActorId) (v : Amount)

theorem getBalance_setBalance :
    getBalance (setBalance s r a v) r' a' =
      if r' = r ∧ a' = a then v else getBalance s r' a' := by
  rcases eq_or_ne r r' with rfl | hr
  · rcases eq_or_ne a a' with rfl | ha
    · simp [getBalance, setBalance]
    · cases hbm : s.balances[r]? with
      | none => simp [getBalance, setBalance, ha, ha.symm, hbm]
      | some => simp [getBalance, setBalance, TreeMap.getElem?_insert, ha, ha.symm, hbm]
  · simp [getBalance, setBalance, TreeMap.getElem?_insert, hr, hr.symm]

theorem getBalance_credit :
    getBalance (credit s r a v) r' a' =
      if r' = r ∧ a' = a then getBalance s r a + v else getBalance s r' a' :=
  getBalance_setBalance s r r' a a' _

theorem getBalance_debit :
    getBalance (debit s r a v) r' a' =
      if r' = r ∧ a' = a then getBalance s r a - v else getBalance s r' a' :=
  getBalance_setBalance s r r' a a' _

end Balances

end Knomosis.Kernel
