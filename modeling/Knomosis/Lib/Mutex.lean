import Mathlib.Logic.Basic
import Mathlib.Data.Option.Basic

/-!
# Locks

A lock records who owns it, and the program counter of a thread says whether the
thread is inside a critical section.  The two agree in every state if each step
changes them together, for one thread at a time.
-/

namespace Knomosis.Lib

universe u

section Mutex

variable {O : Type u}

/-- The lock is owned by the one who is inside, if anyone is. -/
def Exclusive (lock : Option O) (inside : O → Prop) : Prop := ∀ o, lock = some o ↔ inside o

/-- A step of `o`: it takes the lock on entering, gives it back on leaving, and otherwise leaves
the lock alone and stays where it is. -/
inductive LockStep (o : O) (lock lock' : Option O) (before after : Prop) : Prop
  | keep (hlock : lock' = lock) (hsame : after ↔ before)
  | take (hfree : lock = none) (hlock : lock' = some o) (hafter : after)
  | release (hbefore : before) (hlock : lock' = none) (hafter : ¬ after)

namespace Exclusive

variable {lock lock' : Option O} {inside inside' : O → Prop}

theorem unique (hex : Exclusive lock inside) {a b : O} (ha : inside a) (hb : inside b) : a = b := by
  have hlock := (hex a).mpr ha
  rw [(hex b).mpr hb] at hlock
  exact (Option.some.inj hlock).symm

theorem step (hex : Exclusive lock inside) {o : O}
    (hstep : LockStep o lock lock' (inside o) (inside' o))
    (hothers : ∀ o', o' ≠ o → (inside' o' ↔ inside o')) : Exclusive lock' inside' := by
  intro p
  by_cases hp : p = o
  · subst hp
    cases hstep with
    | keep hlock hsame =>
      rw [hlock, hsame]
      exact hex p
    | take _ hlock hafter | release _ hlock hafter => simp [hlock, hafter]
  · rw [hothers p hp]
    cases hstep with
    | keep hlock =>
      rw [hlock]
      exact hex p
    | take hfree hlock =>
      -- no one was inside, and `p` has not moved
      rw [hlock, ← hex p, hfree]
      simp [Ne.symm hp]
    | release hbefore hlock =>
      have hout : ¬ inside p := fun hin => hp (hex.unique hin hbefore)
      simp [hlock, hout]

end Exclusive

end Mutex

end Knomosis.Lib
