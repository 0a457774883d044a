import Mathlib.Data.Nat.Basic
import Mathlib.Tactic

/-!
# Checked words and chains of guards

Machine words are natural numbers; what depends on the width is said where it
matters.  Checked operations answer `none` where the machine would raise its
arithmetic panic, and `truncate` is the narrowing cast.

A function that refuses calls is a chain of guards in front of its result.  The
last section peels such a chain, one guard at a time, from an accepted call.
-/

namespace Knomosis.Lib

def checkedAdd (w a b : ℕ) : Option ℕ := if a + b < 2 ^ w then some (a + b) else none

def checkedMul (w a b : ℕ) : Option ℕ := if a * b < 2 ^ w then some (a * b) else none

/-- The cast to `w` bits. -/
def truncate (w n : ℕ) : ℕ := n % 2 ^ w

theorem checkedAdd_eq_some {w a b c : ℕ} :
    checkedAdd w a b = some c ↔ a + b < 2 ^ w ∧ c = a + b := by
  unfold checkedAdd
  split_ifs with h
  · simp [h, eq_comm]
  · simp [h]

theorem checkedMul_eq_some {w a b c : ℕ} :
    checkedMul w a b = some c ↔ a * b < 2 ^ w ∧ c = a * b := by
  unfold checkedMul
  split_ifs with h
  · simp [h, eq_comm]
  · simp [h]

theorem truncate_of_lt {w n : ℕ} (h : n < 2 ^ w) : truncate w n = n := Nat.mod_eq_of_lt h

section Guards

universe u v w

variable {ε : Type u} {α : Type v} {p : Prop} [Decidable p] {e : ε} {x : Except ε α} {r : α}

theorem guard_eq_ok : (if p then .error e else x) = .ok r ↔ ¬ p ∧ x = .ok r := by
  split_ifs with h <;> simp [h]

theorem mapError_eq_ok {ε' : Type v} {f : ε → ε'} {a : α} : x.mapError f = .ok a ↔ x = .ok a := by
  cases x with
  | error | ok => simp [Except.mapError]

theorem toOption_eq_some {a : α} : x.toOption = some a ↔ x = .ok a := by
  cases x with
  | error | ok => simp [Except.toOption]

theorem bind_eq_ok {β : Type v} {f : α → Except ε β} {y : β} :
    (x >>= f) = .ok y ↔ ∃ a, x = .ok a ∧ f a = .ok y := by
  cases x with
  | error | ok => simp [bind, Except.bind]

@[simp] theorem ok_bind {α β : Type v} {ε : Type u} (a : α) (f : α → Except ε β) :
    (Except.ok a >>= f) = f a :=
  rfl

/-- Go on with a checked result, or refuse with `e`. -/
def checked {β : Type w} (o : Option β) (e : ε) (f : β → Except ε α) : Except ε α :=
  match o with
  | none => .error e
  | some b => f b

theorem checked_eq_ok {β : Type w} {o : Option β} {f : β → Except ε α} :
    checked o e f = .ok r ↔ ∃ b, o = some b ∧ f b = .ok r := by
  cases o <;> simp [checked]

theorem guard_eq_error {e' : ε} :
    (if p then .error e else x) = .error e' ↔ p ∧ e = e' ∨ ¬ p ∧ x = .error e' := by
  split_ifs with h <;> simp [h]

theorem checked_eq_error {β : Type w} {o : Option β} {f : β → Except ε α} {e' : ε} :
    checked o e f = .error e' ↔ o = none ∧ e = e' ∨ ∃ b, o = some b ∧ f b = .error e' := by
  cases o <;> simp [checked]

variable {β : Type v} {f : α → Except ε β} {xs : List α}

theorem mapM_of_forall₂ {γ : Type v} {g : γ → β} {ts : List γ}
    (h : List.Forall₂ (fun x t => f x = .ok (g t)) xs ts) : xs.mapM f = .ok (ts.map g) := by
  induction h with
  | nil => rfl
  | cons hx _ ih =>
    rw [List.mapM_cons, hx, ih]
    rfl

theorem forall_of_mapM {ys : List β} (h : xs.mapM f = .ok ys) : ∀ x ∈ xs, ∃ y, f x = .ok y := by
  induction xs generalizing ys with
  | nil =>
    intro x hx
    cases hx
  | cons _ _ ih =>
    rw [List.mapM_cons, bind_eq_ok] at h
    obtain ⟨y, hy, h⟩ := h
    obtain ⟨zs, hzs, -⟩ := bind_eq_ok.mp h
    intro z hz
    rcases List.mem_cons.mp hz with rfl | hz
    · exact ⟨y, hy⟩
    · exact ih hzs z hz

end Guards

end Knomosis.Lib
