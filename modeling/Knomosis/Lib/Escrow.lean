import Mathlib.Algebra.BigOperators.Ring.Finset
import Mathlib.Tactic

/-!
# Escrow ledgers

An escrow holds at most one deposit under each key.  A deposit is only accepted
under a free key; it leaves as a whole and once, back to its owner as a refund or
to somebody else as a forfeit.  `replay` accepts exactly the lists of movements
that keep to these rules, and the accepted lists conserve the amounts.
-/

namespace Knomosis.Lib

open List Option

universe u v

/-- Sums over a table of which one entry was rewritten. -/
theorem sum_update_exchange {ι : Type u} {α : Type v} [DecidableEq ι] {s : Finset ι} {i : ι}
    (hi : i ∈ s) (φ : α → ℕ) (t : ι → α) (a : α) :
    ∑ j ∈ s, φ (Function.update t i a j) + φ (t i) = ∑ j ∈ s, φ (t j) + φ a := by
  have hrest : ∑ j ∈ s.erase i, φ (Function.update t i a j) = ∑ j ∈ s.erase i, φ (t j) :=
    Finset.sum_congr rfl fun j hj => by rw [Function.update_of_ne (Finset.ne_of_mem_erase hj)]
  rw [← Finset.add_sum_erase s _ hi, ← Finset.add_sum_erase s (fun j => φ (t j)) hi, hrest,
    Function.update_self]
  ring

theorem sum_update_add {ι : Type u} [Fintype ι] [DecidableEq ι] (f : ι → ℕ) (i : ι) (n : ℕ) :
    ∑ j, Function.update f i (f i + n) j = ∑ j, f j + n := by
  have hsum := sum_update_exchange (Finset.mem_univ i) (fun x : ℕ => x) f (f i + n)
  omega

theorem sum_update_zero {ι : Type u} [Fintype ι] [DecidableEq ι] (f : ι → ℕ) (i : ι) :
    ∑ j, Function.update f i 0 j + f i = ∑ j, f j := by
  have hsum := sum_update_exchange (Finset.mem_univ i) (fun x : ℕ => x) f 0
  omega

/-- An amount held for its owner. -/
structure Deposit (A : Type v) where
  owner : A
  amount : ℕ
deriving DecidableEq

/-- The deposits by key. -/
abbrev Escrow (ι : Type u) (A : Type v) := ι → Option (Deposit A)

inductive Movement (ι : Type u) (A : Type v) where
  | deposit (key : ι) (owner : A) (amount : ℕ)
  | refund (key : ι) (recipient : A) (amount : ℕ)
  | forfeit (key : ι) (recipient : A) (amount : ℕ)
deriving DecidableEq

namespace Movement

variable {ι : Type u} {A : Type v}

def key : Movement ι A → ι
  | deposit k _ _ => k
  | refund k _ _ => k
  | forfeit k _ _ => k

/-- What the movement brings in. -/
def received : Movement ι A → ℕ
  | deposit _ _ n => n
  | _ => 0

/-- What the movement pays out. -/
def paid : Movement ι A → ℕ
  | deposit _ _ _ => 0
  | refund _ _ n => n
  | forfeit _ _ n => n

/-- The movement deposits under `k`. -/
def opens [DecidableEq ι] (k : ι) : Movement ι A → Bool
  | deposit j _ _ => decide (j = k)
  | _ => false

/-- The movement releases the deposit under `k`. -/
def closes [DecidableEq ι] (k : ι) : Movement ι A → Bool
  | deposit _ _ _ => false
  | refund j _ _ => decide (j = k)
  | forfeit j _ _ => decide (j = k)

end Movement

namespace Escrow

variable {ι : Type u} {A : Type v} [DecidableEq ι] [DecidableEq A]

def empty : Escrow ι A := fun _ => none

/-- One movement, refused where it breaks the rules. -/
def move (L : Escrow ι A) : Movement ι A → Option (Escrow ι A)
  | .deposit k owner n => if L k = none then some (Function.update L k (some ⟨owner, n⟩)) else none
  | .refund k recipient n =>
    if L k = some ⟨recipient, n⟩ then some (Function.update L k none) else none
  | .forfeit k _ n =>
    if (L k).map Deposit.amount = some n then some (Function.update L k none) else none

/-- A list of movements, the oldest first. -/
def replay (L : Escrow ι A) (ms : List (Movement ι A)) : Option (Escrow ι A) := ms.foldlM move L

def held (L : Escrow ι A) (k : ι) : ℕ := (L k).elim 0 Deposit.amount

variable {L L' : Escrow ι A} {m : Movement ι A} {ms : List (Movement ι A)}

theorem replay_append {ms' : List (Movement ι A)} :
    L.replay (ms ++ ms') = (L.replay ms).bind fun L₁ => L₁.replay ms' := by
  simp [replay, foldlM_append, bind]

/-- A movement conserves the amounts over any set of keys that contains its own. -/
theorem move_conserves {s : Finset ι} (hs : m.key ∈ s) (h : L.move m = some L') :
    m.received + ∑ k ∈ s, L.held k = m.paid + ∑ k ∈ s, L'.held k := by
  have hsum : ∀ o : Option (Deposit A),
      ∑ j ∈ s, held (Function.update L m.key o) j + held L m.key =
        ∑ j ∈ s, L.held j + o.elim 0 Deposit.amount :=
    sum_update_exchange hs (fun o : Option (Deposit A) => o.elim 0 Deposit.amount) L
  cases m with
  | deposit k owner n =>
    simp only [move] at h
    split_ifs at h with hfree
    cases h
    have hsplit := hsum (some ⟨owner, n⟩)
    have hn : held L k = 0 := by simp [held, hfree]
    simp only [Movement.key, hn, Option.elim] at hsplit
    simp only [Movement.received, Movement.paid]
    omega
  | refund k _ n =>
    simp only [move] at h
    split_ifs at h with hheld
    cases h
    have hsplit := hsum none
    have hn : held L k = n := by simp [held, hheld]
    simp only [Movement.key, hn, Option.elim] at hsplit
    simp only [Movement.received, Movement.paid]
    omega
  | forfeit k _ n =>
    simp only [move] at h
    split_ifs at h with hheld
    cases h
    obtain ⟨dep, hdep, hamount⟩ := map_eq_some_iff.mp hheld
    have hsplit := hsum none
    have hn : held L k = n := by simp [held, hdep, hamount]
    simp only [Movement.key, hn, Option.elim] at hsplit
    simp only [Movement.received, Movement.paid]
    omega

theorem replay_conserves {s : Finset ι} (hs : ∀ m ∈ ms, m.key ∈ s) (h : L.replay ms = some L') :
    (ms.map Movement.received).sum + ∑ k ∈ s, L.held k =
      (ms.map Movement.paid).sum + ∑ k ∈ s, L'.held k := by
  induction ms generalizing L with
  | nil =>
    obtain rfl : L = L' := by simpa [replay] using h
    simp
  | cons m _ ih =>
    simp only [replay, foldlM_cons, bind_eq_bind, bind_eq_some_iff] at h
    obtain ⟨L₁, hmove, hrest⟩ := h
    have hstep := move_conserves (hs m mem_cons_self) hmove
    have htail := ih (fun m' hm' => hs m' (mem_cons_of_mem _ hm')) hrest
    simp only [map_cons, sum_cons]
    omega

attribute [local simp] Movement.opens Movement.closes

/-- Under one key, a movement opens a closed deposit or closes an open one. -/
theorem move_alternates (k : ι) (h : L.move m = some L') :
    (m.opens k).toNat + (L k).isSome.toNat = (m.closes k).toNat + (L' k).isSome.toNat := by
  have hother : ∀ {j : ι} {o : Option (Deposit A)}, j ≠ k →
      (Function.update L j o k).isSome = (L k).isSome := by
    intro j o hne
    rw [Function.update_of_ne hne.symm]
  cases m with
  | deposit j =>
    simp only [move] at h
    split_ifs at h with hfree
    cases h
    by_cases hjk : j = k
    · subst hjk
      simp [hfree]
    · simp [hjk, hother hjk]
  | refund j =>
    simp only [move] at h
    split_ifs at h with hheld
    cases h
    by_cases hjk : j = k
    · subst hjk
      simp [hheld]
    · simp [hjk, hother hjk]
  | forfeit j =>
    simp only [move] at h
    split_ifs at h with hheld
    cases h
    obtain ⟨dep, hdep, _⟩ := map_eq_some_iff.mp hheld
    by_cases hjk : j = k
    · subst hjk
      simp [hdep]
    · simp [hjk, hother hjk]

/-- Every deposit is released at most once: an accepted list has as many releases
under a key as deposits, the open one apart. -/
theorem replay_alternates (k : ι) (h : L.replay ms = some L') :
    ms.countP (Movement.opens k) + (L k).isSome.toNat =
      ms.countP (Movement.closes k) + (L' k).isSome.toNat := by
  induction ms generalizing L with
  | nil =>
    obtain rfl : L = L' := by simpa [replay] using h
    simp
  | cons _ _ ih =>
    simp only [replay, foldlM_cons, bind_eq_bind, bind_eq_some_iff] at h
    obtain ⟨L₁, hmove, hrest⟩ := h
    have hstep := move_alternates k hmove
    have htail := ih hrest
    have hcount : ∀ b : Bool, (if b = true then 1 else 0) = b.toNat := by
      intro b
      cases b <;> rfl
    rw [countP_cons, countP_cons, hcount, hcount]
    omega

end Escrow

end Knomosis.Lib
