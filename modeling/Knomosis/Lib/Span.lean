import Mathlib.Tactic

/-!
# Numbered batches

A sequence of batches, one for each number.  `batches f a b` are the batches from
the number `a` up to `b`, and `span f a b` is what is in them, in order.
-/

namespace Knomosis.Lib

open List Nat

universe u

section Span

variable {α : Type u} {f : ℕ → List α} {a b c : ℕ}

def batches (f : ℕ → List α) (a b : ℕ) : List (List α) := (List.range' a (b - a)).map f

def span (f : ℕ → List α) (a b : ℕ) : List α := (batches f a b).flatten

@[simp] theorem batches_self : batches f a a = [] := by simp [batches]

theorem batches_of_le (h : b ≤ a) : batches f a b = [] := by simp [batches, Nat.sub_eq_zero_of_le h]

theorem batches_cons (h : a < b) : batches f a b = f a :: batches f (a + 1) b := by
  have hlen : b - a = (b - (a + 1)) + 1 := by omega
  rw [batches, hlen, List.range'_succ, map_cons, batches]

theorem batches_snoc (h : a ≤ b) : batches f a (b + 1) = batches f a b ++ [f b] := by
  have hlen : b + 1 - a = (b - a) + 1 := by omega
  have hlast : a + 1 * (b - a) = b := by omega
  rw [batches, hlen, List.range'_concat, hlast, map_append, batches]
  rfl

theorem batches_eq_cons {x : List α} {rest : List (List α)} (h : batches f a b = x :: rest) :
    a < b ∧ x = f a ∧ rest = batches f (a + 1) b := by
  rcases lt_or_ge a b with hlt | hge
  · rw [batches_cons hlt] at h
    obtain ⟨hx, hrest⟩ := List.cons.inj h
    exact ⟨hlt, hx.symm, hrest.symm⟩
  · rw [batches_of_le hge] at h
    cases h

@[simp] theorem span_self : span f a a = [] := by simp [span]

theorem span_of_le (h : b ≤ a) : span f a b = [] := by rw [span, batches_of_le h, flatten_nil]

theorem span_cons (h : a < b) : span f a b = f a ++ span f (a + 1) b := by
  rw [span, batches_cons h, flatten_cons, span]

theorem span_snoc (h : a ≤ b) : span f a (b + 1) = span f a b ++ f b := by
  rw [span, batches_snoc h, flatten_append, flatten_singleton, span]

theorem mem_span {x : α} : x ∈ span f a b ↔ ∃ k, a ≤ k ∧ k < b ∧ x ∈ f k := by
  simp only [span, batches, mem_flatten, mem_map, mem_range'_1]
  constructor
  · rintro ⟨_, ⟨k, hk, rfl⟩, hx⟩
    exact ⟨k, hk.1, by omega, hx⟩
  · rintro ⟨k, hak, hkb, hx⟩
    exact ⟨f k, ⟨k, ⟨hak, by omega⟩, rfl⟩, hx⟩

theorem span_append (hab : a ≤ b) (hbc : b ≤ c) : span f a c = span f a b ++ span f b c := by
  induction c, hbc using le_induction with
  | base => simp
  | succ c hbc ih => rw [span_snoc (hab.trans hbc), span_snoc hbc, ih, append_assoc]

theorem batches_eq_nil (h : batches f a b = []) : b ≤ a := by
  by_contra hlt
  rw [batches_cons (Nat.lt_of_not_le hlt)] at h
  cases h

theorem mem_of_span_eq_concat {l : List α} {x : α} (hlt : a < b) (hne : f (b - 1) ≠ [])
    (hspan : span f a b = l ++ [x]) : x ∈ f (b - 1) := by
  obtain ⟨b, rfl⟩ : ∃ c, b = c + 1 := ⟨b - 1, by omega⟩
  rw [Nat.add_sub_cancel] at hne ⊢
  rw [span_snoc (Nat.le_of_lt_succ hlt)] at hspan
  have hlast := congrArg List.getLast? hspan
  rw [List.getLast?_append_of_ne_nil _ hne, List.getLast?_append_of_ne_nil _ (by simp)] at hlast
  exact mem_of_mem_getLast? hlast

theorem pairwise_span {key : α → ℕ} (hkey : ∀ k, ∀ x ∈ f k, key x = k) :
    (span f a b).Pairwise fun x y => key x ≤ key y := by
  rcases le_total a b with hab | hba
  · induction b, hab using le_induction with
    | base => simp
    | succ b hab ih =>
      rw [span_snoc hab, pairwise_append]
      refine ⟨ih, ?_, ?_⟩
      · rw [pairwise_iff_forall_sublist]
        intro x y hsub
        have hx := hkey b x (hsub.subset mem_cons_self)
        have hy := hkey b y (hsub.subset (mem_cons_of_mem _ mem_cons_self))
        rw [hx, hy]
      · intro x hx y hy
        obtain ⟨k, -, hk, hx⟩ := mem_span.mp hx
        rw [hkey k x hx, hkey b y hy]
        exact hk.le
  · rw [span_of_le hba]
    exact List.Pairwise.nil

theorem filter_span {key : α → ℕ} (hkey : ∀ k, ∀ x ∈ f k, key x = k) (hac : a ≤ c + 1) :
    (span f a b).filter (fun x => c < key x) = span f (c + 1) b := by
  rcases le_total (c + 1) b with hcb | hbc
  · rw [span_append hac hcb, filter_append]
    have hbelow : (span f a (c + 1)).filter (fun x => c < key x) = [] := by
      rw [filter_eq_nil_iff]
      intro x hx
      obtain ⟨k, -, hk, hx⟩ := mem_span.mp hx
      simpa [hkey k x hx] using le_of_lt_succ hk
    have habove : (span f (c + 1) b).filter (fun x => c < key x) = span f (c + 1) b := by
      rw [filter_eq_self]
      intro x hx
      obtain ⟨k, hk, -, hx⟩ := mem_span.mp hx
      simpa [hkey k x hx] using hk
    rw [hbelow, habove, nil_append]
  · rw [span_of_le hbc, filter_eq_nil_iff]
    intro x hx
    obtain ⟨k, -, hk, hx⟩ := mem_span.mp hx
    simpa [hkey k x hx] using le_of_lt_succ (hk.trans_le hbc)

end Span

end Knomosis.Lib
