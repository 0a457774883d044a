import Mathlib.Data.Nat.Bitwise
import Mathlib.Tactic

/-!
# Folding the opened leaves of a binary tree

A leaf is addressed by a natural number read from the root down: bit `d` of its
address says in which half of a subtree of height `d + 1` the leaf lies.  Where
opened leaves lie in one half only, the hash of the other half, a gap, is drawn
from a source of siblings.

A `Skeleton` is the part of the tree above the opened leaves.  Its `fold` is the
recursive one.  `stackFold` instead goes over the leaves from left to right and
keeps a stack of the left halves that still wait for their right half; on the
leaves of a skeleton the two agree.
-/

namespace Knomosis.Lib

open List Nat

universe u v w

/-- The nodes above the opened leaves of a tree of height `d`. -/
inductive Skeleton (N : Type u) : ℕ → Type u
  | leaf (address : ℕ) (node : N) : Skeleton N 0
  | left {d : ℕ} (t : Skeleton N d) : Skeleton N (d + 1)
  | right {d : ℕ} (t : Skeleton N d) : Skeleton N (d + 1)
  | both {d : ℕ} (l r : Skeleton N d) : Skeleton N (d + 1)

/-- How nodes are hashed and where the siblings beside them come from. -/
structure Folding (N : Type u) (V : Type v) (S : Type w) where
  draw : ℕ → S → V × S
  past : Bool → V → N → N
  join : N → N → N

namespace Skeleton

variable {N : Type u} {V : Type v} {S : Type w} {d : ℕ}

/-- The opened leaves, from left to right. -/
def leaves : {d : ℕ} → Skeleton N d → List (ℕ × N)
  | _, .leaf a n => [(a, n)]
  | _, .left t => t.leaves
  | _, .right t => t.leaves
  | _, .both l r => l.leaves ++ r.leaves

/-- The levels of the gaps, in the order in which the fold reaches them. -/
def gaps : {d : ℕ} → Skeleton N d → List ℕ
  | _, .leaf _ _ => []
  | _, .left (d := d) t => t.gaps ++ [d]
  | _, .right (d := d) t => t.gaps ++ [d]
  | _, .both l r => l.gaps ++ r.gaps

/-- The addresses say where the leaves are. -/
def Fits : {d : ℕ} → Skeleton N d → Prop
  | _, .leaf _ _ => True
  | _, .left (d := d) t => t.Fits ∧ ∀ x ∈ t.leaves, x.1.testBit d = false
  | _, .right (d := d) t => t.Fits ∧ ∀ x ∈ t.leaves, x.1.testBit d = true
  | _, .both (d := d) l r => l.Fits ∧ r.Fits ∧
      (∀ x ∈ l.leaves, x.1.testBit d = false) ∧ (∀ x ∈ r.leaves, x.1.testBit d = true) ∧
      ∀ x ∈ l.leaves, ∀ y ∈ r.leaves, x.1 >>> (d + 1) = y.1 >>> (d + 1)

/-- The recursive fold: subtrees before their parent, left before right. -/
def fold (F : Folding N V S) : {d : ℕ} → Skeleton N d → S → N × S
  | _, .leaf _ n, s => (n, s)
  | _, .left (d := d) t, s =>
    let p := t.fold F s
    let g := F.draw d p.2
    (F.past false g.1 p.1, g.2)
  | _, .right (d := d) t, s =>
    let p := t.fold F s
    let g := F.draw d p.2
    (F.past true g.1 p.1, g.2)
  | _, .both l r, s =>
    let p := l.fold F s
    let q := r.fold F p.2
    (F.join p.1 q.1, q.2)

theorem leaves_ne_nil (t : Skeleton N d) : t.leaves ≠ [] := by
  induction t with
  | leaf => simp [leaves]
  | left t ih | right t ih => exact ih
  | both _ _ ihl => simp [leaves, ihl]

theorem gaps_length_le (t : Skeleton N d) : t.gaps.length ≤ d * t.leaves.length := by
  induction t with
  | leaf => simp [gaps]
  | left t | right t =>
    have hpos := length_pos_of_ne_nil t.leaves_ne_nil
    simp only [gaps, leaves, length_append, length_singleton]
    nlinarith
  | both =>
    simp only [gaps, leaves, length_append]
    nlinarith

theorem gaps_lt (t : Skeleton N d) : ∀ g ∈ t.gaps, g < d := by
  induction t with
  | leaf => simp [gaps]
  | left t ih | right t ih =>
    intro g hg
    simp only [gaps, mem_append, mem_singleton] at hg
    rcases hg with hg | rfl
    · exact lt_succ_of_lt (ih g hg)
    · exact lt_succ_self g
  | both l r ihl ihr =>
    intro g hg
    simp only [gaps, mem_append] at hg
    rcases hg with hg | hg
    · exact lt_succ_of_lt (ihl g hg)
    · exact lt_succ_of_lt (ihr g hg)

end Skeleton

section Ascending

variable {N : Type u}

/-- The level at which the paths to two addresses part. -/
def parting (a b : ℕ) : ℕ := (a ^^^ b).log2

variable {a b d : ℕ}

theorem parting_eq (hhigh : a >>> (d + 1) = b >>> (d + 1)) (ha : a.testBit d = false)
    (hb : b.testBit d = true) : parting a b = d := by
  have hbit : (a ^^^ b).testBit d = true := by simp [Nat.testBit_xor, ha, hb]
  have hne : a ^^^ b ≠ 0 := by
    rintro h0
    simp [h0] at hbit
  have hlt : a ^^^ b < 2 ^ (d + 1) := by
    apply Nat.lt_pow_two_of_testBit
    intro i hi
    have hi' := congrArg (Nat.testBit · (i - (d + 1))) hhigh
    simp only [Nat.testBit_shiftRight, Nat.add_sub_cancel' hi] at hi'
    simp [Nat.testBit_xor, hi']
  exact (Nat.log2_eq_iff hne).mpr ⟨Nat.ge_two_pow_of_testBit hbit, hlt⟩

theorem lt_of_halves (hhigh : a >>> (d + 1) = b >>> (d + 1)) (ha : a.testBit d = false)
    (hb : b.testBit d = true) : a < b := by
  refine Nat.lt_of_testBit d ha hb ?_
  intro i hi
  have hi' := congrArg (Nat.testBit · (i - (d + 1))) hhigh
  simpa only [Nat.testBit_shiftRight, Nat.add_sub_cancel' hi] using hi'

theorem shiftRight_eq_of_testBit (hhigh : a >>> (d + 1) = b >>> (d + 1))
    (hbit : a.testBit d = b.testBit d) : a >>> d = b >>> d := by
  apply eq_of_testBit_eq
  intro i
  simp only [testBit_shiftRight]
  cases i with
  | zero => simpa using hbit
  | succ i =>
    have hi := congrArg (Nat.testBit · i) hhigh
    simp only [testBit_shiftRight] at hi
    rwa [show d + (i + 1) = d + 1 + i by omega]

/-- Leaves in strictly ascending order of their addresses. -/
def Ascending (ls : List (ℕ × N)) : Prop := ls.Pairwise (fun x y => x.1 < y.1)

/-- An ascending list within one subtree is its left half followed by its right half. -/
theorem Ascending.halves {ls : List (ℕ × N)} (hasc : Ascending ls)
    (hhigh : ∀ x ∈ ls, ∀ y ∈ ls, x.1 >>> (d + 1) = y.1 >>> (d + 1)) :
    ls.filter (fun x => !x.1.testBit d) ++ ls.filter (fun x => x.1.testBit d) = ls := by
  induction ls with
  | nil => rfl
  | cons x ls ih =>
    have hrest := ih (List.Pairwise.of_cons hasc)
      (fun y hy z hz => hhigh y (mem_cons_of_mem x hy) z (mem_cons_of_mem x hz))
    cases hx : x.1.testBit d with
    | false => simpa [hx] using hrest
    | true =>
      -- Nothing after a leaf of the right half can lie in the left half.
      have hall : ∀ y ∈ ls, y.1.testBit d = true := by
        intro y hy
        by_contra hy'
        have hlt := rel_of_pairwise_cons hasc hy
        have hgt := lt_of_halves (hhigh y (mem_cons_of_mem x hy) x mem_cons_self)
          (by simpa using hy') hx
        omega
      have hlow : ls.filter (fun x => !x.1.testBit d) = [] := by
        rw [filter_eq_nil_iff]
        intro y hy
        simp [hall y hy]
      have hhi : ls.filter (fun x => x.1.testBit d) = ls := filter_eq_self.mpr hall
      simp [hx, hlow, hhi]

/-- Ascending leaves that agree above level `d` are the leaves of a skeleton of height `d`. -/
theorem Ascending.exists_skeleton (d : ℕ) {ls : List (ℕ × N)} (hne : ls ≠ []) (hasc : Ascending ls)
    (hhigh : ∀ x ∈ ls, ∀ y ∈ ls, x.1 >>> d = y.1 >>> d) :
    ∃ t : Skeleton N d, t.leaves = ls ∧ t.Fits := by
  induction d generalizing ls with
  | zero =>
    obtain ⟨x, ls, rfl⟩ := exists_cons_of_ne_nil hne
    cases ls with
    | nil => exact ⟨.leaf x.1 x.2, rfl, trivial⟩
    | cons y =>
      have hlt := rel_of_pairwise_cons hasc (.head _ (a := y))
      have heq := hhigh x (by simp) y (by simp)
      simp only [shiftRight_zero] at heq
      omega
  | succ d ih =>
    have hsplit := hasc.halves hhigh
    have hsame : ∀ (b : Bool) (part : List (ℕ × N)),
        (∀ x ∈ part, x ∈ ls ∧ x.1.testBit d = b) → part ≠ [] → Ascending part →
        ∃ t : Skeleton N d, t.leaves = part ∧ t.Fits := by
      intro b part hpart hne' hasc'
      refine ih hne' hasc' ?_
      intro x hx y hy
      refine shiftRight_eq_of_testBit (hhigh x (hpart x hx).1 y (hpart y hy).1) ?_
      rw [(hpart x hx).2, (hpart y hy).2]
    generalize hlo : ls.filter (fun x => !x.1.testBit d) = lo at hsplit
    generalize hhi : ls.filter (fun x => x.1.testBit d) = hi at hsplit
    have hlo' : ∀ x ∈ lo, x ∈ ls ∧ x.1.testBit d = false := by
      intro x hx
      rw [← hlo] at hx
      simpa using mem_filter.mp hx
    have hhi' : ∀ x ∈ hi, x ∈ ls ∧ x.1.testBit d = true := by
      intro x hx
      rw [← hhi] at hx
      exact mem_filter.mp hx
    have hasclo : Ascending lo := hlo ▸ List.Pairwise.filter _ hasc
    have haschi : Ascending hi := hhi ▸ List.Pairwise.filter _ hasc
    rcases eq_or_ne lo [] with hnil | hlone
    · obtain ⟨t, ht, hfits⟩ := hsame true hi hhi' (by
        rintro rfl
        exact hne (by simpa [hnil] using hsplit.symm)) haschi
      refine ⟨.right t, ?_, hfits, ?_⟩
      · simpa [Skeleton.leaves, ht, hnil] using hsplit
      · intro x hx
        exact (hhi' x (ht ▸ hx)).2
    · obtain ⟨l, hl, hlfits⟩ := hsame false lo hlo' hlone hasclo
      rcases eq_or_ne hi [] with hnil | hhine
      · refine ⟨.left l, ?_, hlfits, ?_⟩
        · simpa [Skeleton.leaves, hl, hnil] using hsplit
        · intro x hx
          exact (hlo' x (hl ▸ hx)).2
      · obtain ⟨r, hr, hrfits⟩ := hsame true hi hhi' hhine haschi
        refine ⟨.both l r, ?_, hlfits, hrfits, ?_, ?_, ?_⟩
        · simpa [Skeleton.leaves, hl, hr] using hsplit
        · intro x hx
          exact (hlo' x (hl ▸ hx)).2
        · intro x hx
          exact (hhi' x (hr ▸ hx)).2
        · intro x hx y hy
          exact hhigh x (hlo' x (hl ▸ hx)).1 y (hhi' y (hr ▸ hy)).1

end Ascending

section GapCount

variable {N : Type u}

/-- The levels at which each leaf parts from the next one, summed. -/
def partings : List (ℕ × N) → ℕ
  | [] => 0
  | [_] => 0
  | x :: y :: ls => parting x.1 y.1 + partings (y :: ls)

theorem partings_append (ls : List (ℕ × N)) (x y : ℕ × N) (ls' : List (ℕ × N)) :
    partings (ls ++ x :: y :: ls') =
      partings (ls ++ [x]) + parting x.1 y.1 + partings (y :: ls') := by
  induction ls with
  | nil => simp [partings]
  | cons z ls ih =>
    cases ls with
    | nil =>
      simp [partings]
      omega
    | cons =>
      simp only [cons_append, partings] at ih ⊢
      omega

/-- Each leaf climbs to the root and each join ends one climb, so the keys fix the gap count. -/
theorem Skeleton.gaps_length {d : ℕ} (t : Skeleton N d) (hfits : t.Fits) :
    t.gaps.length + t.leaves.length = d + 1 + partings t.leaves := by
  induction t with
  | leaf => simp [gaps, leaves, partings]
  | left t ih | right t ih =>
    have := ih hfits.1
    simp only [gaps, leaves, length_append, length_singleton]
    omega
  | both l r ihl ihr =>
    obtain ⟨hl, hr, hlow, hhigh, habove⟩ := hfits
    obtain ⟨ls, x, hx⟩ := eq_nil_or_concat l.leaves |>.resolve_left l.leaves_ne_nil
    obtain ⟨y, ls', hy⟩ := exists_cons_of_ne_nil r.leaves_ne_nil
    have hmem : x ∈ l.leaves := by simp [hx]
    have hmem' : y ∈ r.leaves := by simp [hy]
    have hpart := parting_eq (habove x hmem y hmem') (hlow x hmem) (hhigh y hmem')
    have hjoin := partings_append ls x y ls'
    have h1 := ihl hl
    have h2 := ihr hr
    simp only [gaps, leaves, length_append, length_cons, length_nil, hx, hy,
      concat_eq_append, append_assoc, singleton_append] at h1 h2 ⊢
    omega

end GapCount

section StackFold

variable {N : Type u} {V : Type v} {S : Type w}

namespace Folding

variable (F : Folding N V S)

/-- Climb `k` levels from level `lvl`, past one gap each. -/
def climb (address : ℕ) : ℕ → ℕ → N × S → N × S
  | 0, _, p => p
  | k + 1, lvl, p =>
    let g := F.draw lvl p.2
    climb address k (lvl + 1) (F.past (address.testBit lvl) g.1 p.1, g.2)

/-- Join with every pending left half below `target`, then climb to `target`. -/
def settle (address target : ℕ) : List (ℕ × N) → ℕ → N × S → List (ℕ × N) × (N × S)
  | [], lvl, p => ([], F.climb address (target - lvl) lvl p)
  | (mergeAt, half) :: stack, lvl, p =>
    if mergeAt < target then
      let q := F.climb address (mergeAt - lvl) lvl p
      settle address target stack (mergeAt + 1) (F.join half q.1, q.2)
    else
      ((mergeAt, half) :: stack, F.climb address (target - lvl) lvl p)

/-- The level a leaf climbs to: where it parts from the next leaf, or the root. -/
def target (depth address : ℕ) : List (ℕ × N) → ℕ
  | [] => depth
  | y :: _ => parting address y.1

/-- The fold from left to right; `stack` holds the pending left halves, deepest first. -/
def stackFold (depth : ℕ) : List (ℕ × N) → List (ℕ × N) → S → Option (N × S)
  | [], _, _ => none
  | x :: ls, stack, s =>
    let lvl := target depth x.1 ls
    let r := F.settle x.1 lvl stack 0 (x.2, s)
    match ls with
    | [] => some r.2
    | y :: ls => stackFold depth (y :: ls) ((lvl, r.2.1) :: r.1) r.2.2

/-- The fold after its current leaf has reached level `lvl`. -/
def resume (depth address : ℕ) (ls : List (ℕ × N)) (stack : List (ℕ × N)) (lvl : ℕ)
    (p : N × S) : Option (N × S) :=
  let r := F.settle address (target depth address ls) stack lvl p
  match ls with
  | [] => some r.2
  | y :: ls => F.stackFold depth (y :: ls)
      ((target depth address (y :: ls), r.2.1) :: r.1) r.2.2

theorem stackFold_cons (depth : ℕ) (x : ℕ × N) (ls stack : List (ℕ × N)) (s : S) :
    F.stackFold depth (x :: ls) stack s = F.resume depth x.1 ls stack 0 (x.2, s) := by
  cases ls <;> rfl

variable {depth address lvl : ℕ} {ls stack : List (ℕ × N)}

/-- Below every pending half and below its target a leaf climbs past one more gap. -/
theorem resume_past (hstack : ∀ e ∈ stack, lvl < e.1) (htarget : lvl < target depth address ls)
    (p : N × S) :
    F.resume depth address ls stack lvl p = F.resume depth address ls stack (lvl + 1)
        (F.past (address.testBit lvl) (F.draw lvl p.2).1 p.1, (F.draw lvl p.2).2) := by
  have hclimb : ∀ k : ℕ, lvl < k → F.climb address (k - lvl) lvl p =
      F.climb address (k - (lvl + 1)) (lvl + 1)
        (F.past (address.testBit lvl) (F.draw lvl p.2).1 p.1, (F.draw lvl p.2).2) := by
    intro k hk
    rw [show k - lvl = k - (lvl + 1) + 1 by omega]
    rfl
  cases stack with
  | nil => simp only [resume, settle, hclimb _ htarget]
  | cons e => simp only [resume, settle, hclimb _ htarget, hclimb e.1 (hstack e mem_cons_self)]

/-- A leaf that reaches the next leaf's path below every pending half waits there. -/
theorem resume_wait (depth address : ℕ) (y : ℕ × N) (ls : List (ℕ × N)) {stack : List (ℕ × N)}
    (hstack : ∀ e ∈ stack, parting address y.1 ≤ e.1) (p : N × S) :
    F.resume depth address (y :: ls) stack (parting address y.1) p =
      F.stackFold depth (y :: ls) ((parting address y.1, p.1) :: stack) p.2 := by
  cases stack with
  | nil => simp [resume, target, settle, climb]
  | cons e =>
    have he : ¬ e.1 < parting address y.1 := not_lt.mpr (hstack e mem_cons_self)
    simp [resume, target, settle, climb, he]

theorem resume_join (htarget : lvl < target depth address ls) (half : N) (p : N × S) :
    F.resume depth address ls ((lvl, half) :: stack) lvl p =
      F.resume depth address ls stack (lvl + 1) (F.join half p.1, p.2) := by
  simp [resume, settle, climb, htarget]

theorem resume_root (depth address : ℕ) (p : N × S) :
    F.resume depth address [] [] depth p = some p := by
  simp [resume, target, settle, climb]

end Folding

namespace Skeleton

variable (F : Folding N V S) {d : ℕ}

/-- The address of the rightmost leaf. -/
def last : {d : ℕ} → Skeleton N d → ℕ
  | _, .leaf a _ => a
  | _, .left t => t.last
  | _, .right t => t.last
  | _, .both _ r => r.last

theorem last_mem (t : Skeleton N d) : ∃ x ∈ t.leaves, x.1 = t.last := by
  induction t with
  | leaf a n => exact ⟨(a, n), mem_singleton_self _, rfl⟩
  | left t ih | right t ih => exact ih
  | both _ _ _ ihr =>
    obtain ⟨x, hx, hlast⟩ := ihr
    exact ⟨x, mem_append_right _ hx, hlast⟩

/-- Going over a subtree's leaves from left to right computes the subtree's fold. -/
theorem stackFold_append (depth : ℕ) (t : Skeleton N d) (hfits : t.Fits)
    (stack more : List (ℕ × N)) (s : S) (hstack : ∀ e ∈ stack, d ≤ e.1)
    (hmore : d ≤ Folding.target depth t.last more) :
    F.stackFold depth (t.leaves ++ more) stack s =
      F.resume depth t.last more stack d (t.fold F s) := by
  induction t generalizing stack more s with
  | leaf a n => exact F.stackFold_cons depth (a, n) more stack s
  | left t ih | right t ih =>
    -- The pending halves lie above this level, so the subtree's root meets a gap here.
    obtain ⟨x, hx, hlast⟩ := t.last_mem
    have hbit := hfits.2 x hx
    rw [hlast] at hbit
    rw [last] at hmore ⊢
    rw [leaves, ih hfits.1 stack more s (fun e he => le_of_succ_le (hstack e he))
      (le_of_succ_le hmore), F.resume_past hstack hmore, hbit]
    rfl
  | @both d l r ihl ihr =>
    obtain ⟨hl, hr, hlow, hhigh, habove⟩ := hfits
    obtain ⟨x, hx, hlast⟩ := l.last_mem
    obtain ⟨y, ls, hy⟩ := exists_cons_of_ne_nil r.leaves_ne_nil
    have hyr : y ∈ r.leaves := by simp [hy]
    have hpart := parting_eq (habove x hx y hyr) (hlow x hx) (hhigh y hyr)
    rw [hlast] at hpart
    have hstack' := fun e he => le_of_succ_le (hstack e he)
    -- The left half waits at the level where it parts from the right half,
    have h1 := ihl hl stack (r.leaves ++ more) s hstack' (by simp [hy, Folding.target, hpart])
    have hwait := F.resume_wait depth l.last y (ls ++ more) (hpart.symm ▸ hstack') (l.fold F s)
    -- and the right half then finds it on top of the stack.
    have h2 := ihr hr ((d, (l.fold F s).1) :: stack) more (l.fold F s).2
      (by simpa using hstack') (le_of_succ_le hmore)
    rw [hpart, ← cons_append, ← hy] at hwait
    rw [leaves, append_assoc, h1, hwait, h2]
    exact F.resume_join hmore _ _

theorem stackFold_leaves (t : Skeleton N d) (hfits : t.Fits) (s : S) :
    F.stackFold d t.leaves [] s = some (t.fold F s) := by
  have h := t.stackFold_append F d hfits [] [] s (by simp) (by simp [Folding.target])
  rwa [append_nil, F.resume_root] at h

end Skeleton

end StackFold

section Source

variable {N : Type u} {V : Type v} {S : Type w}

/-- The siblings drawn for a list of gaps, and the source after them. -/
def Folding.drawAll (F : Folding N V S) : List ℕ → S → List V × S
  | [], s => ([], s)
  | g :: gs, s =>
    let v := F.draw g s
    let r := drawAll F gs v.2
    (v.1 :: r.1, r.2)

theorem Folding.drawAll_append (F : Folding N V S) (gs hs : List ℕ) (s : S) :
    F.drawAll (gs ++ hs) s = ((F.drawAll gs s).1 ++ (F.drawAll hs (F.drawAll gs s).2).1,
        (F.drawAll hs (F.drawAll gs s).2).2) := by
  induction gs generalizing s with
  | nil => rfl
  | cons _ _ ih => simp [drawAll, ih]

/-- The fold draws a sibling for each of its gaps, in order, and no other. -/
theorem Skeleton.fold_source (F : Folding N V S) {d : ℕ} (t : Skeleton N d) (s : S) :
    (t.fold F s).2 = (F.drawAll t.gaps s).2 := by
  induction t generalizing s with
  | leaf => rfl
  | left t ih | right t ih => simp [fold, gaps, Folding.drawAll_append, Folding.drawAll, ih]
  | both l r ihl ihr => simp [fold, gaps, Folding.drawAll_append, ihl, ihr]

end Source

end Knomosis.Lib
