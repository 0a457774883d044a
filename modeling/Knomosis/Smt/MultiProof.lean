import Knomosis.Contracts.Evm
import Knomosis.Lib.TreeFold

/-!
# The reference walk of a multiproof

The kernel's own reading of a multiproof: one recursive descent with the whole
set of opened cells.  A node whose opened cells all lie in one half consumes one
sibling; the levels at which that happens, in the order of the descent, are the
gaps of the key set.  The proof carries a mask with one bit for each gap and
those siblings that are not the hash of an empty subtree.

Hashes and keys are byte strings here, as the kernel has them.
-/

namespace Knomosis.Smt

open Lib Contracts List Skeleton

abbrev Bytes := List UInt8

def smtDepth : ℕ := 256

/-- Bit `i` of a key, the first bit of a byte being its most significant one. -/
def keyBit (key : Bytes) (i : ℕ) : Bool := (key[i / 8]?).any (fun b => b.toNat.testBit (7 - i % 8))

/-- A cell's key and its leaf hash. -/
abbrev OpenedLeaf := Bytes × Bytes

/-- The opened cells in the left half below level `d + 1`. -/
def openedLow (d : ℕ) (opened : List OpenedLeaf) : List OpenedLeaf :=
  opened.filter (fun o => !keyBit o.1 d)

/-- The opened cells in the right half below level `d + 1`. -/
def openedHigh (d : ℕ) (opened : List OpenedLeaf) : List OpenedLeaf :=
  opened.filter (fun o => keyBit o.1 d)

/-- The levels at which the walk takes a sibling, in the order in which it takes them. -/
def multiGapLevels : ℕ → List OpenedLeaf → List ℕ
  | 0, _ => []
  | d + 1, opened =>
    let low := openedLow d opened
    let high := openedHigh d opened
    if low.isEmpty && high.isEmpty then []
    else if high.isEmpty then multiGapLevels d low ++ [d]
    else if low.isEmpty then multiGapLevels d high ++ [d]
    else multiGapLevels d low ++ multiGapLevels d high

/-- A multiproof: the mask over the gaps, and the siblings it marks. -/
structure SmtMultiProof where
  gapMask : Bytes
  siblings : List Bytes

namespace SmtMultiProof

variable (p : SmtMultiProof)

/-- Bit `g` of the mask, least significant first within each byte. -/
def gapBit (g : ℕ) : Bool := (p.gapMask[g / 8]?).any (fun b => b.toNat.testBit (g % 8))

def gapPopcount (n : ℕ) : ℕ := ((List.range n).filter p.gapBit).length

/-- The shape that the gaps of a key set prescribe. -/
def isWellFormedFor (levels : List ℕ) : Bool :=
  let n := levels.length
  p.gapMask.length == (n + 7) / 8
    && (List.range (p.gapMask.length * 8)).all (fun g => decide (g < n) || !p.gapBit g)
    && p.siblings.length == p.gapPopcount n
    && p.siblings.all (fun s => s.length == 32)

end SmtMultiProof

/-- The sibling in place of one that the proof does not have. -/
def paddingHash : Bytes := List.replicate 32 0

/-- The bytes of `EMPTY_LEAF`. -/
def emptyLeafSeedBytes : Bytes := [0x45, 0x4d, 0x50, 0x54, 0x59, 0x5f, 0x4c, 0x45, 0x41, 0x46]

section Hashing

variable [Keccak]

/-- The kernel's hash, bound to the hash of the chain. -/
def hashBytes (bs : Bytes) : Bytes := bytes32Bytes (keccak256 bs)

/-- The root of an empty subtree of height `d`, for any `d`. -/
def emptyChain : ℕ → Bytes
  | 0 => hashBytes emptyLeafSeedBytes
  | d + 1 => hashBytes (emptyChain d ++ emptyChain d)

/-- The table of empty subtrees, which ends below the root. -/
def emptySubtreeHash (d : ℕ) : Bytes := if d < 256 then emptyChain d else []

/-- Combine a subtree's root with the next sibling. -/
def consumeSibling (combine : Bytes → Bytes → Bytes) :
    Bytes × List Bytes → Option (Bytes × List Bytes)
  | (_, []) => none
  | (root, sibling :: rest) => some (combine root sibling, rest)

/-- The root above the opened cells, and the siblings left over. -/
def multiWalk : ℕ → List OpenedLeaf → List Bytes → Option (Bytes × List Bytes)
  | 0, [o], sibs => some (o.2, sibs)
  | 0, _, _ => none
  | d + 1, opened, sibs =>
    let low := openedLow d opened
    let high := openedHigh d opened
    if low.isEmpty && high.isEmpty then none
    else if high.isEmpty then
      (multiWalk d low sibs).bind (consumeSibling fun r s => hashBytes (r ++ s))
    else if low.isEmpty then
      (multiWalk d high sibs).bind (consumeSibling fun r s => hashBytes (s ++ r))
    else
      (multiWalk d low sibs).bind fun l =>
        (multiWalk d high l.2).map fun h => (hashBytes (l.1 ++ h.1), h.2)

/-- The siblings for the gaps from number `g` on, the next one marked being at `cursor`. -/
def expandFrom (p : SmtMultiProof) : ℕ → ℕ → List ℕ → List Bytes
  | _, _, [] => []
  | g, cursor, level :: levels =>
    if p.gapBit g then
      (p.siblings[cursor]?.getD paddingHash) :: expandFrom p (g + 1) (cursor + 1) levels
    else
      emptySubtreeHash level :: expandFrom p (g + 1) cursor levels

/-- One sibling for each gap. -/
def expandMultiProof (levels : List ℕ) (p : SmtMultiProof) : List Bytes := expandFrom p 0 0 levels

end Hashing

section Skeletons

universe u v w

variable {N : Type u} {V : Type v} {S : Type w} {d : ℕ} {key : ℕ → Bytes} {hash : N → Bytes}

/-- The opened cells at the leaves of a skeleton. -/
def openedAt (key : ℕ → Bytes) (hash : N → Bytes) (ls : List (ℕ × N)) : List OpenedLeaf :=
  ls.map (fun x => (key x.1, hash x.2))

/-- The first `d` bits of every key are those of its address. -/
def Spells (key : ℕ → Bytes) (d : ℕ) (ls : List (ℕ × N)) : Prop :=
  ∀ x ∈ ls, ∀ i < d, keyBit (key x.1) i = x.1.testBit i

theorem Spells.below {ls ls' : List (ℕ × N)} (h : Spells key (d + 1) ls)
    (hsub : ∀ x ∈ ls', x ∈ ls) : Spells key d ls' :=
  fun x hx i hi => h x (hsub x hx) i (Nat.lt_succ_of_lt hi)

theorem halves_of_left (hash : N → Bytes) {ls : List (ℕ × N)} (hspell : Spells key (d + 1) ls)
    (hbit : ∀ x ∈ ls, x.1.testBit d = false) :
    openedLow d (openedAt key hash ls) = openedAt key hash ls ∧
      openedHigh d (openedAt key hash ls) = [] := by
  have hkey : ∀ o ∈ openedAt key hash ls, keyBit o.1 d = false := by
    intro o ho
    obtain ⟨x, hx, rfl⟩ := mem_map.mp ho
    exact (hspell x hx d (Nat.lt_succ_self d)).trans (hbit x hx)
  constructor
  · exact filter_eq_self.mpr (fun o ho => by simp [hkey o ho])
  · exact filter_eq_nil_iff.mpr (fun o ho => by simp [hkey o ho])

theorem halves_of_right (hash : N → Bytes) {ls : List (ℕ × N)} (hspell : Spells key (d + 1) ls)
    (hbit : ∀ x ∈ ls, x.1.testBit d = true) :
    openedLow d (openedAt key hash ls) = [] ∧
    openedHigh d (openedAt key hash ls) = openedAt key hash ls := by
  have hkey : ∀ o ∈ openedAt key hash ls, keyBit o.1 d = true := by
    intro o ho
    obtain ⟨x, hx, rfl⟩ := mem_map.mp ho
    exact (hspell x hx d (Nat.lt_succ_self d)).trans (hbit x hx)
  constructor
  · exact filter_eq_nil_iff.mpr (fun o ho => by simp [hkey o ho])
  · exact filter_eq_self.mpr hkey

theorem halves_of_both (hash : N → Bytes) {ls ls' : List (ℕ × N)}
    (hspell : Spells key (d + 1) (ls ++ ls')) (hlow : ∀ x ∈ ls, x.1.testBit d = false)
    (hhigh : ∀ x ∈ ls', x.1.testBit d = true) :
    openedLow d (openedAt key hash (ls ++ ls')) = openedAt key hash ls ∧
      openedHigh d (openedAt key hash (ls ++ ls')) = openedAt key hash ls' := by
  obtain ⟨h1, h2⟩ := halves_of_left hash (fun x hx => hspell x (mem_append_left ls' hx)) hlow
  obtain ⟨h3, h4⟩ := halves_of_right hash (fun x hx => hspell x (mem_append_right ls hx)) hhigh
  simp only [openedAt, openedLow, openedHigh, map_append, filter_append] at h1 h2 h3 h4 ⊢
  simp [h1, h2, h3, h4]

theorem openedAt_ne_nil (t : Skeleton N d) : openedAt key hash t.leaves ≠ [] := by
  simp [openedAt, t.leaves_ne_nil]

attribute [local simp] gaps openedAt_ne_nil

theorem multiGapLevels_leaves (t : Skeleton N d) (hfits : t.Fits) (hspell : Spells key d t.leaves) :
    multiGapLevels d (openedAt key hash t.leaves) = t.gaps := by
  induction t with
  | leaf => rfl
  | left t ih =>
    rw [leaves] at hspell ⊢
    obtain ⟨h1, h2⟩ := halves_of_left hash hspell hfits.2
    have hrest := ih hfits.1 (hspell.below fun x hx => hx)
    simp [multiGapLevels, h1, h2, hrest]
  | right t ih =>
    rw [leaves] at hspell ⊢
    obtain ⟨h1, h2⟩ := halves_of_right hash hspell hfits.2
    have hrest := ih hfits.1 (hspell.below fun x hx => hx)
    simp [multiGapLevels, h1, h2, hrest]
  | both l r ihl ihr =>
    rw [leaves] at hspell ⊢
    obtain ⟨hl, hr, hlow, hhigh, -⟩ := hfits
    obtain ⟨h1, h2⟩ := halves_of_both hash hspell hlow hhigh
    have h3 := ihl hl (hspell.below fun x hx => mem_append_left _ hx)
    have h4 := ihr hr (hspell.below fun x hx => mem_append_right _ hx)
    simp [multiGapLevels, h1, h2, h3, h4]

variable [Keccak]

/-- A folding whose nodes carry hashes, combined the way the walk combines them. -/
structure Hashes (F : Folding N V S) (hash : N → Bytes) (sibling : V → Bytes) : Prop where
  left : ∀ v n, hash (F.past false v n) = hashBytes (hash n ++ sibling v)
  right : ∀ v n, hash (F.past true v n) = hashBytes (sibling v ++ hash n)
  join : ∀ l r, hash (F.join l r) = hashBytes (hash l ++ hash r)

/-- Given the siblings that the fold draws, the walk computes what the fold computes. -/
theorem multiWalk_leaves {F : Folding N V S} {sibling : V → Bytes} (hF : Hashes F hash sibling)
    (t : Skeleton N d) (hfits : t.Fits) (hspell : Spells key d t.leaves)
    (s : S) (rest : List Bytes) :
    multiWalk d (openedAt key hash t.leaves) ((F.drawAll t.gaps s).1.map sibling ++ rest) =
      some (hash (t.fold F s).1, rest) := by
  induction t generalizing s rest with
  | leaf => rfl
  | left t ih =>
    rw [leaves] at hspell ⊢
    obtain ⟨h1, h2⟩ := halves_of_left hash hspell hfits.2
    have hrest := ih hfits.1 (hspell.below fun x hx => hx)
    simp [multiWalk, fold, Folding.drawAll_append, Folding.drawAll, h1, h2, hrest,
      consumeSibling, hF.left, fold_source]
  | right t ih =>
    rw [leaves] at hspell ⊢
    obtain ⟨h1, h2⟩ := halves_of_right hash hspell hfits.2
    have hrest := ih hfits.1 (hspell.below fun x hx => hx)
    simp [multiWalk, fold, Folding.drawAll_append, Folding.drawAll, h1, h2, hrest,
      consumeSibling, hF.right, fold_source]
  | both l r ihl ihr =>
    rw [leaves] at hspell ⊢
    obtain ⟨hl, hr, hlow, hhigh, -⟩ := hfits
    obtain ⟨h1, h2⟩ := halves_of_both hash hspell hlow hhigh
    have h3 := ihl hl (hspell.below fun x hx => mem_append_left _ hx)
    have h4 := ihr hr (hspell.below fun x hx => mem_append_right _ hx)
    simp [multiWalk, fold, Folding.drawAll_append, h1, h2, h3, h4, hF.join,
      fold_source]

end Skeletons

end Knomosis.Smt
