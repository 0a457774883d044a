import Knomosis.Smt.MultiWire

/-!
# The two walks of a multiproof agree

The contract's loop over the leaves is the fold from left to right, the kernel's
descent is the recursive fold, and both run over the skeleton of the opened
cells.

The contract opens `MAX_OPENED_CELLS` cells at most; the kernel has no such
bound.
-/

namespace Knomosis.Smt

open Lib Contracts List BitVec

/-- The opened cells as the kernel has them. -/
def openedCells (keys leaves : List Bytes32) : List OpenedLeaf :=
  (keys.zip leaves).map (fun x => (bytes32Bytes x.1, bytes32Bytes x.2))

/-- The leaves of the contract's walk: path indices with pairs of leaf hashes. -/
def pairLeaves (sorted preLeaves postLeaves : List Bytes32) : List (ℕ × (Bytes32 × Bytes32)) :=
  (sorted.map BitVec.toNat).zip (preLeaves.zip postLeaves)

/-- The key bytes at an address of the tree. -/
def keyAt (address : ℕ) : Bytes := bytes32Bytes (pathIndex (BitVec.ofNat 256 address))

theorem keyAt_pathIndex (key : Bytes32) : keyAt (pathIndex key).toNat = bytes32Bytes key := by
  rw [keyAt, ofNat_toNat, setWidth_eq, pathIndex_pathIndex]

theorem openedAt_pairLeaves {keys preLeaves postLeaves : List Bytes32}
    (hpre : preLeaves.length = keys.length) (hpost : postLeaves.length = keys.length) :
    openedAt keyAt (fun n => bytes32Bytes n.1)
        (pairLeaves (keys.map pathIndex) preLeaves postLeaves) = openedCells keys preLeaves ∧
      openedAt keyAt (fun n => bytes32Bytes n.2)
        (pairLeaves (keys.map pathIndex) preLeaves postLeaves) = openedCells keys postLeaves := by
  constructor <;>
  · apply ext_getElem
    · simp [openedAt, pairLeaves, openedCells, hpre, hpost]
    · intro i h1 h2
      simp [openedAt, pairLeaves, openedCells, keyAt_pathIndex]

theorem fst_pairLeaves {sorted preLeaves postLeaves : List Bytes32}
    (hpre : preLeaves.length = sorted.length) (hpost : postLeaves.length = sorted.length) :
    (pairLeaves sorted preLeaves postLeaves).map Prod.fst = sorted.map BitVec.toNat := by
  rw [pairLeaves, map_fst_zip]
  simp [hpre, hpost]

theorem spells_keyAt {ls : List (ℕ × (Bytes32 × Bytes32))} (hlt : ∀ x ∈ ls, x.1 < 2 ^ 256) :
    Spells keyAt smtDepth ls := by
  intro x hx i hi
  have hi : i < 256 := hi
  rw [keyAt, keyBit_bytes32Bytes _ hi, getLsbD_pathIndex _ (by omega), ← testBit_toNat,
    toNat_ofNat, Nat.mod_eq_of_lt (hlt x hx)]
  congr 1
  omega

theorem divSum_eq {N : Type} (sorted : List Bytes32) (ls : List (ℕ × N))
    (hls : ls.map Prod.fst = sorted.map BitVec.toNat) : divSum sorted = partings ls := by
  induction sorted generalizing ls with
  | nil =>
    obtain rfl : ls = [] := by simpa using hls
    rfl
  | cons a sorted ih =>
    obtain ⟨x, ls, rfl, hx, hrest⟩ := map_eq_cons_iff.mp hls
    cases sorted with
    | nil =>
      obtain rfl : ls = [] := by simpa using hrest
      rfl
    | cons =>
      have hstep := ih ls hrest
      obtain ⟨y, ls, rfl, hy, -⟩ := map_eq_cons_iff.mp hrest
      rw [divSum, partings, hstep, divLevel_eq, hx, hy]

/-- The contract's closed form counts the gaps. -/
theorem gapCount_eq {N : Type} {sorted : List Bytes32} (t : Skeleton N 256) (hfits : t.Fits)
    (hsmall : 256 * sorted.length < 2 ^ 256)
    (hls : t.leaves.map Prod.fst = sorted.map BitVec.toNat) :
    (gapCount sorted).toNat = t.gaps.length := by
  have hcount := t.gaps_length hfits
  have hle := t.gaps_length_le
  have hlen : t.leaves.length = sorted.length := by simpa using congrArg List.length hls
  rw [hlen] at hcount hle
  have hsum : BitVec.ofNat 256 t.gaps.length + BitVec.ofNat 256 sorted.length =
      257#256 + BitVec.ofNat 256 (partings t.leaves) := by
    rw [← ofNat_add, ← ofNat_add, hcount]
  have hgap : gapCount sorted = BitVec.ofNat 256 t.gaps.length := by
    rw [gapCount, divSum_eq sorted t.leaves hls]
    generalize BitVec.ofNat 256 (partings t.leaves) = b at hsum
    generalize BitVec.ofNat 256 t.gaps.length = c at hsum
    generalize BitVec.ofNat 256 sorted.length = m at hsum
    bv_omega
  rw [hgap, toNat_ofNat, Nat.mod_eq_of_lt (hle.trans_lt hsmall)]

section Loop

variable [Keccak] {gapMask siblings : Calldata} {empties : List Bytes32}

theorem climb_eq (curKey : Bytes32) (n lvl : ℕ) (st : (Bytes32 × Bytes32) × GapCursor) :
    climb gapMask siblings empties curKey n lvl st =
      (wireFolding gapMask siblings empties).climb curKey.toNat n lvl st := by
  induction n generalizing lvl st with
  | zero => rfl
  | succ n ih => simp only [climb, Folding.climb, ih, wireFolding, testBit_toNat]

theorem settleMerges_eq
    (curKey : Bytes32) (nextDiv : ℕ) (stack : List (ℕ × (Bytes32 × Bytes32))) (lvl : ℕ)
    (st : (Bytes32 × Bytes32) × GapCursor) :
    settleMerges gapMask siblings empties curKey nextDiv stack lvl st =
      (wireFolding gapMask siblings empties).settle curKey.toNat nextDiv stack lvl st := by
  induction stack generalizing lvl st with
  | nil => simp only [settleMerges, Folding.settle, climb_eq]
  | cons _ _ ih =>
    simp only [settleMerges, Folding.settle, climb_eq, ih]
    rfl

/-- The loop over the leaves is the fold from left to right. -/
theorem walkLeaves_eq {sorted preLeaves postLeaves : List Bytes32}
    (hpre : preLeaves.length = sorted.length) (hpost : postLeaves.length = sorted.length)
    (stack : List (ℕ × (Bytes32 × Bytes32))) (gc : GapCursor) {r : (Bytes32 × Bytes32) × GapCursor}
    (hr : (wireFolding gapMask siblings empties).stackFold 256
      (pairLeaves sorted preLeaves postLeaves) stack gc = some r) :
    walkLeaves gapMask siblings empties sorted preLeaves postLeaves stack gc = .ok r := by
  induction sorted generalizing preLeaves postLeaves stack gc with
  | nil => simp [pairLeaves, Folding.stackFold] at hr
  | cons _ sorted ih =>
    obtain ⟨pre, preLeaves, rfl⟩ := exists_cons_of_length_eq_add_one hpre
    obtain ⟨post, postLeaves, rfl⟩ := exists_cons_of_length_eq_add_one hpost
    cases sorted with
    | nil =>
      simp only [pairLeaves, map_cons, map_nil, zip_cons_cons, zip_nil_left,
        Folding.stackFold, Folding.target, Option.some.injEq] at hr
      rw [walkLeaves, settleMerges_eq, hr]
    | cons _ sorted =>
      obtain ⟨pre', preLeaves, rfl⟩ := exists_cons_of_length_eq_add_one
        (by simpa using hpre : preLeaves.length = sorted.length + 1)
      obtain ⟨post', postLeaves, rfl⟩ := exists_cons_of_length_eq_add_one
        (by simpa using hpost : postLeaves.length = sorted.length + 1)
      simp only [pairLeaves, map_cons, zip_cons_cons, Folding.stackFold,
        Folding.target, ← divLevel_eq] at hr
      rw [walkLeaves]
      simp only [settleMerges_eq]
      exact ih (by simpa using hpre) (by simpa using hpost) _ _ hr

end Loop

section Agreement

theorem firstUnsorted_eq_none (j : ℕ) (sorted : List Bytes32) :
    firstUnsorted j sorted = none ↔ sorted.Pairwise (· < ·) := by
  rw [← isChain_iff_pairwise]
  induction sorted generalizing j with
  | nil => simp [firstUnsorted]
  | cons a sorted ih =>
    cases sorted with
    | nil => simp [firstUnsorted]
    | cons =>
      rw [firstUnsorted, isChain_cons_cons, ← ih (j + 1)]
      split_ifs with hle
      · simp [BitVec.not_lt.mpr hle]
      · simp [BitVec.not_le.mp hle]

variable {keys preLeaves postLeaves : List Bytes32}

/-- The skeleton above the opened cells. -/
theorem exists_skeleton (hne : keys ≠ []) (hpre : preLeaves.length = keys.length)
    (hpost : postLeaves.length = keys.length) (hasc : (keys.map pathIndex).Pairwise (· < ·)) :
    ∃ t : Skeleton (Bytes32 × Bytes32) 256,
      t.leaves = pairLeaves (keys.map pathIndex) preLeaves postLeaves ∧ t.Fits ∧
      Spells keyAt smtDepth t.leaves := by
  have hfst : (pairLeaves (keys.map pathIndex) preLeaves postLeaves).map Prod.fst =
      (keys.map pathIndex).map BitVec.toNat :=
    fst_pairLeaves (by simpa using hpre) (by simpa using hpost)
  have hlt : ∀ x ∈ pairLeaves (keys.map pathIndex) preLeaves postLeaves, x.1 < 2 ^ 256 := by
    intro x hx
    have hmem := mem_map_of_mem (f := Prod.fst) hx
    rw [hfst] at hmem
    obtain ⟨k, -, hk⟩ := mem_map.mp hmem
    exact hk ▸ k.isLt
  have hzero : ∀ x ∈ pairLeaves (keys.map pathIndex) preLeaves postLeaves, x.1 >>> 256 = 0 := by
    intro x hx
    rw [Nat.shiftRight_eq_div_pow, Nat.div_eq_of_lt (hlt x hx)]
  have hasc' : Ascending (pairLeaves (keys.map pathIndex) preLeaves postLeaves) := by
    have h := List.Pairwise.map (S := (· < ·)) BitVec.toNat (fun a b (hab : a < b) => hab) hasc
    rwa [← hfst, pairwise_map] at h
  obtain ⟨t, ht, hfits⟩ := hasc'.exists_skeleton 256 (by
      rw [← length_pos_iff] at hne ⊢
      simp [pairLeaves, hpre, hpost, hne])
    (fun x hx y hy => (hzero x hx).trans (hzero y hy).symm)
  exact ⟨t, ht, hfits, ht ▸ spells_keyAt hlt⟩

/-- The gaps of the opened cells do not depend on the leaves. -/
theorem multiGapLevels_openedCells (t : Skeleton (Bytes32 × Bytes32) 256)
    (hpre : preLeaves.length = keys.length) (hpost : postLeaves.length = keys.length)
    (hleaves : t.leaves = pairLeaves (keys.map pathIndex) preLeaves postLeaves) (hfits : t.Fits)
    (hspell : Spells keyAt smtDepth t.leaves) :
    multiGapLevels smtDepth (openedCells keys preLeaves) = t.gaps := by
  rw [← (openedAt_pairLeaves hpre hpost).1, ← hleaves]
  exact multiGapLevels_leaves t hfits hspell

/-- The contract computes the number of the kernel's gaps from the path indices alone. -/
theorem gapCount_openedCells (hne : keys ≠ []) (hpre : preLeaves.length = keys.length)
    (hpost : postLeaves.length = keys.length) (hasc : (keys.map pathIndex).Pairwise (· < ·))
    (hsmall : 256 * keys.length < 2 ^ 256) :
    (gapCount (keys.map pathIndex)).toNat =
      (multiGapLevels smtDepth (openedCells keys preLeaves)).length := by
  obtain ⟨t, hleaves, hfits, hspell⟩ := exists_skeleton hne hpre hpost hasc
  rw [multiGapLevels_openedCells t hpre hpost hleaves hfits hspell]
  refine gapCount_eq t hfits (by rwa [length_map]) ?_
  rw [hleaves]
  exact fst_pairLeaves (by simpa using hpre) (by simpa using hpost)

/-- The shape check passes exactly the wires that are well formed for the kernel's gaps. -/
theorem requireShape_openedCells
    (gapMask siblings : Calldata)
    (hne : keys ≠ [])
    (hsmall : 256 * keys.length < 2 ^ 256)
    (hpre : preLeaves.length = keys.length)
    (hasc : (keys.map pathIndex).Pairwise (· < ·)) :
    (gapCount (keys.map pathIndex)).toNat =
        (multiGapLevels smtDepth (openedCells keys preLeaves)).length ∧
      ((∃ g, requireShape (keys.map pathIndex) gapMask siblings = .ok g) ↔
        (wireProof gapMask.bytes siblings.bytes).isWellFormedFor
          (multiGapLevels smtDepth (openedCells keys preLeaves)) = true) := by
  have hcount := gapCount_openedCells hne hpre hpre hasc hsmall
  exact ⟨hcount, requireShape_iff hcount⟩

theorem length_small_of_cap (hcap : keys.length ≤ MAX_OPENED_CELLS) :
    256 * keys.length < 2 ^ 256 := by
  have : (256 * 32 : ℕ) < 2 ^ 256 := by norm_num
  unfold MAX_OPENED_CELLS at hcap
  omega

variable [Keccak] {gapMask siblings : Calldata}

theorem hashes_fst (gapMask siblings : Calldata) (empties : List Bytes32) :
    Hashes (wireFolding gapMask siblings empties) (fun n => bytes32Bytes n.1) bytes32Bytes :=
  ⟨fun _ _ => rfl, fun _ _ => rfl, fun _ _ => rfl⟩

theorem hashes_snd (gapMask siblings : Calldata) (empties : List Bytes32) :
    Hashes (wireFolding gapMask siblings empties) (fun n => bytes32Bytes n.2) bytes32Bytes :=
  ⟨fun _ _ => rfl, fun _ _ => rfl, fun _ _ => rfl⟩

/-- On a well-formed wire the loop ends with the kernel's two roots and the wire used up. -/
theorem walkLeaves_agrees (hne : keys ≠ []) (hpre : preLeaves.length = keys.length)
    (hpost : postLeaves.length = keys.length) (hasc : (keys.map pathIndex).Pairwise (· < ·))
    {p : SmtMultiProof} {levels : List ℕ} (hp : wireProof gapMask.bytes siblings.bytes = p)
    (hlevels : multiGapLevels smtDepth (openedCells keys preLeaves) = levels)
    (hwf : p.isWellFormedFor levels = true) :
    ∃ preRoot postRoot gc,
      walkLeaves gapMask siblings precomputeEmptySubtreeHashes (keys.map pathIndex) preLeaves
        postLeaves [] ⟨0, 0, maskWordFor gapMask 0⟩ = .ok ((preRoot, postRoot), gc) ∧
      multiWalk smtDepth (openedCells keys preLeaves) (expandMultiProof levels p) =
        some (bytes32Bytes preRoot, []) ∧
      multiWalk smtDepth (openedCells keys postLeaves) (expandMultiProof levels p) =
        some (bytes32Bytes postRoot, []) ∧
      gc.gapIdx = levels.length ∧ gc.cursor = p.siblings.length := by
  obtain ⟨t, hleaves, hfits, hspell⟩ := exists_skeleton hne hpre hpost hasc
  have hgaps := multiGapLevels_openedCells t hpre hpost hleaves hfits hspell
  rw [hlevels] at hgaps
  obtain ⟨hdraw, hend⟩ := drawAll_cursorAt hp hwf (g := 0) levels (by simp)
    (by rw [hgaps]; exact t.gaps_lt)
  have hstart : cursorAt gapMask p 0 = ⟨0, 0, maskWordFor gapMask 0⟩ := rfl
  have hfold := t.stackFold_leaves (wireFolding gapMask siblings precomputeEmptySubtreeHashes)
    hfits (cursorAt gapMask p 0)
  have hsource := t.fold_source (wireFolding gapMask siblings precomputeEmptySubtreeHashes)
    (cursorAt gapMask p 0)
  have hwalk1 := multiWalk_leaves (hashes_fst gapMask siblings precomputeEmptySubtreeHashes) t
    hfits hspell (cursorAt gapMask p 0) []
  have hwalk2 := multiWalk_leaves (hashes_snd gapMask siblings precomputeEmptySubtreeHashes) t
    hfits hspell (cursorAt gapMask p 0) []
  obtain ⟨hopen1, hopen2⟩ := openedAt_pairLeaves hpre hpost
  rw [← hgaps, hdraw, hleaves, append_nil] at hwalk1 hwalk2
  rw [hopen1] at hwalk1
  rw [hopen2] at hwalk2
  rw [← hgaps, hend, Nat.zero_add] at hsource
  rw [hleaves, hstart] at hfold
  have hloop := walkLeaves_eq (by simpa using hpre) (by simpa using hpost) [] _ hfold
  refine ⟨_, _, _, hloop, hwalk1, hwalk2, ?_, ?_⟩
  · exact congrArg GapCursor.gapIdx hsource
  · rw [((isWellFormedFor_iff p).mp hwf).2.2.1]
    exact congrArg GapCursor.cursor hsource

/-- A wire that the shape check refuses, or cells out of order, end the call. -/
theorem multiWalkPair_error {sorted : List Bytes32} (preLeaves postLeaves empties : List Bytes32)
    (h : ¬ sorted.Pairwise (· < ·) ∨ ¬ ∃ g, requireShape sorted gapMask siblings = .ok g) :
    ∃ e, multiWalkPair sorted preLeaves postLeaves gapMask siblings empties = .error e := by
  rw [← firstUnsorted_eq_none 0] at h
  unfold multiWalkPair
  simp only
  split_ifs
  · exact ⟨_, rfl⟩
  · exact ⟨_, rfl⟩
  cases hsort : firstUnsorted 0 sorted with
  | some => exact ⟨_, rfl⟩
  | none =>
    cases hshape : requireShape sorted gapMask siblings with
    | error e => exact ⟨e, rfl⟩
    | ok g => exact absurd ⟨g, hshape⟩ (h.resolve_left (not_not.mpr hsort))

/-- On a well-formed wire the call ends with the result of the loop. -/
theorem multiWalkPair_of_loop
    {sorted preLeaves postLeaves empties : List Bytes32} {roots : Bytes32 × Bytes32}
    {gc : GapCursor} (hne : sorted ≠ []) (hcap : sorted.length ≤ MAX_OPENED_CELLS)
    (hasc : sorted.Pairwise (· < ·)) (hshape : ∃ g, requireShape sorted gapMask siblings = .ok g)
    (hloop : walkLeaves gapMask siblings empties sorted preLeaves postLeaves []
      ⟨0, 0, maskWordFor gapMask 0⟩ = .ok (roots, gc)) :
    multiWalkPair sorted preLeaves postLeaves gapMask siblings empties = .ok roots := by
  obtain ⟨g, hg⟩ := hshape
  have hpos : sorted.length ≠ 0 := (length_pos_iff.mpr hne).ne'
  simp only [multiWalkPair, if_neg hpos, if_neg (Nat.not_lt.mpr hcap),
    (firstUnsorted_eq_none 0 sorted).mpr hasc, hg]
  rw [hloop]

/-- The call ends with two roots exactly if the wire is well formed and the kernel walks to
them. -/
theorem multiWalkPair_eq_ok (hne : keys ≠ []) (hcap : keys.length ≤ MAX_OPENED_CELLS)
    (hpre : preLeaves.length = keys.length) (hpost : postLeaves.length = keys.length)
    (hasc : (keys.map pathIndex).Pairwise (· < ·))
    {preRoot postRoot : Bytes32} {p : SmtMultiProof} {levels : List ℕ}
    (hp : wireProof gapMask.bytes siblings.bytes = p)
    (hlevels : multiGapLevels smtDepth (openedCells keys preLeaves) = levels) :
    multiWalkPair (keys.map pathIndex) preLeaves postLeaves gapMask siblings
        precomputeEmptySubtreeHashes = .ok (preRoot, postRoot) ↔ p.isWellFormedFor levels = true ∧
      multiWalk smtDepth (openedCells keys preLeaves) (expandMultiProof levels p) =
        some (bytes32Bytes preRoot, []) ∧
      multiWalk smtDepth (openedCells keys postLeaves) (expandMultiProof levels p) =
        some (bytes32Bytes postRoot, []) := by
  subst hp hlevels
  have hsorted : (keys.map pathIndex).length = keys.length := length_map _
  have hshape := (requireShape_openedCells gapMask siblings hne (length_small_of_cap hcap) hpre
    hasc).2
  by_cases hwf : (wireProof gapMask.bytes siblings.bytes).isWellFormedFor
      (multiGapLevels smtDepth (openedCells keys preLeaves)) = true
  · obtain ⟨r, r', gc, hloop, h1, h2, -, -⟩ :=
      walkLeaves_agrees hne hpre hpost hasc rfl rfl hwf
    rw [multiWalkPair_of_loop (by simpa using hne) (hsorted.trans_le hcap) hasc
      (hshape.mpr hwf) hloop, h1, h2]
    simp [hwf, bytes32Bytes_injective.eq_iff]
  · obtain ⟨e, he⟩ := multiWalkPair_error preLeaves postLeaves precomputeEmptySubtreeHashes
      (.inr fun h => hwf (hshape.mp h))
    rw [he]
    simp [hwf]

/-- For ascending cells contract and kernel agree on the gap count and the shape, and up to the
bound on the roots. -/
theorem multi_walk_agrees
    (keys preLeaves postLeaves : List Bytes32)
    (gapMask siblings : Calldata)
    (hpre : preLeaves.length = keys.length)
    (hpost : postLeaves.length = keys.length) :
    let sorted := keys.map pathIndex
    let levels := multiGapLevels smtDepth (openedCells keys preLeaves)
    let p := wireProof gapMask.bytes siblings.bytes
    let result := multiWalkPair sorted preLeaves postLeaves gapMask siblings
      precomputeEmptySubtreeHashes
    (keys ≠ [] → sorted.Pairwise (· < ·) → 256 * keys.length < 2 ^ 256 →
      (gapCount sorted).toNat = levels.length ∧
      ((∃ g, requireShape sorted gapMask siblings = .ok g) ↔
        p.isWellFormedFor levels = true) ∧
      (keys.length ≤ MAX_OPENED_CELLS → p.isWellFormedFor levels = true →
        ∃ preRoot postRoot gc,
          result = .ok (preRoot, postRoot) ∧
          multiWalk smtDepth (openedCells keys preLeaves) (expandMultiProof levels p) =
            some (bytes32Bytes preRoot, []) ∧
          multiWalk smtDepth (openedCells keys postLeaves) (expandMultiProof levels p) =
            some (bytes32Bytes postRoot, []) ∧
          walkLeaves gapMask siblings precomputeEmptySubtreeHashes sorted preLeaves postLeaves []
            ⟨0, 0, maskWordFor gapMask 0⟩ = .ok ((preRoot, postRoot), gc) ∧
          gc.gapIdx = levels.length ∧
          gc.cursor = p.siblings.length) ∧
      (p.isWellFormedFor levels = false → ∃ e, result = .error e)) ∧
    (¬ sorted.Pairwise (· < ·) → ∃ e, result = .error e) ∧
    (MAX_OPENED_CELLS < keys.length → result = .error (.tooManyCells keys.length)) := by
  intro sorted levels p result
  refine ⟨?_, fun h => multiWalkPair_error _ _ _ (.inl h), ?_⟩
  · intro hne hasc hsmall
    obtain ⟨hcount, hshape⟩ := requireShape_openedCells gapMask siblings hne hsmall hpre hasc
    refine ⟨hcount, hshape, ?_, ?_⟩
    · intro hcap hwf
      obtain ⟨preRoot, postRoot, gc, hloop, h1, h2, h3, h4⟩ :=
        walkLeaves_agrees hne hpre hpost hasc rfl rfl hwf
      have hresult := multiWalkPair_of_loop (by simpa using hne)
        ((length_map _).trans_le hcap) hasc (hshape.mpr hwf) hloop
      exact ⟨preRoot, postRoot, gc, hresult, h1, h2, hloop, h3, h4⟩
    · intro hwf
      refine multiWalkPair_error _ _ _ (.inr ?_)
      rw [hshape, hwf]
      exact Bool.false_ne_true
  · intro hmany
    have hsorted : sorted.length = keys.length := length_map _
    simp only [result, multiWalkPair]
    rw [if_neg (by rw [hsorted]; omega), if_pos (by rw [hsorted]; exact hmany), hsorted]

end Agreement

/-- Two cells on the two sides of the root, with one sibling on the wire. -/
theorem multi_walk_agrees_two_cells :
    let keys : List Bytes32 := [0#256, 1#256]
    let gapMask : Calldata := ⟨1 :: List.replicate 63 0, fun _ => 0xff⟩
    let siblings : Calldata := ⟨List.replicate 32 7, fun _ => 0xff⟩
    ∃ preRoot postRoot,
      @multiWalkPair zeroKeccak (keys.map pathIndex) [2#256, 3#256] [4#256, 5#256] gapMask
        siblings (@precomputeEmptySubtreeHashes zeroKeccak) = .ok (preRoot, postRoot) := by
  intro keys gapMask siblings
  have hasc : (keys.map pathIndex).Pairwise (· < ·) := by decide +kernel
  obtain ⟨hall, -, -⟩ := @multi_walk_agrees zeroKeccak keys [2#256, 3#256] [4#256, 5#256]
    gapMask siblings rfl rfl
  obtain ⟨hcount, -, hroots, -⟩ := hall (by decide) hasc (by decide)
  obtain ⟨preRoot, postRoot, -, hok, -⟩ := hroots (by decide) (by
    rw [isWellFormedFor_iff, ← hcount]
    decide +kernel)
  exact ⟨preRoot, postRoot, hok⟩

/-- The kernel walks a well-formed proof of 33 cells; the contract refuses it. -/
theorem thirty_three_cells_refused :
    let keys := (List.range 33).map (fun i => pathIndex (BitVec.ofNat 256 i))
    let leaves := List.replicate 33 0#256
    let gapMask : Calldata := ⟨List.replicate 32 0, fun _ => 0⟩
    let siblings : Calldata := ⟨[], fun _ => 0⟩
    let levels := multiGapLevels smtDepth (openedCells keys leaves)
    let p := wireProof gapMask.bytes siblings.bytes
    (keys.map pathIndex).Pairwise (· < ·) ∧
      p.isWellFormedFor levels = true ∧
      (∃ g, requireShape (keys.map pathIndex) gapMask siblings = .ok g) ∧
      (@multiWalk zeroKeccak smtDepth (openedCells keys leaves)
        (@expandMultiProof zeroKeccak levels p)).isSome ∧
      @multiWalkPair zeroKeccak (keys.map pathIndex) leaves leaves gapMask siblings
        (@precomputeEmptySubtreeHashes zeroKeccak) = .error (.tooManyCells 33) := by
  intro keys leaves gapMask siblings levels p
  have hasc : (keys.map pathIndex).Pairwise (· < ·) := by decide +kernel
  have hcount : (gapCount (keys.map pathIndex)).toNat = levels.length :=
    @gapCount_openedCells keys leaves leaves (by decide) (by decide) (by decide) hasc
      (by norm_num [keys])
  have hwf : p.isWellFormedFor levels = true := by
    rw [isWellFormedFor_iff, ← hcount]
    decide +kernel
  obtain ⟨preRoot, -, -, -, hwalk, -⟩ := @walkLeaves_agrees keys leaves leaves zeroKeccak
    gapMask siblings (by decide) (by decide) (by decide) hasc p levels rfl rfl hwf
  refine ⟨hasc, hwf, (requireShape_iff hcount).mpr hwf, ?_, by decide +kernel⟩
  rw [hwalk]
  rfl

end Knomosis.Smt
