import Knomosis.Contracts.Evm
import Knomosis.Lib.Word

/-!
# SmtMultiVerifier

The contract's walk of a multiproof.  The opened cells come as path indices,
keys with their bits reversed, in strictly ascending order.  The shape of the
wire is checked against the gap count that the indices imply, and then the pre-
and post-leaves are folded into two roots in one pass from left to right, with a
stack of pending merges and one cursor into the wire.

Words are `Bytes32`.  Levels, gap numbers and lengths are natural numbers; only
`gapCount` relies on wrapping, where it subtracts the number of cells.
-/

namespace Knomosis.Smt

open Lib Contracts

def M1 : Bytes32 := 0x5555555555555555555555555555555555555555555555555555555555555555#256
def M2 : Bytes32 := 0x3333333333333333333333333333333333333333333333333333333333333333#256
def M4 : Bytes32 := 0x0f0f0f0f0f0f0f0f0f0f0f0f0f0f0f0f0f0f0f0f0f0f0f0f0f0f0f0f0f0f0f0f#256
def M8 : Bytes32 := 0x00ff00ff00ff00ff00ff00ff00ff00ff00ff00ff00ff00ff00ff00ff00ff00ff#256
def M16 : Bytes32 := 0x0000ffff0000ffff0000ffff0000ffff0000ffff0000ffff0000ffff0000ffff#256
def M32 : Bytes32 := 0x00000000ffffffff00000000ffffffff00000000ffffffff00000000ffffffff#256
def M64 : Bytes32 := 0x0000000000000000ffffffffffffffff0000000000000000ffffffffffffffff#256

/-- The key with its bits reversed. -/
def pathIndex (key : Bytes32) : Bytes32 :=
  let r := swapBlocks M1 1 key
  let r := swapBlocks M2 2 r
  let r := swapBlocks M4 4 r
  let r := swapBlocks M8 8 r
  let r := swapBlocks M16 16 r
  let r := swapBlocks M32 32 r
  let r := swapBlocks M64 64 r
  (r <<< 128) ||| (r >>> 128)

def msb (x : Bytes32) : ℕ :=
  let p := halve 2 (halve 4 (halve 8 (halve 16 (halve 32 (halve 64 (halve 128 (x.toNat, 0)))))))
  if 2 ≤ p.1 then p.2 + 1 else p.2

/-- The level at which two paths diverge. -/
def divLevel (pa pb : Bytes32) : ℕ := msb (pa ^^^ pb)

def popcount (x : Bytes32) : Bytes32 :=
  let x := x - ((x >>> 1) &&& M1)
  let x := (x &&& M2) + ((x >>> 2) &&& M2)
  let x := (x + (x >>> 4)) &&& M4
  let ones : Bytes32 := 0x01010101010101010101010101010101#256
  let lo := x &&& ((1#256 <<< 128) - 1#256)
  let hi := x >>> 128
  (((lo * ones) >>> 120) &&& 0xFF#256) + (((hi * ones) >>> 120) &&& 0xFF#256)

/-- The errors of the library, and the panic of an array access out of bounds. -/
inductive MultiProofError
  | tooManyCells (count : ℕ)
  | empty
  | notStrictlySorted (index : ℕ)
  | maskLength (expected got : ℕ)
  | padding (gapIndex : ℕ)
  | siblingCount (expected got : ℕ)
  | outOfBounds
  deriving DecidableEq

/-- What the loop of `gapCount` adds up. -/
def divSum : List Bytes32 → ℕ
  | [] => 0
  | [_] => 0
  | a :: b :: sorted => divLevel a b + divSum (b :: sorted)

/-- The number of gaps that a set of cells implies. -/
def gapCount (sorted : List Bytes32) : Bytes32 :=
  257#256 - BitVec.ofNat 256 sorted.length + BitVec.ofNat 256 (divSum sorted)

/-- Bit `g` of the mask, read from its byte; a gap past the mask reads clear. -/
def gapBit (mask : Calldata) (g : ℕ) : ℕ :=
  match mask.bytes[g >>> 3]? with
  | none => 0
  | some b => (b.toNat >>> (g % 8)) % 2

/-- The first set bit of the mask at or past the last gap. -/
def firstPadding (gapMask : Calldata) (g wantMask : ℕ) : Option ℕ :=
  (List.range' g (wantMask * 8 - g)).find? (fun b => gapBit gapMask b == 1)

/-- Word `w` of the mask, without the bytes that are not the mask's. -/
def validWord (gapMask : Calldata) (wantMask w : ℕ) : Bytes32 :=
  let word := gapMask.load (w * 32)
  let valid := wantMask - w * 32
  if valid < 32 then word &&& ~~~((1#256 <<< (8 * (32 - valid))) - 1#256) else word

/-- The marked gaps, counted word by word. -/
def setBits (gapMask : Calldata) (wantMask : ℕ) : ℕ :=
  ((List.range ((wantMask + 31) / 32)).map
    (fun w => (popcount (validWord gapMask wantMask w)).toNat)).sum

/-- The wire has the shape that the cells imply; the answer is the gap count. -/
def requireShape (sorted : List Bytes32) (gapMask siblings : Calldata) : Except MultiProofError ℕ :=
  let g := (gapCount sorted).toNat
  let wantMask := (g + 7) / 8
  if gapMask.bytes.length ≠ wantMask then
    .error (.maskLength wantMask gapMask.bytes.length)
  else
    match firstPadding gapMask g wantMask with
    | some b => .error (.padding b)
    | none =>
      let wantSibs := setBits gapMask wantMask * 32
      if siblings.bytes.length ≠ wantSibs then
        .error (.siblingCount wantSibs siblings.bytes.length)
      else
        .ok g

section Walk

/-- The place in the wire: the next gap, the next sibling, and the mask word of the gap. -/
structure GapCursor where
  gapIdx : ℕ
  cursor : ℕ
  maskWord : Bytes32
  deriving DecidableEq

/-- The mask word that holds gap `g`. -/
def maskWordFor (mask : Calldata) (g : ℕ) : Bytes32 := mask.load ((g >>> 8) <<< 5)

/-- Bit `g` out of the mask word that holds it. -/
def gapBitFromWord (word : Bytes32) (g : ℕ) : Bool :=
  word.getLsbD (((31 - (g >>> 3) % 32) <<< 3) + g % 8)

/-- The sibling at gap `gapIdx`, which lies at level `lvl`, and the cursor after it. -/
def nextSibling (gapMask siblings : Calldata) (empties : List Bytes32) (lvl : ℕ)
    (gc : GapCursor) : Bytes32 × GapCursor :=
  let marked := gapBitFromWord gc.maskWord gc.gapIdx
  let sib := if marked then siblings.load (gc.cursor <<< 5) else empties.getD lvl 0
  let gapIdx := gc.gapIdx + 1
  (sib,
    { gapIdx
      cursor := if marked then gc.cursor + 1 else gc.cursor
      maskWord := if gapIdx % 256 = 0 then maskWordFor gapMask gapIdx else gc.maskWord })

variable [Keccak]

/-- Raise a pair of leaves `n` levels from level `lvl`, one gap a level. -/
def climb (gapMask siblings : Calldata) (empties : List Bytes32) (curKey : Bytes32) :
    ℕ → ℕ → (Bytes32 × Bytes32) × GapCursor → (Bytes32 × Bytes32) × GapCursor
  | 0, _, st => st
  | n + 1, lvl, (pair, gc) =>
    let (sib, gc) := nextSibling gapMask siblings empties lvl gc
    let pair :=
      if curKey.getLsbD lvl then (hashPair sib pair.1, hashPair sib pair.2)
      else (hashPair pair.1 sib, hashPair pair.2 sib)
    climb gapMask siblings empties curKey n (lvl + 1) (pair, gc)

/-- Settle every pending merge below `nextDiv`, then climb to `nextDiv`. -/
def settleMerges (gapMask siblings : Calldata) (empties : List Bytes32) (curKey : Bytes32)
    (nextDiv : ℕ) : List (ℕ × (Bytes32 × Bytes32)) → ℕ → (Bytes32 × Bytes32) × GapCursor →
      List (ℕ × (Bytes32 × Bytes32)) × ((Bytes32 × Bytes32) × GapCursor)
  | [], lvl, st => ([], climb gapMask siblings empties curKey (nextDiv - lvl) lvl st)
  | (mergeAt, half) :: stack, lvl, st =>
    if mergeAt < nextDiv then
      let (pair, gc) := climb gapMask siblings empties curKey (mergeAt - lvl) lvl st
      settleMerges gapMask siblings empties curKey nextDiv stack (mergeAt + 1)
        ((hashPair half.1 pair.1, hashPair half.2 pair.2), gc)
    else
      ((mergeAt, half) :: stack, climb gapMask siblings empties curKey (nextDiv - lvl) lvl st)

/-- The loop over the leaves; the stack holds the pending merges, the latest first. -/
def walkLeaves (gapMask siblings : Calldata) (empties : List Bytes32) :
    List Bytes32 → List Bytes32 → List Bytes32 → List (ℕ × (Bytes32 × Bytes32)) → GapCursor →
      Except MultiProofError ((Bytes32 × Bytes32) × GapCursor)
  | curKey :: sorted, pre :: preLeaves, post :: postLeaves, stack, gc =>
    match sorted with
    | [] => .ok (settleMerges gapMask siblings empties curKey 256 stack 0 ((pre, post), gc)).2
    | next :: sorted =>
      let nextDiv := divLevel curKey next
      let r := settleMerges gapMask siblings empties curKey nextDiv stack 0 ((pre, post), gc)
      walkLeaves gapMask siblings empties (next :: sorted) preLeaves postLeaves
        ((nextDiv, r.2.1) :: r.1) r.2.2
  | _, _, _, _, _ => .error .outOfBounds

/-- The first index at which the path indices do not ascend. -/
def firstUnsorted : ℕ → List Bytes32 → Option ℕ
  | _, [] => none
  | _, [_] => none
  | j, a :: b :: sorted => if b ≤ a then some j else firstUnsorted (j + 1) (b :: sorted)

def MAX_OPENED_CELLS : ℕ := 32

/-- The roots that the pre- and the post-leaves fold to. -/
def multiWalkPair (sorted preLeaves postLeaves : List Bytes32) (gapMask siblings : Calldata)
    (empties : List Bytes32) : Except MultiProofError (Bytes32 × Bytes32) :=
  let m := sorted.length
  if m = 0 then .error .empty
  else if MAX_OPENED_CELLS < m then .error (.tooManyCells m)
  else
    match firstUnsorted 0 sorted with
    | some j => .error (.notStrictlySorted j)
    | none =>
      match requireShape sorted gapMask siblings with
      | .error e => .error e
      | .ok _ =>
        match walkLeaves gapMask siblings empties sorted preLeaves postLeaves []
          ⟨0, 0, maskWordFor gapMask 0⟩ with
        | .error e => .error e
        | .ok st => .ok st.1

/-- The running hash of the table of empty subtrees, written `n` times. -/
def emptiesFrom : Bytes32 → ℕ → List Bytes32
  | _, 0 => []
  | h, n + 1 => h :: emptiesFrom (hashPair h h) n

/-- `SmtCellVerifier.precomputeEmptySubtreeHashes`, over the bytes of `EMPTY_LEAF`. -/
def precomputeEmptySubtreeHashes : List Bytes32 :=
  emptiesFrom (keccak256 [0x45, 0x4d, 0x50, 0x54, 0x59, 0x5f, 0x4c, 0x45, 0x41, 0x46]) 256

end Walk

end Knomosis.Smt
