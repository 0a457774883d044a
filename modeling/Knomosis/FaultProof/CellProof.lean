import Knomosis.FaultProof.Cells

/-!
# Openings of a single cell

The siblings on the way from a leaf to the root.  A mask says at which levels the
sibling is not the root of an empty subtree, and only those siblings are listed.
A mask with more marks than there are siblings is padded.

The actions of a batch are committed to in a tree of the same kind, at the hash of
their log index.
-/

namespace Knomosis.FaultProof

open Lib Contracts Smt Kernel

structure SmtCellProof where
  siblings : List Bytes
  bitmask : Bytes
deriving DecidableEq

namespace SmtCellProof

/-- The sibling at level `d` is listed. -/
def bitmaskBit (proof : SmtCellProof) (d : ℕ) : Bool :=
  (proof.bitmask[d / 8]?).any fun b => (b.toNat >>> (d % 8)) % 2 = 1

def isWellFormed (proof : SmtCellProof) : Bool :=
  proof.bitmask.length = 32 && proof.siblings.all fun s => s.length = 32

end SmtCellProof

section Walk

variable [Keccak]

/-- The siblings of `n` levels from level `d` on, the next listed one being at `idx`. -/
def expandSiblingsAux (proof : SmtCellProof) : ℕ → ℕ → ℕ → List Bytes
  | _, _, 0 => []
  | d, idx, n + 1 =>
    if proof.bitmaskBit d then
      proof.siblings[idx]?.getD paddingHash :: expandSiblingsAux proof (d + 1) (idx + 1) n
    else emptySubtreeHash d :: expandSiblingsAux proof (d + 1) idx n

def expandSiblings (proof : SmtCellProof) : List Bytes := expandSiblingsAux proof 0 0 smtDepth

def smtStep (current sibling : Bytes) (bit : Bool) : Bytes :=
  if bit then hashBytes (sibling ++ current) else hashBytes (current ++ sibling)

def keyBits (key : Bytes) : List Bool := (List.range smtDepth).map (keyBit key)

def smtWalkFrom (leaf key : Bytes) (proof : SmtCellProof) : Bytes :=
  ((expandSiblings proof).zip (keyBits key)).foldl (fun current sb => smtStep current sb.1 sb.2)
    leaf

def verifySmtCellProof (root key value : Bytes) (proof : SmtCellProof) : Bool :=
  proof.isWellFormed && smtWalkFrom (leafHash key value) key proof = root

/-- The opening of a cell of the state, absent cells included. -/
def verifyStateCellProof (root : Bytes) (t : CellTag) (value : Bytes) (proof : SmtCellProof) :
    Bool :=
  proof.isWellFormed && smtWalkFrom (cellLeaf t value) (smtCellKey t) proof = root

end Walk

section Actions

variable [Keccak]

/-- The bytes of `knomosis.actionsRoot`. -/
def actionKeyDomain : Bytes :=
  [0x6b, 0x6e, 0x6f, 0x6d, 0x6f, 0x73, 0x69, 0x73, 0x2e, 0x61, 0x63, 0x74, 0x69, 0x6f, 0x6e,
    0x73, 0x52, 0x6f, 0x6f, 0x74]

/-- The place of the action with log index `n`. -/
def actionKey (n : ℕ) : Bytes := hashBytes (actionKeyDomain ++ uint64BE n)

def actionLeafPreimage (kind : UInt8) (signer : ℕ) (fields sig : Bytes) : Bytes :=
  [kind] ++ uint64BE signer ++ fields ++ sig

def actionLeafValue (st : SignedAction) : Bytes :=
  hashBytes (actionLeafPreimage (actionKindByte st.action) st.signer.toNat
    (actionFieldsForL1 st.action) st.sig)

def verifyActionProof (root : Bytes) (n : ℕ) (commit : Bytes) (proof : SmtCellProof) : Bool :=
  verifySmtCellProof root (actionKey n) commit proof

end Actions

end Knomosis.FaultProof
