import Knomosis.Kernel.Encoding

/-!
# State cells

The state is committed to cell by cell.  A cell has a kind and up to two numbers
as its key; the place of the cell in the tree is the hash of kind and key.  A cell
whose value is the canonical absent one occupies no place.
-/

namespace Knomosis.FaultProof

open Lib Contracts Smt Kernel

inductive CellTag where
  | balance (resource : ResourceId) (actor : ActorId)
  | nonce (actor : ActorId)
  | registry (actor : ActorId)
  | localPolicy (actor : ActorId)
  | bridgeConsumed (depositId : DepositId)
  | bridgePending (withdrawalId : WithdrawalId)
  | bridgeNextWdId
  | bridgeBoldCircuitClosed
  | bridgeBoldTvlCap
  | bridgeBoldTotalLockedValue
  | bridgeAmmDisabled
  | epochBudget (actor : ActorId)
  | budgetPolicy
deriving DecidableEq

namespace CellTag

def kindIndex : CellTag → ℕ
  | balance .. => 0
  | nonce .. => 1
  | registry .. => 2
  | localPolicy .. => 3
  | bridgeConsumed .. => 4
  | bridgePending .. => 5
  | bridgeNextWdId => 6
  | bridgeBoldCircuitClosed => 9
  | bridgeBoldTvlCap => 10
  | bridgeBoldTotalLockedValue => 11
  | bridgeAmmDisabled => 12
  | epochBudget .. => 13
  | budgetPolicy => 14

/-- The two numbers of the cell's key, zero where the kind has none. -/
def keyParts : CellTag → ℕ × ℕ
  | balance r a => (r.toNat, a.toNat)
  | nonce a | registry a | localPolicy a | epochBudget a => (a.toNat, 0)
  | bridgeConsumed n | bridgePending n => (n, 0)
  | _ => (0, 0)

theorem eq_of_key {t u : CellTag} (hkind : t.kindIndex = u.kindIndex)
    (hkey : t.keyParts = u.keyParts) : t = u := by
  cases t <;> cases u <;> simp_all [kindIndex, keyParts, UInt64.toNat_inj]

end CellTag

/-- The bytes whose hash is the place of a cell. -/
def cellKeyPreimageOf (kind keyA keyB : ℕ) : Bytes :=
  UInt8.ofNat kind :: (beBytes 32 keyA ++ beBytes 32 keyB)

def cellKeyPreimage (t : CellTag) : Bytes := cellKeyPreimageOf t.kindIndex t.keyParts.1 t.keyParts.2

/-- The value with which a cell occupies no place. -/
def canonicalAbsentValue : CellTag → Bytes
  | .balance .. | .bridgeBoldTvlCap | .bridgeBoldTotalLockedValue => encodeAmount 0
  | .nonce .. | .bridgeNextWdId | .bridgeBoldCircuitClosed | .bridgeAmmDisabled => encodeNat 0
  | .registry .. | .localPolicy .. | .bridgeConsumed .. | .bridgePending .. => []
  | .epochBudget .. => ActorBudget.empty.encode
  | .budgetPolicy => (BudgetPolicy.bounded 0 0 0).encode

section Leaves

variable [Keccak]

def cellKey (t : CellTag) : Bytes32 := keccak256 (cellKeyPreimage t)

/-- The place of a cell as the kernel has it. -/
def smtCellKey (t : CellTag) : Bytes := hashBytes (cellKeyPreimage t)

theorem smtCellKey_eq (t : CellTag) : smtCellKey t = bytes32Bytes (cellKey t) := rfl

def leafHash (key value : Bytes) : Bytes := hashBytes (encodeBytes key ++ encodeBytes value)

def cellLeaf (t : CellTag) (value : Bytes) : Bytes :=
  if value = canonicalAbsentValue t then emptySubtreeHash 0
  else leafHash (smtCellKey t) value

end Leaves

end Knomosis.FaultProof
