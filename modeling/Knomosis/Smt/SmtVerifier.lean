import Knomosis.Contracts.Evm
import Knomosis.Lib.SparseTree
import Knomosis.Lib.Word

/-!
# SmtVerifier

The contract's check of a place in the tree of withdrawals.  The leaf and the
sibling next to it may have any length; every sibling above is one word.  The
siblings come with the one next to the root first.
-/

namespace Knomosis.Smt

open Lib Contracts

def SMT_HEIGHT : ℕ := 64

inductive SmtError where
  | smtBadProofShape (expected actual : ℕ)
  | smtBadSiblingSize (siblingArrayIndex actualSize : ℕ)
deriving DecidableEq

section Walk

variable [Keccak]

/-- The loop over the siblings above the lowest one; the next one is of level `i`. -/
def climbLoop (idx : ℕ) : ℕ → Bytes32 → List (List UInt8) → Except SmtError Bytes32
  | _, current, [] => .ok current
  | i, current, sibling :: siblings =>
    if sibling.length ≠ 32 then
      .error (.smtBadSiblingSize (SMT_HEIGHT - 1 - i) sibling.length)
    else
      let sib := bytesWord sibling
      climbLoop idx (i + 1)
        (if (idx >>> i) &&& 1 = 1 then hashPair sib current else hashPair current sib) siblings

def recomputeRoot (idx : ℕ) (leaf : List UInt8) (siblings : List (List UInt8)) :
    Except SmtError Bytes32 :=
  if siblings.length ≠ SMT_HEIGHT then .error (.smtBadProofShape SMT_HEIGHT siblings.length)
  else
    match siblings.reverse with
    | [] => .error (.smtBadProofShape SMT_HEIGHT siblings.length)
    | leafSibling :: upper =>
      climbLoop idx 1
        (if idx &&& 1 = 1 then keccak256 (leafSibling ++ leaf)
          else keccak256 (leaf ++ leafSibling)) upper

def verifyProof (idx : ℕ) (leaf : List UInt8) (siblings : List (List UInt8)) (root : Bytes32) :
    Except SmtError Bool := do
  let recomputed ← recomputeRoot idx leaf siblings
  .ok (recomputed = root)

end Walk

section Climb

variable [Keccak]

/-- The hash of two byte strings, as the bytes of a word. -/
def joinBytes (a b : List UInt8) : List UInt8 := bytes32Bytes (keccak256 (a ++ b))

theorem hashPair_bytes (a b : Bytes32) :
    bytes32Bytes (hashPair a b) = joinBytes (bytes32Bytes a) (bytes32Bytes b) :=
  rfl

variable {idx i : ℕ} {current root : Bytes32} {siblings : List (List UInt8)} {leaf : List UInt8}

/-- The loop climbs the tree, and all of its siblings are words. -/
theorem climbLoop_eq_ok (h : climbLoop idx i current siblings = .ok root) :
    bytes32Bytes root =
        SparseTree.climb joinBytes (idx / 2 ^ i) (bytes32Bytes current) siblings ∧
      ∀ s ∈ siblings, s.length = 32 := by
  induction siblings generalizing i current with
  | nil =>
    cases h
    exact ⟨rfl, fun s hs => absurd hs List.not_mem_nil⟩
  | cons sibling _ ih =>
    obtain ⟨hlen, h⟩ := guard_eq_ok.mp h
    have hlen' : sibling.length = 32 := not_not.mp hlen
    obtain ⟨hroot, hsizes⟩ := ih h
    refine ⟨?_, ?_⟩
    · rw [hroot, SparseTree.climb, Nat.div_div_eq_div_mul, ← Nat.pow_succ, SparseTree.pair,
        Nat.and_one_is_mod, Nat.shiftRight_eq_div_pow]
      split_ifs with hbit
      · rw [hashPair_bytes, bytes32Bytes_bytesWord hlen']
      · rw [hashPair_bytes, bytes32Bytes_bytesWord hlen']
    · intro s hs
      rcases List.mem_cons.mp hs with rfl | hs
      · exact hlen'
      · exact hsizes s hs

/-- What a recomputed root says about the proof. -/
theorem recomputeRoot_eq_ok (h : recomputeRoot idx leaf siblings = .ok root) :
    ∃ leafSibling upper, siblings.reverse = leafSibling :: upper ∧ upper.length = 63 ∧
      (∀ s ∈ upper, s.length = 32) ∧
      bytes32Bytes root = SparseTree.climb joinBytes idx leaf (leafSibling :: upper) := by
  obtain ⟨hlen, h⟩ := guard_eq_ok.mp h
  have hlen' : siblings.reverse.length = 64 := by
    rw [List.length_reverse]
    exact not_not.mp hlen
  cases hrev : siblings.reverse with
  | nil =>
    rw [hrev] at hlen'
    cases hlen'
  | cons leafSibling upper =>
    rw [hrev] at h hlen'
    obtain ⟨hroot, hsizes⟩ := climbLoop_eq_ok h
    refine ⟨leafSibling, upper, rfl, Nat.succ.inj hlen', hsizes, ?_⟩
    rw [hroot, SparseTree.climb, Nat.pow_one, SparseTree.pair, Nat.and_one_is_mod]
    split_ifs with hbit
    · rfl
    · rfl

end Climb

end Knomosis.Smt
