import Knomosis.Kernel.Encoding
import Knomosis.Lib.SparseTree

/-!
# The tree of pending withdrawals

The root that the bridge redeems withdrawals against commits to the pending
withdrawals by their identifiers.  The kernel computes it by halving the list of
entries level by level and stops early where a half is empty; it is the root of the
complete tree whose leaves are the encoded withdrawals and, where there is none, a
fixed word.
-/

namespace Knomosis.Kernel

open Std (TreeMap)
open Lib Smt List Nat SparseTree

def smtHeight : ℕ := 64

/-- The leaf where no withdrawal is pending. -/
def emptyLeafHash : Bytes := List.replicate 32 0

/-- The side that an identifier takes at a level. -/
def pathBitAtLevel (idx : WithdrawalId) (level : ℕ) : Bool := (idx >>> level) &&& 1 = 1

def leafBytes (wd : PendingWithdrawal) : Bytes := wd.encode

section Tree

variable (H : Bytes → Bytes)

def defaultHash : ℕ → Bytes
  | 0 => emptyLeafHash
  | i + 1 => H (defaultHash i ++ defaultHash i)

/-- The hash of the subtree with some entries. -/
def rangeRoot : ℕ → List (WithdrawalId × PendingWithdrawal) → Bytes
  | level, [] => defaultHash H level
  | 0, (_, wd) :: _ => leafBytes wd
  | k + 1, entry :: entries =>
    H (rangeRoot k ((entry :: entries).filter (fun p => pathBitAtLevel p.1 k = false)) ++
      rangeRoot k ((entry :: entries).filter (fun p => pathBitAtLevel p.1 k = true)))

def withdrawalRoot (b : BridgeState) : Bytes := rangeRoot H smtHeight b.pending.toList

/-- How two nodes are joined. -/
def joinNodes (left right : Bytes) : Bytes := H (left ++ right)

end Tree

def leafOf (wd : Option PendingWithdrawal) : Bytes := wd.elim emptyLeafHash leafBytes

def leafIn (entries : List (WithdrawalId × PendingWithdrawal)) (k : ℕ) : Bytes :=
  leafOf (entries.lookup k)

theorem pathBitAtLevel_eq (idx level : ℕ) :
    pathBitAtLevel idx level = decide (idx / 2 ^ level % 2 = 1) := by
  rw [pathBitAtLevel, and_one_is_mod, shiftRight_eq_div_pow]

theorem lookup_filter
    (keep : WithdrawalId → Bool) (entries : List (WithdrawalId × PendingWithdrawal)) (k : ℕ) :
    (entries.filter (fun p => keep p.1)).lookup k = if keep k then entries.lookup k else none := by
  induction entries with
  | nil => simp
  | cons entry _ ih =>
    obtain ⟨id, wd⟩ := entry
    rw [filter_cons]
    by_cases hk : k = id
    · subst hk
      by_cases hkeep : keep k = true
      · simp [hkeep]
      · simp [hkeep, ih]
    · have hne : (k == id) = false := beq_false_of_ne hk
      by_cases hkeep : keep id = true
      · simp [hkeep, lookup_cons, hne, ih]
      · simp [hkeep, lookup_cons, hne, ih]

section Root

variable {H : Bytes → Bytes}

theorem defaultHash_eq_node (d a : ℕ) :
    defaultHash H d = node (joinNodes H) (fun _ => emptyLeafHash) d a := by
  induction d generalizing a with
  | zero => rfl
  | succ d ih =>
    rw [defaultHash, node, ← ih, ← ih]
    rfl

variable {entries : List (WithdrawalId × PendingWithdrawal)} {c a : ℕ} {bit : Bool}

/-- The subtree of the entries of one half, among the leaves of all entries. -/
theorem node_half {k : ℕ} (hbit : decide (c % 2 = 1) = bit) :
    node (joinNodes H)
        (leafIn (entries.filter (fun p => pathBitAtLevel p.1 k = bit))) k c =
      node (joinNodes H) (leafIn entries) k c := by
  refine node_congr (fun i hi => ?_)
  have hkeep : decide (pathBitAtLevel i k = bit) = true := by
    rw [pathBitAtLevel_eq, hi, hbit]
    simp
  rw [leafIn, lookup_filter (fun id => decide (pathBitAtLevel id k = bit)), if_pos hkeep]
  rfl

theorem eq_child (hup : c / 2 = a) (hbit : decide (c % 2 = 1) = bit) : c = 2 * a + bit.toNat := by
  cases bit with
  | false =>
    have hside := of_decide_eq_false hbit
    simp only [Bool.toNat_false]
    omega
  | true =>
    have hside := of_decide_eq_true hbit
    simp only [Bool.toNat_true]
    omega

/-- The kernel's recursion computes the node over its entries. -/
theorem rangeRoot_eq_node {level : ℕ} (hids : ∀ p ∈ entries, p.1 / 2 ^ level = a) :
    rangeRoot H level entries = node (joinNodes H) (leafIn entries) level a := by
  induction level generalizing a entries with
  | zero =>
    cases entries with
    | nil => rfl
    | cons entry =>
      have hid : entry.1 = a := by simpa using hids entry mem_cons_self
      rw [rangeRoot, node, leafIn, ← hid, lookup_cons, beq_self_eq_true]
      rfl
  | succ k ih =>
    cases entries with
    | nil => exact defaultHash_eq_node (k + 1) a
    | cons entry entries =>
      -- the bit at level `k` decides between the two children of node `a`
      have hhalf : ∀ bit, ∀ p ∈ (entry :: entries).filter
          (fun p => pathBitAtLevel p.1 k = bit), p.1 / 2 ^ k = 2 * a + bit.toNat := by
        intro bit p hp
        obtain ⟨hmem, hside⟩ := mem_filter.mp hp
        have hup := hids p hmem
        rw [Nat.pow_succ, ← Nat.div_div_eq_div_mul] at hup
        rw [pathBitAtLevel_eq, decide_eq_true_iff] at hside
        exact eq_child hup hside
      rw [rangeRoot, ih (hhalf false), ih (hhalf true), node_half, node_half]
      · rfl
      · simp [Nat.add_mod]
      · simp

def pendingLeaf (b : BridgeState) (k : ℕ) : Bytes := leafOf b.pending[k]?

theorem lookup_toList (b : BridgeState) (k : ℕ) : b.pending.toList.lookup k = b.pending[k]? := by
  refine Option.ext (fun wd => ?_)
  rw [← TreeMap.mem_toList_iff_getElem?_eq_some, lookup_eq_some_iff]
  constructor
  · rintro ⟨before, after, hsplit, -⟩
    rw [hsplit]
    exact mem_append_right _ mem_cons_self
  · intro hmem
    obtain ⟨before, after, hsplit⟩ := append_of_mem hmem
    refine ⟨before, after, hsplit, ?_⟩
    intro p hp
    have hdistinct : b.pending.toList.Pairwise (fun p q => ¬ compare p.1 q.1 = .eq) :=
      TreeMap.distinct_keys_toList
    rw [hsplit, pairwise_append] at hdistinct
    have hne := hdistinct.2.2 p hp (k, wd) mem_cons_self
    rw [bne_iff_ne]
    rintro rfl
    exact hne (compare_eq_iff_eq.mpr rfl)

theorem withdrawalRoot_eq_node {b : BridgeState}
    (hids : ∀ k wd, b.pending[k]? = some wd → k < 2 ^ smtHeight) :
    withdrawalRoot H b = node (joinNodes H) (pendingLeaf b) smtHeight 0 := by
  have hleaf : leafIn b.pending.toList = pendingLeaf b := by
    funext k
    rw [leafIn, lookup_toList, pendingLeaf]
  rw [withdrawalRoot, rangeRoot_eq_node, hleaf]
  intro p hp
  exact div_eq_of_lt (hids p.1 p.2 (TreeMap.mem_toList_iff_getElem?_eq_some.mp hp))

end Root

/-- One step of the records of the bridge: an action at its log index, or a change of what mirrors
the chain below. -/
inductive BridgeStep (b : BridgeState) : BridgeState → Prop
  | action (a : Action) (l2LogIndex : ℕ) : BridgeStep b (applyActionToBridgeState b a l2LogIndex)
  | mirror
      (b' : BridgeState)
      (hpending : b'.pending = b.pending)
      (hnext : b'.nextWdId = b.nextWdId) :
      BridgeStep b b'

/-- The records of the bridge over the life of the ledger. -/
structure L2History where
  states : ℕ → BridgeState
  start : states 0 = BridgeState.empty
  step : ∀ n, BridgeStep (states n) (states (n + 1))

/-- Identifiers below the next one are used up. -/
def UsedBelow (b : BridgeState) : Prop := ∀ k wd, b.pending[k]? = some wd → k < b.nextWdId

theorem BridgeStep.pending {b b' : BridgeState} (hstep : BridgeStep b b') (hused : UsedBelow b) :
    UsedBelow b' ∧ ∀ (k : ℕ) wd, b.pending[k]? = some wd → b'.pending[k]? = some wd := by
  cases hstep with
  | mirror _ hpending hnext =>
    rw [UsedBelow, hpending, hnext]
    exact ⟨hused, fun _ _ h => h⟩
  | action a l2LogIndex =>
    cases a with
    | withdraw r sender amount recipientL1 =>
      have hinsert : ∀ k, (applyActionToBridgeState b (.withdraw r sender amount recipientL1)
          l2LogIndex).pending[k]? =
            if b.nextWdId = k then some ⟨r, recipientL1, amount, l2LogIndex, b.nextWdId⟩
            else b.pending[k]? := by
        intro k
        simp only [applyActionToBridgeState, BridgeState.appendWithdrawal,
          TreeMap.getElem?_insert, compare_eq_iff_eq]
      refine ⟨?_, ?_⟩
      · intro k wd hk
        rw [hinsert] at hk
        split_ifs at hk with heq
        · exact heq ▸ lt_succ_self _
        · exact lt_succ_of_lt (hused k wd hk)
      · intro k wd hk
        rw [hinsert, if_neg]
        · exact hk
        · rintro rfl
          exact lt_irrefl _ (hused _ wd hk)
    | _ => exact ⟨hused, fun _ _ h => h⟩

namespace L2History

variable (hist : L2History)

theorem usedBelow (n : ℕ) : UsedBelow (hist.states n) := by
  induction n with
  | zero =>
    rw [hist.start]
    intro k wd hk
    simp [BridgeState.empty] at hk
  | succ n ih => exact ((hist.step n).pending ih).1

theorem pending_of_le {m n k : ℕ} {wd : PendingWithdrawal} (hle : m ≤ n)
    (hk : (hist.states m).pending[k]? = some wd) : (hist.states n).pending[k]? = some wd := by
  induction hle with
  | refl => exact hk
  | step _ ih => exact ((hist.step _).pending (hist.usedBelow _)).2 k wd ih

/-- An identifier names one withdrawal in all of the history. -/
theorem pending_unique {m n k : ℕ} {wd wd' : PendingWithdrawal}
    (hm : (hist.states m).pending[k]? = some wd) (hn : (hist.states n).pending[k]? = some wd') :
    wd = wd' := by
  rcases le_total m n with hle | hle
  · exact Option.some.inj ((hist.pending_of_le hle hm).symm.trans hn)
  · exact Option.some.inj (hm.symm.trans (hist.pending_of_le hle hn))

end L2History

end Knomosis.Kernel
