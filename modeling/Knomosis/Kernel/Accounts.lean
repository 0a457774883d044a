import Knomosis.Kernel.Laws

/-!
# The balances that an action moves

Every law is a chain of credits and debits.  So what a law moves is a list of
accounts that can be read off the action and the state before it, every other
balance stays as it is, and the conditions on the credits keep every balance within
a machine word.
-/

namespace Knomosis.Kernel

open List

open Std (TreeMap)

/-- An account of the ledger: a resource and who holds it. -/
abbrev Account := ResourceId × ActorId

/-- Every balance fits a machine word. -/
def State.Bounded (s : State) : Prop := ∀ r a, getBalance s r a < maxAmount

/-- From `s` to `s'` only these accounts move, and they stay within a machine word. -/
structure Moves (s s' : State) (accounts : List Account) : Prop where
  frame : ∀ r a, (r, a) ∉ accounts → getBalance s' r a = getBalance s r a
  bounded : s.Bounded → s'.Bounded

section Steps

variable {s s' s'' : State} {accounts accounts' : List Account} {r : ResourceId} {a : ActorId}
variable {amount : Amount}

theorem Moves.refl (s : State) (accounts : List Account) : Moves s s accounts :=
  ⟨fun _ _ _ => rfl, id⟩

theorem Moves.trans (h : Moves s s' accounts) (h' : Moves s' s'' accounts') :
    Moves s s'' (accounts ++ accounts') where
  frame r a hnot := by
    rw [mem_append, not_or] at hnot
    rw [h'.frame r a hnot.2, h.frame r a hnot.1]
  bounded hb := h'.bounded (h.bounded hb)

theorem moves_setBalance {v : Amount} (hv : s.Bounded → v < maxAmount) :
    Moves s (setBalance s r a v) [(r, a)] where
  frame r' a' hnot := by
    rw [getBalance_setBalance, if_neg]
    rintro ⟨rfl, rfl⟩
    exact hnot mem_cons_self
  bounded hb r' a' := by
    rw [getBalance_setBalance]
    split_ifs
    · exact hv hb
    · exact hb r' a'

theorem moves_credit (h : AmountBounded s r a amount) : Moves s (credit s r a amount) [(r, a)] :=
  moves_setBalance (fun _ => h)

theorem moves_debit : Moves s (debit s r a amount) [(r, a)] :=
  moves_setBalance (fun hb => (Nat.sub_le _ _).trans_lt (hb r a))

theorem moves_move {payer payee : ActorId} (h : Laws.MoveBounded r amount s payer payee) :
    Moves s (Laws.move r amount s payer payee) [(r, payer), (r, payee)] :=
  moves_debit.trans (moves_credit h)

/-- Credits of different actors, each within bounds before the first of them. -/
theorem moves_foldl_credit {share : ActorId × Amount → Amount} {holders : List (ActorId × Amount)}
    (hdistinct : (holders.map Prod.fst).Nodup)
    (hbounded : ∀ kv ∈ holders, AmountBounded s r kv.1 (share kv)) :
    Moves s (holders.foldl (fun s' kv => credit s' r kv.1 (share kv)) s)
      (holders.map fun kv => (r, kv.1)) := by
  induction holders generalizing s with
  | nil => exact Moves.refl s []
  | cons kv _ ih =>
    rw [map_cons, nodup_cons] at hdistinct
    obtain ⟨hnew, hdistinct⟩ := hdistinct
    have hfirst := moves_credit (hbounded kv mem_cons_self)
    refine hfirst.trans (ih hdistinct fun kv' hmem => ?_)
    -- the first credit does not touch the others
    have hother : kv'.1 ≠ kv.1 := by
      intro hsame
      exact hnew (hsame ▸ mem_map_of_mem hmem)
    unfold AmountBounded
    rw [hfirst.frame r kv'.1 (by simpa using hother)]
    exact hbounded kv' (mem_cons_of_mem _ hmem)

theorem nodup_bulkRecipients (s : State) (r : ResourceId) (excluded : ActorId) :
    ((bulkRecipients s r excluded).map Prod.fst).Nodup := by
  have hdistinct : (s.balances[r]?.getD ∅).toList.Pairwise
      (fun p q => ¬ compare p.1 q.1 = .eq) := TreeMap.distinct_keys_toList
  refine pairwise_map.mpr ((hdistinct.filter _).imp ?_)
  intro p q hne hsame
  rw [hsame] at hne
  exact hne Std.ReflCmp.compare_self

theorem moves_creditOthers {excluded : ActorId} {share : ActorId × Amount → Amount}
    (h : Laws.BulkBounded r excluded share s) :
    Moves s (Laws.creditOthers r excluded share s)
      ((bulkRecipients s r excluded).map fun kv => (r, kv.1)) :=
  moves_foldl_credit (nodup_bulkRecipients s r excluded) h.2

end Steps

section Actions

/-- The accounts that an action of `signer` moves. -/
def Action.accounts (signer : ActorId) (s : State) : Action → List Account
  | transfer r sender receiver _ => [(r, sender), (r, receiver)]
  | mint r recipient _ | reward r recipient _ | deposit r recipient _ _ => [(r, recipient)]
  | burn r holder _ | withdraw r holder _ _ => [(r, holder)]
  | distributeOthers r excluded _ | proportionalDilute r excluded _ =>
    (bulkRecipients s r excluded).map fun kv => (r, kv.1)
  | depositWithFee r recipient poolActor _ _ _ _ _ =>
    [(r, recipient), (r, poolActor), (r, ammReserveActor)]
  | topUpActionBudget gasResource _ _ poolActor
  | topUpActionBudgetFor _ gasResource _ _ poolActor =>
    [(gasResource, signer), (gasResource, poolActor)]
  | claimBudgetRefund gasResource _ _ poolActor => [(gasResource, poolActor), (gasResource, signer)]
  | reclaimAmmReserves r _ reserveActor poolActor => [(r, reserveActor), (r, poolActor)]
  | reserveSwap fromResource toResource user _ _ reserveActor =>
    [(fromResource, user), (fromResource, reserveActor), (toResource, reserveActor),
      (toResource, user)]
  | _ => []

variable {s : State}

theorem moves_applyImpl (action : Action) (signer : ActorId)
    (hpre : (action.toTransition signer).pre s) :
    Moves s ((action.toTransition signer).applyImpl s) (action.accounts signer s) := by
  cases action with
  | transfer | topUpActionBudgetFor => exact moves_move hpre.2.2
  | mint | reward => exact moves_credit hpre.2
  | burn | withdraw => exact moves_debit
  | distributeOthers => exact moves_creditOthers hpre.2
  | proportionalDilute => exact moves_creditOthers hpre.2.2
  | deposit => exact moves_credit hpre
  | depositWithFee =>
    exact (moves_credit hpre.1).trans ((moves_credit hpre.2.1).trans (moves_credit hpre.2.2.2))
  | topUpActionBudget | claimBudgetRefund => exact moves_move hpre.2
  | reclaimAmmReserves => exact moves_move hpre.2.2.2
  | reserveSwap =>
    obtain ⟨-, -, -, -, -, -, -, -, hreserve, huser, -⟩ := hpre
    exact moves_debit.trans ((moves_credit hreserve).trans (moves_debit.trans (moves_credit huser)))
  | _ => exact Moves.refl s []

theorem moves_stepImpl (action : Action) (signer : ActorId) :
    Moves s (stepImpl s (action.toTransition signer)) (action.accounts signer s) := by
  unfold stepImpl
  split
  next hpre => exact moves_applyImpl action signer hpre
  · exact Moves.refl s _

theorem length_accounts_le {action : Action} (signer : ActorId)
    (hpre : action.compileTransition.pre s) :
    (action.accounts signer s).length ≤ Laws.maxRecipientsPerBulkAction := by
  cases action with
  | distributeOthers => simpa [Action.accounts] using hpre.2.1
  | proportionalDilute => simpa [Action.accounts] using hpre.2.2.1
  | _ => simp [Action.accounts, Laws.maxRecipientsPerBulkAction]

end Actions

end Knomosis.Kernel
