import Knomosis.Contracts.Invariants
import Knomosis.Lib.Escrow

/-!
# The bonds of the registry

For its bonds the registry is an escrow under the log indices: a submission
deposits, finalisation and reclaim refund the sequencer, a slash forfeits the
bond.
-/

namespace Knomosis.Contracts

open Lib Function Registry Escrow

namespace RegistryEffect

/-- The movement of ether behind an effect. -/
def movement : RegistryEffect → Option (Movement ℕ Address)
  | submitted k a n => some (.deposit k a n)
  | finalised k a n => some (.refund k a n)
  | reclaimed k a n => some (.refund k a n)
  | slashed k a n => some (.forfeit k a n)
  | _ => none

end RegistryEffect

def movements {τ : Type} : List (HistoryEntry τ) → List (Movement ℕ Address)
  | [] => []
  | e :: h => movements h ++ e.out.filterMap RegistryEffect.movement

def logIndices : Finset ℕ := Finset.range (2 ^ 64)

namespace Registry

/-- Who bonded how much under each log index. -/
def bonds (s : Registry) (k : ℕ) : Deposit Address := ⟨(s.roots k).sequencer, (s.roots k).bond⟩

def escrow (s : Registry) : Escrow ℕ Address :=
  fun k => if (s.bonds k).amount = 0 then none else some (s.bonds k)

/-- One for a nonzero bond of `a`. -/
def countsFor (a : Address) (b : Deposit Address) : ℕ := if b.owner = a ∧ b.amount ≠ 0 then 1 else 0

/-- Balance and counters agree with the bonds, which sit on existing records. -/
structure Ledgered (s : Registry) : Prop where
  balance_eq : s.balance = ∑ k ∈ logIndices, (s.bonds k).amount
  count_eq : ∀ a, s.outstandingRootsCount a = ∑ k ∈ logIndices, countsFor a (s.bonds k)
  mem : ∀ k, (s.bonds k).amount ≠ 0 → k ∈ logIndices
  exist : ∀ k, (s.bonds k).amount ≠ 0 → s.Exists k

section Operations

variable {s s' : Registry} {k : ℕ}

/-- Operations that move no ether. -/
theorem Ledgered.of_bonds_eq (hs : s.Ledgered) (hbonds : s'.bonds = s.bonds)
    (hbalance : s'.balance = s.balance)
    (hcount : s'.outstandingRootsCount = s.outstandingRootsCount)
    (hexist : ∀ k, s.Exists k → s'.Exists k) : s'.Ledgered := by
  refine ⟨?_, ?_, ?_, ?_⟩
  · rw [hbalance, hbonds]
    exact hs.balance_eq
  · intro a
    rw [hcount, hbonds]
    exact hs.count_eq a
  · rw [hbonds]
    exact hs.mem
  · intro k hk
    rw [hbonds] at hk
    exact hexist k (hs.exist k hk)

theorem escrow_of_bonds_eq (hbonds : s'.bonds = s.bonds) : s'.escrow = s.escrow := by
  funext k
  simp only [escrow, hbonds]

theorem escrow_of_bond_ne (hbond : (s.roots k).bond ≠ 0) :
    s.escrow k = some ⟨(s.roots k).sequencer, (s.roots k).bond⟩ := by
  simp [escrow, bonds, hbond]

theorem escrow_sweepFrom {block : Block} : (s.sweepFrom block k).escrow = s.escrow := rfl

theorem bonds_setRoot {r : SubmittedRoot} :
    (s.setRoot k r).bonds = Function.update s.bonds k ⟨r.sequencer, r.bond⟩ :=
  funext (apply_update (fun _ r => (⟨r.sequencer, r.bond⟩ : Deposit Address)) s.roots k r)

theorem bonds_setFinalised : (s.setFinalised k).bonds = s.bonds := by
  rw [setFinalised, bonds_setRoot]
  exact update_eq_self k s.bonds

theorem bonds_setDisputed {b : Bool} : (s.setDisputed k b).bonds = s.bonds := by
  rw [setDisputed, bonds_setRoot]
  exact update_eq_self k s.bonds

theorem bonds_payOutBond :
    (s.payOutBond k).bonds = Function.update s.bonds k ⟨(s.roots k).sequencer, 0⟩ :=
  bonds_setRoot (s := s) (r := { s.roots k with bond := 0 })

theorem bonds_recordSubmission [Keccak] {msg : Msg} {e p : ℕ} {stateCommit actionsRoot : Bytes32} :
    (s.recordSubmission msg e p stateCommit actionsRoot).bonds =
      Function.update s.bonds e ⟨msg.sender, truncate 128 msg.value⟩ :=
  bonds_setRoot (s := s) (r := s.freshRoot msg p stateCommit actionsRoot)

theorem escrow_payOutBond : (s.payOutBond k).escrow = Function.update s.escrow k none := by
  funext j
  simp only [escrow, bonds_payOutBond, update_apply]
  split <;> simp

theorem escrow_recordSubmission [Keccak] {msg : Msg} {e p : ℕ} {stateCommit actionsRoot : Bytes32}
    (hvalue : truncate 128 msg.value ≠ 0) :
    (s.recordSubmission msg e p stateCommit actionsRoot).escrow =
      Function.update s.escrow e (some ⟨msg.sender, truncate 128 msg.value⟩) := by
  funext j
  simp only [escrow, bonds_recordSubmission, update_apply]
  split <;> simp_all

theorem releaseOutstanding_count (s : Registry) (a b : Address) :
    (s.releaseOutstanding b).outstandingRootsCount a =
      s.outstandingRootsCount a - if b = a then 1 else 0 := by
  unfold releaseOutstanding
  split_ifs <;> grind [update_apply]

theorem payOutBond_count (s : Registry) (k : ℕ) (a : Address) :
    (s.payOutBond k).outstandingRootsCount a =
      s.outstandingRootsCount a - if (s.roots k).sequencer = a then 1 else 0 :=
  releaseOutstanding_count (s.setRoot k { s.roots k with bond := 0 }) a (s.roots k).sequencer

theorem Ledgered.payOutBond (hs : s.Ledgered) (hbond : (s.roots k).bond ≠ 0) :
    (s.payOutBond k).Ledgered := by
  have hk : k ∈ logIndices := hs.mem k hbond
  have hsub : ∀ j, ((s.payOutBond k).bonds j).amount ≠ 0 → (s.bonds j).amount ≠ 0 := by
    intro j
    rw [bonds_payOutBond, update_apply]
    split <;> simp
  refine ⟨?_, ?_, fun j hj => hs.mem j (hsub j hj), ?_⟩
  · have hsum := sum_update_exchange hk Deposit.amount s.bonds ⟨(s.roots k).sequencer, 0⟩
    rw [← bonds_payOutBond, ← hs.balance_eq] at hsum
    show s.balance - (s.roots k).bond = _
    simp only [bonds] at hsum ⊢
    omega
  · intro a
    have hsum := sum_update_exchange hk (countsFor a) s.bonds ⟨(s.roots k).sequencer, 0⟩
    rw [← bonds_payOutBond, ← hs.count_eq a] at hsum
    have hnew : countsFor a ⟨(s.roots k).sequencer, 0⟩ = 0 := by simp [countsFor]
    rw [hnew, add_zero] at hsum
    have hold : countsFor a (s.bonds k) = if (s.roots k).sequencer = a then 1 else 0 := by
      simp [countsFor, bonds, hbond]
    rw [payOutBond_count, ← hold]
    omega
  · intro j hj
    rw [← chain_exists, chain_payOutBond, chain_exists]
    exact hs.exist j (hsub j hj)

theorem Ledgered.recordSubmission [Keccak] {msg : Msg} {e p : ℕ} {stateCommit actionsRoot : Bytes32}
    (hs : s.Ledgered) (he : e < 2 ^ 64) (hprev : p = s.canonicalTip)
    (hfree : (s.bonds e).amount = 0) (hvalue : 0 < msg.value ∧ msg.value < 2 ^ 128) :
    (s.recordSubmission msg e p stateCommit actionsRoot).Ledgered := by
  have hmem : e ∈ logIndices := Finset.mem_range.mpr he
  have htrunc : truncate 128 msg.value = msg.value := truncate_of_lt hvalue.2
  have hpos := msg.block.pos
  refine ⟨?_, ?_, ?_, ?_⟩
  · have hsum := sum_update_exchange hmem Deposit.amount s.bonds ⟨msg.sender, msg.value⟩
    rw [hfree, ← hs.balance_eq, add_zero] at hsum
    rw [bonds_recordSubmission, htrunc, hsum]
    rfl
  · intro a
    have hsum := sum_update_exchange hmem (countsFor a) s.bonds ⟨msg.sender, msg.value⟩
    have hzero : countsFor a (s.bonds e) = 0 := by simp [countsFor, hfree]
    rw [hzero, ← hs.count_eq a, add_zero] at hsum
    rw [bonds_recordSubmission, htrunc, hsum]
    by_cases ha : a = msg.sender
    · subst ha
      simp [Registry.recordSubmission, setRoot, countsFor, hvalue.1.ne']
    · simp [Registry.recordSubmission, setRoot, countsFor, update_of_ne ha, Ne.symm ha]
  · intro j hj
    by_cases h : j = e
    · subst h
      exact hmem
    · rw [bonds_recordSubmission, update_of_ne h] at hj
      exact hs.mem j hj
  · intro j hj
    rw [← chain_exists, chain_recordSubmission hprev]
    by_cases h : j = e
    · subst h
      exact Chain.append_exists_self hpos
    · rw [bonds_recordSubmission, update_of_ne h] at hj
      exact Chain.append_exists_of_exists hpos (hs.exist j hj)

end Operations

end Registry

namespace World

section Step

variable [Keccak] {d : Deployment} {w w' : World} {msg : Msg}
variable {effs : List RegistryEffect} {settled : Option ℕ}

attribute [local simp] RegistryEffect.movement replay

/-- A transaction keeps the books, and the escrow accepts its movements. -/
theorem Transition.ledgered (hw : w.Sound) (hl : w.registry.Ledgered)
    (h : Transition d w msg settled effs w') :
    w'.registry.Ledgered ∧
    w.registry.escrow.replay (effs.filterMap RegistryEffect.movement) =
      some w'.registry.escrow := by
  -- the transactions that move no ether
  have hsilent : ∀ {s' : Registry}, s'.bonds = w.registry.bonds →
      s'.balance = w.registry.balance →
      s'.outstandingRootsCount = w.registry.outstandingRootsCount →
      (∀ k, w.registry.Exists k → s'.Exists k) →
      s'.Ledgered ∧ w.registry.escrow.replay [] = some s'.escrow := by
    intro s' hb hbal hcount hex
    refine ⟨hl.of_bonds_eq hb hbal hcount hex, ?_⟩
    rw [escrow_of_bonds_eq hb]
    rfl
  have hkeep : ∀ {s' : Registry}, s'.chain = w.registry.chain →
      ∀ k, w.registry.Exists k → s'.Exists k := by
    intro s' hc k hk
    rwa [← chain_exists, hc]
  cases h with
  | @submit e _ _ _ hmay =>
    have hvalue := hmay.value_eq
    have hpos := d.registry.bond_pos
    have hlt := d.registry.bond_lt
    have hfree : (w.registry.bonds e).amount = 0 := by
      by_contra hne
      exact hne (hmay.reuse (hl.exist e hne)).2
    have hnone : w.registry.escrow e = none := by simp [escrow, hfree]
    have htrunc : truncate 128 msg.value = d.registry.stateRootSubmissionBond := by
      rw [hvalue, truncate_of_lt hlt]
    refine ⟨hl.recordSubmission hmay.endIndex_lt hmay.prev_eq hfree (by omega), ?_⟩
    rw [escrow_recordSubmission (by omega), htrunc]
    simp [Escrow.move, hnone]
  | @finalise k hmay =>
    have hbond := hw.bonded.bond_ne hmay.exist hmay.not_finalised hmay.not_reverted
    have hb : (w.registry.setFinalised k).bonds = w.registry.bonds := bonds_setFinalised
    have hl' := (hsilent hb rfl rfl (hkeep chain_setFinalised)).1
    have hbond' : ((w.registry.setFinalised k).roots k).bond ≠ 0 := by
      simpa [setFinalised, setRoot] using hbond
    refine ⟨hl'.payOutBond hbond', ?_⟩
    rw [escrow_payOutBond, escrow_of_bonds_eq hb]
    simp [Escrow.move, escrow_of_bond_ne hbond]
  | @reclaim k hmay =>
    refine ⟨hl.payOutBond hmay.bond_ne, ?_⟩
    rw [escrow_payOutBond]
    simp [Escrow.move, escrow_of_bond_ne hmay.bond_ne]
  | breaker halted => cases halted <;> exact hsilent rfl rfl rfl (fun _ hk => hk)
  | challenge => exact hsilent bonds_setDisputed rfl rfl (hkeep chain_setDisputed)
  | move | withdraw | receive => exact hsilent rfl rfl rfl (fun _ hk => hk)
  | settle _ _ hregistry =>
    cases hregistry with
    | untouched | swept => exact hsilent rfl rfl rfl (fun _ hk => hk)
    | cleared => exact hsilent bonds_setDisputed rfl rfl (hkeep chain_setDisputed)
    | slashed hmay =>
      refine ⟨(hl.payOutBond hmay.bond_ne).of_bonds_eq rfl rfl rfl (fun _ hk => hk), ?_⟩
      rw [escrow_sweepFrom, escrow_payOutBond]
      simp [Escrow.move, List.filterMap_cons, escrow_of_bond_ne hmay.bond_ne]

theorem Transition.movement_key (hl : w.registry.Ledgered)
    (h : Transition d w msg settled effs w') :
    ∀ m ∈ effs.filterMap RegistryEffect.movement, m.key ∈ logIndices := by
  cases h with
  | submit _ _ hmay => simpa [Movement.key, logIndices] using hmay.endIndex_lt
  | finalise hmay => simpa [Movement.key, logIndices] using hmay.logIndex_lt
  | reclaim hmay => simpa [Movement.key, logIndices] using hmay.logIndex_lt
  | breaker halted => cases halted <;> simp
  | challenge | move | withdraw | receive => simp
  | settle _ _ hregistry =>
    cases hregistry with
    | slashed hmay =>
      have hk := hl.mem _ hmay.bond_ne
      simpa [Movement.key] using hk
    | _ => simp

end Step

end World

section Runs

variable [Keccak] {τ : Type} {adjudicate : Adjudicator τ}
variable {d : Deployment} {h : List (HistoryEntry τ)} {w : World}

theorem ledgered_deploy (d : Deployment) :
    (World.deploy d).registry.Ledgered ∧ (World.deploy d).registry.escrow = empty := by
  have hzero : ∀ k, ((World.deploy d).registry.bonds k).amount = 0 := by
    intro k
    by_cases hk : k = 0 <;>
      simp [World.deploy, construct, bonds, SubmittedRoot.absent, hk]
  refine ⟨⟨?_, ?_, ?_, ?_⟩, ?_⟩
  · rw [Finset.sum_eq_zero (fun k _ => hzero k)]
    rfl
  · intro a
    rw [Finset.sum_eq_zero (fun k _ => by simp [countsFor, hzero])]
    rfl
  · intro k hk
    exact absurd (hzero k) hk
  · intro k hk
    exact absurd (hzero k) hk
  · funext k
    simp [escrow, hzero, empty]

/-- The books of every reachable world, and the escrow that accepts its history. -/
theorem ledgered_of_run (hrun : Run (system adjudicate d) (World.deploy d) h w) :
    w.registry.Ledgered ∧ empty.replay (movements h) = some w.registry.escrow := by
  refine hrun.invariant ?_ ?_
  · obtain ⟨hl, hempty⟩ := ledgered_deploy d
    refine ⟨hl, ?_⟩
    rw [hempty]
    rfl
  · rintro h w tx w' effs hrun ⟨hl, hreplay⟩ hstep
    obtain ⟨_, htrans⟩ := World.step_transition hstep
    obtain ⟨hl', hmove⟩ := htrans.ledgered (World.sound_of_run hrun) hl
    refine ⟨hl', ?_⟩
    rw [movements, replay_append, hreplay, Option.bind_some]
    exact hmove

theorem movement_key_of_run (hrun : Run (system adjudicate d) (World.deploy d) h w) :
    ∀ m ∈ movements h, m.key ∈ logIndices := by
  refine hrun.invariant (by simp [movements]) ?_
  intro h w tx w' effs hrun hkeys hstep m hm
  obtain ⟨_, htrans⟩ := World.step_transition hstep
  rcases List.mem_append.mp hm with hm | hm
  · exact hkeys m hm
  · exact htrans.movement_key (ledgered_of_run hrun).1 m hm

/--
The books of the registry in every run.  Its history is accepted by an escrow
that ends with the bond fields, so each bond leaves as a whole and once.  What
came in is what went out and what is held, and the counter of a sequencer is the
number of their records that hold a bond.
-/
theorem registry_bonds_conserved (hrun : Run (system adjudicate d) (World.deploy d) h w) :
    ((movements h).map Movement.received).sum =
        ((movements h).map Movement.paid).sum + ∑ k ∈ logIndices, (w.registry.roots k).bond ∧
      w.registry.balance = ∑ k ∈ logIndices, (w.registry.roots k).bond ∧
      empty.replay (movements h) = some w.registry.escrow ∧
      (∀ k, (movements h).countP (Movement.opens k) = (movements h).countP (Movement.closes k) +
          if (w.registry.roots k).bond = 0 then 0 else 1) ∧
      ∀ a, w.registry.outstandingRootsCount a = (logIndices.filter fun k =>
          (w.registry.roots k).sequencer = a ∧ (w.registry.roots k).bond ≠ 0).card := by
  obtain ⟨hl, hreplay⟩ := ledgered_of_run hrun
  have hheld : ∀ k, w.registry.escrow.held k = (w.registry.roots k).bond := by
    intro k
    by_cases hk : (w.registry.roots k).bond = 0 <;>
      simp [held, escrow, bonds, hk]
  refine ⟨?_, hl.balance_eq, hreplay, ?_, ?_⟩
  · have hcons := replay_conserves (movement_key_of_run hrun) hreplay
    simp only [hheld] at hcons
    simpa [held, empty] using hcons
  · intro k
    have halt := replay_alternates k hreplay
    by_cases hk : (w.registry.roots k).bond = 0 <;>
      simpa [empty, escrow, bonds, hk] using halt
  · intro a
    rw [hl.count_eq a, Finset.card_filter]
    rfl

end Runs

/-- A run with a slashed bond: one deposit and one forfeit. -/
def slashedRun : List (Tx Unit) :=
  [ sampleTx 1 10 2 (.submitStateRoot 1 0 2 0),
    sampleTx 6 10 3 (.initiateChallenge false 1 9 1 0),
    sampleTx 6 0 20 (.claimTimeout false 1) ]

theorem registry_bonds_conserved_slashed :
    ∃ (h : List (HistoryEntry Unit)) (w : World), Run sampleSystem sampleStart h w ∧
      movements h = [.deposit 1 1 10, .forfeit 1 2 10] ∧
      w.registry.balance = ∑ k ∈ logIndices, (w.registry.roots k).bond := by
  obtain ⟨h, w, hrun, hmoved⟩ := Run.exists_of_decide sampleSystem sampleStart slashedRun
    (fun h _ => movements h = [.deposit 1 1 10, .forfeit 1 2 10]) (by decide)
  exact ⟨h, w, hrun, hmoved, (@registry_bonds_conserved zeroKeccak _ _ _ _ _ hrun).2.1⟩

end Knomosis.Contracts
