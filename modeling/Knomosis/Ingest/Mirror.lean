import Knomosis.Ingest.Recovery
import Knomosis.Kernel.BridgeIngest

/-!
# The ingest service and the bridge's reading

The service looks an address up first and writes its number into the book later, in
numbers of 64 bits that it does not let run around.  Over a whole history it still
comes to the actions, the nonces and the book of the kernel's reading, as long as
the numbers of 64 bits and the nonces of 128 bits suffice.
-/

namespace Knomosis.Ingest

open Lib Smt List
open Signing.L1Ingest
open Kernel (Bridge.L1Event Bridge.UnsignedBridgeAction)

/-- A history in the making: the book, the next nonce and the actions so far. -/
structure Ingesting where
  book : AddressBook
  nextNonce : Nonce
  emitted : List UnsignedAction

/-- One more event: look at the book, enter a number that was handed out, use up the nonce. -/
def Ingesting.next (s : Ingesting) (event : IngestedEvent) : Except CommitError Ingesting :=
  match previewIngest s.book event s.nextNonce with
  | .noAction => .ok s
  | .emit action =>
    .ok { s with
      nextNonce := WatcherLoop.saturatingSuccNonce s.nextNonce
      emitted := s.emitted ++ [action] }
  | .emitWithAssignment action address newActorId =>
    match commitAssignment s.book address newActorId with
    | (.error e, _) => .error e
    | (.ok _, book) =>
      .ok { book
            nextNonce := WatcherLoop.saturatingSuccNonce s.nextNonce
            emitted := s.emitted ++ [action] }

def ingestAll (s : Ingesting) : List IngestedEvent → Except CommitError Ingesting
  | [] => .ok s
  | event :: events => s.next event >>= fun s => ingestAll s events

/-- The events of the kernel's reading that stand for an event of the service.  The reading has
no deposits with a fee and nothing about the exchange. -/
inductive StandFor : IngestedEvent → List Bridge.L1Event → Prop
  | ecdsa (actor pubkey txHash logIndex blockNum logIdx) :
      StandFor (.registeredEcdsa actor pubkey txHash logIndex)
        [.identityRegistered actor.toKernel pubkey blockNum logIdx]
  | eip1271 (actor contractSigner txHash logIndex blockNum logIdx) :
      StandFor (.registeredEip1271 actor contractSigner txHash logIndex)
        [.identityRegistered actor.toKernel contractSigner.bytes blockNum logIdx]
  | revoked (actor txHash logIndex blockNum logIdx) :
      StandFor (.revoked actor txHash logIndex) [.identityRevoked actor.toKernel blockNum logIdx]
  | deposit (depositor resourceId amount receiptHash txHash logIndex blockNum logIdx) :
      StandFor (.depositInitiated depositor resourceId amount receiptHash txHash logIndex)
        [.depositInitiated depositor.toKernel resourceId amount.toNat receiptHash.bytes blockNum
          logIdx]
  | depositWithFee (sender resourceId userAmount poolAmount ammSeedAmount budgetGrant receiptHash
      txHash logIndex) :
      StandFor (.depositWithFeeInitiated sender resourceId userAmount poolAmount ammSeedAmount
        budgetGrant receiptHash txHash logIndex) []
  | depositAndFee (sender resourceId userAmount poolAmount ammSeedAmount budgetGrant receiptHash
      txHash logIndex amount blockNum logIdx) :
      StandFor (.depositWithFeeInitiated sender resourceId userAmount poolAmount ammSeedAmount
        budgetGrant receiptHash txHash logIndex)
        [.depositInitiated sender.toKernel resourceId amount receiptHash.bytes blockNum logIdx]
  | ammDisabled (txHash logIndex) : StandFor (.ammDisabled txHash logIndex) []

/-- A history of the service beside one of the kernel's reading. -/
inductive Corresponds : List IngestedEvent → List Bridge.L1Event → Prop
  | nil : Corresponds [] []
  | cons {event events here later} (hhere : StandFor event here)
      (hlater : Corresponds events later) : Corresponds (event :: events) (here ++ later)

def touched (events : List IngestedEvent) : Finset EthAddress :=
  (events.filterMap IngestedEvent.address).toFinset

/-- The next nonce of the service, which stays at the last one of 128 bits. -/
def SameNonce (n : Nonce) (m : Kernel.Nonce) : Prop := n.toNat = min m (2 ^ 128 - 1)

structure SameAction (u : UnsignedAction) (v : Bridge.UnsignedBridgeAction) : Prop where
  action : u.action.toKernel = v.action
  signer : u.signer = v.signer
  nonce : u.nonce.toNat = v.nonce

structure SameBook (book : AddressBook) (b : Kernel.Bridge.AddressBook) : Prop where
  lookup : ∀ addr, book.lookup addr = b.lookup addr.toKernel
  lookupReverse : ∀ id, (book.lookupReverse id).map EthAddress.toKernel = b.lookupRev id
  nextActorId : book.nextActorId = b.nextActorId

structure Mirrors (s : Ingesting) (t : Kernel.Bridge.Ingesting) : Prop where
  book : SameBook s.book t.book
  nextNonce : SameNonce s.nextNonce t.nextNonce
  emitted : List.Forall₂ SameAction s.emitted t.emitted

/-- The numbers were handed out one by one. -/
def Counted (book : AddressBook) : Prop := book.nextActorId.toNat = 4 + book.forward.keys.card

section Steps

theorem EthAddress.toKernel_injective : Function.Injective EthAddress.toKernel := by
  intro a b h
  have hlt : ∀ c : EthAddress, beNat c.bytes < 2 ^ 160 := by
    intro c
    simpa [c.length_eq] using beNat_lt c.bytes
  have hnat : beNat a.bytes = beNat b.bytes := by
    have hval := congrArg Fin.val h
    simpa only [EthAddress.toKernel, Fin.val_ofNat, Nat.mod_eq_of_lt (hlt _)] using hval
  cases a
  cases b
  cases beNat_injective (by simp_all) hnat
  rfl

theorem SameNonce.succ {n : Nonce} {m : Kernel.Nonce} (h : SameNonce n m) :
    SameNonce (WatcherLoop.saturatingSuccNonce n) (m + 1) := by
  rw [SameNonce] at h ⊢
  rw [WatcherLoop.saturatingSuccNonce]
  split
  · rw [BitVec.toNat_add, h]
    simp
    omega
  · omega

theorem SameNonce.eq_of_lt {n : Nonce} {m : Kernel.Nonce} (h : SameNonce n m)
    (hlt : m < 2 ^ 128) : n.toNat = m := by
  rw [SameNonce] at h
  exact h.trans (min_eq_left (Nat.le_pred_of_lt hlt))

variable {book : AddressBook} {b : Kernel.Bridge.AddressBook} {addr : EthAddress}

theorem SameBook.extend (h : SameBook book b) (addr : EthAddress) :
    SameBook (book.extend addr)
      { forward := b.forward.insert addr.toKernel b.nextActorId
        reverse := b.reverse.insert b.nextActorId addr.toKernel
        nextActorId := b.nextActorId + 1 } where
  lookup := by
    intro x
    rw [AddressBook.lookup_extend, Kernel.Bridge.AddressBook.lookup, Keyed.lookup_insert_eq,
      h.nextActorId, h.lookup]
    simp only [EthAddress.toKernel_injective.eq_iff]
    rfl
  lookupReverse := by
    intro id
    have hback := h.lookupReverse id
    simp only [AddressBook.lookupReverse, Kernel.Bridge.AddressBook.lookupRev] at hback ⊢
    rw [AddressBook.extend, Keyed.lookup_insert_eq, Keyed.lookup_insert_eq, h.nextActorId, ← hback]
    split <;> rfl
  nextActorId := by rw [AddressBook.extend, h.nextActorId]

theorem notMem_keys_of_unknown (hunknown : book.lookup addr = none) : addr ∉ book.forward.keys := by
  rw [Finmap.mem_keys]
  exact Finmap.lookup_eq_none.mp hunknown

theorem Counted.extend (h : Counted book) (hunknown : book.lookup addr = none)
    (hroom : book.nextActorId.toNat + 1 < 2 ^ 64) : Counted (book.extend addr) := by
  have hcard := Finset.card_insert_of_notMem (notMem_keys_of_unknown hunknown)
  rw [Counted] at h ⊢
  rw [AddressBook.extend, Keyed.keys_insert, hcard, UInt64.toNat_add]
  simp
  omega

variable {s : Ingesting} {t : Kernel.Bridge.Ingesting}

/-- A registration on both sides, of a known address or of an unknown one for which there is a
number left. -/
theorem Mirrors.registration
    {event : IngestedEvent}
    {pk : Bytes}
    (h : Mirrors s t)
    (hcounted : Counted s.book)
    (hnonce : t.nextNonce < 2 ^ 128)
    (hroom : s.book.lookup addr = none → s.book.nextActorId.toNat + 1 < 2 ^ 64)
    (hevent : previewIngest s.book event s.nextNonce =
      previewRegistration s.book addr pk s.nextNonce)
    (blockNum logIdx : ℕ) :
    ∃ s', s.next event = .ok s' ∧
      Mirrors s' (t.next (.identityRegistered addr.toKernel pk blockNum logIdx)) ∧
      Counted s'.book ∧ s'.book.forward.keys ⊆ insert addr s.book.forward.keys := by
  have hsame := h.book.lookup addr
  have hexact := h.nextNonce.eq_of_lt hnonce
  rw [Ingesting.next, hevent, previewRegistration, previewFor]
  cases hlookup : s.book.lookup addr with
  | some =>
    rw [hlookup] at hsame
    refine ⟨_, rfl, ?_, hcounted, Finset.subset_insert _ _⟩
    rw [Kernel.Bridge.Ingesting.next, Kernel.Bridge.ingest_of_known _ _ _ _ hsame.symm]
    exact ⟨h.book, h.nextNonce.succ, rel_append h.emitted (.cons ⟨rfl, rfl, hexact⟩ .nil)⟩
  | none =>
    rw [hlookup] at hsame
    have hcommit := commitAssignment_of_unknown hlookup (hroom hlookup)
    refine ⟨⟨s.book.extend addr, WatcherLoop.saturatingSuccNonce s.nextNonce, s.emitted ++
      [⟨.registerIdentity s.book.nextActorId pk, BRIDGE_ACTOR_ID, s.nextNonce⟩]⟩, ?_, ?_,
      hcounted.extend hlookup (hroom hlookup), ?_⟩
    · simp only [hcommit]
    · rw [Kernel.Bridge.Ingesting.next, Kernel.Bridge.ingest_of_unknown _ _ _ _ hsame.symm]
      refine ⟨h.book.extend addr, h.nextNonce.succ,
        rel_append h.emitted (.cons ⟨?_, rfl, hexact⟩ .nil)⟩
      rw [← h.book.nextActorId]
      rfl
    · rw [AddressBook.extend, Keyed.keys_insert]

/-- One event on both sides. -/
theorem Mirrors.next
    {event : IngestedEvent}
    {here : List Bridge.L1Event}
    (h : Mirrors s t)
    (hcounted : Counted s.book)
    (hstand : StandFor event here)
    (hnonce : here.length + t.nextNonce ≤ 2 ^ 128)
    (hroom : ∀ addr, event.address = some addr → s.book.lookup addr = none →
      s.book.nextActorId.toNat + 1 < 2 ^ 64) :
    ∃ s', s.next event = .ok s' ∧ Mirrors s' (Kernel.Bridge.ingestAll t here) ∧
      Counted s'.book ∧ s'.book.forward.keys ⊆ event.address.toFinset ∪ s.book.forward.keys := by
  cases hstand with
  | ecdsa actor _ _ _ blockNum logIdx | eip1271 actor _ _ _ blockNum logIdx =>
    have hlt := Nat.lt_of_lt_of_le (Nat.lt_add_of_pos_left Nat.one_pos) hnonce
    exact h.registration hcounted hlt (hroom actor rfl) rfl blockNum logIdx
  | revoked | deposit | depositWithFee | depositAndFee | ammDisabled =>
    exact ⟨s, rfl, h, hcounted, Finset.subset_union_right⟩

end Steps

theorem touched_cons (event : IngestedEvent) (events : List IngestedEvent) :
    touched (event :: events) = event.address.toFinset ∪ touched events := by
  rw [touched, filterMap_cons]
  cases event.address with
  | none => simp [touched]
  | some =>
    ext x
    simp [touched]

/-- Whole histories, from books and nonces that already agree. -/
theorem Mirrors.ingestAll
    {events : List IngestedEvent}
    {here : List Bridge.L1Event}
    {s : Ingesting}
    {t : Kernel.Bridge.Ingesting}
    (h : Mirrors s t)
    (hcounted : Counted s.book)
    (hevents : Corresponds events here)
    (hnonce : here.length + t.nextNonce ≤ 2 ^ 128)
    (hfew : (touched events ∪ s.book.forward.keys).card < 2 ^ 64 - 5) :
    ∃ s', ingestAll s events = .ok s' ∧ Mirrors s' (Kernel.Bridge.ingestAll t here) := by
  induction hevents generalizing s t with
  | nil => exact ⟨s, rfl, h⟩
  | @cons event events here later hhere _ ih =>
    rw [touched_cons] at hfew
    rw [length_append] at hnonce
    have hused : here.length + t.nextNonce ≥ (Kernel.Bridge.ingestAll t here).nextNonce :=
      (Kernel.Bridge.nextNonce_ingestAll_le t here).trans_eq (Nat.add_comm _ _)
    -- an unknown address of this event is one more than those in the book
    have hroom : ∀ addr, event.address = some addr → s.book.lookup addr = none →
        s.book.nextActorId.toNat + 1 < 2 ^ 64 := by
      intro addr haddr hunknown
      have hsub : insert addr s.book.forward.keys ⊆
          (event.address.toFinset ∪ touched events) ∪ s.book.forward.keys := by
        intro x hx
        rcases Finset.mem_insert.mp hx with rfl | hx
        · simp [haddr]
        · simp [hx]
      have hcard := Finset.card_le_card hsub
      rw [Finset.card_insert_of_notMem (notMem_keys_of_unknown hunknown)] at hcard
      rw [Counted] at hcounted
      omega
    obtain ⟨s', hstep, hmirrors, hcounted', hkeys⟩ := h.next hcounted hhere (by omega) hroom
    have hfew' : (touched events ∪ s'.book.forward.keys).card < 2 ^ 64 - 5 := by
      refine lt_of_le_of_lt (Finset.card_le_card ?_) hfew
      refine Finset.union_subset ?_ (hkeys.trans ?_)
      · intro x hx
        simp [hx]
      · intro x hx
        rcases Finset.mem_union.mp hx with hx | hx <;> simp [hx]
    obtain ⟨s'', hrest, hfinal⟩ := ih hmirrors hcounted' (by omega) hfew'
    refine ⟨s'', ?_, ?_⟩
    · rw [Ingest.ingestAll, hstep]
      exact hrest
    · rw [Kernel.Bridge.ingestAll, foldl_append]
      exact hfinal

/-- The service before its first event. -/
def Ingesting.start (nonce : Nonce) : Ingesting where
  book := .new
  nextNonce := nonce
  emitted := []

/-- The kernel's reading before its first event. -/
def bridgeStart (nonce : Nonce) : Kernel.Bridge.Ingesting where
  book := .empty
  nextNonce := nonce.toNat
  emitted := []

theorem mirrors_start (nonce : Nonce) : Mirrors (.start nonce) (bridgeStart nonce) where
  book := ⟨fun _ => rfl, fun _ => rfl, rfl⟩
  nextNonce := by
    have hlt := nonce.isLt
    rw [SameNonce]
    simp only [Ingesting.start, bridgeStart]
    omega
  emitted := .nil

/-- The service comes to the actions, the signers, the nonces and the book of the kernel's
reading, for every history of fewer addresses than there are numbers and of no more events than
there are nonces left. -/
theorem ingestAll_mirrors
    {events : List IngestedEvent}
    {here : List Bridge.L1Event}
    (nonce : Nonce)
    (hevents : Corresponds events here)
    (hfew : (touched events).card < 2 ^ 64 - 5)
    (hnonce : nonce.toNat + here.length ≤ 2 ^ 128) :
    ∃ s,
      ingestAll (.start nonce) events = .ok s ∧
      Mirrors s (Kernel.Bridge.ingestAll (bridgeStart nonce) here) := by
  have hkeys : (Ingesting.start nonce).book.forward.keys = ∅ := rfl
  exact (mirrors_start nonce).ingestAll rfl hevents ((Nat.add_comm _ _).trans_le hnonce)
    (by rwa [hkeys, Finset.union_empty])

def sampleAddress (b : UInt8) : EthAddress := ⟨List.replicate 20 b, List.length_replicate⟩

def sampleHash : TopicHash := ⟨List.replicate 32 0, List.length_replicate⟩

/-- A registration, its rotation, a deposit and the registration of a contract. -/
def sampleEvents : List IngestedEvent :=
  [.registeredEcdsa (sampleAddress 1) [7] sampleHash 0,
    .registeredEcdsa (sampleAddress 1) [8] sampleHash 1,
    .depositInitiated (sampleAddress 2) 0 5 sampleHash sampleHash 2,
    .ammDisabled sampleHash 3,
    .registeredEip1271 (sampleAddress 2) (sampleAddress 3) sampleHash 4]

def sampleHere : List Bridge.L1Event :=
  [.identityRegistered (sampleAddress 1).toKernel [7] 0 0,
    .identityRegistered (sampleAddress 1).toKernel [8] 0 1,
    .depositInitiated (sampleAddress 2).toKernel 0 5 sampleHash.bytes 0 2,
    .identityRegistered (sampleAddress 2).toKernel (sampleAddress 3).bytes 0 4]

theorem ingestAll_mirrors_sample :
    Corresponds sampleEvents sampleHere ∧
    (touched sampleEvents).card < 2 ^ 64 - 5 ∧
    ∃ s,
      ingestAll (.start 0) sampleEvents = .ok s ∧
      Mirrors s (Kernel.Bridge.ingestAll (bridgeStart 0) sampleHere) := by
  have hevents : Corresponds sampleEvents sampleHere :=
    .cons (.ecdsa _ _ _ _ 0 0) <| .cons (.ecdsa _ _ _ _ 0 1) <|
      .cons (.deposit _ _ _ _ _ _ 0 2) <| .cons (.ammDisabled _ _) <|
      .cons (.eip1271 _ _ _ _ 0 4) .nil
  have hfew : (touched sampleEvents).card < 2 ^ 64 - 5 := by
    refine lt_of_le_of_lt (toFinset_card_le _) ?_
    decide
  exact ⟨hevents, hfew, ingestAll_mirrors 0 hevents hfew (by decide)⟩

end Knomosis.Ingest
