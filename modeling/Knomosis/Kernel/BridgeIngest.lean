import Knomosis.Kernel.Action
import Knomosis.Lib.Keyed

/-!
# The bridge's reading of the chain below

The kernel's own account of how events of the chain below become actions.  Addresses
are numbered in the order of their registration, a first registration becomes the
registration of an actor and a later one the replacement of its key.  All actions
are those of the bridge.
-/

namespace Knomosis.Kernel
namespace Bridge

open Lib Smt

/-- Addresses and their actors, in both directions. -/
structure AddressBook where
  forward : Keyed EthAddress ActorId
  reverse : Keyed ActorId EthAddress
  nextActorId : ActorId

namespace AddressBook

/-- The numbers below 4 are reserved. -/
def empty : AddressBook where
  forward := ∅
  reverse := ∅
  nextActorId := 4

def lookup (b : AddressBook) (addr : EthAddress) : Option ActorId := b.forward.lookup addr

def lookupRev (b : AddressBook) (id : ActorId) : Option EthAddress := b.reverse.lookup id

/-- The actor of an address.  The next number of an unknown one may run around the end. -/
def assign (b : AddressBook) (addr : EthAddress) : AddressBook × ActorId :=
  match b.forward.lookup addr with
  | some id => (b, id)
  | none =>
    ({ forward := b.forward.insert addr b.nextActorId
       reverse := b.reverse.insert b.nextActorId addr
       nextActorId := b.nextActorId + 1 },
      b.nextActorId)

end AddressBook

/-- An event of the chain below. -/
inductive L1Event where
  | identityRegistered (addr : EthAddress) (pk : PublicKey) (blockNum logIdx : ℕ)
  | identityRevoked (addr : EthAddress) (blockNum logIdx : ℕ)
  | depositInitiated (addr : EthAddress) (resource : ResourceId) (amount : Amount)
      (receiptHash : Bytes) (blockNum logIdx : ℕ)

structure UnsignedBridgeAction where
  action : Action
  signer : ActorId
  nonce : Nonce
deriving DecidableEq

def ingest (b : AddressBook) (currentNonce : Nonce) (e : L1Event) :
    AddressBook × Option UnsignedBridgeAction :=
  match e with
  | .identityRegistered addr pk _ _ =>
    match b.lookup addr with
    | none =>
      let (b', id) := b.assign addr
      (b', some ⟨.registerIdentity id pk, bridgeActor, currentNonce⟩)
    | some id => (b, some ⟨.replaceKey id pk, bridgeActor, currentNonce⟩)
  | .identityRevoked _ _ _ => (b, none)
  | .depositInitiated _ _ _ _ _ _ => (b, none)

/-- A history in the making: the book, the next nonce and the actions so far. -/
structure Ingesting where
  book : AddressBook
  nextNonce : Nonce
  emitted : List UnsignedBridgeAction

/-- One more event; an action uses up its nonce. -/
def Ingesting.next (s : Ingesting) (e : L1Event) : Ingesting :=
  match ingest s.book s.nextNonce e with
  | (book, none) => { s with book }
  | (book, some action) => { book, nextNonce := s.nextNonce + 1, emitted := s.emitted ++ [action] }

def ingestAll (s : Ingesting) (es : List L1Event) : Ingesting := es.foldl Ingesting.next s

section Laws

variable {b : AddressBook} {addr : EthAddress} {s : Ingesting}

theorem ingest_of_unknown (nonce : Nonce) (pk : PublicKey) (blockNum logIdx : ℕ)
    (hunknown : b.lookup addr = none) :
    ingest b nonce (.identityRegistered addr pk blockNum logIdx) =
      ({ forward := b.forward.insert addr b.nextActorId
         reverse := b.reverse.insert b.nextActorId addr
         nextActorId := b.nextActorId + 1 },
        some ⟨.registerIdentity b.nextActorId pk, bridgeActor, nonce⟩) := by
  have hassign : b.assign addr =
      ({ forward := b.forward.insert addr b.nextActorId
         reverse := b.reverse.insert b.nextActorId addr
         nextActorId := b.nextActorId + 1 }, b.nextActorId) := by
    rw [AddressBook.assign, show b.forward.lookup addr = none from hunknown]
  simp only [ingest, hunknown, hassign]

theorem ingest_of_known {id : ActorId} (nonce : Nonce) (pk : PublicKey) (blockNum logIdx : ℕ)
    (hknown : b.lookup addr = some id) :
    ingest b nonce (.identityRegistered addr pk blockNum logIdx) =
      (b, some ⟨.replaceKey id pk, bridgeActor, nonce⟩) := by
  simp only [ingest, hknown]

theorem Ingesting.nextNonce_next_le (s : Ingesting) (e : L1Event) :
    (s.next e).nextNonce ≤ s.nextNonce + 1 := by
  unfold Ingesting.next
  split
  · exact Nat.le_succ _
  · exact le_rfl

theorem nextNonce_ingestAll_le (s : Ingesting) (es : List L1Event) :
    (ingestAll s es).nextNonce ≤ s.nextNonce + es.length := by
  induction es generalizing s with
  | nil => exact le_rfl
  | cons e es ih =>
    calc (ingestAll s (e :: es)).nextNonce
        ≤ (s.next e).nextNonce + es.length := ih (s.next e)
      _ ≤ s.nextNonce + 1 + es.length := Nat.add_le_add_right (s.nextNonce_next_le e) _
      _ = s.nextNonce + (e :: es).length := by rw [List.length_cons, Nat.add_assoc, Nat.add_comm 1]

end Laws

end Bridge
end Knomosis.Kernel
