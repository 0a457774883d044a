import Knomosis.Lib.Keyed
import Knomosis.Signing.L1Ingest

/-!
# From events of the chain below to actions

The ingest service numbers the addresses it meets in the order in which it meets
them, and turns an event into an action of the bridge on the actor of the event's
address.  The translation only looks at the book of addresses.  A number that it
hands out is written into the book after the action was accepted.
-/

namespace Knomosis.Ingest

open Lib Smt
open Signing.L1Ingest

instance : DecidableEq EthAddress := fun a b =>
  decidable_of_iff (a.bytes = b.bytes)
    ⟨fun h => by cases a; cases b; cases h; rfl, fun h => congrArg _ h⟩

/-- A 32-byte hash of the chain. -/
structure TopicHash where
  bytes : Bytes
  length_eq : bytes.length = 32

instance : DecidableEq TopicHash := fun a b =>
  decidable_of_iff (a.bytes = b.bytes)
    ⟨fun h => by cases a; cases b; cases h; rfl, fun h => congrArg _ h⟩

abbrev ActorId := UInt64

def BRIDGE_ACTOR_ID : ActorId := 0

def GAS_POOL_ACTOR_ID : ActorId := 1

/-- The first number that is not reserved. -/
def INITIAL_NEXT_ACTOR_ID : ActorId := 4

/-- A decoded event, with the fields that are read further on. -/
inductive IngestedEvent where
  | registeredEcdsa (actor : EthAddress) (pubkey : Bytes) (txHash : TopicHash) (logIndex : UInt64)
  | registeredEip1271 (actor contractSigner : EthAddress) (txHash : TopicHash) (logIndex : UInt64)
  | revoked (actor : EthAddress) (txHash : TopicHash) (logIndex : UInt64)
  | depositInitiated (depositor : EthAddress) (resourceId : UInt64) (amount : Amount)
      (receiptHash : TopicHash) (txHash : TopicHash) (logIndex : UInt64)
  | depositWithFeeInitiated (sender : EthAddress) (resourceId : UInt64)
      (userAmount poolAmount ammSeedAmount : Amount) (budgetGrant : UInt64)
      (receiptHash : TopicHash) (txHash : TopicHash) (logIndex : UInt64)
  | ammDisabled (txHash : TopicHash) (logIndex : UInt64)

namespace IngestedEvent

/-- The transaction of an event and its place there. -/
def originKey : IngestedEvent → TopicHash × UInt64
  | registeredEcdsa _ _ txHash logIndex => (txHash, logIndex)
  | registeredEip1271 _ _ txHash logIndex => (txHash, logIndex)
  | revoked _ txHash logIndex => (txHash, logIndex)
  | depositInitiated _ _ _ _ txHash logIndex => (txHash, logIndex)
  | depositWithFeeInitiated _ _ _ _ _ _ _ txHash logIndex => (txHash, logIndex)
  | ammDisabled txHash logIndex => (txHash, logIndex)

def address : IngestedEvent → Option EthAddress
  | registeredEcdsa actor _ _ _ => some actor
  | registeredEip1271 actor _ _ _ => some actor
  | revoked actor _ _ => some actor
  | depositInitiated depositor _ _ _ _ _ => some depositor
  | depositWithFeeInitiated sender _ _ _ _ _ _ _ _ => some sender
  | ammDisabled _ _ => none

end IngestedEvent

/-- Addresses and their numbers, in both directions. -/
structure AddressBook where
  forward : Keyed EthAddress ActorId
  reverse : Keyed ActorId EthAddress
  nextActorId : ActorId

inductive AssignError where
  | overflow
deriving DecidableEq

namespace AddressBook

def new : AddressBook where
  forward := ∅
  reverse := ∅
  nextActorId := INITIAL_NEXT_ACTOR_ID

def lookup (book : AddressBook) (addr : EthAddress) : Option ActorId := book.forward.lookup addr

def lookupReverse (book : AddressBook) (id : ActorId) : Option EthAddress := book.reverse.lookup id

def tryAssign (book : AddressBook) (addr : EthAddress) :
    Except AssignError ((ActorId × Bool) × AddressBook) :=
  match book.lookup addr with
  | some existing => .ok ((existing, false), book)
  | none =>
    let fresh := book.nextActorId
    if fresh.toNat + 1 < 2 ^ 64 then
      .ok ((fresh, true),
        { forward := book.forward.insert addr fresh
          reverse := book.reverse.insert fresh addr
          nextActorId := fresh + 1 })
    else .error .overflow

end AddressBook

structure UnsignedAction where
  action : Action
  signer : ActorId
  nonce : Nonce

inductive Translated where
  | noAction
  | emit (action : UnsignedAction)
  | emitWithAssignment (action : UnsignedAction) (address : EthAddress) (newActorId : ActorId)

/-- An action on the actor of an address; an unknown address gets the next number. -/
def previewFor (book : AddressBook) (addr : EthAddress) (currentNonce : Nonce)
    (onKnown onFresh : ActorId → Action) : Translated :=
  match book.lookup addr with
  | some existingId => .emit ⟨onKnown existingId, BRIDGE_ACTOR_ID, currentNonce⟩
  | none =>
    let freshId := book.nextActorId
    .emitWithAssignment ⟨onFresh freshId, BRIDGE_ACTOR_ID, currentNonce⟩ addr freshId

def previewRegistration (book : AddressBook) (actorAddress : EthAddress) (pk : Bytes)
    (currentNonce : Nonce) : Translated :=
  previewFor book actorAddress currentNonce (.replaceKey · pk) (.registerIdentity · pk)

def previewIngest (book : AddressBook) (event : IngestedEvent) (currentNonce : Nonce) :
    Translated :=
  match event with
  | .registeredEcdsa actor pubkey _ _ => previewRegistration book actor pubkey currentNonce
  | .registeredEip1271 actor contractSigner _ _ =>
    previewRegistration book actor contractSigner.bytes currentNonce
  | .revoked .. => .noAction
  | .depositInitiated .. => .noAction
  | .depositWithFeeInitiated .. => .noAction
  | .ammDisabled .. => .noAction

/-- The first eight bytes of the receipt, big endian. -/
def depositIdFromReceipt (receiptHash : TopicHash) : UInt64 :=
  UInt64.ofNat (beNat (receiptHash.bytes.take 8))

def materialiseDepositFor (book : AddressBook) (depositor : EthAddress) (currentNonce : Nonce)
    (build : ActorId → Action) : Translated :=
  previewFor book depositor currentNonce build build

/-- The translation that also turns deposits into actions.  It has no errors left. -/
def previewIngestMaterialising (book : AddressBook) (event : IngestedEvent)
    (currentNonce : Nonce) : Translated :=
  match event with
  | .depositInitiated depositor resourceId amount receiptHash _ _ =>
    materialiseDepositFor book depositor currentNonce
      (.deposit resourceId · amount (depositIdFromReceipt receiptHash))
  | .depositWithFeeInitiated sender resourceId userAmount poolAmount ammSeedAmount budgetGrant
      receiptHash _ _ =>
      materialiseDepositFor book sender currentNonce
        (.depositWithFee resourceId · GAS_POOL_ACTOR_ID userAmount poolAmount budgetGrant
          (depositIdFromReceipt receiptHash) ammSeedAmount)
  | other => previewIngest book other currentNonce

/-- The translation that the configuration asks for. -/
def translate (materialiseDeposits : Bool) (book : AddressBook) (event : IngestedEvent)
    (currentNonce : Nonce) : Translated :=
  if materialiseDeposits then previewIngestMaterialising book event currentNonce
  else previewIngest book event currentNonce

inductive CommitError where
  | overflow
  | expectedIdMismatch (expected actual : ActorId)
deriving DecidableEq

/-- Enter a number that was handed out; the book is left as the failure leaves it. -/
def commitAssignment (book : AddressBook) (address : EthAddress) (expectedId : ActorId) :
    Except CommitError ActorId × AddressBook :=
  match book.tryAssign address with
  | .error .overflow => (.error .overflow, book)
  | .ok ((assigned, _), book) =>
    if assigned ≠ expectedId then (.error (.expectedIdMismatch expectedId assigned), book)
    else (.ok assigned, book)

section Laws

namespace AddressBook

variable {book : AddressBook} {addr : EthAddress}

theorem tryAssign_of_unknown (hunknown : book.lookup addr = none)
    (hroom : book.nextActorId.toNat + 1 < 2 ^ 64) :
    book.tryAssign addr = .ok ((book.nextActorId, true),
      { forward := book.forward.insert addr book.nextActorId
        reverse := book.reverse.insert book.nextActorId addr
        nextActorId := book.nextActorId + 1 }) := by
  rw [tryAssign, hunknown]
  exact if_pos hroom

theorem tryAssign_overflow (hunknown : book.lookup addr = none)
    (hfull : ¬ book.nextActorId.toNat + 1 < 2 ^ 64) : book.tryAssign addr = .error .overflow := by
  rw [tryAssign, hunknown]
  exact if_neg hfull

end AddressBook

def subject : Action → Option ActorId
  | .registerIdentity actor _ => some actor
  | .replaceKey actor _ => some actor
  | .deposit _ recipient _ _ => some recipient
  | .depositWithFee _ recipient _ _ _ _ _ _ => some recipient
  | _ => none

/-- What a translation can come to: an action on the actor of a known address, or on the next
actor for an unknown one. -/
inductive TranslateResult (book : AddressBook) (event : IngestedEvent) (nonce : Nonce) :
    Translated → Prop
  | noAction : TranslateResult book event nonce .noAction
  | known (addr id action) (haddr : event.address = some addr)
      (hknown : book.lookup addr = some id) (hsubject : subject action = some id)
      (hkind : ∀ actor pk, action ≠ .registerIdentity actor pk) :
      TranslateResult book event nonce (.emit { action, signer := BRIDGE_ACTOR_ID, nonce })
  | fresh (addr action) (haddr : event.address = some addr)
      (hunknown : book.lookup addr = none) (hsubject : subject action = some book.nextActorId) :
      TranslateResult book event nonce
        (.emitWithAssignment { action, signer := BRIDGE_ACTOR_ID, nonce } addr book.nextActorId)

variable {book : AddressBook} {event : IngestedEvent} {nonce : Nonce} {addr : EthAddress}

/-- An event of a known address is ignored or becomes an action on its actor. -/
theorem TranslateResult.of_known {result : Translated} {id : ActorId}
    (h : TranslateResult book event nonce result) (haddr : event.address = some addr)
    (hknown : book.lookup addr = some id) :
    result = .noAction ∨ ∃ u, result = .emit u ∧ subject u.action = some id := by
  cases h with
  | noAction => exact .inl rfl
  | known _ _ _ haddr' hknown' hsubject =>
    cases haddr.symm.trans haddr'
    cases hknown.symm.trans hknown'
    exact .inr ⟨_, rfl, hsubject⟩
  | fresh _ _ haddr' hunknown =>
    cases haddr.symm.trans haddr'
    rw [hunknown] at hknown
    cases hknown

theorem translateResult_previewFor {onKnown onFresh : ActorId → Action}
    (haddr : event.address = some addr) (hknown : ∀ id, subject (onKnown id) = some id)
    (hfresh : ∀ id, subject (onFresh id) = some id)
    (hkind : ∀ id actor pk, onKnown id ≠ .registerIdentity actor pk) :
    TranslateResult book event nonce (previewFor book addr nonce onKnown onFresh) := by
  rw [previewFor]
  cases hlookup : book.lookup addr with
  | some id => exact .known addr id _ haddr hlookup (hknown id) (hkind id)
  | none => exact .fresh addr _ haddr hlookup (hfresh _)

theorem translateResult (materialise : Bool) (book : AddressBook) (event : IngestedEvent)
    (nonce : Nonce) :
    TranslateResult book event nonce (translate materialise book event nonce) := by
  cases event with
  | registeredEcdsa | registeredEip1271 =>
    cases materialise <;>
    · simp only [translate, previewIngest, previewIngestMaterialising, previewRegistration, if_true,
        Bool.false_eq_true, if_false]
      apply translateResult_previewFor rfl
      · exact fun _ => rfl
      · exact fun _ => rfl
      · simp
  | depositInitiated | depositWithFeeInitiated =>
    cases materialise with
    | false => exact .noAction
    | true =>
      simp only [translate, previewIngestMaterialising, materialiseDepositFor, if_true]
      apply translateResult_previewFor rfl
      · exact fun _ => rfl
      · exact fun _ => rfl
      · simp
  | revoked | ammDisabled => cases materialise <;> exact .noAction

end Laws

end Knomosis.Ingest
