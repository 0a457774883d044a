import Knomosis.Indexer.Decoder

/-!
# What the indexer stores, and how it applies a batch

The indexer keeps the balance of every actor, what each actor was granted and has
consumed, over all time and in the current epoch, and what each pool took in.  A batch
is the list of events of one log frame.  It is applied in passes: at the beginning of
an epoch the counts of the epoch are cleared; then come the events that stand for a
credit or a debit, but only where no event of the batch states the balance itself;
then the stated balances; then the budgets and pools; and at last the cursor.  A batch
that fails anywhere is given up as a whole.
-/

namespace Knomosis.Indexer

open Lib

/-- The tables with one counter for each actor. -/
inductive Table where
  | actorBudgets
  | currentEpochGrants
  | currentEpochConsumed
  | poolBalancesEth
  | poolBalancesBold
deriving DecidableEq

/-- A cell that was never written reads as nothing. -/
structure Storage where
  balances : UInt64 → UInt64 → ℕ
  cells : Table → UInt64 → ℕ
  currentEpoch : ℕ
  cursor : ℕ

/-- Nothing is stored. -/
def Storage.empty : Storage where
  balances _ _ := 0
  cells _ _ := 0
  currentEpoch := 0
  cursor := 0

/-- A balance that does not fit or does not suffice. -/
inductive BalanceError where
  | creditOverflow (actor resource : UInt64) (delta : ℕ)
  | debitUnderflow (actor resource : UInt64) (current delta : ℕ)
deriving DecidableEq

/-- A counter that does not fit or does not suffice. -/
inductive BudgetStorageError where
  | creditOverflow (table : Table) (actor : UInt64) (current delta : ℕ)
  | drainUnderflow (table : Table) (actor : UInt64) (current delta : ℕ)
deriving DecidableEq

inductive CursorError where
  | nonMonotonicAdvance (current attempted : ℕ)
deriving DecidableEq

/-- Why a batch is refused. -/
inductive IndexerError where
  | balance (error : BalanceError)
  | budgetView (error : BudgetStorageError)
  | cursor (error : CursorError)
  | emptyBatch
  | batchTooLarge (size max : ℕ)
  | staleEvent (seq cursor : ℕ)
  | poisoned
deriving DecidableEq

/-- The most events in a batch. -/
def INDEXER_MAX_BATCH_EVENTS : ℕ := 1024

def RESOURCE_ID_ETH : UInt64 := 0

def RESOURCE_ID_BOLD : UInt64 := 1

/-- Writes one balance. -/
def balanceSet (actor resource : UInt64) (value : ℕ) (s : Storage) : Storage :=
  { s with
    balances := Function.update s.balances actor
      (Function.update (s.balances actor) resource value) }

/-- Adds to a balance, within 256 bits. -/
def balanceCredit (actor resource : UInt64) (delta : ℕ) (s : Storage) :
    Except IndexerError Storage :=
  checked (checkedAdd 256 (s.balances actor resource) delta)
    (.balance (.creditOverflow actor resource delta)) fun sum =>
      .ok (balanceSet actor resource sum s)

/-- Takes from a balance that suffices. -/
def balanceDebit (actor resource : UInt64) (delta : ℕ) (s : Storage) :
    Except IndexerError Storage :=
  if s.balances actor resource < delta then
    .error (.balance (.debitUnderflow actor resource (s.balances actor resource) delta))
  else .ok (balanceSet actor resource (s.balances actor resource - delta) s)

/-- The actors and resources whose balances a batch states. -/
def statedBalances (events : List Event) : List (UInt64 × UInt64) :=
  events.filterMap fun
    | .balanceChanged resource actor _ _ => some (actor, resource)
    | _ => none

/-- The credit or debit an event stands for, unless the batch states that balance. -/
def applyBalanceSemanticEvent (stated : List (UInt64 × UInt64)) (s : Storage) :
    Event → Except IndexerError Storage
  | .withdrawalRequested resource sender amount _ _ =>
    if (sender, resource) ∈ stated then .ok s
    else balanceDebit sender resource amount.toNat s
  | .rewardIssued resource recipient amount | .depositCredited resource recipient amount _ =>
    if (recipient, resource) ∈ stated then .ok s
    else balanceCredit recipient resource amount.toNat s
  | _ => .ok s

/-- A stated balance is taken over. -/
def applyBalanceChanged (s : Storage) : Event → Storage
  | .balanceChanged resource actor _ newValue => balanceSet actor resource newValue.toNat s
  | _ => s

/-- Writes one counter. -/
def cellSet (table : Table) (actor : UInt64) (value : ℕ) (s : Storage) : Storage :=
  { s with
    cells := Function.update s.cells table (Function.update (s.cells table) actor value) }

/-- Adds to a counter, within 256 bits. -/
def checkedCredit (table : Table) (actor : UInt64) (delta : ℕ) (s : Storage) :
    Except IndexerError Storage :=
  checked (checkedAdd 256 (s.cells table actor) delta)
    (.budgetView (.creditOverflow table actor (s.cells table actor) delta)) fun sum =>
      .ok (cellSet table actor sum s)

/-- Takes from a counter that suffices. -/
def checkedDebit (table : Table) (actor : UInt64) (delta : ℕ) (s : Storage) :
    Except IndexerError Storage :=
  if s.cells table actor < delta then
    .error (.budgetView (.drainUnderflow table actor (s.cells table actor) delta))
  else .ok (cellSet table actor (s.cells table actor - delta) s)

/-- The table of a pool's inflow; other resources are not tracked. -/
def poolTable (resource : UInt64) : Option Table :=
  if resource = RESOURCE_ID_ETH then some .poolBalancesEth
  else if resource = RESOURCE_ID_BOLD then some .poolBalancesBold
  else none

/-- What a tracked pool takes in. -/
def creditPoolInflow (resource poolActor : UInt64) (amount : ℕ) (s : Storage) :
    Except IndexerError Storage :=
  match poolTable resource with
  | some table => checkedCredit table poolActor amount s
  | none => .ok s

/-- What a tracked pool gives back. -/
def drainPool (resource poolActor : UInt64) (amount : ℕ) (s : Storage) :
    Except IndexerError Storage :=
  match poolTable resource with
  | some table => checkedDebit table poolActor amount s
  | none => .ok s

/-- A grant counts for all time and for the epoch, and what was paid for it goes to the pool. -/
def creditGrant (actor : UInt64) (grant : ℕ) (resource poolActor : UInt64) (amount : ℕ)
    (s : Storage) : Except IndexerError Storage := do
  let s ← checkedCredit .actorBudgets actor grant s
  let s ← checkedCredit .currentEpochGrants actor grant s
  creditPoolInflow resource poolActor amount s

/-- What an event does to the budgets and pools. -/
def dispatchEvent (gasPoolActor : Option UInt64) (s : Storage) : Event → Except IndexerError Storage
  | .depositWithFeeCredited resource recipient poolActor _ poolAmount grant _ =>
    creditGrant recipient grant.toNat resource poolActor poolAmount.toNat s
  | .actionBudgetTopUp signer gasResource gasAmount increment poolActor =>
    creditGrant signer increment.toNat gasResource poolActor gasAmount.toNat s
  | .delegatedActionBudgetTopUp recipient _ gasResource gasAmount increment poolActor =>
    creditGrant recipient increment.toNat gasResource poolActor gasAmount.toNat s
  | .gasPoolClaim resource _ amount =>
    match gasPoolActor with
    | some poolActor => drainPool resource poolActor amount.toNat s
    | none => .ok s
  | .budgetConsumed actor amount => checkedCredit .currentEpochConsumed actor amount.toNat s
  | _ => .ok s

/-- The epoch of a sequence number; the first log frame has the number one. -/
def epochForSeq (seq epochLength : ℕ) : ℕ := if epochLength = 0 then 0 else (seq - 1) / epochLength

/-- Clears the counts of the epoch. -/
def resetCurrentEpoch (s : Storage) : Storage :=
  { s with cells := fun table =>
      match table with
      | .currentEpochGrants | .currentEpochConsumed => fun _ => 0
      | table => s.cells table }

/-- Begins a new epoch if the number belongs to one. -/
def dispatchEpochIfCrossed (seq epochLength : ℕ) (s : Storage) : Storage :=
  if epochForSeq seq epochLength = s.currentEpoch then s
  else { resetCurrentEpoch s with currentEpoch := epochForSeq seq epochLength }

/-- What an actor has left in this epoch, by the counts of the epoch. -/
def remainingThisEpoch (s : Storage) (actor : UInt64) (freeTier : BudgetUnits) : ℕ :=
  min (freeTier.toNat + s.cells .currentEpochGrants actor) (2 ^ 256 - 1) -
    s.cells .currentEpochConsumed actor

/-- The indexer over its storage; a poisoned one takes no batch. -/
structure IndexerState where
  storage : Storage
  cursor : ℕ
  poisoned : Bool
  gasPoolActor : Option UInt64
  epochLength : ℕ

/-- An indexer over a storage that holds nothing. -/
def IndexerState.fresh (gasPoolActor : Option UInt64) (epochLength : ℕ) : IndexerState where
  storage := .empty
  cursor := 0
  poisoned := false
  gasPoolActor := gasPoolActor
  epochLength := epochLength

/-- Moves the cursor on, never back. -/
def advanceCursor (inMemoryCursor newValue : ℕ) (s : Storage) : Except IndexerError Storage :=
  let current := max s.cursor inMemoryCursor
  if newValue ≤ current then .error (.cursor (.nonMonotonicAdvance current newValue))
  else .ok { s with cursor := newValue }

/-- The passes over a batch, in their order. -/
def IndexerState.stage (ix : IndexerState) (seq : ℕ) (events : List Event) :
    Except IndexerError Storage := do
  let s := dispatchEpochIfCrossed seq ix.epochLength ix.storage
  let s ← events.foldlM (applyBalanceSemanticEvent (statedBalances events)) s
  let s := events.foldl applyBalanceChanged s
  let s ← events.foldlM (dispatchEvent ix.gasPoolActor) s
  advanceCursor ix.cursor seq s

/-- Applies a batch as a whole, or not at all. -/
def IndexerState.applyBatch (ix : IndexerState) (seq : ℕ) (events : List Event) :
    Except IndexerError IndexerState :=
  if ix.poisoned then .error .poisoned
  else if events.isEmpty then .error .emptyBatch
  else if INDEXER_MAX_BATCH_EVENTS < events.length then
    .error (.batchTooLarge events.length INDEXER_MAX_BATCH_EVENTS)
  else if seq ≤ ix.cursor then .error (.staleEvent seq ix.cursor)
  else do
    let s ← ix.stage seq events
    .ok { ix with storage := s, cursor := seq }

end Knomosis.Indexer
