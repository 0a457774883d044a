import Knomosis.Lib.Machine
import Knomosis.Observer.Game

/-!
# The moves that the observer owes

On its turn the observer computes the honest move and queues it, unless it has
queued one of the same kind at the same pivot before.

Such a key is never met again once the game has moved on.  The midpoint that was
submitted or answered becomes an end of the range, and every later pivot lies
strictly inside the range; the last move is owed over a single step, from which
the game can only end.
-/

namespace Knomosis.Observer

open Lib Contracts

inductive HonestMove where
  | noMove
  | submit (c : Claim)
  | respondAgree
  | respondDisagree
  | terminateOnSingleStep (expectedPostCommit : Bytes32)
deriving DecidableEq

inductive HonestMoveError where
  | truthOracleMissed (idx : UInt64)
deriving DecidableEq

abbrev TruthOracle := UInt64 → Option Bytes32

def computeNextMove (oracle : TruthOracle) (gs : GameState) (me : TurnSide) :
    Except HonestMoveError HonestMove :=
  if ¬ gs.status.isInProgress then .ok .noMove
  else if gs.turn ≠ me then .ok .noMove
  else
    match gs.pendingMidpoint with
    | none =>
      if gs.range.isSingleStep then
        match oracle gs.range.high.idx with
        | none => .error (.truthOracleMissed gs.range.high.idx)
        | some truthHigh => .ok (.terminateOnSingleStep truthHigh)
      else
        let midIdx := gs.range.midpointIdx
        if midIdx ≤ gs.range.low.idx ∨ gs.range.high.idx ≤ midIdx then .ok .noMove
        else
          match oracle midIdx with
          | none => .error (.truthOracleMissed midIdx)
          | some truthMid => .ok (.submit { idx := midIdx, commit := truthMid })
    | some mp =>
      match oracle mp.idx with
      | none => .error (.truthOracleMissed mp.idx)
      | some truthMid => .ok (if mp.commit = truthMid then .respondAgree else .respondDisagree)

inductive MoveKind where
  | unknown
  | submit
  | respond
  | terminate
  | timeout
deriving DecidableEq

def moveKindOf : HonestMove → MoveKind
  | .noMove => .unknown
  | .submit _ => .submit
  | .respondAgree | .respondDisagree => .respond
  | .terminateOnSingleStep _ => .terminate

def pivotForMove (state : GameState) : HonestMove → Option UInt64
  | .noMove => none
  | .submit c => some c.idx
  | .respondAgree | .respondDisagree => state.pendingMidpoint.map Claim.idx
  | .terminateOnSingleStep _ => some state.range.high.idx

/-- The part of a key that is not the id of the game. -/
abbrev PivotKey := MoveKind × Option UInt64

/-- A game of the observer, with the keys that it has queued moves for. -/
structure Desk where
  game : GameState
  submittedPivots : List PivotKey

inductive DeskOp where
  | transition (t : GameTransition)
  | settlement (finalStatus : GameStatus)
  | play (oracle : TruthOracle) (stateKnown built signed : Bool)

/-- The key is that of a move that is prescribed in the state. -/
def Prescribed (me : TurnSide) (gs : GameState) (key : PivotKey) : Prop :=
  ∃ oracle mv, computeNextMove oracle gs me = .ok mv ∧ mv ≠ .noMove ∧
    key = (moveKindOf mv, pivotForMove gs mv)

namespace GameState

/-- The only key that may be prescribed in the state. -/
def key (gs : GameState) : PivotKey :=
  match gs.pendingMidpoint with
  | some mp => (.respond, some mp.idx)
  | none =>
    if gs.range.isSingleStep then (.terminate, some gs.range.high.idx)
    else (.submit, some gs.range.midpointIdx)

def Inside (gs : GameState) (idx : UInt64) : Prop :=
  gs.range.low.idx < idx ∧ idx < gs.range.high.idx

/-- The key is not met in the state or later. -/
def Spent (gs : GameState) (key : PivotKey) : Prop :=
  gs.status.isInProgress = false ∨ key.1 ≠ .terminate ∧ ∃ idx, key.2 = some idx ∧
    (¬ gs.Inside idx ∨ key.1 = .submit ∧ gs.pendingMidpoint.map Claim.idx = some idx)

variable {gs gs' : GameState} {me : TurnSide} {key : PivotKey}

theorem Moved.spent (hmoved : gs.Moved gs') (hproper : gs.Proper) (hspent : gs.Spent key) :
    gs'.Spent key := by
  cases hmoved with
  | same => exact hspent
  | ended hended => exact .inl hended
  | submitted hpending =>
    simp only [Spent, hpending, Option.map_none, reduceCtorEq, and_false, or_false] at hspent
    exact hspent.imp_right fun ⟨hkind, idx, hidx, hout⟩ => ⟨hkind, idx, hidx, .inl hout⟩
  | @responded mp agree _ _ hpending =>
    obtain ⟨hlow, hhigh⟩ := hproper.inside mp hpending
    refine hspent.imp_right ?_
    rintro ⟨hkind, idx, hidx, hout | hmp⟩
    · refine ⟨hkind, idx, hidx, .inl fun hin => hout ?_⟩
      cases agree
      · exact ⟨hin.1, UInt64.lt_trans hin.2 hhigh⟩
      · exact ⟨UInt64.lt_trans hlow hin.1, hin.2⟩
    · cases agree <;> simp_all [Inside]

end GameState

section Runs

abbrev DeskEntry := Entry Desk DeskOp (Option Bool)

variable {gs : GameState} {me : TurnSide} {key : PivotKey}
variable {desk desk' : Desk} {op : DeskOp} {out : Option Bool} {h : List DeskEntry}

/-- The game has not moved since the entry. -/
def Still (later : List DeskEntry) (e : DeskEntry) (desk : Desk) : Prop :=
  ∀ e' ∈ e :: later, e'.pre.game = desk.game

/-- What the history says of the keys. -/
structure Booked (me : TurnSide) (h : List DeskEntry) (desk : Desk) : Prop where
  proper : desk.game.Proper
  spent : ∀ later e earlier, h = later ++ e :: earlier →
    Still later e desk ∨ desk.game.Spent e.pre.game.key
  queued : ∀ key, key ∈ desk.submittedPivots ↔
    ∃ e ∈ h, e.out = some true ∧ Prescribed me e.pre.game key

end Runs

end Knomosis.Observer
