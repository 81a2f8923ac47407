import Mathlib.Tactic.Common

/-! A lane: the last table a source committed, how often it did, and how its
polls went. Readings of the clock are arguments. -/
namespace Klens.Store

structure LaneHealth where
  updatedAt : Option Int
  checkedAt : Option Int
  lastError : Option String
  lastPollMs : Option Nat
  deriving DecidableEq, Repr

namespace LaneHealth

def empty : LaneHealth :=
  { updatedAt := none, checkedAt := none, lastError := none, lastPollMs := none }

end LaneHealth

structure Lane (T : Type) where
  table : Option T
  version : Nat
  health : LaneHealth

namespace Lane
variable {T : Type}

def new : Lane T := { table := none, version := 0, health := .empty }

def load (lane : Lane T) : Option T := lane.table

def ready (lane : Lane T) : Bool := decide (lane.version > 0)

def commit (lane : Lane T) (now : Int) (next : T) : Lane T :=
  { table := some next
    version := lane.version + 1
    health := { lane.health with updatedAt := some now } }

def recordPoll (lane : Lane T) (now : Int) (elapsedMs : Nat) (error : Option String) : Lane T :=
  { lane with
    health := { lane.health with
      lastPollMs := some elapsedMs
      checkedAt := if error.isNone then some now else lane.health.checkedAt
      lastError := error } }

end Lane
end Klens.Store
