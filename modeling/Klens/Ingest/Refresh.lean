import Klens.Ingest.Runner
import Mathlib.Logic.Function.Basic
import Mathlib.Logic.Relation

/-! `Lane::refresh_until` step by step, next to the runner of its lane. Any number
of calls work on one lane, and a step of one may fall between any two steps of
another or of the runner. -/
namespace Klens.Ingest
open Klens.Store

/-- Where the runner is in `run` and `poll`. -/
inductive RunnerPhase where
  /-- In `Lane::wait`, or waiting for an upstream table that makes it stale. -/
  | waiting
  /-- On the way to the next fetch. -/
  | starting
  /-- The fetch with this number is under way. `full` is what `take_refresh` answered. -/
  | fetching (number : Nat) (full : Bool)
  /-- The fetch is over and its table committed, if it was; the poll is not recorded. -/
  | fetched (number : Nat) (error : Option String)
  deriving DecidableEq, Repr

inductive RefreshPhase where
  /-- At the head of the loop. -/
  | checking
  | marking
  | flagging
  | kicking
  /-- In `polls.changed()`. -/
  | waiting
  | woken
  /-- The last poll did not fail. -/
  | rechecking
  | sleeping
  | returned
  /-- Given up by the caller's timeout. -/
  | dropped
  deriving DecidableEq, Repr

/-- A call of `refresh_until`. `seen` is what its receiver of `polls` has seen;
`since` and `asked` only observe: the fetches begun when it last set the flag, and
how often it kicked the lane. -/
structure Refresher where
  phase : RefreshPhase
  seen : Nat
  since : Nat
  asked : Nat
  deriving DecidableEq, Repr

/-- A lane with its runner and the calls on it. `kicked` is the permit of `kick`,
`polls` counts the sends on the `polls` channel and `fetches` the fetches begun. -/
structure Refreshing (T R : Type) where
  lane : Lane T
  kicked : Bool
  refresh : Bool
  polls : Nat
  fetches : Nat
  runner : RunnerPhase
  calls : R → Refresher

/-- The commit of a poll, before it is recorded. -/
def fetchedLane {T D : Type} (diff : Option T → T → Option D) (lane : Lane T) (now : Int) :
    Except String T → Lane T
  | .ok next => if (diff lane.load next).isSome || lane.load.isNone then lane.commit now next else lane
  | .error _ => lane

def errorOf {T : Type} : Except String T → Option String
  | .ok _ => none
  | .error error => some error

namespace Refreshing
variable {T D R : Type}

def start : Refreshing T R :=
  { lane := .new, kicked := false, refresh := false, polls := 0, fetches := 0
    runner := .starting
    calls := fun _ => { phase := .returned, seen := 0, since := 0, asked := 0 } }

/-- `shows`: the lane has a table and the change is done in it. -/
def shows (state : Refreshing T R) (done : T → Bool) : Bool := state.lane.load.any done

/-- `polls.subscribe()` at the head of a call. -/
def begun (state : Refreshing T R) : Refresher :=
  { phase := .checking, seen := state.polls, since := 0, asked := 0 }

def takeRefresh (takes : Bool) (state : Refreshing T R) : Refreshing T R :=
  { state with
    runner := .fetching state.fetches (takes && state.refresh)
    refresh := if takes then false else state.refresh
    fetches := state.fetches + 1 }

variable [DecidableEq R]

def setCall (state : Refreshing T R) (call : R) (refresher : Refresher) : Refreshing T R :=
  { state with calls := Function.update state.calls call refresher }

def moveCall (state : Refreshing T R) (call : R) (phase : RefreshPhase) : Refreshing T R :=
  state.setCall call { state.calls call with phase }

/-- One step of the runner or of a call. `takes` is whether the source asks for
the flag, `done` what each call waits for, and by the number of a fetch, `diff` is how
the source compares then and `answers` what the fetch can bring. -/
inductive Step (diff : Nat → Option T → T → Option D) (takes : Bool) (done : R → T → Bool)
    (answers : Nat → Except String T → Prop) : Refreshing T R → Refreshing T R → Prop where
  /-- The runner is kicked out of its wait. -/
  | notified {state} (waits : state.runner = .waiting) (kicked : state.kicked = true) :
      Step diff takes done answers state { state with runner := .starting, kicked := false }
  /-- The interval is over, or the upstream table made the lane stale. -/
  | elapsed {state} (waits : state.runner = .waiting) :
      Step diff takes done answers state { state with runner := .starting }
  | fetch {state} (starts : state.runner = .starting) :
      Step diff takes done answers state (state.takeRefresh takes)
  | commit {state} {number : Nat} {full : Bool} (result : Except String T) (now : Int)
      (fetches : state.runner = .fetching number full) (answered : answers number result) :
      Step diff takes done answers state
        { state with
          lane := fetchedLane (diff number) state.lane now result
          runner := .fetched number (errorOf result) }
  | record {state} {number : Nat} {error : Option String} (now : Int) (elapsedMs : Nat)
      (fetched : state.runner = .fetched number error) :
      Step diff takes done answers state
        { state with
          lane := state.lane.recordPoll now elapsedMs error
          polls := state.polls + 1
          runner := .waiting }
  | check {state} (call : R) (checks : (state.calls call).phase = .checking) :
      Step diff takes done answers state
        (state.moveCall call (if state.shows (done call) then .returned else .marking))
  | mark {state} (call : R) (marks : (state.calls call).phase = .marking) :
      Step diff takes done answers state
        (state.setCall call { state.calls call with phase := .flagging, seen := state.polls })
  | flag {state} (call : R) (flags : (state.calls call).phase = .flagging) :
      Step diff takes done answers state
        { state.setCall call { state.calls call with phase := .kicking, since := state.fetches } with
          refresh := true }
  | kick {state} (call : R) (kicks : (state.calls call).phase = .kicking) :
      Step diff takes done answers state
        { state.setCall call
            { state.calls call with phase := .waiting, asked := (state.calls call).asked + 1 } with
          kicked := true }
  | changed {state} (call : R) (waits : (state.calls call).phase = .waiting)
      (change : (state.calls call).seen ≠ state.polls) :
      Step diff takes done answers state
        (state.setCall call { state.calls call with phase := .woken, seen := state.polls })
  | health {state} (call : R) (woken : (state.calls call).phase = .woken) :
      Step diff takes done answers state
        (state.moveCall call
          (if state.lane.health.lastError.isSome then .returned else .rechecking))
  | recheck {state} (call : R) (rechecks : (state.calls call).phase = .rechecking) :
      Step diff takes done answers state
        (state.moveCall call (if state.shows (done call) then .returned else .sleeping))
  /-- The backoff is over. -/
  | slept {state} (call : R) (sleeps : (state.calls call).phase = .sleeping) :
      Step diff takes done answers state (state.moveCall call .checking)
  | drop {state} (call : R)
      (awaits : (state.calls call).phase = .waiting ∨ (state.calls call).phase = .sleeping) :
      Step diff takes done answers state (state.moveCall call .dropped)
  /-- Another change waits to show. -/
  | call {state} (call : R)
      (past : (state.calls call).phase = .returned ∨ (state.calls call).phase = .dropped) :
      Step diff takes done answers state (state.setCall call state.begun)

def Reaches (diff : Nat → Option T → T → Option D) (takes : Bool) (done : R → T → Bool)
    (answers : Nat → Except String T → Prop) (first last : Refreshing T R) : Prop :=
  Relation.ReflTransGen (Step diff takes done answers) first last

end Refreshing
end Klens.Ingest
