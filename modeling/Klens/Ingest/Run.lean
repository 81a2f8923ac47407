import Klens.Store.Follower

/-! The loop of a lane that follows another: read the upstream table, poll with
it, and wait for the interval or for an upstream table that makes it stale. -/
namespace Klens.Ingest
open Klens.Store

/-- Where `run` is. While it waits it remembers the table of its last poll and
the last upstream table `stale` was evaluated on since. -/
inductive Control (T : Type) where
  | reading
  | polling (fetched : T)
  | waiting (fetched : T) (evaluated : Option T)
  deriving DecidableEq, Repr

structure Run (T C : Type) where
  follower : Follower T C
  control : Control T

namespace Run
variable {T C : Type} (stale : T → T → Bool)

/-- `run` subscribes and calls `table` at once. -/
def start (shared : SharedLane T C) : Run T C :=
  { follower := { Follower.follow shared with phase := .calling }, control := .reading }

/-- `poll` is over and the loop waits in `select!`. -/
def polled (run : Run T C) (fetched : T) : Run T C :=
  { follower := { run.follower with phase := .waiting }, control := .waiting fetched none }

/-- Back to the head of the loop. -/
def again (run : Run T C) : Run T C :=
  { follower := { run.follower with phase := .calling }, control := .reading }

/-- A load, and what the loop does with its table. -/
def load (run : Run T C) : Run T C :=
  let loaded : Run T C := { run with follower := run.follower.load }
  match run.control, run.follower.shared.lane.load with
  | .reading, some table => { loaded with control := .polling table }
  | .waiting fetched _, some table =>
    if stale fetched table then loaded.again
    else
      { follower := { loaded.follower with phase := .waiting }
        control := .waiting fetched (some table) }
  | _, _ => loaded

variable [DecidableEq C]

inductive Step : Run T C → Run T C → Prop where
  | lane {run} {shared : SharedLane T C} (step : run.follower.shared.Step shared) :
      Step run { run with follower := { run.follower with shared } }
  | changed {run} (waits : run.follower.phase = .waiting ∨ run.follower.phase = .parked)
      (change : run.follower.Changed) : Step run { run with follower := run.follower.take }
  | mark {run} (awake : run.follower.phase = .calling ∨ run.follower.phase = .woken) :
      Step run { run with follower := run.follower.mark }
  | load {run} (marked : run.follower.phase = .marked) : Step run (run.load stale)
  | polled {run} (fetched : T) (polling : run.control = .polling fetched) :
      Step run (run.polled fetched)
  /-- The interval is over or the lane was kicked, and the wait is dropped. -/
  | elapsed {run} {fetched : T} {evaluated : Option T}
      (waiting : run.control = .waiting fetched evaluated)
      (waits : run.follower.phase = .waiting ∨ run.follower.phase = .parked) :
      Step run run.again

def Reaches (first last : Run T C) : Prop := Relation.ReflTransGen (Step stale) first last

end Run
end Klens.Ingest
