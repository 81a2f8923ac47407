import Klens.Store.Lane
import Mathlib.Logic.Function.Basic
import Mathlib.Logic.Relation

/-! A commit and a follower step by step. Any number of committers work on a
lane, and one of their steps may fall between any two of a follower's. -/
namespace Klens.Store

/-- How far a committer is in `Lane::commit`. -/
inductive CommitPhase where
  | idle
  | stored
  | bumped
  deriving DecidableEq, Repr

/-- A lane with the commits under way on it. `notices` counts the sends on the
`commits` channel. -/
structure SharedLane (T C : Type) where
  lane : Lane T
  notices : Nat
  phases : C → CommitPhase

namespace SharedLane
variable {T C : Type} [DecidableEq C]

def new : SharedLane T C := { lane := .new, notices := 0, phases := fun _ => .idle }

def setPhase (shared : SharedLane T C) (committer : C) (phase : CommitPhase) : SharedLane T C :=
  { shared with phases := Function.update shared.phases committer phase }

def store (shared : SharedLane T C) (committer : C) (next : T) : SharedLane T C :=
  { shared.setPhase committer .stored with lane := { shared.lane with table := some next } }

def bump (shared : SharedLane T C) (committer : C) (now : Int) : SharedLane T C :=
  { shared.setPhase committer .bumped with
    lane := { shared.lane with
      version := shared.lane.version + 1
      health := { shared.lane.health with updatedAt := some now } } }

def notify (shared : SharedLane T C) (committer : C) : SharedLane T C :=
  { shared.setPhase committer .idle with notices := shared.notices + 1 }

/-- One step of one committer. -/
inductive Step : SharedLane T C → SharedLane T C → Prop where
  | store {shared} (committer : C) (next : T) (free : shared.phases committer = .idle) :
      Step shared (shared.store committer next)
  | bump {shared} (committer : C) (now : Int) (stored : shared.phases committer = .stored) :
      Step shared (shared.bump committer now)
  | notify {shared} (committer : C) (bumped : shared.phases committer = .bumped) :
      Step shared (shared.notify committer)

/-- Some commit has stored its table and not told anyone. -/
def InFlight (shared : SharedLane T C) : Prop := ∃ committer, shared.phases committer ≠ .idle

end SharedLane

/-- Where a follower is in its calls. -/
inductive FollowerPhase where
  /-- Between calls. -/
  | idle
  /-- `table` was called and has not marked. -/
  | calling
  /-- `commit` waits for a change. -/
  | waiting
  /-- A change was taken and nothing was marked since. -/
  | woken
  /-- Marked, and not loaded yet. -/
  | marked
  /-- `table` found nothing and waits for a change. -/
  | parked
  deriving DecidableEq, Repr

/-- A follower on its lane. `loaded` is what its last load answered. -/
structure Follower (T C : Type) where
  shared : SharedLane T C
  phase : FollowerPhase
  seen : Nat
  loaded : Option (Option T)

namespace Follower
variable {T C : Type} [DecidableEq C]

/-- `Lane::follow`: a subscriber has seen what was sent before it. -/
def follow (shared : SharedLane T C) : Follower T C :=
  { shared, phase := .idle, seen := shared.notices, loaded := none }

/-- The change flag of the receiver. -/
def Changed (follower : Follower T C) : Prop := follower.seen ≠ follower.shared.notices

instance (follower : Follower T C) : Decidable follower.Changed :=
  inferInstanceAs (Decidable (follower.seen ≠ follower.shared.notices))

/-- Taking a change, as `changed().await` does when it returns. -/
def take (follower : Follower T C) : Follower T C :=
  { follower with phase := .woken, seen := follower.shared.notices }

def mark (follower : Follower T C) : Follower T C :=
  { follower with phase := .marked, seen := follower.shared.notices }

def load (follower : Follower T C) : Follower T C :=
  { follower with
    phase := if follower.shared.lane.load.isSome then .idle else .parked
    loaded := some follower.shared.lane.load }

/-- A step of a committer, or of the follower on behalf of whoever calls it. -/
inductive Step : Follower T C → Follower T C → Prop where
  | lane {follower} {shared : SharedLane T C} (step : follower.shared.Step shared) :
      Step follower { follower with shared }
  | table {follower} (idle : follower.phase = .idle) :
      Step follower { follower with phase := .calling }
  | commit {follower} (idle : follower.phase = .idle) :
      Step follower { follower with phase := .waiting }
  | changed {follower} (waits : follower.phase = .waiting ∨ follower.phase = .parked)
      (change : follower.Changed) : Step follower follower.take
  | mark {follower} (awake : follower.phase = .calling ∨ follower.phase = .woken) :
      Step follower follower.mark
  | load {follower} (marked : follower.phase = .marked) : Step follower follower.load
  /-- A caller gives up a call that waits. -/
  | dropped {follower} (waits : follower.phase = .waiting ∨ follower.phase = .parked) :
      Step follower { follower with phase := .idle }

def Reaches (first last : Follower T C) : Prop := Relation.ReflTransGen Step first last

end Follower
end Klens.Store
