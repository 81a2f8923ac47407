import Klens.Store.Lane

/-! One poll of a lane: fetch, compare, commit what changed, publish the
difference. The source is its `diff`; what it fetched is an argument. -/
namespace Klens.Ingest
open Klens.Store

/-- What a poll runs into: its result and the clock readings around it. -/
structure Fetch (T : Type) where
  result : Except String T
  committedAt : Int
  recordedAt : Int
  elapsedMs : Nat

def Fetch.untimed {T : Type} (result : Except String T) : Fetch T :=
  { result, committedAt := 0, recordedAt := 0, elapsedMs := 0 }

/-- The diff of a listing's lane. -/
def listingDiff {T : Type} [DecidableEq T] (previous : Option T) (next : T) : Option Unit :=
  if previous ≠ some next then some () else none

section
variable {T D : Type} (diff : Option T → T → Option D)

/-- The lane after a poll, and the delta that was published. -/
def poll (lane : Lane T) (fetch : Fetch T) : Lane T × Option D :=
  let previous := lane.load
  match fetch.result with
  | .ok next =>
    let delta := diff previous next
    -- An empty first read has no delta and still commits.
    let (lane, published) :=
      if delta.isSome || previous.isNone then (lane.commit fetch.committedAt next, delta)
      else (lane, none)
    (lane.recordPoll fetch.recordedAt fetch.elapsedMs none, published)
  | .error error => (lane.recordPoll fetch.recordedAt fetch.elapsedMs (some error), none)

theorem load_poll {lane : Lane T} {fetch : Fetch T} {table : T}
    (held : (poll diff lane fetch).1.load = some table) :
    fetch.result = .ok table ∨ lane.load = some table := by
  unfold poll at held
  cases result : fetch.result with
  | error error =>
    rw [result] at held
    exact .inr held
  | ok next =>
    rw [result] at held
    dsimp only at held
    split at held
    · exact .inl (congrArg Except.ok (Option.some.inj held))
    · exact .inr held

theorem published_poll {lane : Lane T} {fetch : Fetch T} {next : T}
    (fetched : fetch.result = .ok next) : (poll diff lane fetch).2 = diff lane.load next := by
  unfold poll
  rw [fetched]
  dsimp only
  split
  · rfl
  · next unchanged =>
    cases delta : diff lane.load next with
    | none => rfl
    | some change => simp [delta] at unchanged

def polls (lane : Lane T) (fetches : List (Fetch T)) : Lane T :=
  fetches.foldl (fun lane fetch => (poll diff lane fetch).1) lane

end
end Klens.Ingest
