import Klens.Store.Change
import Klens.Store.Lane
import Mathlib.Data.Prod.Lex

/-! The offset lane: a sweep reads the committed offsets of the groups that are
due, keeps what it has for the others, and publishes the lags that moved. -/
namespace Klens.Ingest
open Klens.Lib Klens.Store Std

structure Wave where
  refreshed : List String
  failed : List String
  dropped : List String
  deriving DecidableEq, Repr

def Wave.empty : Wave := { refreshed := [], failed := [], dropped := [] }

/-- Times are readings of one clock; `published` holds the fingerprint of the
last update of each group. -/
structure OffsetLane (F : Type) where
  fast : Nat
  slow : Nat
  attemptedAt : ExtTreeMap String Nat
  published : ExtTreeMap String F

/-- What a sweep runs into: the topology it was called with, what it finds in
the store, the clock, and how Kafka answers for a group. -/
structure Sweep where
  topology : Topology
  hot : List String
  refresh : Bool
  pickedAt : Nat
  markedAt : Nat
  committedOffsets : String → Option (List TopicPartition) → Except String (List CommittedOffset)
  committedAt : Int
  watermarks : Option WatermarkTable

/-- Each due group with what Kafka answered, nothing when the read failed. -/
abbrev Fetched := ExtTreeMap String (Option (List CommittedOffset))

def offsetFetchPartitions (topology : Topology) (previous : Option OffsetTable) (id : String) :
    Option (List TopicPartition) :=
  let partitions := (topology.groups[id]?.map GroupInfo.assignedPartitionRefs).getD []
  if partitions.isEmpty then none
  else
    let kept := match previous.bind (·.get id) with
      | some offsets => offsets.partitions.filter fun key => (partitions.map Prod.fst).contains key.1
      | none => []
    some ((sortDedup ((partitions ++ kept).map toLex)).map ofLex)

def staleGroups (topology : Topology) (previous : Option OffsetTable) : List String :=
  (previous.map fun table =>
    table.groups.keys.filter fun id => !topology.groups.contains id).getD []

/-- What the loop over the topology's groups has put together so far. -/
structure Sorted where
  fetched : Fetched
  groups : ExtTreeMap String GroupOffsets
  refreshed : List String
  failed : List String

namespace Sorted

def keep (sorted : Sorted) (previous : Option OffsetTable) (id : String) : Sorted :=
  match previous.bind (·.get id) with
  | some kept => { sorted with groups := sorted.groups.insert id kept }
  | none => sorted

/-- One group of the loop. -/
def sort (previous : Option OffsetTable) (sorted : Sorted) (id : String) : Sorted :=
  let answer := sorted.fetched[id]?
  let sorted := { sorted with fetched := sorted.fetched.erase id }
  match answer with
  | some none => { sorted with failed := sorted.failed ++ [id] }.keep previous id
  | some (some committed) =>
    { sorted with
      refreshed := sorted.refreshed ++ [id]
      groups := sorted.groups.insert id { committed } }
  | none => sorted.keep previous id

end Sorted

namespace OffsetLane
variable {F : Type}

def new (fast slow : Nat) : OffsetLane F := { fast, slow, attemptedAt := ∅, published := ∅ }

def retain (lane : OffsetLane F) (topology : Topology) : OffsetLane F :=
  { lane with
    attemptedAt := lane.attemptedAt.filter fun id _ => topology.groups.contains id
    published := lane.published.filter fun id _ => topology.groups.contains id }

/-- `saturating_duration_since` is truncated subtraction. -/
def due (lane : OffsetLane F) (hot : List String) (refresh : Bool) (now : Nat) (id : String) :
    Bool :=
  let threshold :=
    if !hot.contains id then lane.slow
    else if refresh then 0
    else lane.fast
  match lane.attemptedAt[id]? with
  | none => true
  | some attempted => decide (now - attempted ≥ threshold)

def dueGroups (lane : OffsetLane F) (topology : Topology) (hot : List String) (refresh : Bool)
    (now : Nat) : List String :=
  topology.groups.keys.filter (lane.due hot refresh now)

def markAttempted (lane : OffsetLane F) (ids : List String) (now : Nat) : OffsetLane F :=
  { lane with attemptedAt := ids.foldl (fun attempted id => attempted.insert id now) lane.attemptedAt }

/-- The reads run side by side, and their answers are collected by group. -/
def fetch (sweep : Sweep) (previous : Option OffsetTable) (due : List String) : Fetched :=
  .ofList (due.map fun id =>
    (id, (sweep.committedOffsets id (offsetFetchPartitions sweep.topology previous id)).toOption))

/-- What is to be said of a group's lag, if it has one. -/
def lagUpdate (topology : Topology) (watermarks : Option WatermarkTable) (offsets : OffsetTable)
    (id : String) : Option GroupLagUpdate := do
  let group ← topology.groups[id]?
  let lag := GroupLag.project group (offsets.get id) watermarks
  let totalLag ← lag.total
  some { group := id, totalLag, lagComplete := lag.complete, offsets := lag.offsets }

variable [DecidableEq F] (fingerprint : GroupLagUpdate → F)

/-- One refreshed group: what was published before, and the updates so far. -/
def publishGroup (topology : Topology) (watermarks : Option WatermarkTable) (offsets : OffsetTable)
    (state : ExtTreeMap String F × List GroupLagUpdate) (id : String) :
    ExtTreeMap String F × List GroupLagUpdate :=
  match lagUpdate topology watermarks offsets id with
  | none => state
  | some update =>
    let print := fingerprint update
    (state.1.insert id print,
      if state.1[id]? = some print then state.2 else state.2 ++ [update])

def lagUpdates (lane : OffsetLane F) (topology : Topology) (watermarks : Option WatermarkTable)
    (offsets : OffsetTable) (refreshed : List String) : OffsetLane F × List GroupLagUpdate :=
  let (published, updates) := refreshed.foldl
    (publishGroup fingerprint topology watermarks offsets) (lane.published, [])
  ({ lane with published }, updates)

end OffsetLane

/-- The offset lane and the lane of the store it commits to. -/
structure OffsetState (F : Type) where
  lane : OffsetLane F
  offsets : Lane OffsetTable

def OffsetState.new {F : Type} (fast slow : Nat) : OffsetState F :=
  { lane := .new fast slow, offsets := .new }

/-- What a sweep leaves behind, the wave it reports and the updates it publishes. -/
structure Swept (F : Type) where
  state : OffsetState F
  wave : Wave
  updates : List GroupLagUpdate

section
variable {F : Type} [DecidableEq F] (fingerprint : GroupLagUpdate → F)

def OffsetState.sweep (state : OffsetState F) (sweep : Sweep) : Swept F :=
  let lane := state.lane.retain sweep.topology
  let previous := state.offsets.load
  let due := lane.dueGroups sweep.topology sweep.hot sweep.refresh sweep.pickedAt
  let dropped := staleGroups sweep.topology previous
  -- A first sweep commits even when there is nothing to read.
  if due.isEmpty && dropped.isEmpty && previous.isSome then
    { state := { state with lane }, wave := .empty, updates := [] }
  else
    let lane := lane.markAttempted due sweep.markedAt
    let fetched := OffsetLane.fetch sweep previous due
    let sorted := sweep.topology.groups.keys.foldl (Sorted.sort previous)
      { fetched, groups := ∅, refreshed := [], failed := [] }
    let next : OffsetTable := { groups := sorted.groups }
    let (lane, updates) :=
      lane.lagUpdates fingerprint sweep.topology sweep.watermarks next sorted.refreshed
    { state := { lane, offsets := state.offsets.commit sweep.committedAt next }
      wave := { refreshed := sorted.refreshed, failed := sorted.failed, dropped }
      updates }

/-- One sweep after the other, the latest first. -/
def sweeps (fast slow : Nat) : List Sweep → OffsetState F
  | [] => .new fast slow
  | sweep :: earlier => ((sweeps fast slow earlier).sweep fingerprint sweep).state

end
end Klens.Ingest
