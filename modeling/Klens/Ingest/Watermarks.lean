import Klens.Client.Listing
import Klens.Ingest.Runner

/-! The watermark lane: a poll reads where logs end, and now and then where they
start. In between it takes the starts from the table before. -/
namespace Klens.Ingest
open Klens.Lib Klens.Store Klens.Client Std

/-- Offsets by topic and partition. -/
abbrev Found := ExtTreeMap String Scan.Offsets

abbrev Marks := ExtTreeMap String (ExtTreeMap Int Watermarks)

def Found.at (found : Found) (topic : String) (partition : Int) : Option Int :=
  found[topic]?.bind (·[partition]?)

/-- `merge_watermarks`. A partition without a low is read as empty. -/
def mergeMarks (lows highs : Found) : Marks :=
  highs.filterMap fun topic partitions =>
    let marks := partitions.filterMap fun partition high =>
      let low := (lows.at topic partition).getD high
      if low ≤ high then some { low, high } else none
    if marks.isEmpty then none else some marks

/-- What a poll runs into: the topology it was called with, what it finds in the
store, the clock, and how Kafka answers. -/
structure WatermarkPoll where
  topology : Topology
  offsets : Option OffsetTable
  refresh : Bool
  now : Nat
  comparedAt : Nat
  publishedAt : Nat
  listed : List TopicPartition → OffsetSpec → Except String (List Listed)

/-- `wanted_partitions`: those of the topology and those with a commit. -/
def WatermarkPoll.wanted (poll : WatermarkPoll) : Wanted :=
  let known : ExtTreeMap String (List Int) := poll.topology.topics.map fun _ topic =>
    topic.partitionIds
  let committed : List TopicPartition := match poll.offsets with
    | some offsets => offsets.groups.toList.flatMap fun entry => entry.2.partitions
    | none => []
  let wanted := committed.foldl (fun wanted key =>
    wanted.alter key.1 fun held => some (held.getD [] ++ [key.2])) known
  wanted.toList.map fun entry => (entry.1, sortDedup entry.2)

/-- Times are readings of one clock. -/
structure WatermarkLane where
  lowInterval : Nat
  lowReadAt : Option Nat
  idleHeartbeat : Nat
  committedAt : Option Nat

/-- The low that the table before has for a partition, when it can still be one. -/
def cachedLow (previous : WatermarkTable) (topic : String) (partition high : Int) : Option Int :=
  match previous.get topic partition with
  | some cached => if cached.low ≤ high then some cached.low else none
  | none => none

def knownLows (previous : WatermarkTable) (highs : Found) : Found :=
  highs.map fun topic partitions => partitions.filterMap fun partition high =>
    cachedLow previous topic partition high

def uncached (previous : WatermarkTable) (highs : Found) : Wanted :=
  highs.toList.filterMap fun entry =>
    let missing := (entry.2.filter fun partition high =>
      (cachedLow previous entry.1 partition high).isNone).keys
    if missing.isEmpty then none else some (entry.1, missing)

/-- `lows.entry(topic).or_default().extend(partitions)`, offset by offset. -/
def extendLows (lows found : Found) : Found :=
  (found.toList.flatMap fun entry => entry.2.toList.map fun low => (entry.1, low)).foldl
    (fun lows low => lows.insert low.1 ((lows[low.1]?.getD ∅).insert low.2.1 low.2.2)) lows

namespace WatermarkPoll

/-- The lows are read over those that are known. -/
def readLows (poll : WatermarkPoll) (known : Found) (wanted : Wanted) : Except String Found :=
  if wanted.isEmpty then .ok known
  else (listOffsets poll.listed wanted .earliest).map fun lookup => extendLows known lookup.found

def readHigh (poll : WatermarkPoll) (previous : WatermarkTable) : Except String Marks := do
  let highs ← listOffsets poll.listed poll.wanted .latest
  let lows ← poll.readLows (knownLows previous highs.found) (uncached previous highs.found)
  .ok (mergeMarks lows highs.found)

/-- Of two failures the source reports the one that comes first. -/
def readLowAndHigh (poll : WatermarkPoll) : Except String Marks := do
  let lows ← listOffsets poll.listed poll.wanted .earliest
  let highs ← listOffsets poll.listed poll.wanted .latest
  .ok (mergeMarks lows.found highs.found)

end WatermarkPoll

namespace WatermarkLane

/-- `saturating_duration_since` is truncated subtraction. -/
def lowDue (lane : WatermarkLane) (now : Nat) : Bool :=
  match lane.lowReadAt with
  | none => true
  | some read => decide (now - read ≥ lane.lowInterval)

/-- The table whose lows a poll goes by, if it goes by any. -/
def cache (lane : WatermarkLane) (poll : WatermarkPoll) (previous : Option WatermarkTable) :
    Option WatermarkTable :=
  previous.filter fun _ => !poll.refresh && !lane.lowDue poll.now

def fetch (lane : WatermarkLane) (poll : WatermarkPoll) (previous : Option WatermarkTable) :
    WatermarkLane × Except String WatermarkTable :=
  match lane.cache poll previous with
  | some previous => (lane, (poll.readHigh previous).map WatermarkTable.mk)
  | none =>
    match poll.readLowAndHigh with
    | .ok marks => ({ lane with lowReadAt := some poll.now }, .ok { marks })
    | .error error => (lane, .error error)

def sinceLastCommit (lane : WatermarkLane) (now : Nat) : Option Nat :=
  lane.committedAt.map fun committed => now - committed

def diff (lane : WatermarkLane) (now : Nat) (previous : Option WatermarkTable)
    (next : WatermarkTable) : Option Unit :=
  if previous.map WatermarkTable.marks ≠ some next.marks then some ()
  else match lane.sinceLastCommit now with
    | none => some ()
    | some since => if since ≥ lane.idleHeartbeat then some () else none

/-- `publish` without the rates, which are for display. -/
def publish (lane : WatermarkLane) (now : Nat) : WatermarkLane :=
  { lane with committedAt := some now }

end WatermarkLane

/-- The watermark lane and the lane of the store it commits to. -/
structure WatermarkState where
  lane : WatermarkLane
  watermarks : Lane WatermarkTable

namespace WatermarkState

def new (lowInterval idleHeartbeat : Nat) : WatermarkState where
  lane := { lowInterval, lowReadAt := none, idleHeartbeat, committedAt := none }
  watermarks := .new

def poll (state : WatermarkState) (next : WatermarkPoll) : WatermarkState :=
  let (lane, result) := state.lane.fetch next state.watermarks.load
  let (watermarks, published) :=
    Ingest.poll (lane.diff next.comparedAt) state.watermarks (.untimed result)
  { lane := if published.isSome then lane.publish next.publishedAt else lane, watermarks }

end WatermarkState

/-- One poll after the other, the latest first. -/
def watermarkPolls (lowInterval idleHeartbeat : Nat) : List WatermarkPoll → WatermarkState
  | [] => .new lowInterval idleHeartbeat
  | next :: earlier => (watermarkPolls lowInterval idleHeartbeat earlier).poll next

end Klens.Ingest
