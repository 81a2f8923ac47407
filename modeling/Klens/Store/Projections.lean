import Klens.Store.Tables

/-! The rows the pages show, each joined from the tables at hand. Rates are
passed through and stay abstract. -/
namespace Klens.Store
open Klens.Lib Std

inductive CleanupPolicy where
  | delete
  | compact
  | compactDelete
  deriving DecidableEq, Repr

def CleanupPolicy.parse (value : String) : CleanupPolicy :=
  let parts := (value.toList.splitOn ',').map Scan.trim
  match parts.contains "compact".toList, parts.contains "delete".toList with
  | true, true => .compactDelete
  | true, false => .compact
  | _, _ => .delete

def topicConfigValues (entries : Option (List ConfigEntry)) : Option CleanupPolicy × Option Int :=
  let entries := entries.getD []
  ((ConfigEntry.lookup entries "cleanup.policy").map CleanupPolicy.parse,
    (ConfigEntry.lookup entries "retention.ms").bind fun value =>
      Scan.parseInt Scan.i64Min Scan.i64Max value.toList)

structure TopicRow (Rate : Type) where
  name : String
  internal : Bool
  partitionCount : Int
  replicationFactor : Int
  retainedMessages : Int
  producedTotal : Int
  sizeBytes : Option Int
  rate : Rate
  retentionMs : Option Int
  cleanupPolicy : Option CleanupPolicy
  groupCount : Int
  underReplicated : Bool
  deriving DecidableEq

structure PartitionRow where
  id : Int
  leader : Int
  replicas : List Int
  isr : List Int
  lowWatermark : Int
  highWatermark : Int
  sizeBytes : Option Int
  deriving DecidableEq, Repr

namespace PartitionRow

def underReplicated (row : PartitionRow) : Bool := decide (row.isr.length < row.replicas.length)

def retained (row : PartitionRow) : Int :=
  max (wrapped 64 (row.highWatermark - row.lowWatermark)) 0

end PartitionRow

structure TopicDetail (Rate : Type) where
  name : String
  internal : Bool
  partitions : List PartitionRow
  replicationFactor : Int
  retainedMessages : Int
  producedTotal : Int
  sizeBytes : Option Int
  diskBytes : Option Int
  rate : Rate
  retentionMs : Option Int
  cleanupPolicy : Option CleanupPolicy
  groupCount : Int
  underReplicated : Bool
  deriving DecidableEq

structure TopicLanes where
  topology : Topology
  watermarks : Option WatermarkTable
  configs : Option ConfigTable
  logDirs : Option LogDirTable

section Topics
variable {Rate : Type}

def TopicRow.project (name : String) (topic : TopicInfo) (lanes : TopicLanes) (rate : Rate) :
    TopicRow Rate :=
  let (cleanupPolicy, retentionMs) := topicConfigValues (lanes.configs.bind (·.get name))
  { name
    internal := topic.internal
    partitionCount := topic.partitions.length
    replicationFactor := topic.replicationFactor
    retainedMessages := (lanes.watermarks.map (·.retained name)).getD 0
    producedTotal := (lanes.watermarks.map (·.produced name)).getD 0
    sizeBytes := (lanes.logDirs.bind (·.topic name)).map PartitionStorage.sizeBytes
    rate
    retentionMs
    cleanupPolicy
    groupCount := (lanes.topology.groupsForTopic name).length
    underReplicated := topic.underReplicated }

/-- The marks of a partition, zero when the lane has none. -/
def marksOf (lanes : TopicLanes) (name : String) (partition : Int) : Watermarks :=
  (lanes.watermarks.bind (·.get name partition)).getD ⟨0, 0⟩

def partitionRow (lanes : TopicLanes) (name : String) (partition : PartitionMetadata) :
    PartitionRow :=
  let marks := marksOf lanes name partition.id
  { id := partition.id
    leader := partition.leader
    replicas := partition.replicas
    isr := partition.isr
    lowWatermark := marks.low
    highWatermark := marks.high
    sizeBytes := (lanes.logDirs.bind (·.partition name partition.id)).map
      PartitionStorage.sizeBytes }

def TopicDetail.project (name : String) (topic : TopicInfo) (lanes : TopicLanes) (rate : Rate) :
    TopicDetail Rate :=
  let partitions := topic.partitions.map (partitionRow lanes name)
  let storage := lanes.logDirs.bind (·.topic name)
  let (cleanupPolicy, retentionMs) := topicConfigValues (lanes.configs.bind (·.get name))
  { name
    internal := topic.internal
    replicationFactor := topic.replicationFactor
    retainedMessages := wrappingSum 64 (partitions.map PartitionRow.retained)
    producedTotal := wrappingSum 64 (partitions.map fun partition => max partition.highWatermark 0)
    sizeBytes := storage.map PartitionStorage.sizeBytes
    diskBytes := storage.map PartitionStorage.diskBytes
    rate
    retentionMs
    cleanupPolicy
    groupCount := (lanes.topology.groupsForTopic name).length
    underReplicated := partitions.any PartitionRow.underReplicated
    partitions }

end Topics

structure GroupOffset where
  topic : String
  partition : Int
  currentOffset : Option Int
  endOffset : Option Int
  lag : Option Int
  memberId : Option String
  deriving DecidableEq, Repr

structure GroupRow where
  id : String
  state : GroupState
  memberCount : Int
  topicNames : List String
  totalLag : Option Int
  lagComplete : Bool
  deriving DecidableEq, Repr

structure GroupDetail where
  id : String
  state : GroupState
  protocol : String
  members : List GroupMember
  offsets : List GroupOffset
  totalLag : Option Int
  lagComplete : Bool
  deriving DecidableEq, Repr

structure TopicGroupRow where
  id : String
  state : GroupState
  memberCount : Int
  lagOnTopic : Option Int
  deriving DecidableEq, Repr

def lagOf (committed stop : Option Int) : Option Int := do
  let stop ← stop
  let committed ← committed
  some (max (stop - committed) 0)

/-- Where a group stands on each partition it committed on or is assigned. -/
abbrev Positions := ExtTreeMap TopicPartition (Option Int) tupleOrder

def positions (group : GroupInfo) (offsets : Option GroupOffsets) (topic : Option String) :
    Positions :=
  let wanted (name : String) : Bool := topic.all (· = name)
  let committed := ((offsets.map GroupOffsets.committed).getD []).filter fun offset =>
    wanted offset.topic
  let positions : Positions := committed.foldl (fun positions committed =>
    positions.insert (committed.topic, committed.partition) (some committed.offset)) ∅
  let uncommitted : Option Int := if offsets.isSome then some 0 else none
  (group.assignedPartitionRefs.filter fun key => wanted key.1).foldl
    (fun positions key => positions.insertIfNew key uncommitted) positions

def highWatermark (watermarks : Option WatermarkTable) (topic : String) (partition : Int) :
    Option Int :=
  (watermarks.bind (·.get topic partition)).map Scan.Watermarks.high

/-- One lag after the other: their sum so far, and whether all were known. The
source adds `i64`s, which wrap: what is drawn from these sums is that two of them
are equal, which wrapping keeps, or assumes that they fit. -/
def lagStep (totals : Int × Bool) (lag : Option Int) : Int × Bool :=
  match lag with
  | some lag => (totals.1 + lag, totals.2)
  | none => (totals.1, false)

/-- The total is an `i64` in the source. It stays an integer here: that two totals are the
same is kept where both wrap, and what compares them takes the lags to fit. -/
def lagTotals (fetched : Bool) (lags : List (Option Int)) : Option Int × Bool :=
  let (total, complete) := lags.foldl lagStep (0, true)
  (if fetched then some total else none, complete)

def positionsLag (positions : Positions) (fetched : Bool) (watermarks : Option WatermarkTable) :
    Option Int × Bool :=
  lagTotals fetched (positions.toList.map fun entry =>
    lagOf entry.2 (highWatermark watermarks entry.1.1 entry.1.2))

structure GroupLag where
  offsets : List GroupOffset
  total : Option Int
  complete : Bool
  deriving DecidableEq, Repr

/-- One row of a group's lag. -/
def offsetRow (group : GroupInfo) (watermarks : Option WatermarkTable)
    (entry : TopicPartition × Option Int) : GroupOffset :=
  let stop := highWatermark watermarks entry.1.1 entry.1.2
  { topic := entry.1.1
    partition := entry.1.2
    currentOffset := entry.2
    endOffset := stop
    lag := lagOf entry.2 stop
    memberId := group.owners[entry.1]? }

def GroupLag.project (group : GroupInfo) (offsets : Option GroupOffsets)
    (watermarks : Option WatermarkTable) : GroupLag :=
  let rows := (positions group offsets none).toList.map (offsetRow group watermarks)
  let (total, complete) := lagTotals offsets.isSome (rows.map GroupOffset.lag)
  { offsets := rows, total, complete }

def uniqueTopics (names : List String) : List String := sortDedup names

def GroupRow.project (id : String) (group : GroupInfo) (offsets : Option GroupOffsets)
    (watermarks : Option WatermarkTable) : GroupRow :=
  let positions := positions group offsets none
  let (totalLag, lagComplete) := positionsLag positions offsets.isSome watermarks
  { id
    state := group.state
    memberCount := group.members.length
    topicNames := uniqueTopics (positions.keys.map Prod.fst)
    totalLag
    lagComplete }

def GroupDetail.project (id : String) (group : GroupInfo) (offsets : Option GroupOffsets)
    (watermarks : Option WatermarkTable) : GroupDetail :=
  let lag := GroupLag.project group offsets watermarks
  { id
    state := group.state
    protocol := group.protocol
    members := group.members
    offsets := lag.offsets
    totalLag := lag.total
    lagComplete := lag.complete }

def TopicGroupRow.project (id topic : String) (group : GroupInfo) (offsets : Option GroupOffsets)
    (watermarks : Option WatermarkTable) : TopicGroupRow :=
  let positions := positions group offsets (some topic)
  let (lagOnTopic, _) := positionsLag positions offsets.isSome watermarks
  { id
    state := group.state
    memberCount := group.members.length
    lagOnTopic }

def offsetsFor (offsets : Option OffsetTable) (group : String) : Option GroupOffsets :=
  offsets.bind (·.get group)

end Klens.Store
