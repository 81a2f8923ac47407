import Klens.Lib.SortDedup
import Klens.Lib.Wrapping
import Klens.Scan.Plan
import Mathlib.Algebra.Ring.Int.Defs
import Mathlib.Data.String.Basic
import Std.Data.ExtTreeMap

/-! The tables the lanes of a cluster keep. A hash map stands as an ordered map
where nothing depends on its order, and an interned name is its text. -/
namespace Klens.Store
open Klens.Lib Std

abbrev Watermarks := Scan.Watermarks

inductive GroupState where
  | stable
  | empty
  | preparingRebalance
  | completingRebalance
  | assigning
  | reconciling
  | dead
  | unknown
  deriving DecidableEq, Repr

structure MemberAssignment where
  topic : String
  partitions : List Int
  deriving DecidableEq, Repr

structure GroupMember where
  id : String
  clientId : String
  host : String
  assignments : List MemberAssignment
  deriving DecidableEq, Repr

structure CommittedOffset where
  topic : String
  partition : Int
  offset : Int
  deriving DecidableEq, Repr

structure GroupSnapshot where
  id : String
  state : GroupState
  protocol : String
  members : List GroupMember
  committed : List CommittedOffset
  deriving DecidableEq, Repr

/-- The topics of the members' assignments, in order. -/
def assignedTopics (members : List GroupMember) : List String :=
  members.flatMap fun member => member.assignments.map MemberAssignment.topic

def GroupSnapshot.consumedTopics (group : GroupSnapshot) : List String :=
  assignedTopics group.members ++ group.committed.map CommittedOffset.topic

structure BrokerMetadata where
  id : Int
  host : String
  port : Int
  rack : Option String
  deriving DecidableEq, Repr

structure PartitionMetadata where
  id : Int
  leader : Int
  replicas : List Int
  isr : List Int
  deriving DecidableEq, Repr

def PartitionMetadata.underReplicated (partition : PartitionMetadata) : Bool :=
  decide (partition.isr.length < partition.replicas.length)

structure TopicMetadata where
  name : String
  internal : Bool
  partitions : List PartitionMetadata
  deriving DecidableEq, Repr

structure MetadataSnapshot where
  brokers : List BrokerMetadata
  topics : List TopicMetadata
  deriving DecidableEq, Repr

structure BrokerInfo where
  host : String
  port : Int
  rack : Option String
  deriving DecidableEq, Repr

structure TopicInfo where
  internal : Bool
  partitions : List PartitionMetadata
  deriving DecidableEq, Repr

namespace TopicInfo

def partitionIds (topic : TopicInfo) : List Int := topic.partitions.map PartitionMetadata.id

def replicationFactor (topic : TopicInfo) : Int :=
  (topic.partitions.head?.map fun partition => (partition.replicas.length : Int)).getD 0

def underReplicated (topic : TopicInfo) : Bool :=
  topic.partitions.any PartitionMetadata.underReplicated

end TopicInfo

structure GroupInfo where
  state : GroupState
  protocol : String
  members : List GroupMember
  deriving DecidableEq, Repr

/-- A topic and one of its partitions. -/
abbrev TopicPartition := String × Int

/-- Topic first, then partition, as tuples compare. -/
abbrev tupleOrder : TopicPartition → TopicPartition → Ordering :=
  compareLex (compareOn Prod.fst) (compareOn Prod.snd)

instance : TransCmp tupleOrder :=
  inferInstanceAs (TransCmp (compareLex (compareOn Prod.fst) (compareOn Prod.snd)))

instance : LawfulEqCmp tupleOrder where
  eq_of_compare {a b} same := by
    simp only [tupleOrder, compareLex_eq_eq, compareOn] at same
    exact Prod.ext (LawfulEqCmp.eq_of_compare same.1) (LawfulEqCmp.eq_of_compare same.2)

namespace GroupInfo

def assignedPartitionRefs (group : GroupInfo) : List TopicPartition :=
  group.members.flatMap fun member => member.assignments.flatMap fun assignment =>
    assignment.partitions.map fun partition => (assignment.topic, partition)

/-- Each assigned partition with the first member that holds it. -/
def owners (group : GroupInfo) : ExtTreeMap TopicPartition String tupleOrder :=
  group.members.foldl (fun owners member =>
    member.assignments.foldl (fun owners assignment =>
      assignment.partitions.foldl (fun owners partition =>
        owners.insertIfNew (assignment.topic, partition) member.id) owners) owners) ∅

end GroupInfo

structure Topology where
  controller : Option Int
  brokers : ExtTreeMap Int BrokerInfo
  topics : ExtTreeMap String TopicInfo
  groups : ExtTreeMap String GroupInfo
  topicGroups : ExtTreeMap String (List String)
  deriving DecidableEq

namespace Topology

def empty : Topology :=
  { controller := none, brokers := ∅, topics := ∅, groups := ∅, topicGroups := ∅ }

/-- `topic_groups.entry(topic).or_default().push(id)`. -/
def indexTopic (id : String) (topicGroups : ExtTreeMap String (List String)) (topic : String) :
    ExtTreeMap String (List String) :=
  topicGroups.alter topic fun held => some (held.getD [] ++ [id])

/-- One group of `assemble`: the reverse index and the groups so far. -/
def assembleGroup (state : ExtTreeMap String (List String) × ExtTreeMap String GroupInfo)
    (group : GroupSnapshot) : ExtTreeMap String (List String) × ExtTreeMap String GroupInfo :=
  ((sortDedup group.consumedTopics).foldl (indexTopic group.id) state.1,
    state.2.insert group.id
      { state := group.state, protocol := group.protocol, members := group.members })

def assemble (snapshot : MetadataSnapshot) (groups : List GroupSnapshot) : Topology :=
  let (topicGroups, assembled) := groups.foldl assembleGroup (∅, ∅)
  { controller := none
    brokers := .ofList (snapshot.brokers.map fun broker =>
      (broker.id, BrokerInfo.mk broker.host broker.port broker.rack))
    topics := .ofList (snapshot.topics.map fun topic =>
      (topic.name, TopicInfo.mk topic.internal topic.partitions))
    groups := assembled
    topicGroups := topicGroups.map fun _ ids => ids.insertionSort (· ≤ ·) }

def groupsForTopic (topology : Topology) (topic : String) : List String :=
  topology.topicGroups[topic]?.getD []

end Topology

structure WatermarkTable where
  marks : ExtTreeMap String (ExtTreeMap Int Watermarks)

namespace WatermarkTable

def get (table : WatermarkTable) (topic : String) (partition : Int) : Option Watermarks :=
  table.marks[topic]?.bind (·[partition]?)

/-- Overflow of an `i64` wraps, as in a release build; a debug build stops. -/
def produced (table : WatermarkTable) (topic : String) : Int :=
  (table.marks[topic]?.map fun marks =>
    wrappingSum 64 (marks.toList.map fun entry => max entry.2.high 0)).getD 0

def retained (table : WatermarkTable) (topic : String) : Int :=
  (table.marks[topic]?.map fun marks =>
    wrappingSum 64 (marks.toList.map fun entry =>
      max (wrapped 64 (entry.2.high - entry.2.low)) 0)).getD 0

end WatermarkTable

structure GroupOffsets where
  committed : List CommittedOffset
  deriving DecidableEq, Repr

def GroupOffsets.partitions (offsets : GroupOffsets) : List TopicPartition :=
  offsets.committed.map fun offset => (offset.topic, offset.partition)

structure OffsetTable where
  groups : ExtTreeMap String GroupOffsets
  deriving DecidableEq

namespace OffsetTable

def empty : OffsetTable := { groups := ∅ }

def get (table : OffsetTable) (group : String) : Option GroupOffsets := table.groups[group]?

end OffsetTable

inductive ConfigSource where
  | dynamicTopic
  | dynamicBroker
  | dynamicDefaultBroker
  | staticBroker
  | default
  deriving DecidableEq, Repr

structure ConfigEntry where
  name : String
  value : Option String
  source : ConfigSource
  readOnly : Bool
  sensitive : Bool
  deriving DecidableEq, Repr

def ConfigEntry.lookup (entries : List ConfigEntry) (name : String) : Option String :=
  (entries.find? fun entry => entry.name = name).bind ConfigEntry.value

@[ext] structure ConfigTable where
  topics : ExtTreeMap String (List ConfigEntry)
  deriving DecidableEq

def ConfigTable.get (table : ConfigTable) (topic : String) : Option (List ConfigEntry) :=
  table.topics[topic]?

structure LogDirInfo where
  path : String
  error : Option String
  totalBytes : Option Int
  usableBytes : Option Int
  cordoned : Bool
  sizeBytes : Int
  replicaCount : Int
  deriving DecidableEq, Repr

structure PartitionStorage where
  sizeBytes : Int
  diskBytes : Int
  deriving DecidableEq, Repr

namespace PartitionStorage

def zero : PartitionStorage := { sizeBytes := 0, diskBytes := 0 }

/-- Sizes add up in `Int`: they are only ever compared with themselves. -/
def add (self other : PartitionStorage) : PartitionStorage :=
  { sizeBytes := self.sizeBytes + other.sizeBytes, diskBytes := self.diskBytes + other.diskBytes }

end PartitionStorage

structure LogDirTable where
  brokers : ExtTreeMap Int (List LogDirInfo)
  partitions : ExtTreeMap String (ExtTreeMap Int PartitionStorage)
  deriving DecidableEq

instance : LawfulBEq (List LogDirInfo) := List.instLawfulBEq

namespace LogDirTable

def empty : LogDirTable := { brokers := ∅, partitions := ∅ }

def partition (table : LogDirTable) (topic : String) (partition : Int) : Option PartitionStorage :=
  table.partitions[topic]?.bind (·[partition]?)

def topic (table : LogDirTable) (topic : String) : Option PartitionStorage :=
  table.partitions[topic]?.map fun partitions =>
    partitions.toList.foldl (fun total entry => total.add entry.2) .zero

end LogDirTable

inductive SchemaType where
  | avro
  | json
  | protobuf
  deriving DecidableEq, Repr

inductive SchemaCompatibility where
  | backward
  | backwardTransitive
  | forward
  | forwardTransitive
  | full
  | fullTransitive
  | none
  deriving DecidableEq, Repr

structure SubjectInfo where
  id : Int
  schemaType : SchemaType
  latestVersion : Int
  versions : List Int
  compatibility : SchemaCompatibility
  deriving DecidableEq, Repr

@[ext] structure SubjectTable where
  subjects : ExtTreeMap String SubjectInfo
  deriving DecidableEq

def SubjectTable.empty : SubjectTable := { subjects := ∅ }

/-- The schema id behind each version of each subject. -/
@[ext] structure SchemaIdTable where
  subjects : ExtTreeMap String (ExtTreeMap Int Int)
  deriving DecidableEq

namespace SchemaIdTable

def empty : SchemaIdTable := { subjects := ∅ }

def get (table : SchemaIdTable) (subject : String) (version : Int) : Option Int :=
  table.subjects[subject]?.bind (·[version]?)

end SchemaIdTable
end Klens.Store
