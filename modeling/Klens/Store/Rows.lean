import Klens.Store.Projections

/-! The log dirs of a cluster put together, and the rows of its brokers and its
schema subjects. -/
namespace Klens.Store
open Klens.Lib Std

def PartitionMetadata.offline (partition : PartitionMetadata) : Bool := decide (partition.leader < 0)

/-- A copy of a partition in a log dir. `future` is the copy that a move between
log dirs is still writing. -/
structure ReplicaLog where
  topic : String
  partition : Int
  sizeBytes : Int
  future : Bool
  deriving DecidableEq, Repr

structure LogDir where
  broker : Int
  path : String
  error : Option String
  totalBytes : Option Int
  usableBytes : Option Int
  cordoned : Bool
  replicas : List ReplicaLog
  deriving DecidableEq, Repr

namespace LogDirTable

/-- `partitions.entry(topic).or_default().entry(partition).or_default()`, grown
by one replica. -/
def addReplica (partitions : ExtTreeMap String (ExtTreeMap Int PartitionStorage))
    (replica : ReplicaLog) : ExtTreeMap String (ExtTreeMap Int PartitionStorage) :=
  partitions.alter replica.topic fun held =>
    some ((held.getD ∅).alter replica.partition fun storage =>
      let storage := storage.getD .zero
      some { sizeBytes := max storage.sizeBytes replica.sizeBytes
             diskBytes := storage.diskBytes + replica.sizeBytes })

/-- The replicas that serve their partition. -/
def served (dir : LogDir) : List ReplicaLog := dir.replicas.filter (!·.future)

def info (dir : LogDir) : LogDirInfo :=
  { path := dir.path
    error := dir.error
    totalBytes := dir.totalBytes
    usableBytes := dir.usableBytes
    cordoned := dir.cordoned
    sizeBytes := (dir.replicas.map ReplicaLog.sizeBytes).sum
    replicaCount := (served dir).length }

/-- One directory of `assemble`. -/
def addDir (table : LogDirTable) (dir : LogDir) : LogDirTable :=
  { partitions := (served dir).foldl addReplica table.partitions
    brokers := table.brokers.alter dir.broker fun dirs => some (dirs.getD [] ++ [info dir]) }

def byPath (left right : LogDirInfo) : Prop := left.path ≤ right.path

instance : DecidableRel byPath := fun left right =>
  inferInstanceAs (Decidable (left.path ≤ right.path))

def assemble (dirs : List LogDir) : LogDirTable :=
  let table := dirs.foldl addDir .empty
  { table with brokers := table.brokers.map fun _ dirs => dirs.insertionSort byPath }

def broker (table : LogDirTable) (id : Int) : Option (List LogDirInfo) := table.brokers[id]?

end LogDirTable

structure BrokerRow where
  id : Int
  host : String
  port : Int
  rack : Option String
  controller : Bool
  partitionCount : Int
  leaderCount : Int
  sizeBytes : Option Int
  logDirs : List LogDirInfo
  deriving DecidableEq, Repr

namespace BrokerRow

/-- `*counts.entry(id).or_default() += 1`. -/
def bump (counts : ExtTreeMap Int Int) (id : Int) : ExtTreeMap Int Int :=
  counts.alter id fun count => some (count.getD 0 + 1)

/-- One partition of `all`: the replicas and the leaderships of each broker so far. -/
def count (counts : ExtTreeMap Int Int × ExtTreeMap Int Int) (partition : PartitionMetadata) :
    ExtTreeMap Int Int × ExtTreeMap Int Int :=
  (partition.replicas.foldl bump counts.1,
    if partition.offline then counts.2 else bump counts.2 partition.leader)

def counts (topology : Topology) : ExtTreeMap Int Int × ExtTreeMap Int Int :=
  (topology.topics.toList.flatMap fun entry => entry.2.partitions).foldl count (∅, ∅)

def row (topology : Topology) (logDirs : Option LogDirTable) (id : Int) (broker : BrokerInfo) :
    BrokerRow :=
  let dirs := logDirs.bind (·.broker id)
  let (partitionCounts, leaderCounts) := counts topology
  { id
    host := broker.host
    port := broker.port
    rack := broker.rack
    controller := decide (topology.controller = some id)
    partitionCount := partitionCounts[id]?.getD 0
    leaderCount := leaderCounts[id]?.getD 0
    sizeBytes := dirs.map fun dirs => (dirs.map LogDirInfo.sizeBytes).sum
    logDirs := dirs.getD [] }

def all (topology : Topology) (logDirs : Option LogDirTable) : List BrokerRow :=
  topology.brokers.toList.map fun entry => row topology logDirs entry.1 entry.2

end BrokerRow

structure SubjectVersion where
  version : Int
  id : Option Int
  deriving DecidableEq, Repr

structure SubjectRow where
  subject : String
  info : SubjectInfo
  versions : List SubjectVersion
  deriving DecidableEq, Repr

namespace SubjectRow

def version (ids : Option SchemaIdTable) (subject : String) (info : SubjectInfo) (version : Int) :
    SubjectVersion :=
  { version
    id := if version = info.latestVersion then some info.id
      else ids.bind (·.get subject version) }

def row (ids : Option SchemaIdTable) (subject : String) (info : SubjectInfo) : SubjectRow :=
  { subject, info, versions := info.versions.map (version ids subject info) }

def all (subjects : SubjectTable) (ids : Option SchemaIdTable) : List SubjectRow :=
  subjects.subjects.toList.map fun entry => row ids entry.1 entry.2

end SubjectRow
end Klens.Store
