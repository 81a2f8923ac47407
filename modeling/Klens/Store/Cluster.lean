import Klens.Store.Lane
import Klens.Store.Projections

/-! The lanes of one cluster and the views the pages read from them. -/
namespace Klens.Store
open Klens.Lib Std

structure ClusterStore (Rate : Type) where
  topology : Lane Topology
  watermarks : Lane WatermarkTable
  offsets : Lane OffsetTable
  configs : Lane ConfigTable
  subjects : Lane SubjectTable
  schemaIds : Lane SchemaIdTable
  logDirs : Lane LogDirTable
  rates : ExtTreeMap String Rate

namespace ClusterStore
variable {Rate : Type}

def new : ClusterStore Rate :=
  { topology := .new
    watermarks := .new
    offsets := .new
    configs := .new
    subjects := .new
    schemaIds := .new
    logDirs := .new
    rates := ∅ }

def ready (store : ClusterStore Rate) : Bool := store.topology.ready

def topicLanes (store : ClusterStore Rate) (topology : Topology) : TopicLanes :=
  { topology
    watermarks := store.watermarks.load
    configs := store.configs.load
    logDirs := store.logDirs.load }

def topicRows [Zero Rate] (store : ClusterStore Rate) : List (TopicRow Rate) :=
  match store.topology.load with
  | none => []
  | some topology => topology.topics.toList.map fun entry =>
    TopicRow.project entry.1 entry.2 (store.topicLanes topology) (store.rates[entry.1]?.getD 0)

def topicDetail [Zero Rate] (store : ClusterStore Rate) (name : String) :
    Option (TopicDetail Rate) := do
  let topology ← store.topology.load
  let topic ← topology.topics[name]?
  some (TopicDetail.project name topic (store.topicLanes topology) (store.rates[name]?.getD 0))

def topicConfigs (store : ClusterStore Rate) (name : String) : Option (List ConfigEntry) := do
  let configs ← store.configs.load
  configs.get name

/-- The row of a group on the page of a topic. -/
def topicGroup (store : ClusterStore Rate) (topic id : String) (group : GroupInfo) :
    TopicGroupRow :=
  TopicGroupRow.project id topic group (offsetsFor store.offsets.load id) store.watermarks.load

def topicGroups (store : ClusterStore Rate) (topic : String) : List TopicGroupRow :=
  match store.topology.load with
  | none => []
  | some topology => (topology.groupsForTopic topic).filterMap fun id =>
    topology.groups[id]?.map (store.topicGroup topic id)

/-- The store once the topology lane has committed. -/
def commitTopology (store : ClusterStore Rate) (now : Int) (next : Topology) : ClusterStore Rate :=
  { store with topology := store.topology.commit now next }

end ClusterStore
end Klens.Store
