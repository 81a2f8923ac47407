import Klens.Reset.Plan

/-! Resetting a group's offsets: the checks against what is known of the
cluster, the plan, and the one request that changes anything. -/
namespace Klens.App
open Klens.Store Klens.Client Klens.Reset

/-- A cluster as a request finds it, and how Kafka answers a change. -/
structure Cluster where
  session : Session
  topology : Option Topology
  alterGroupOffsets : String → List CommittedOffset → Except KafkaError Unit

structure OffsetReset where
  group : String
  topic : Option String
  partitions : List Int
  target : ResetTarget

/-- The answer to a request, and the offsets it asked Kafka to commit, if it
came to that. -/
structure Reset where
  moves : Except Stop (List OffsetMove)
  altered : Option (List CommittedOffset)

def GroupState.hasMembers : GroupState → Bool
  | .empty => false
  | .dead => false
  | _ => true

namespace Cluster

def knownGroup {α : Type} (cluster : Cluster) (group : String) (read : GroupInfo → α) :
    Except KafkaError α :=
  match cluster.topology.bind fun known => known.groups[group]? with
  | some info => .ok (read info)
  | none => .error (.unknownGroup cluster.session.cluster group)

def stoppedGroup (cluster : Cluster) (group : String) : Except KafkaError Unit := do
  let active ← cluster.knownGroup group fun info => GroupState.hasMembers info.state
  if active then .error (.activeGroup group) else .ok ()

def writableTopic {α : Type} (cluster : Cluster) (topic : String) (read : TopicInfo → α) :
    Except KafkaError α :=
  match cluster.topology.bind fun known => known.topics[topic]? with
  | none => .error (.unknownTopic cluster.session.cluster topic)
  | some info => if info.internal then .error (.internalTopic topic) else .ok (read info)

def plan (cluster : Cluster) (order : MapOrder) (reset : OffsetReset) :
    Except Stop (List OffsetMove) :=
  match reset.topic with
  | none => planReset cluster.session order reset.group none reset.target
  | some topic => do
    let known ← (cluster.writableTopic topic TopicInfo.partitionIds).mapError Stop.failed
    match reset.partitions.find? fun partition => !known.contains partition with
    | some partition =>
      .error (.failed (.unknownPartition cluster.session.cluster topic partition))
    | none =>
      let partitions := if reset.partitions.isEmpty then known else reset.partitions
      planReset cluster.session order reset.group (some (topic, partitions)) reset.target

def resetOffsets (cluster : Cluster) (order : MapOrder) (reset : OffsetReset) : Reset :=
  match cluster.stoppedGroup reset.group with
  | .error error => ⟨.error (.failed error), none⟩
  | .ok () =>
    match cluster.plan order reset with
    | .error stop => ⟨.error stop, none⟩
    | .ok moves =>
      if moves.isEmpty then ⟨.ok moves, none⟩
      else
        let committed := moves.map OffsetMove.committed
        match cluster.alterGroupOffsets reset.group committed with
        | .error error => ⟨.error (.failed error), some committed⟩
        | .ok () => ⟨.ok moves, some committed⟩

end Cluster

end Klens.App
