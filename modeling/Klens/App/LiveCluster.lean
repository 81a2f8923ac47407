import Klens.App.Groups
import Klens.App.Requests
import Klens.Kafka.Writes
import Klens.Lib.Asking

/-! The changes of a cluster: what each one checks and what it asks Kafka for. The
tables it reads may change at any moment. -/
namespace Klens.App
open Klens.Auth Klens.Kafka Klens.Lib Klens.Schemas Klens.Store Std
open Klens.Scan (Bytes RecordHeader)

/-- Why a request comes to no answer: an error to report, or a panic. -/
inductive Failure where
  | refused (error : ApiError)
  | panicked
  deriving DecidableEq, Repr

def Failure.ofStop : Reset.Stop → Failure
  | .failed error => .refused (.kafka (.ofReset error))
  | .panicked => .panicked

/-- A cluster over time: what its tables hold at a moment, and how Kafka answers then.
`debugChar` is how a character is printed to debug it. -/
structure LiveCluster (V : Type) where
  name : String
  writable : Bool
  topology : Nat → Option Topology
  subjects : Nat → Option SubjectTable
  committedOffsets : Nat → String → Except Reset.KafkaError Reset.Commits
  listed : Nat → List TopicPartition → Client.OffsetSpec →
    Except Reset.KafkaError (List Client.Listed)
  order : Reset.MapOrder
  encodePayload : Nat → Int → String → Except KafkaError Bytes
  takes : Nat → KafkaCall V → Except KafkaError Unit
  registers : Nat → NewSchema → Except KafkaError RegisteredVersion
  produces : Nat → NewRecord → Except KafkaError ProducedRecord
  decodeBase64 : Bytes → Option Bytes
  debugChar : Char → String

/-- What a request's handler does. -/
abbrev Handling (V α : Type) := Asking Failure (KafkaCall V) α

section
variable {V α : Type}

def refusing (result : Except ApiError α) : Handling V α := .lift (result.mapError .refused)

def looking (look : Nat → Except KafkaError α) : Handling V α :=
  .read fun moment => (look moment).mapError fun error => .refused (.kafka error)

def sending (call : KafkaCall V) (answers : Nat → Except KafkaError α) : Handling V α :=
  .send call fun moment => (answers moment).mapError fun error => .refused (.kafka error)

end

namespace LiveCluster
variable {V : Type}

/-- The cluster as the checks of a reset find it; what it asks for is sent apart. -/
def seen (cluster : LiveCluster V) (moment : Nat) : Cluster :=
  { session :=
      { cluster := cluster.name
        committedOffsets := cluster.committedOffsets moment
        listed := cluster.listed moment }
    topology := cluster.topology moment
    alterGroupOffsets := fun _ _ => .ok () }

def knownGroup {α : Type} (cluster : LiveCluster V) (group : String) (read : GroupInfo → α) :
    Handling V α :=
  looking fun moment => ((cluster.seen moment).knownGroup group read).mapError .ofReset

def stoppedGroup (cluster : LiveCluster V) (group : String) : Handling V Unit :=
  looking fun moment => ((cluster.seen moment).stoppedGroup group).mapError .ofReset

def writableTopic {α : Type} (cluster : LiveCluster V) (topic : String) (read : TopicInfo → α) :
    Handling V α :=
  looking fun moment => ((cluster.seen moment).writableTopic topic read).mapError .ofReset

def knowsSubject (cluster : LiveCluster V) (subject : String) (version : Option Int)
    (moment : Nat) : Bool :=
  (cluster.subjects moment).any fun table => table.subjects[subject]?.any fun info =>
    version.all fun version => info.versions.contains version

def knownSubject (cluster : LiveCluster V) (subject : String) (version : Option Int) :
    Handling V Unit :=
  looking fun moment =>
    if cluster.knowsSubject subject version moment then .ok ()
    else .error (.unknownSubject cluster.name subject (version.getD 0))

/-- Refuses a broker the topology does not list, once it lists any. -/
def knownBroker (cluster : LiveCluster V) (id : Int) : Handling V Unit :=
  looking fun moment =>
    match cluster.topology moment with
    | some topology =>
      if topology.brokers.contains id then .ok () else .error (.unknownBroker cluster.name id)
    | none => .ok ()

def unknownPartition (cluster : LiveCluster V) (topic : String) (partition : Int) : KafkaError :=
  .unknownPartition cluster.name topic partition

def take (cluster : LiveCluster V) (call : KafkaCall V) : Handling V Unit :=
  sending call fun moment => cluster.takes moment call

def createTopic (cluster : LiveCluster V) (topic : NewTopic) : Handling V Unit :=
  cluster.take (.createTopic topic)

def deleteTopic (cluster : LiveCluster V) (topic : String) : Handling V Unit := do
  cluster.writableTopic topic fun _ => ()
  cluster.take (.deleteTopic topic)

def alterTopicConfigs (cluster : LiveCluster V) (topic : String) (edit : ConfigEdit) :
    Handling V Unit := do
  cluster.writableTopic topic fun _ => ()
  cluster.take (.alterTopicConfigs topic edit)

def addPartitions (cluster : LiveCluster V) (topic : String) (count : NonZeroU16) :
    Handling V Unit := do
  cluster.writableTopic topic fun _ => ()
  cluster.take (.addPartitions topic count)

def deleteRecords (cluster : LiveCluster V) (topic : String) (partitions : List Int)
    (before : Option Int) : Handling V Unit := do
  let known ← cluster.writableTopic topic TopicInfo.partitionIds
  match partitions.find? fun partition => !known.contains partition with
  | some partition => refusing (.error (.kafka (cluster.unknownPartition topic partition)))
  | none =>
    let listed := if partitions.isEmpty then known else partitions
    cluster.take (.deleteRecords
      { topic, before := .ofList (listed.map fun partition => (partition, before)) })

def encode (cluster : LiveCluster V) (schemaId : Int) (json : String) : Handling V Bytes :=
  looking fun moment => cluster.encodePayload moment schemaId json

def writablePartition (cluster : LiveCluster V) (topic : String) (partition : Option Int) :
    Handling V Unit := do
  let partitions ← cluster.writableTopic topic TopicInfo.partitionIds
  match partition.filter fun partition => !partitions.contains partition with
  | some partition => refusing (.error (.kafka (cluster.unknownPartition topic partition)))
  | none => pure ()

def produce (cluster : LiveCluster V) (record : NewRecord) : Handling V ProducedRecord := do
  cluster.writablePartition record.topic record.partition
  sending (.produce record) fun moment => cluster.produces moment record

def plan (cluster : LiveCluster V) (reset : OffsetReset) : Handling V (List Reset.OffsetMove) :=
  .read fun moment => ((cluster.seen moment).plan cluster.order reset).mapError .ofStop

def planReset (cluster : LiveCluster V) (reset : OffsetReset) :
    Handling V (List Reset.OffsetMove) := do
  cluster.knownGroup reset.group fun _ => ()
  cluster.plan reset

def resetOffsets (cluster : LiveCluster V) (reset : OffsetReset) :
    Handling V (List Reset.OffsetMove) := do
  cluster.stoppedGroup reset.group
  let moves ← cluster.plan reset
  if moves.isEmpty then pure moves
  else
    cluster.take (.alterGroupOffsets reset.group (moves.map Reset.OffsetMove.committed))
    pure moves

def deleteGroup (cluster : LiveCluster V) (group : String) : Handling V Unit := do
  cluster.stoppedGroup group
  cluster.take (.deleteGroup group)

def deleteOffsets (cluster : LiveCluster V) (group topic : String) : Handling V Unit := do
  let consumed ← cluster.knownGroup group fun info =>
    info.assignedPartitionRefs.any fun assigned => assigned.1 = topic
  if consumed then refusing (.error (.kafka (.consumedTopic group topic)))
  else
    let committed ← looking fun moment =>
      (cluster.committedOffsets moment group).mapError .ofReset
    let partitions := (committed.offsets.filter fun offset => offset.topic = topic).map
      CommittedOffset.partition
    if partitions.isEmpty then pure ()
    else cluster.take (.deleteGroupOffsets group topic partitions)

def registerSchema (cluster : LiveCluster V) (schema : NewSchema) :
    Handling V RegisteredVersion :=
  sending (.registerSchema schema) fun moment => cluster.registers moment schema

def setCompatibility (cluster : LiveCluster V) (subject : String) (level : SchemaCompatibility) :
    Handling V Unit := do
  cluster.knownSubject subject none
  cluster.take (.setCompatibility subject level)

def deleteSchema (cluster : LiveCluster V) (deletion : SchemaDeletion) : Handling V Unit := do
  cluster.knownSubject deletion.subject deletion.version
  cluster.take (.deleteSchema deletion)

def createAcls (cluster : LiveCluster V) (acls : List Acl) : Handling V Unit :=
  cluster.take (.createAcls acls)

def deleteAcl (cluster : LiveCluster V) (acl : Acl) : Handling V Unit :=
  cluster.take (.deleteAcl acl)

def setClientQuota (cluster : LiveCluster V) (quota : Kafka.ClientQuota V) : Handling V Unit :=
  cluster.take (.alterClientQuota quota)

def setScramCredential (cluster : LiveCluster V) (credential : NewScramCredential) :
    Handling V Unit :=
  cluster.take (.setScramCredential credential)

def deleteScramCredential (cluster : LiveCluster V) (user : String) (mechanism : ScramMechanism) :
    Handling V Unit :=
  cluster.take (.deleteScramCredential user mechanism)

def alterBrokerConfigs (cluster : LiveCluster V) (scope : BrokerScope) (edit : ConfigEdit) :
    Handling V Unit := do
  match scope with
  | .broker id => cluster.knownBroker id
  | .cluster => pure ()
  cluster.take (.alterBrokerConfigs scope edit)

end LiveCluster

end Klens.App
