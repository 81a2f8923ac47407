import Klens.App.LiveCluster

/-! The requests that change a cluster: who may make them, and what makes one valid. -/
namespace Klens.App
open Klens.Auth Klens.Kafka Klens.Lib Klens.Schemas Klens.Store Std
open Klens.Scan (Bytes RecordHeader)

/-- A cluster and what the caller may do on it. -/
structure ClusterHandle (V : Type) where
  access : ClusterAccess
  cluster : LiveCluster V

namespace ClusterHandle
variable {V : Type}

def isWritable (handle : ClusterHandle V) : Except AccessError Unit :=
  if handle.cluster.writable then .ok ()
  else .error (.readOnlyCluster handle.access.cluster)

/-- A method of `writes!`: the cluster, to who may change it so. -/
def writes (privilege : Privilege) (handle : ClusterHandle V) : Except ApiError (LiveCluster V) :=
  (do
    handle.isWritable
    handle.access.check privilege
    .ok handle.cluster : Except AccessError (LiveCluster V)).mapError .access

abbrev createTopics : ClusterHandle V → Except ApiError (LiveCluster V) := writes .createTopics
abbrev deleteTopics : ClusterHandle V → Except ApiError (LiveCluster V) := writes .deleteTopics
abbrev alterTopicConfigs : ClusterHandle V → Except ApiError (LiveCluster V) :=
  writes .alterTopicConfigs
abbrev addPartitions : ClusterHandle V → Except ApiError (LiveCluster V) := writes .addPartitions
abbrev deleteRecords : ClusterHandle V → Except ApiError (LiveCluster V) := writes .deleteRecords
abbrev produce : ClusterHandle V → Except ApiError (LiveCluster V) := writes .produce
abbrev resetOffsets : ClusterHandle V → Except ApiError (LiveCluster V) := writes .resetOffsets
abbrev deleteOffsets : ClusterHandle V → Except ApiError (LiveCluster V) := writes .deleteOffsets
abbrev deleteGroups : ClusterHandle V → Except ApiError (LiveCluster V) := writes .deleteGroups
abbrev registerSchemas : ClusterHandle V → Except ApiError (LiveCluster V) :=
  writes .registerSchemas
abbrev setCompatibility : ClusterHandle V → Except ApiError (LiveCluster V) :=
  writes .setCompatibility
abbrev deleteSchemas : ClusterHandle V → Except ApiError (LiveCluster V) := writes .deleteSchemas
abbrev createAcls : ClusterHandle V → Except ApiError (LiveCluster V) := writes .createAcls
abbrev deleteAcls : ClusterHandle V → Except ApiError (LiveCluster V) := writes .deleteAcls
abbrev alterQuotas : ClusterHandle V → Except ApiError (LiveCluster V) := writes .alterQuotas
abbrev setScramCredentials : ClusterHandle V → Except ApiError (LiveCluster V) :=
  writes .setScramCredentials
abbrev deleteScramCredentials : ClusterHandle V → Except ApiError (LiveCluster V) :=
  writes .deleteScramCredentials
abbrev alterBrokerConfigs : ClusterHandle V → Except ApiError (LiveCluster V) :=
  writes .alterBrokerConfigs

end ClusterHandle
/-- Who makes a request, and the clusters there are. -/
structure Session (V : Type) where
  access : EffectiveAccess
  clusters : String → Option (LiveCluster V)

def Session.cluster {V : Type} (session : Session V) (name : String) :
    Except ApiError (ClusterHandle V) := do
  let access ← (session.access.cluster name).mapError .access
  match session.clusters access.cluster with
  | some cluster => .ok { access, cluster }
  | none => .error (.kafka (.unknownCluster access.cluster))

structure CreateTopic where
  name : String
  partitions : Option NonZeroU16
  replicationFactor : Option NonZeroU8
  configs : ExtTreeMap String String

def invalidTopicName (debugChar : Char → String) : Client.InvalidTopicName → String
  | .empty => "topic name cannot be empty"
  | .tooLong length =>
    s!"topic name length {length} exceeds maximum of {Client.maxTopicNameLen}"
  | .illegalCharacter illegal =>
    s!"topic name contains illegal character {debugChar illegal}; only [a-zA-Z0-9._-] is allowed"

def CreateTopic.intoTopic (debugChar : Char → String) (request : CreateTopic) :
    Except ApiError NewTopic :=
  match Client.validateTopicName request.name with
  | .error error => .error (.unprocessable (invalidTopicName debugChar error))
  | .ok () => .ok
      { name := request.name
        partitions := request.partitions
        replicationFactor := request.replicationFactor
        configs := request.configs }

inductive RecordPayload where
  | text (data : String)
  | base64 (data : String)
  | schema (schemaId : Int) (data : String)
  deriving DecidableEq, Repr

/-- `is_ascii_whitespace`: blanks, tabs, line feeds, form feeds and carriage returns. -/
def isAsciiWhitespace (byte : UInt8) : Bool := [32, 9, 10, 12, 13].contains byte

def RecordPayload.intoBytes {V : Type} (payload : RecordPayload) (part : String)
    (producer : LiveCluster V) : Handling V Bytes :=
  match payload with
  | .text data => pure data.toUTF8.toList
  | .base64 data =>
    match producer.decodeBase64 (data.toUTF8.toList.filter (!isAsciiWhitespace ·)) with
    | some bytes => pure bytes
    | none => refusing (.error (.unprocessable s!"the {part} is not valid base64"))
  | .schema schemaId data => producer.encode schemaId data

/-- `OptionFuture` of a part of a record. -/
def RecordPayload.intoPart {V : Type} (payload : Option RecordPayload) (part : String)
    (producer : LiveCluster V) : Handling V (Option Bytes) :=
  match payload with
  | some payload => some <$> payload.intoBytes part producer
  | none => pure none

structure ProduceRecord where
  partition : Option Int
  key : Option RecordPayload
  value : Option RecordPayload
  headers : List RecordHeader
  deriving DecidableEq, Repr

def ProduceRecord.intoRecord {V : Type} (request : ProduceRecord) (topic : String)
    (producer : LiveCluster V) : Handling V NewRecord := do
  let key ← RecordPayload.intoPart request.key "key" producer
  let value ← RecordPayload.intoPart request.value "value" producer
  pure { topic, partition := request.partition, key, value, headers := request.headers }

structure DeleteParams where
  partition : List Int
  before : Option Int
  deriving DecidableEq, Repr

def DeleteParams.offset (params : DeleteParams) : Except ApiError (Option Int) :=
  match params.before with
  | some offset =>
    if offset < 0 then .error (.unprocessable "before must be an offset of zero or more")
    else .ok (some offset)
  | none => .ok none

structure ResetOffsets where
  topic : Option String
  partitions : ExtTreeSet Int
  target : Reset.ResetTarget
  dryRun : Bool

def ResetOffsets.intoReset (request : ResetOffsets) (group : String) :
    Except ApiError OffsetReset :=
  if request.topic.isNone && !request.partitions.isEmpty then
    .error (.unprocessable "partitions need a topic")
  else .ok
    { group
      topic := request.topic
      partitions := request.partitions.toList
      target := request.target }

structure RegisterSchema where
  schemaType : SchemaType
  schema : String
  references : List SchemaReference

def RegisterSchema.intoSchema (request : RegisterSchema) (subject : String) : NewSchema :=
  { subject
    schemaType := request.schemaType
    schema := request.schema
    references := request.references }

structure SetScramCredential where
  mechanism : ScramMechanism
  password : String
  iterations : Option Int
  deriving DecidableEq, Repr

/-- `ITERATIONS`, the least and the most. -/
def minScramIterations : Int := 4096

def maxScramIterations : Int := 16384

def SetScramCredential.intoCredential (request : SetScramCredential) (user : String) :
    Except ApiError NewScramCredential :=
  let iterations := request.iterations.getD minScramIterations
  if ¬(minScramIterations ≤ iterations ∧ iterations ≤ maxScramIterations) then
    .error (.unprocessable
      s!"iterations must be between {minScramIterations} and {maxScramIterations}")
  else if request.password.isEmpty then .error (.unprocessable "the password is empty")
  else .ok
    { user, mechanism := request.mechanism, iterations, password := request.password }

/-- What a request is answered with. -/
inductive WriteAnswer where
  | created
  | noContent
  | moves (moves : List Reset.OffsetMove)
  | registered (version : RegisteredVersion)
  | produced (record : ProducedRecord)
  deriving DecidableEq, Repr

namespace Session
variable {V : Type}

def createTopic (session : Session V) (name : String) (request : CreateTopic) :
    Handling V WriteAnswer := do
  let cluster ← refusing (session.cluster name)
  let topics ← refusing cluster.createTopics
  let topic ← refusing (request.intoTopic topics.debugChar)
  topics.createTopic topic
  pure .created

def deleteTopic (session : Session V) (name topic : String) : Handling V WriteAnswer := do
  let cluster ← refusing (session.cluster name)
  let topics ← refusing cluster.deleteTopics
  topics.deleteTopic topic
  pure .noContent

def alterTopicConfigs (session : Session V) (name topic : String) (request : EditConfigs) :
    Handling V WriteAnswer := do
  let cluster ← refusing (session.cluster name)
  let topics ← refusing cluster.alterTopicConfigs
  let edit ← refusing request.intoEdit
  topics.alterTopicConfigs topic edit
  pure .noContent

def addPartitions (session : Session V) (name topic : String) (count : NonZeroU16) :
    Handling V WriteAnswer := do
  let cluster ← refusing (session.cluster name)
  let topics ← refusing cluster.addPartitions
  topics.addPartitions topic count
  pure .noContent

def deleteRecords (session : Session V) (name topic : String) (params : DeleteParams) :
    Handling V WriteAnswer := do
  let cluster ← refusing (session.cluster name)
  let topics ← refusing cluster.deleteRecords
  let before ← refusing params.offset
  topics.deleteRecords topic params.partition before
  pure .noContent

def produce (session : Session V) (name topic : String) (request : ProduceRecord) :
    Handling V WriteAnswer := do
  let cluster ← refusing (session.cluster name)
  let producer ← refusing cluster.produce
  let record ← request.intoRecord topic producer
  let produced ← producer.produce record
  pure (.produced produced)

def resetOffsets (session : Session V) (name group : String) (request : ResetOffsets) :
    Handling V WriteAnswer := do
  let cluster ← refusing (session.cluster name)
  let groups ← refusing cluster.resetOffsets
  let reset ← refusing (request.intoReset group)
  let moves ← if request.dryRun then groups.planReset reset else groups.resetOffsets reset
  pure (.moves moves)

def deleteOffsets (session : Session V) (name group topic : String) :
    Handling V WriteAnswer := do
  let cluster ← refusing (session.cluster name)
  let groups ← refusing cluster.deleteOffsets
  groups.deleteOffsets group topic
  pure .noContent

def deleteGroup (session : Session V) (name group : String) : Handling V WriteAnswer := do
  let cluster ← refusing (session.cluster name)
  let groups ← refusing cluster.deleteGroups
  groups.deleteGroup group
  pure .noContent

def registerSchema (session : Session V) (name subject : String) (request : RegisterSchema) :
    Handling V WriteAnswer := do
  let cluster ← refusing (session.cluster name)
  let schemas ← refusing cluster.registerSchemas
  let registered ← schemas.registerSchema (request.intoSchema subject)
  pure (.registered registered)

def editSubject (session : Session V) (name subject : String) (level : SchemaCompatibility) :
    Handling V WriteAnswer := do
  let cluster ← refusing (session.cluster name)
  let schemas ← refusing cluster.setCompatibility
  schemas.setCompatibility subject level
  pure .noContent

def deleteSchema (session : Session V) (name : String) (deletion : SchemaDeletion) :
    Handling V WriteAnswer := do
  let cluster ← refusing (session.cluster name)
  let schemas ← refusing cluster.deleteSchemas
  schemas.deleteSchema deletion
  pure .noContent

def createAcls (session : Session V) (name : String) (request : CreateAcls) :
    Handling V WriteAnswer := do
  let cluster ← refusing (session.cluster name)
  let acls ← refusing cluster.createAcls
  let bindings ← refusing request.intoAcls
  acls.createAcls bindings
  pure .created

def deleteAcl (session : Session V) (name : String) (acl : Acl) : Handling V WriteAnswer := do
  let cluster ← refusing (session.cluster name)
  let acls ← refusing cluster.deleteAcls
  acls.deleteAcl acl
  pure .noContent

def setClientQuota (session : Session V) (name : String) (request : ClientQuota V) :
    Handling V WriteAnswer := do
  let cluster ← refusing (session.cluster name)
  let quotas ← refusing cluster.alterQuotas
  let quota ← refusing request.intoQuota
  quotas.setClientQuota quota
  pure .noContent

def setScramCredential (session : Session V) (name user : String)
    (request : SetScramCredential) : Handling V WriteAnswer := do
  let cluster ← refusing (session.cluster name)
  let users ← refusing cluster.setScramCredentials
  let credential ← refusing (request.intoCredential user)
  users.setScramCredential credential
  pure .noContent

def deleteScramCredential (session : Session V) (name user : String)
    (mechanism : ScramMechanism) : Handling V WriteAnswer := do
  let cluster ← refusing (session.cluster name)
  let users ← refusing cluster.deleteScramCredentials
  users.deleteScramCredential user mechanism
  pure .noContent

/-- `alter`, which `alter_broker_configs` and `alter_broker_defaults` call. -/
def alterBrokerConfigs (session : Session V) (name : String) (scope : BrokerScope)
    (request : EditConfigs) : Handling V WriteAnswer := do
  let cluster ← refusing (session.cluster name)
  let brokers ← refusing cluster.alterBrokerConfigs
  let edit ← refusing request.intoEdit
  brokers.alterBrokerConfigs scope edit
  pure .noContent

end Session

inductive WriteRequest (V : Type) where
  | createTopic (request : CreateTopic)
  | deleteTopic (topic : String)
  | alterTopicConfigs (topic : String) (request : EditConfigs)
  | addPartitions (topic : String) (count : NonZeroU16)
  | deleteRecords (topic : String) (params : DeleteParams)
  | produce (topic : String) (request : ProduceRecord)
  | resetOffsets (group : String) (request : ResetOffsets)
  | deleteOffsets (group topic : String)
  | deleteGroup (group : String)
  | registerSchema (subject : String) (request : RegisterSchema)
  | editSubject (subject : String) (level : SchemaCompatibility)
  | deleteSchema (deletion : SchemaDeletion)
  | createAcls (request : CreateAcls)
  | deleteAcl (acl : Acl)
  | setClientQuota (request : ClientQuota V)
  | setScramCredential (user : String) (request : SetScramCredential)
  | deleteScramCredential (user : String) (mechanism : ScramMechanism)
  | alterBrokerConfigs (scope : BrokerScope) (request : EditConfigs)

/-- What the handler of each request asks for. -/
def WriteRequest.privilege {V : Type} : WriteRequest V → Privilege
  | .createTopic _ => .createTopics
  | .deleteTopic _ => .deleteTopics
  | .alterTopicConfigs _ _ => .alterTopicConfigs
  | .addPartitions _ _ => .addPartitions
  | .deleteRecords _ _ => .deleteRecords
  | .produce _ _ => .produce
  | .resetOffsets _ _ => .resetOffsets
  | .deleteOffsets _ _ => .deleteOffsets
  | .deleteGroup _ => .deleteGroups
  | .registerSchema _ _ => .registerSchemas
  | .editSubject _ _ => .setCompatibility
  | .deleteSchema _ => .deleteSchemas
  | .createAcls _ => .createAcls
  | .deleteAcl _ => .deleteAcls
  | .setClientQuota _ => .alterQuotas
  | .setScramCredential _ _ => .setScramCredentials
  | .deleteScramCredential _ _ => .deleteScramCredentials
  | .alterBrokerConfigs _ _ => .alterBrokerConfigs

/-- The routes of the requests that change a cluster. -/
def Session.write {V : Type} (session : Session V) (name : String) :
    WriteRequest V → Handling V WriteAnswer
  | .createTopic request => session.createTopic name request
  | .deleteTopic topic => session.deleteTopic name topic
  | .alterTopicConfigs topic request => session.alterTopicConfigs name topic request
  | .addPartitions topic count => session.addPartitions name topic count
  | .deleteRecords topic params => session.deleteRecords name topic params
  | .produce topic request => session.produce name topic request
  | .resetOffsets group request => session.resetOffsets name group request
  | .deleteOffsets group topic => session.deleteOffsets name group topic
  | .deleteGroup group => session.deleteGroup name group
  | .registerSchema subject request => session.registerSchema name subject request
  | .editSubject subject level => session.editSubject name subject level
  | .deleteSchema deletion => session.deleteSchema name deletion
  | .createAcls request => session.createAcls name request
  | .deleteAcl acl => session.deleteAcl name acl
  | .setClientQuota request => session.setClientQuota name request
  | .setScramCredential user request => session.setScramCredential name user request
  | .deleteScramCredential user mechanism => session.deleteScramCredential name user mechanism
  | .alterBrokerConfigs scope request => session.alterBrokerConfigs name scope request

end Klens.App
