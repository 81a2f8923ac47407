import Klens.App.Mcp.Gate
import Klens.Scan.Query

/-! The tools that need a privilege: what each one checks, reads and asks Kafka for. What a
tool does with the records, the schema or the ACLs it read is left to its reply. -/
namespace Klens.App.Mcp
open Klens.Auth Klens.Kafka Klens.Lib Klens.Schemas Klens.Store Std
open Klens.Scan (Bytes RecordHeader RecordAt RecordQuery RecordOrder RecordCursor CompiledFilter
  TimestampRange)

structure TopicToCreate where
  cluster : Option String
  topic : String
  partitions : Option NonZeroU16
  replicationFactor : Option NonZeroU8
  configs : ExtTreeMap String String

structure RecordToProduce where
  cluster : Option String
  topic : String
  partition : Option Int
  key : Option RecordPayload
  value : RecordPayload
  headers : List RecordHeader

structure SchemaToRegister where
  cluster : Option String
  subject : String
  schemaType : SchemaType
  schema : String
  references : List SchemaReference

structure RecordAddress where
  cluster : Option String
  topic : String
  partition : Int
  offset : Int

structure RecordsQuery where
  cluster : Option String
  topic : String
  partitions : List Int
  order : Option RecordOrder
  startOffset : Option Int
  from? : Option Int
  to? : Option Int
  contains : Option String
  limit : Option Int
  cursor : Option String

structure SchemaQuery where
  cluster : Option String
  subject : String
  version : Option Int

structure AclsQuery where
  cluster : Option String

def defaultRecords : Int := 10

def maxRecords : Int := 50

/-- `RecordParams`, as the tool fills them in. -/
structure RecordParams where
  partition : List Int
  order : Option RecordOrder
  from? : Option Int
  to? : Option Int
  limit : Int
  contains : Option String
  schemaId : Option Int
  cursor : Option String

/-- `builds` answers whether an automaton can be built for a needle. -/
def RecordParams.intoQuery (builds : Bytes → Bool) (params : RecordParams) (topic : String) :
    Except Scan.QueryError RecordQuery := do
  let order := params.order.getD .newest
  let timestamps ← TimestampRange.new params.from? params.to?
  let filter ← match params.contains with
    | some needle => CompiledFilter.contains builds needle
    | none => .ok none
  let cursor ← match params.cursor.map fun cursor => String.ofList (Scan.trim cursor.toList) with
    | none | some "" => .ok none
    | some cursor => do
      let cursor ← RecordCursor.parse cursor
      cursor.validateFor order
      .ok (some cursor)
  .ok
    { topic, partitions := params.partition, filter, timestamps, limit := params.limit, order
      cursor, schemaId := params.schemaId }

def RecordsQuery.start (read : RecordsQuery) : Except ApiError (Option (Int × Int)) :=
  match read.startOffset, read.partitions with
  | none, _ => .ok none
  | some offset, [partition] =>
    if 0 ≤ offset then .ok (some (partition, offset)) else misplaced
  | some _, _ => misplaced
where
  misplaced := .error (.unprocessable
    "`startOffset` needs an offset of zero or more and exactly one partition in `partitions`")

def RecordsQuery.query (builds : Bytes → Bool) (read : RecordsQuery) :
    Except ApiError RecordQuery := do
  let start ← read.start
  let params : RecordParams :=
    { partition := read.partitions, order := read.order, from? := read.from?, to? := read.to?
      limit := max 1 (min maxRecords (read.limit.getD defaultRecords)), contains := read.contains
      schemaId := none, cursor := read.cursor }
  let query ← (params.intoQuery builds read.topic).mapError fun error =>
    .kafka (.invalidQuery error)
  match start with
  | some (partition, offset) =>
    if query.cursor.isNone then
      .ok { query with cursor := some (RecordCursor.at query.order partition offset) }
    else .ok query
  | none => .ok query

/-- What a tool reads from Kafka or the registry. -/
inductive LiveRead where
  | record (place : RecordAt)
  | records (query : RecordQuery)
  | schema (subject : String) (version : Int)

inductive ToolAnswer where
  | created (topic : String) (partitions : Option Nat)
  | produced (record : ProducedRecord)
  | registered (version : RegisteredVersion)
  | found (read : LiveRead)
  | acls (listing : AclListing)

/-- The server of the tools, and the clusters it reaches over time: `liveCalls` is what the
limiter of calls answers at a moment, `reads` whether Kafka or the registry answers then. -/
structure KlensMcp (V : Type) where
  mcp : Config
  names : List String
  clusters : String → Option (LiveCluster V)
  configured : ∀ name, name ∈ names ↔ (clusters name).isSome = true
  hasSchemaRegistry : String → Bool
  liveCalls : Nat → Bool
  acls : String → Nat → Option AclListing
  lastError : String → String → Nat → Option String
  reads : String → Nat → LiveRead → Except KafkaError Unit
  builds : Bytes → Bool

namespace KlensMcp
variable {V : Type}

/-- The session that every call has. -/
def caller (server : KlensMcp V) : Session V :=
  { access := server.mcp.access, clusters := server.clusters }

/-- `Session::clusters`. -/
def visible (server : KlensMcp V) : List (ClusterHandle V) :=
  server.names.filterMap fun name => (server.caller.cluster name).toOption

def clusterOrOnly (server : KlensMcp V) (name : Option String) :
    Except ApiError (ClusterHandle V) :=
  match name with
  | some name => server.caller.cluster name
  | none =>
    match server.visible with
    | [] => .error (.unprocessable "you can see no cluster")
    | [only] => .ok only
    | many =>
      let names := ", ".intercalate (many.map fun handle => handle.access.cluster)
      .error (.unprocessable s!"pass `cluster` as one of {names}")

def offers (server : KlensMcp V) (gate : ToolGate) : Bool :=
  gate.needs.isNone || server.visible.any gate.usableOn

def listTools (server : KlensMcp V) : List ToolGate := ToolGate.gates.filter server.offers

def liveCall (server : KlensMcp V) : Handling V Unit :=
  .read fun moment =>
    if server.liveCalls moment then .ok () else .error (.refused .tooManyLiveCalls)

def requireSchemaRegistry (server : KlensMcp V) (handle : ClusterHandle V) : Except ApiError Unit :=
  let name := handle.access.cluster
  if server.hasSchemaRegistry name then .ok () else .error (.kafka (.noSchemaRegistry name))

def snapshot {T : Type} (server : KlensMcp V) (handle : ClusterHandle V) (lane : String)
    (load : Nat → Option T) : Handling V T :=
  let name := handle.access.cluster
  .read fun moment =>
    match load moment with
    | some table => .ok table
    | none => .error (.refused (.notReady name lane (server.lastError name lane moment)))

def latestVersion (handle : ClusterHandle V) (subject : String) : Handling V Int :=
  looking fun moment =>
    match (handle.cluster.subjects moment).bind fun table => table.subjects[subject]? with
    | some info => .ok info.latestVersion
    | none => .error (.unknownSubject handle.access.cluster subject 0)

def read (server : KlensMcp V) (handle : ClusterHandle V) (read : LiveRead) :
    Handling V ToolAnswer := do
  looking fun moment => server.reads handle.access.cluster moment read
  pure (.found read)

/-- The partitions of a topic, once klens has seen it. -/
def shownPartitions (handle : ClusterHandle V) (topic : String) : Handling V (Option Nat) :=
  .read fun moment => .ok
    (((handle.cluster.topology moment).bind fun topology => topology.topics[topic]?).map
      fun info => info.partitions.length)

def klensTopicCreate (server : KlensMcp V) (request : TopicToCreate) : Handling V ToolAnswer := do
  let cluster ← refusing (server.clusterOrOnly request.cluster)
  let admin ← refusing cluster.createTopics
  let create : CreateTopic :=
    ⟨request.topic, request.partitions, request.replicationFactor, request.configs⟩
  let topic ← refusing (create.intoTopic admin.debugChar)
  server.liveCall
  admin.createTopic topic
  let shown ← shownPartitions cluster topic.name
  pure (.created topic.name (shown.or (topic.partitions.map Subtype.val)))

def klensRecordProduce (server : KlensMcp V) (request : RecordToProduce) :
    Handling V ToolAnswer := do
  let cluster ← refusing (server.clusterOrOnly request.cluster)
  let producer ← refusing cluster.produce
  producer.writablePartition request.topic request.partition
  server.liveCall
  let produce : ProduceRecord :=
    ⟨request.partition, request.key, some request.value, request.headers⟩
  let record ← produce.intoRecord request.topic producer
  let produced ← producer.produce record
  pure (.produced produced)

def klensSchemaRegister (server : KlensMcp V) (request : SchemaToRegister) :
    Handling V ToolAnswer := do
  let cluster ← refusing (server.clusterOrOnly request.cluster)
  let registry ← refusing cluster.registerSchemas
  refusing (server.requireSchemaRegistry cluster)
  server.liveCall
  let register : RegisterSchema := ⟨request.schemaType, request.schema, request.references⟩
  let version ← registry.registerSchema (register.intoSchema request.subject)
  pure (.registered version)

def klensRecordGet (server : KlensMcp V) (address : RecordAddress) : Handling V ToolAnswer := do
  let cluster ← refusing (server.clusterOrOnly address.cluster)
  refusing ((cluster.access.check .records).mapError .access)
  if address.partition < 0 ∨ address.offset < 0 then
    refusing (.error (.unprocessable "`partition` and `offset` must be zero or more"))
  else
    server.liveCall
    server.read cluster (.record ⟨address.topic, address.partition, address.offset, none⟩)

def klensRecordsRead (server : KlensMcp V) (read : RecordsQuery) : Handling V ToolAnswer := do
  let cluster ← refusing (server.clusterOrOnly read.cluster)
  refusing ((cluster.access.check .records).mapError .access)
  let query ← refusing (read.query server.builds)
  server.liveCall
  server.read cluster (.records query)

def klensSchemaGet (server : KlensMcp V) (query : SchemaQuery) : Handling V ToolAnswer := do
  let cluster ← refusing (server.clusterOrOnly query.cluster)
  refusing ((cluster.access.check .schemaText).mapError .access)
  refusing (server.requireSchemaRegistry cluster)
  let version ← match query.version with
    | some version =>
      if version < 1 then refusing (.error (.unprocessable "`version` must be 1 or more"))
      else pure version
    | none => do
      let _ ← server.snapshot cluster "subjects" cluster.cluster.subjects
      latestVersion cluster query.subject
  server.liveCall
  server.read cluster (.schema query.subject version)

def klensAclsList (server : KlensMcp V) (query : AclsQuery) : Handling V ToolAnswer := do
  let cluster ← refusing (server.clusterOrOnly query.cluster)
  refusing ((cluster.access.check .acls).mapError .access)
  let listing ← server.snapshot cluster "acls" (server.acls cluster.access.cluster)
  pure (.acls listing)

end KlensMcp

/-- The calls of the tools that need a privilege. -/
inductive ToolCall where
  | topicCreate (request : TopicToCreate)
  | recordProduce (request : RecordToProduce)
  | schemaRegister (request : SchemaToRegister)
  | recordGet (address : RecordAddress)
  | recordsRead (read : RecordsQuery)
  | schemaGet (query : SchemaQuery)
  | aclsList (query : AclsQuery)

namespace ToolCall

def tool : ToolCall → String
  | .topicCreate _ => "klens_topic_create"
  | .recordProduce _ => "klens_record_produce"
  | .schemaRegister _ => "klens_schema_register"
  | .recordGet _ => "klens_record_get"
  | .recordsRead _ => "klens_records_read"
  | .schemaGet _ => "klens_schema_get"
  | .aclsList _ => "klens_acls_list"

def cluster : ToolCall → Option String
  | .topicCreate request => request.cluster
  | .recordProduce request => request.cluster
  | .schemaRegister request => request.cluster
  | .recordGet address => address.cluster
  | .recordsRead read => read.cluster
  | .schemaGet query => query.cluster
  | .aclsList query => query.cluster

end ToolCall

def KlensMcp.callTool {V : Type} (server : KlensMcp V) : ToolCall → Handling V ToolAnswer
  | .topicCreate request => server.klensTopicCreate request
  | .recordProduce request => server.klensRecordProduce request
  | .schemaRegister request => server.klensSchemaRegister request
  | .recordGet address => server.klensRecordGet address
  | .recordsRead read => server.klensRecordsRead read
  | .schemaGet query => server.klensSchemaGet query
  | .aclsList query => server.klensAclsList query

end Klens.App.Mcp
