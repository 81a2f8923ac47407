import Klens.Kafka.Acls
import Klens.Kafka.Configs
import Klens.Kafka.Quotas
import Klens.Scan.Pipeline
import Klens.Schemas.Client
import Klens.Schemas.Dependencies
import Klens.Schemas.Registry

/-! The changes that Kafka and the schema registry are asked for. -/
namespace Klens.Kafka
open Klens.Scan Klens.Schemas Klens.Store Std

abbrev NonZeroU16 := { count : Nat // 0 < count ∧ count < 2 ^ 16 }

abbrev NonZeroU8 := { count : Nat // 0 < count ∧ count < 2 ^ 8 }

structure NewTopic where
  name : String
  partitions : Option NonZeroU16
  replicationFactor : Option NonZeroU8
  configs : ExtTreeMap String String

/-- Before an offset for each partition, or all that it holds. -/
structure RecordDeletion where
  topic : String
  before : ExtTreeMap Int (Option Int)

structure NewRecord where
  topic : String
  partition : Option Int
  key : Option Bytes
  value : Option Bytes
  headers : List RecordHeader
  deriving DecidableEq, Repr

structure ProducedRecord where
  partition : Int
  offset : Int
  deriving DecidableEq, Repr

structure NewSchema where
  subject : String
  schemaType : SchemaType
  schema : String
  references : List SchemaReference

inductive ScramMechanism where
  | sha256
  | sha512
  deriving DecidableEq, Repr

structure NewScramCredential where
  user : String
  mechanism : ScramMechanism
  iterations : Int
  password : String
  deriving DecidableEq, Repr

inductive KafkaCall (V : Type) where
  | createTopic (topic : NewTopic)
  | deleteTopic (topic : String)
  | alterTopicConfigs (topic : String) (edit : ConfigEdit)
  | addPartitions (topic : String) (count : NonZeroU16)
  | deleteRecords (deletion : RecordDeletion)
  | produce (record : NewRecord)
  | alterGroupOffsets (group : String) (offsets : List CommittedOffset)
  | deleteGroupOffsets (group topic : String) (partitions : List Int)
  | deleteGroup (group : String)
  | registerSchema (schema : NewSchema)
  | setCompatibility (subject : String) (level : SchemaCompatibility)
  | deleteSchema (deletion : SchemaDeletion)
  | createAcls (acls : List Acl)
  | deleteAcl (acl : Acl)
  | alterClientQuota (quota : ClientQuota V)
  | setScramCredential (credential : NewScramCredential)
  | deleteScramCredential (user : String) (mechanism : ScramMechanism)
  | alterBrokerConfigs (scope : BrokerScope) (edit : ConfigEdit)

end Klens.Kafka
