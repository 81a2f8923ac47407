import Klens.Reset.Plan

/-! What a request to Kafka or to the schema registry fails with. -/
namespace Klens.Kafka

/-- Kafka's code for a change it would not make, and its reason when it gave one. -/
structure Refusal where
  code : Int
  reason : Option String
  deriving DecidableEq, Repr

inductive KafkaError where
  | unknownCluster (cluster : String)
  | unknownTopic (cluster topic : String)
  | unknownGroup (cluster group : String)
  | unknownBroker (cluster : String) (id : Int)
  | unknownSubject (cluster subject : String) (version : Int)
  | unknownSchema (cluster : String) (id : Int)
  | unencodable (id : Int) (message : String)
  | unknownPartition (cluster topic : String) (partition : Int)
  | timeout
  | admin (message : String)
  | refused (refusal : Refusal)
  | registryRefused (message : String)
  | noSchemaRegistry (cluster : String)
  | internalTopic (topic : String)
  | activeGroup (group : String)
  | consumedTopic (group topic : String)
  | noCommittedOffset (group topic : String) (partition : Int)
  | prefixedAcl
  | brokerConfigs (id : Int) (message : String)
  | schemaRegistry (cluster message : String)
  | invalidQuery (error : Scan.QueryError)
  | krafka (error : Client.KrafkaError)
  deriving DecidableEq, Repr

/-- What planning a reset fails with is among these. -/
def KafkaError.ofReset : Reset.KafkaError → KafkaError
  | .krafka error => .krafka error
  | .unknownPartition cluster topic partition => .unknownPartition cluster topic partition
  | .unknownTopic cluster topic => .unknownTopic cluster topic
  | .unknownGroup cluster group => .unknownGroup cluster group
  | .internalTopic topic => .internalTopic topic
  | .activeGroup group => .activeGroup group
  | .noCommittedOffset group topic partition => .noCommittedOffset group topic partition

end Klens.Kafka
