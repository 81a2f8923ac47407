import Klens.App.Writes

/-! The gates of the tools that MCP serves: what each tool needs, who it is offered to, and
what a caller is told of its rights. -/
namespace Klens.App.Mcp
open Klens.Auth Klens.Lib

/-- `READS`. -/
def reads : List Privilege := [.records, .topicConfigs, .brokerConfigs, .schemaText, .acls]

/-- `Mcp::WRITES`. -/
def writes : List Privilege := [.createTopics, .produce, .registerSchemas]

/-- The privileges of a configuration: those that some tool uses. -/
abbrev ToolPrivileges :=
  { privileges : List Privilege // ∀ privilege ∈ privileges, privilege ∈ reads ++ writes }

def toolPrivileges (privileges : List Privilege) : Except String ToolPrivileges :=
  if used : ∀ privilege ∈ privileges, privilege ∈ reads ++ writes then .ok ⟨privileges, used⟩
  else .error ("MCP tools use only records, topic_configs, broker_configs, schema_text, acls, " ++
    "create_topics, produce, and register_schemas, so privileges may name no other")

/-- What the configuration lets every call do, and where. -/
structure Config where
  privileges : ToolPrivileges
  clusters : Option (List String)

def Config.access (mcp : Config) : EffectiveAccess :=
  .granted [{
    roleName := "mcp"
    privileges := mcp.privileges.val.toFinset
    scope := .fromList mcp.clusters }]

inductive Section where
  | configs
  deriving DecidableEq, Repr

structure ToolGate where
  name : String
  needs : Option Privilege
  sections : List (Section × Privilege)
  idempotent : Bool
  deriving DecidableEq, Repr

structure ToolAnnotations where
  readOnly : Bool
  destructive : Bool
  idempotent : Bool
  openWorld : Bool
  deriving DecidableEq, Repr

structure ToolRights where
  name : String
  part : Option Section
  available : Bool
  needs : Option Privilege
  deriving DecidableEq, Repr

def ToolRights.check (access : ClusterAccess) (name : String) (part : Option Section)
    (needs : Option Privilege) : ToolRights :=
  let missing := needs.filter fun privilege => !access.allows privilege
  { name, part, available := missing.isNone, needs := missing }

namespace ToolGate

/-- `ToolGate::open`. -/
def opened (name : String) : ToolGate := { name, needs := none, sections := [], idempotent := true }

def needing (name : String) (privilege : Privilege) : ToolGate :=
  { opened name with needs := some privilege }

def withSections (gate : ToolGate) (sections : List (Section × Privilege)) : ToolGate :=
  { gate with sections }

def notIdempotent (gate : ToolGate) : ToolGate := { gate with idempotent := false }

def aclTools : List ToolGate := [needing "klens_acls_list" .acls]

def brokerTools : List ToolGate :=
  [(opened "klens_brokers_list").withSections [(.configs, .brokerConfigs)]]

def clusterTools : List ToolGate :=
  [opened "klens_clusters", opened "klens_access_explain", opened "klens_search"]

def groupTools : List ToolGate := [opened "klens_groups_list", opened "klens_group_describe"]

def recordTools : List ToolGate :=
  [needing "klens_record_get" .records, (needing "klens_record_produce" .produce).notIdempotent,
    needing "klens_records_read" .records]

def schemaTools : List ToolGate :=
  [needing "klens_schema_get" .schemaText, needing "klens_schema_register" .registerSchemas,
    opened "klens_schemas_list"]

def topicTools : List ToolGate :=
  [opened "klens_topics_list", (needing "klens_topic_create" .createTopics).notIdempotent,
    (opened "klens_topic_describe").withSections [(.configs, .topicConfigs)]]

def gates : List ToolGate :=
  (aclTools ++ brokerTools ++ clusterTools ++ groupTools ++ recordTools ++ schemaTools ++
    topicTools).mergeSort fun one two => decide (one.name ≤ two.name)

def named (name : String) : Option ToolGate := gates.find? fun gate => gate.name = name

def changes (gate : ToolGate) : Bool := gate.needs.any fun privilege => writes.contains privilege

def annotations (gate : ToolGate) : ToolAnnotations :=
  { readOnly := !gate.changes, destructive := false, idempotent := gate.idempotent
    openWorld := false }

variable {V : Type}

def usableOn (gate : ToolGate) (cluster : ClusterHandle V) : Bool :=
  gate.needs.all (fun privilege => cluster.access.allows privilege) &&
    (!gate.changes || cluster.cluster.writable)

def rights (gate : ToolGate) (cluster : ClusterHandle V) : List ToolRights :=
  let tool := { ToolRights.check cluster.access gate.name none gate.needs with
    available := gate.usableOn cluster }
  let sections := gate.sections.map fun (part, needs) =>
    ToolRights.check cluster.access gate.name (some part) (some needs)
  tool :: sections

end ToolGate
end Klens.App.Mcp
