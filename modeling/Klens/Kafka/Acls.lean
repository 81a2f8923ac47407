import Klens.Kafka.Error

/-! ACLs as they are listed, as the client library passes them on and as Kafka
stores them. -/
namespace Klens.Kafka

inductive AclResourceType where
  | topic
  | group
  | cluster
  | transactionalId
  | delegationToken
  deriving DecidableEq, Repr

inductive AclPatternType where
  | literal
  | prefixed
  deriving DecidableEq, Repr

inductive AclOperation where
  | all
  | read
  | write
  | create
  | delete
  | alter
  | describe
  | clusterAction
  | describeConfigs
  | alterConfigs
  | idempotentWrite
  deriving DecidableEq, Repr

inductive AclPermission where
  | allow
  | deny
  deriving DecidableEq, Repr

structure Acl where
  resourceType : AclResourceType
  resourceName : String
  patternType : AclPatternType
  principal : String
  host : String
  operation : AclOperation
  permission : AclPermission
  deriving DecidableEq, Repr

/-- The library's enumerations: what `Acl` knows, and values that no row has. -/
inductive Wire (Known : Type) where
  | known (value : Known)
  | any
  | unknown
  deriving DecidableEq, Repr

inductive WirePattern where
  | unknown
  | any
  | literal
  | prefixed
  deriving DecidableEq, Repr

/-- The library numbers pattern types one below Kafka. -/
def WirePattern.code : WirePattern → Int
  | .unknown => 0
  | .any => 1
  | .literal => 2
  | .prefixed => 3

def WirePattern.ofCode : Int → WirePattern
  | 1 => .any
  | 2 => .literal
  | 3 => .prefixed
  | _ => .unknown

structure AclBinding where
  resourceType : Wire AclResourceType
  resourceName : String
  patternType : WirePattern
  principal : String
  host : String
  operation : Wire AclOperation
  permissionType : Wire AclPermission
  deriving DecidableEq, Repr

/-- `SentinelAcl`: which field of a binding no row has such a value of. -/
structure SentinelAcl where
  field : String
  deriving DecidableEq, Repr

def Wire.read {Known : Type} (field : String) : Wire Known → Except SentinelAcl Known
  | .known value => .ok value
  | _ => .error ⟨field⟩

def AclPatternType.fromKrafka : WirePattern → Except SentinelAcl AclPatternType
  | .prefixed => .ok .literal
  | .unknown => .ok .prefixed
  | _ => .error ⟨"pattern_type"⟩

def AclPatternType.toKrafka : AclPatternType → Except KafkaError WirePattern
  | .literal => .ok .prefixed
  | .prefixed => .error .prefixedAcl

namespace Acl

def fromKrafka (binding : AclBinding) : Except SentinelAcl Acl := do
  let resourceType ← binding.resourceType.read "resource_type"
  let patternType ← AclPatternType.fromKrafka binding.patternType
  let operation ← binding.operation.read "operation"
  let permission ← binding.permissionType.read "permission"
  .ok
    { resourceType, resourceName := binding.resourceName, patternType
      principal := binding.principal, host := binding.host, operation, permission }

def toKrafka (acl : Acl) : Except KafkaError AclBinding := do
  let patternType ← acl.patternType.toKrafka
  .ok
    { resourceType := .known acl.resourceType, resourceName := acl.resourceName, patternType
      principal := acl.principal, host := acl.host, operation := .known acl.operation
      permissionType := .known acl.permission }

/-- `to_krafka_filter` names the same fields, each of them. -/
abbrev toKrafkaFilter := toKrafka

end Acl

inductive AclListing where
  | enabled (rows : List Acl)
  | disabled
  | denied
  deriving DecidableEq, Repr

namespace AclListing

def contains (listing : AclListing) (acl : Acl) : Bool :=
  match listing with
  | .enabled rows => rows.contains acl
  | _ => false

def fromDescribe (bindings : List AclBinding) : AclListing :=
  .enabled (bindings.filterMap fun binding => (Acl.fromKrafka binding).toOption)

end AclListing

/-- What Kafka stores, its pattern type by Kafka's own number. -/
structure StoredAcl where
  resourceType : Wire AclResourceType
  resourceName : String
  patternType : Int
  principal : String
  host : String
  operation : Wire AclOperation
  permissionType : Wire AclPermission
  deriving DecidableEq, Repr

def StoredAcl.described (stored : StoredAcl) : AclBinding :=
  { resourceType := stored.resourceType, resourceName := stored.resourceName
    patternType := .ofCode stored.patternType, principal := stored.principal, host := stored.host
    operation := stored.operation, permissionType := stored.permissionType }

def AclBinding.stored (binding : AclBinding) : StoredAcl :=
  { resourceType := binding.resourceType, resourceName := binding.resourceName
    patternType := binding.patternType.code, principal := binding.principal, host := binding.host
    operation := binding.operation, permissionType := binding.permissionType }

/-- Kafka's own test of a filter's field. -/
def Wire.covers {Known : Type} [DecidableEq Known] (filter value : Wire Known) : Bool :=
  filter = .any || filter = value

/-- What Kafka matches by a filter, whose pattern type it reads by its own numbers:
1 is any type and 2 whatever applies to the resource of that name. -/
def AclBinding.filters (filter : AclBinding) (stored : StoredAcl) : Bool :=
  let applies := if filter.patternType.code = 2 then
      stored.resourceName = filter.resourceName ∨
        stored.resourceName = "*" ∧ stored.patternType = 3 ∨
        stored.patternType = 4 ∧ stored.resourceName.toList <+: filter.resourceName.toList
    else stored.resourceName = filter.resourceName ∧
      (filter.patternType.code = 1 ∨ filter.patternType.code = stored.patternType)
  filter.resourceType.covers stored.resourceType && decide applies &&
    stored.principal = filter.principal && stored.host = filter.host &&
    filter.operation.covers stored.operation && filter.permissionType.covers stored.permissionType

/-- What becomes of a request for ACLs. -/
inductive AclAnswer where
  /-- The transport has no connection, and nothing is sent. -/
  | unreached (error : KafkaError)
  /-- The request fails once it is sent: Kafka may have taken any of it. -/
  | lost (error : KafkaError) (took : StoredAcl → Bool)
  /-- Kafka answers for the filter, where there is one, and for each ACL. -/
  | answered (filter : Option KafkaError) (refuses : StoredAcl → Option KafkaError)

namespace AclAnswer

/-- Which of the ACLs that a request would create Kafka takes. -/
def creates : AclAnswer → StoredAcl → Bool
  | .unreached _, _ => false
  | .lost _ took, stored => took stored
  | .answered _ refuses, stored => (refuses stored).isNone

/-- A filter that Kafka refuses deletes nothing. -/
def deletes : AclAnswer → StoredAcl → Bool
  | .answered (some _) _, _ => false
  | answer, stored => answer.creates stored

end AclAnswer

/-- `create_acls`: nothing is sent when one of them cannot be, and of what is sent
Kafka answers for each. -/
def createAcls (answer : AclAnswer) (store : List StoredAcl) (acls : List Acl) :
    Except KafkaError Unit × List StoredAcl :=
  match acls.mapM Acl.toKrafka with
  | .error error => (.error error, store)
  | .ok bindings =>
    let asked := bindings.map AclBinding.stored
    let after := (asked.filter answer.creates).foldl
      (fun store stored => if stored ∈ store then store else store ++ [stored]) store
    match answer with
    | .unreached error => (.error error, after)
    | .lost error _ => (.error error, after)
    | .answered _ refuses =>
      match asked.findSome? refuses with
      | some error => (.error error, after)
      | none => (.ok (), after)

/-- `delete_acl`, which asks for the transport before it makes the filter. -/
def deleteAcl (answer : AclAnswer) (store : List StoredAcl) (acl : Acl) :
    Except KafkaError Unit × List StoredAcl :=
  let after (filter : AclBinding) :=
    store.filter fun stored => !(filter.filters stored && answer.deletes stored)
  match answer, acl.toKrafkaFilter with
  | .unreached error, _ => (.error error, store)
  | .lost _ _, .error error => (.error error, store)
  | .answered _ _, .error error => (.error error, store)
  | .lost error _, .ok filter => (.error error, after filter)
  | .answered (some error) _, .ok filter => (.error error, after filter)
  | .answered none refuses, .ok filter =>
    match (store.filter filter.filters).findSome? refuses with
    | some error => (.error error, after filter)
    | none => (.ok (), after filter)

inductive AclRequest where
  | create (acls : List Acl)
  | delete (acl : Acl)

/-- What a request is answered, and what Kafka stores then. -/
def AclRequest.perform (answer : AclAnswer) (store : List StoredAcl) :
    AclRequest → Except KafkaError Unit × List StoredAcl
  | .create acls => createAcls answer store acls
  | .delete acl => deleteAcl answer store acl

/-- Requests one after another, each with what becomes of it. -/
def AclRequest.run (store : List StoredAcl) (requests : List (AclRequest × AclAnswer)) :
    List StoredAcl :=
  requests.foldl (fun store request => (request.1.perform request.2 store).2) store

end Klens.Kafka
