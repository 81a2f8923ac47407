import Klens.Schemas.Registry

/-! What the client reads from a registry: the subjects with their latest
schemas, and the ids behind versions. -/
namespace Klens.Schemas
open Klens.Store Std

structure SchemaSubject where
  subject : String
  id : Int
  schemaType : SchemaType
  latestVersion : Int
  versions : List Int
  compatibility : SchemaCompatibility
  deriving DecidableEq, Repr

structure LatestSchema where
  version : Int
  id : Int
  schemaType : SchemaType
  deriving DecidableEq, Repr

structure RegisteredVersion where
  id : Int
  version : Int
  deriving DecidableEq, Repr

/-- The latest schema an earlier sweep saw for a subject. -/
def knownLatest (table : SubjectTable) (subject : String) : Option LatestSchema :=
  table.subjects[subject]?.map fun info =>
    { version := info.latestVersion, id := info.id, schemaType := info.schemaType }

/-- The registry a sweep reads and the requests of it that fail. -/
structure SubjectSweep where
  registry : Registry
  listing : Except String Unit
  versions : String → Except String Unit
  schema : String → Except String Unit
  compatibility : String → SchemaCompatibility

namespace SubjectSweep

def latestSchema (sweep : SubjectSweep) (name : String) (version : Int) :
    Except String LatestSchema := do
  sweep.schema name
  match sweep.registry.find name version with
  | none => .error "version not found"
  | some entry => .ok { version, id := entry.id, schemaType := entry.schema.schemaType }

/-- The known schema, unless the latest version is another one. -/
def latestOf (sweep : SubjectSweep) (name : String) (known : Option LatestSchema)
    (latestVersion : Int) : Except String LatestSchema :=
  match known.filter fun known => known.version = latestVersion with
  | some known => .ok known
  | none => sweep.latestSchema name latestVersion

def loadSubject (sweep : SubjectSweep) (name : String) (known : Option LatestSchema) :
    Except String SchemaSubject := do
  sweep.versions name
  let versions := sweep.registry.versions name
  match versions.max? with
  | none => .error "subject has no versions"
  | some latestVersion =>
    let latest ← sweep.latestOf name known latestVersion
    .ok
      { subject := name
        id := latest.id
        schemaType := latest.schemaType
        latestVersion
        versions
        compatibility := sweep.compatibility name }

/-- `SchemaRegistryClient::subjects`. A subject that fails to load is skipped. -/
def subjects (sweep : SubjectSweep) (known : String → Option LatestSchema) :
    Except String (List SchemaSubject) := do
  sweep.listing
  let loaded := sweep.registry.names.filterMap fun name =>
    (sweep.loadSubject name (known name)).toOption
  .ok (loaded.insertionSort fun left right => left.subject ≤ right.subject)

end SubjectSweep

/-- The ids the registry holds for some versions. One that is not there or not
read is left out. -/
def versionIds (registry : Registry) (unread : String → Int → Bool)
    (versions : List (String × Int)) : List (String × RegisteredVersion) :=
  versions.filterMap fun (subject, version) =>
    if unread subject version then none
    else (registry.find subject version).map fun entry => (subject, { id := entry.id, version })

end Klens.Schemas

namespace Klens.Store
open Klens.Schemas Std

def SubjectTable.assemble (subjects : List SchemaSubject) : SubjectTable :=
  { subjects := .ofList (subjects.map fun subject =>
      (subject.subject, SubjectInfo.mk subject.id subject.schemaType subject.latestVersion
        subject.versions subject.compatibility)) }

end Klens.Store
