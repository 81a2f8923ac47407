import Klens.Store.Tables

/-! The schema registry a cluster is read with: subjects whose versions are
registered, deleted softly or for good, and registered again. -/
namespace Klens.Schemas
open Klens.Store Std

structure SchemaText where
  schemaType : SchemaType
  text : String
  deriving DecidableEq, Repr

/-- One version of a subject. A softly deleted one keeps its number and its id. -/
structure Entry where
  version : Int
  id : Int
  schema : SchemaText
  deleted : Bool
  deriving DecidableEq, Repr

structure Registry where
  subjects : ExtTreeMap String (List Entry)
  lastId : Int
  deriving DecidableEq

/-- `version` is none to delete the whole subject. -/
structure SchemaDeletion where
  subject : String
  version : Option Int
  permanent : Bool
  deriving DecidableEq, Repr

namespace Registry

def empty : Registry := { subjects := ∅, lastId := 0 }

def entries (registry : Registry) (subject : String) : List Entry :=
  registry.subjects[subject]?.getD []

def live (registry : Registry) (subject : String) : List Entry :=
  (registry.entries subject).filter fun entry => !entry.deleted

/-- The subjects the registry lists: those with a live version. -/
def names (registry : Registry) : List String :=
  registry.subjects.keys.filter fun subject => !(registry.live subject).isEmpty

def versions (registry : Registry) (subject : String) : List Int :=
  (registry.live subject).map Entry.version

def find (registry : Registry) (subject : String) (version : Int) : Option Entry :=
  (registry.live subject).find? fun entry => entry.version = version

/-- A schema keeps its id wherever it is registered. -/
def idOf (registry : Registry) (schema : SchemaText) : Option Int :=
  ((registry.subjects.toList.flatMap Prod.snd).find? fun entry => entry.schema = schema).map
    Entry.id

def nextVersion (entries : List Entry) : Int := (entries.map Entry.version).foldl max 0 + 1

def register (registry : Registry) (subject : String) (schema : SchemaText) : Registry :=
  if (registry.live subject).any fun entry => entry.schema = schema then registry
  else
    let entries := registry.entries subject
    let id := (registry.idOf schema).getD (registry.lastId + 1)
    { subjects := registry.subjects.insert subject
        (entries ++ [{ version := nextVersion entries, id, schema, deleted := false }])
      lastId := max registry.lastId id }

/-- Only a softly deleted version can be deleted for good. -/
def deleteOnce (registry : Registry) (deletion : SchemaDeletion) (permanent : Bool) : Registry :=
  let meant (entry : Entry) : Bool := deletion.version.all (· = entry.version)
  let entries := registry.entries deletion.subject
  let left :=
    if permanent then entries.filter fun entry => !(meant entry && entry.deleted)
    else entries.map fun entry => if meant entry then { entry with deleted := true } else entry
  { registry with subjects := registry.subjects.insert deletion.subject left }

/-- `SchemaRegistryClient::delete`, as the registry takes it. -/
def delete (registry : Registry) (deletion : SchemaDeletion) : Registry :=
  let soft := registry.deleteOnce deletion false
  if deletion.permanent then soft.deleteOnce deletion true else soft

end Registry

/-- What is done to a registry between two polls. -/
inductive Edit where
  | register (subject : String) (schema : SchemaText)
  | delete (deletion : SchemaDeletion)
  deriving DecidableEq, Repr

def Registry.edit (registry : Registry) : Edit → Registry
  | .register subject schema => registry.register subject schema
  | .delete deletion => registry.delete deletion

def Registry.edits (registry : Registry) (edits : List Edit) : Registry :=
  edits.foldl Registry.edit registry

end Klens.Schemas
