import Klens.Lib.DepthFirst
import Klens.Store.Tables

/-! The schemas that a schema needs: what the client fetches for it, wave by
wave, and the order it puts them in. -/
namespace Klens.Schemas
open Klens.Lib Klens.Store Std

abbrev SubjectVersion := String × Int

/-- A reference of a schema to another, under the name it is imported by. -/
structure SchemaReference where
  name : String
  subject : String
  version : Int
  deriving DecidableEq, Repr

def SchemaReference.key (reference : SchemaReference) : SubjectVersion :=
  (reference.subject, reference.version)

structure Schema where
  schema : String
  references : List SchemaReference
  deriving DecidableEq, Repr

/-- The schemas that a registry serves, or that were fetched from it. -/
abbrev SchemaMap := ExtTreeMap SubjectVersion Schema tupleOrder

def getSchemaByVersion (served : SchemaMap) (subject : String) (version : Int) : Except String Schema :=
  match served[(subject, version)]? with
  | some schema => .ok schema
  | none => .error "version not found"

/-- The loop of `dependencies`, with the keys that its waves asked for. -/
structure Crawl where
  pending : List SchemaReference
  seen : Finset SubjectVersion
  fetched : SchemaMap
  asked : List SubjectVersion

namespace Crawl

def start (references : List SchemaReference) : Crawl :=
  { pending := references, seen := ∅, fetched := ∅, asked := [] }

/-- `pending.drain(..).filter(|reference| seen.insert(..)).collect()`, and what
is seen then. -/
def takeWave (seen : Finset SubjectVersion) :
    List SchemaReference → List SchemaReference × Finset SubjectVersion
  | [] => ([], seen)
  | reference :: pending =>
    if reference.key ∈ seen then takeWave seen pending
    else
      let (wave, seen) := takeWave (insert reference.key seen) pending
      (reference :: wave, seen)

/-- One answer: what is pending and what is fetched after it. -/
def receive (served : SchemaMap) (state : List SchemaReference × SchemaMap)
    (reference : SchemaReference) : Except String (List SchemaReference × SchemaMap) := do
  let schema ← getSchemaByVersion served reference.subject reference.version
  .ok (state.1 ++ schema.references, state.2.insert reference.key schema)

/-- One turn of the loop. The answers of a wave come in the order `arrive` puts
them in. -/
def turn (served : SchemaMap) (arrive : List SchemaReference → List SchemaReference) (crawl : Crawl) :
    Loop.Turn Crawl (List SubjectVersion × Except String SchemaMap) :=
  let (wave, seen) := takeWave crawl.seen crawl.pending
  if wave.isEmpty then .done (crawl.asked, .ok crawl.fetched)
  else
    let asked := crawl.asked ++ wave.map SchemaReference.key
    match (arrive wave).foldlM (receive served) ([], crawl.fetched) with
    | .ok (pending, fetched) => .next { pending, seen, fetched, asked }
    | .error error => .done (asked, .error error)

end Crawl

inductive Visit where
  | enter (reference : SchemaReference)
  | leave (name : String) (schema : Schema)

/-- The loop of `in_dependency_order`. The last visit pushed comes first. -/
structure Walk where
  visits : List Visit
  entered : Finset SubjectVersion
  ordered : List (String × String)

namespace Walk

def start (roots : List SchemaReference) : Walk :=
  { visits := (roots.map .enter).reverse, entered := ∅, ordered := [] }

def turn (fetched : SchemaMap) (walk : Walk) :
    Loop.Turn Walk (List (String × String)) :=
  match walk.visits with
  | [] => .done walk.ordered
  | .enter reference :: visits =>
    match fetched[reference.key]? with
    | some schema =>
      if reference.key ∈ walk.entered then .next { walk with visits }
      else
        .next
          { walk with
            visits := (schema.references.map .enter).reverse ++
              .leave reference.name schema :: visits
            entered := insert reference.key walk.entered }
    | none => .next { walk with visits }
  | .leave name schema :: visits =>
    .next { walk with visits, ordered := walk.ordered ++ [(name, schema.schema)] }

end Walk

/-- The dependencies by name and text, when `fuel` turns are enough. -/
def inDependencyOrder (roots : List SchemaReference) (fetched : SchemaMap) (fuel : Nat) :
    Option (List (String × String)) :=
  Loop.run (Walk.turn fetched) fuel (.start roots)

/-- What `dependencies` asked the registry for, and what it came to. -/
structure Dependencies where
  asked : List SubjectVersion
  result : Except String (List (String × String))

/-- `SchemaRegistryClient::dependencies`, when `fuel` turns are enough for each
of its loops. -/
def dependencies (served : SchemaMap) (arrive : List SchemaReference → List SchemaReference)
    (references : List SchemaReference) (fuel : Nat) : Option Dependencies := do
  let (asked, crawled) ← Loop.run (Crawl.turn served arrive) fuel (.start references)
  match crawled with
  | .error error => some { asked, result := .error error }
  | .ok fetched =>
    let ordered ← inDependencyOrder references fetched fuel
    some { asked, result := .ok ordered }

end Klens.Schemas
