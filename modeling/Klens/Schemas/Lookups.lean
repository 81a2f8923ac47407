import Klens.Lib.TtlCache
import Klens.Schemas.Decode
import Klens.Store.Tables
import Mathlib.Logic.Relation

/-! How a `PayloadDecoder` resolves the schema of a key: its three caches, and any
number of lookups between whose steps others may step. -/
namespace Klens.Schemas
open Klens.Lib Klens.Scan Klens.Store

inductive Answer (S : Type) where
  | found (schema : S)
  | notFound
  | failed (message : String)

/-- The registry and the compilers as the decoder meets them: what may be answered
at a time, and what the compilation of a schema may come to that ends then. -/
structure Registered (S : Type) where
  answers : Nat → SchemaKey → Answer S → Prop
  schemaType : S → Except String SchemaType
  compiles : Nat → SchemaType → S → Except DecodeError Resolved → Prop

inductive LookupPhase (S : Type) where
  | checking
  | checkingFailed
  | asking
  | storingMissing
  /-- On the way into `try_get_with`. -/
  | compiling (schemaType : SchemaType) (schema : S)
  /-- It compiles for itself and for those who joined it. -/
  | computing (schemaType : SchemaType) (schema : S)
  | joined (schemaType : SchemaType) (schema : S)
  | storingFailed (error : DecodeError)
  | returned (result : Except DecodeError Resolved)
  | dropped

/-- `began` only observes: when the call was made. -/
structure Lookup (S : Type) where
  key : SchemaKey
  began : Nat
  phase : LookupPhase S

/-- What a call that joined the compilation of `key` would compile itself. -/
def Lookup.joins {S : Type} (key : SchemaKey) (lookup : Lookup S) : Option (SchemaType × S) :=
  match lookup.phase with
  | .joined schemaType schema => if lookup.key = key then some (schemaType, schema) else none
  | _ => none

/-- `computing` is the call whose compilation of a key the others wait for. -/
structure Decoder (C S : Type) where
  now : Nat
  missing : TtlCache SchemaKey Unit
  failed : TtlCache SchemaKey DecodeError
  codecs : SchemaKey → Option Resolved
  computing : SchemaKey → Option C
  calls : C → Option (Lookup S)

/-- `FAILED_LOOKUP_TTL`, in seconds. -/
def failedLookupTtl : Nat := 5

namespace Decoder
variable {C S : Type}

def new (missingTtl : Nat) : Decoder C S :=
  { now := 0, missing := .new missingTtl, failed := .new failedLookupTtl
    codecs := fun _ => none, computing := fun _ => none, calls := fun _ => none }

/-- What a compilation that ended makes of a call that waited for it. -/
def outcome : Except DecodeError Resolved → LookupPhase S
  | .ok resolved => .returned (.ok resolved)
  | .error error => .storingFailed error

def release (decoder : Decoder C S) (key : SchemaKey)
    (phase : SchemaType × S → LookupPhase S) : Decoder C S :=
  { decoder with
    calls := fun call => (decoder.calls call).map fun lookup =>
      match lookup.joins key with
      | some waiting => { lookup with phase := phase waiting }
      | none => lookup }

variable [DecidableEq C]

def move (decoder : Decoder C S) (call : C) (lookup : Lookup S) (phase : LookupPhase S) :
    Decoder C S :=
  { decoder with calls := Function.update decoder.calls call (some { lookup with phase }) }

def received (registered : Registered S) : Answer S → LookupPhase S
  | .notFound => .storingMissing
  | .failed message => .storingFailed (.failed message)
  | .found schema =>
    match registered.schemaType schema with
    | .error message => .storingFailed (.failed message)
    | .ok .json => .returned (.ok .json)
    | .ok schemaType => .compiling schemaType schema

/-- The compilation of a call is over: those who joined it get what it came to. -/
def finish (decoder : Decoder C S) (call : C) (lookup : Lookup S)
    (result : Except DecodeError Resolved) : Decoder C S :=
  let told := (decoder.move call lookup (outcome result)).release lookup.key fun _ => outcome result
  { told with
    computing := Function.update decoder.computing lookup.key none
    codecs := match result with
      | .ok resolved => Function.update decoder.codecs lookup.key (some resolved)
      | .error _ => decoder.codecs }

/-- The call is given up while it compiles: those who joined it try again. -/
def abandon (decoder : Decoder C S) (call : C) (lookup : Lookup S) : Decoder C S :=
  { (decoder.move call lookup .dropped).release lookup.key
      fun waiting => .compiling waiting.1 waiting.2 with
    computing := Function.update decoder.computing lookup.key none }

inductive Step (registered : Registered S) : Decoder C S → Decoder C S → Prop where
  | tick {decoder} (seconds : Nat) :
      Step registered decoder { decoder with now := decoder.now + seconds }
  | evictMissing {decoder} (key : SchemaKey) :
      Step registered decoder { decoder with missing := decoder.missing.evict key }
  | evictFailed {decoder} (key : SchemaKey) :
      Step registered decoder { decoder with failed := decoder.failed.evict key }
  | evictCodec {decoder} (key : SchemaKey) :
      Step registered decoder { decoder with codecs := Function.update decoder.codecs key none }
  | call {decoder} (call : C) (key : SchemaKey) (fresh : decoder.calls call = none) :
      Step registered decoder
        (decoder.move call { key, began := decoder.now, phase := .checking } .checking)
  | check {decoder} {call : C} {lookup : Lookup S} (calls : decoder.calls call = some lookup)
      (checks : lookup.phase = .checking) :
      Step registered decoder (decoder.move call lookup
        (if (decoder.missing.get decoder.now lookup.key).isSome then .returned (.ok .missing)
          else .checkingFailed))
  | checkFailed {decoder} {call : C} {lookup : Lookup S} (calls : decoder.calls call = some lookup)
      (checks : lookup.phase = .checkingFailed) :
      Step registered decoder (decoder.move call lookup
        (match decoder.failed.get decoder.now lookup.key with
          | some error => .returned (.error error)
          | none => .asking))
  | receive {decoder} {call : C} {lookup : Lookup S} (calls : decoder.calls call = some lookup)
      (asks : lookup.phase = .asking) (answer : Answer S)
      (answered : registered.answers decoder.now lookup.key answer) :
      Step registered decoder (decoder.move call lookup (received registered answer))
  | storeMissing {decoder} {call : C} {lookup : Lookup S} (calls : decoder.calls call = some lookup)
      (stores : lookup.phase = .storingMissing) :
      Step registered decoder
        { decoder.move call lookup (.returned (.ok .missing)) with
          missing := decoder.missing.insert decoder.now lookup.key () }
  | storeFailed {decoder} {call : C} {lookup : Lookup S} {error : DecodeError}
      (calls : decoder.calls call = some lookup) (stores : lookup.phase = .storingFailed error) :
      Step registered decoder
        { decoder.move call lookup (.returned (.error error)) with
          failed := decoder.failed.insert decoder.now lookup.key error }
  | hit {decoder} {call : C} {lookup : Lookup S} {schemaType : SchemaType} {schema : S}
      {resolved : Resolved} (calls : decoder.calls call = some lookup)
      (wants : lookup.phase = .compiling schemaType schema)
      (cached : decoder.codecs lookup.key = some resolved) :
      Step registered decoder (decoder.move call lookup (.returned (.ok resolved)))
  | own {decoder} {call : C} {lookup : Lookup S} {schemaType : SchemaType} {schema : S}
      (calls : decoder.calls call = some lookup)
      (wants : lookup.phase = .compiling schemaType schema)
      (uncached : decoder.codecs lookup.key = none) (idle : decoder.computing lookup.key = none) :
      Step registered decoder
        { decoder.move call lookup (.computing schemaType schema) with
          computing := Function.update decoder.computing lookup.key (some call) }
  | join {decoder} {call : C} {lookup : Lookup S} {schemaType : SchemaType} {schema : S}
      (calls : decoder.calls call = some lookup)
      (wants : lookup.phase = .compiling schemaType schema)
      (busy : (decoder.computing lookup.key).isSome) :
      Step registered decoder (decoder.move call lookup (.joined schemaType schema))
  | finish {decoder} {call : C} {lookup : Lookup S} {schemaType : SchemaType} {schema : S}
      (calls : decoder.calls call = some lookup)
      (computes : lookup.phase = .computing schemaType schema) (result : Except DecodeError Resolved)
      (compiled : registered.compiles decoder.now schemaType schema result) :
      Step registered decoder (decoder.finish call lookup result)
  | abandon {decoder} {call : C} {lookup : Lookup S} {schemaType : SchemaType} {schema : S}
      (calls : decoder.calls call = some lookup)
      (computes : lookup.phase = .computing schemaType schema) :
      Step registered decoder (decoder.abandon call lookup)
  | drop {decoder} {call : C} {lookup : Lookup S} (calls : decoder.calls call = some lookup)
      (other : ∀ schemaType schema, lookup.phase ≠ .computing schemaType schema)
      (going : ∀ result, lookup.phase ≠ .returned result) :
      Step registered decoder (decoder.move call lookup .dropped)

def Reaches (registered : Registered S) (first last : Decoder C S) : Prop :=
  Relation.ReflTransGen (Step registered) first last

end Decoder
end Klens.Schemas
