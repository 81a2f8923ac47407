import Klens.Scan.Payload

/-! Decoding payloads with the schemas that were resolved for them. A payload
names its schema in a frame, or else the request names one for it. -/
namespace Klens.Schemas
open Klens.Scan

structure Framing where
  key : SchemaKey
  payloadStart : Nat
  hasWirePrefix : Bool
  deriving DecidableEq, Repr

inductive DecodeError where
  | missing (message : String)
  | failed (message : String)
  deriving DecidableEq, Repr

/-- A schema ready to decode with. What its codec makes of a body is left open. -/
inductive Resolved where
  | avro (decode : Bytes → Except String Json)
  | json
  | protobuf (decodeFramed decodeRaw : Bytes → Except String Json)
  | missing

/-- The schemas of one batch of slots; `fromSlice` is `serde_json::from_slice`. -/
structure ResolvedSchemas where
  schemas : SchemaKey → Option Resolved
  fromSlice : Bytes → Except String Json

variable [Crates]

/-- `u32::try_from` turns down a negative fallback id. -/
def Framing.of (raw : Bytes) (fallbackSchemaId : Option Int) : Option Framing :=
  match decodeWirePrefix raw with
  | some (key, payloadStart) => some { key, payloadStart, hasWirePrefix := true }
  | none => do
    let id ← fallbackSchemaId
    if 0 ≤ id then some { key := .id id.toNat, payloadStart := 0, hasWirePrefix := false } else none

namespace ResolvedSchemas

def decodeBody (schemas : ResolvedSchemas) (resolved : Resolved) (framing : Framing) (raw : Bytes) :
    Except DecodeError Json :=
  let body := raw.drop (min framing.payloadStart raw.length)
  match resolved with
  | .missing => .error (.missing "schema id not found in registry")
  | .json => (schemas.fromSlice body).mapError .failed
  | .avro decode => (decode body).mapError .failed
  | .protobuf decodeFramed decodeRaw =>
    (if framing.hasWirePrefix then decodeFramed body else decodeRaw body).mapError .failed

/-- `decode_slots` on one slot; a failure is logged and leaves the slot raw. -/
def codec (schemas : ResolvedSchemas) : PayloadCodec := fun raw fallbackSchemaId => do
  let framing ← Framing.of raw fallbackSchemaId
  let resolved ← schemas.schemas framing.key
  (schemas.decodeBody resolved framing raw).toOption

theorem needsDecode_of_codec {schemas : ResolvedSchemas} {raw : Bytes} {fallbackSchemaId : Option Int}
    {json : Json} (decoded : schemas.codec raw fallbackSchemaId = some json) :
    needsDecode raw fallbackSchemaId = true := by
  obtain ⟨framing, framed, _⟩ := Option.bind_eq_some_iff.mp decoded
  unfold needsDecode
  unfold Framing.of at framed
  split at framed
  · rename_i found
    rw [found]
    rfl
  · obtain ⟨id, named, _⟩ := Option.bind_eq_some_iff.mp framed
    rw [named, Option.isSome_some, Bool.or_true]

end ResolvedSchemas
end Klens.Schemas
