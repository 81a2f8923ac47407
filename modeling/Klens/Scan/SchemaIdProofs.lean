import Klens.Scan.FieldRules
import Klens.Scan.ObfuscateProofs

/-! What the schema id of a request can uncover. A value without a frame is
decoded by the schema the caller names, and field rules then look for members
by the names of that schema. -/
namespace Klens.Scan
open Klens.Schemas List

section
variable [Crates]

/-- What a page, a lookup, an export or a tail shows of a record, if its filter
lets it through. -/
def RecordPipeline.shows (pipeline : RecordPipeline) (topic : String) (raw : RawRecord) :
    Option Record :=
  (pipeline.keeps raw).map fun kept => ((pipeline.finished kept).intoRecord topic).shown

theorem RecordPipeline.Twins.shows {pipeline : RecordPipeline} {topic : String}
    {first second : RawRecord} (twins : pipeline.Twins topic first second) :
    pipeline.shows topic first = pipeline.shows topic second := by
  have same : (pipeline.keeps first).map (pipeline.view topic) =
      (pipeline.keeps second).map (pipeline.view topic) := by
    rw [RecordPipeline.keeps_of_screen, RecordPipeline.keeps_of_screen, twins.screen]
    cases (pipeline.stages.screenRecord second).2 with
    | none => rfl
    | some screen =>
      cases screen with
      | deferred => exact congrArg some twins.pending
      | needsPayload => exact twins.decoded
  have records := congrArg (Option.map Prod.snd) same
  rw [Option.map_map, Option.map_map] at records
  exact records

def asking (rule : TopicObfuscator) (schemas : ResolvedSchemas) (filter : Option CompiledFilter)
    (schemaId : Nat) : RecordPipeline :=
  .new (some schemas.codec) filter (some rule) (some (schemaId : Int))

/-- What the schema of an id makes of a value without a frame. -/
def decodedBy (schemas : ResolvedSchemas) (schemaId : Nat) (bytes : Bytes) : Option Json :=
  (schemas.schemas (.id schemaId)).bind fun resolved =>
    (schemas.decodeBody resolved ⟨.id schemaId, 0, false⟩ bytes).toOption

/-- What field rules leave of a value: the rest of a tree, a mask where nothing
decodes it and such values are masked, or its own text. -/
inductive Rest where
  | tree (json : Json)
  | masked
  | plain (text : String)

def Rest.text : Rest → String
  | .tree json => jsonText json
  | .masked => mask
  | .plain text => text

def TopicObfuscator.valueText (rule : TopicObfuscator) (bytes : Bytes) (tree : Option Json) :
    Option String :=
  (rule.apply .value (some (.ofTree bytes tree))).map DecodedPayload.intoText

end

namespace Sample

/-- Schemas that read the same bodies: two under a member of one name, one under
another. -/
def renamed : ResolvedSchemas where
  schemas key :=
    if key = .id 7 then some (.avro fun body => .ok (.object [("card", .string (renderRaw body))]))
    else if key = .id 8 then
      some (.avro fun body => .ok (.object [("number", .string (renderRaw body))]))
    else if key = .id 9 then
      some (.avro fun body => .ok (.object [("card", .string (renderRaw body)), ("paid", .null)]))
    else none
  fromSlice _ := .error "unused"

end Sample

end Klens.Scan
