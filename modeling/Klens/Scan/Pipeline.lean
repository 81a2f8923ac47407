import Klens.Scan.Batch
import Klens.Scan.Filter
import Klens.Scan.Obfuscate

/-! Screening one poll into a batch and rendering a page. A record leaves at
one of three points: turned away by a full batch, dropped on its raw bytes, or
dropped on its decoded and obfuscated text. -/
namespace Klens.Scan

structure RawRecord where
  partition : Int
  offset : Int
  timestamp : Int
  key : Option Bytes
  value : Option Bytes
  headers : List (String × Option Bytes)
  deriving DecidableEq, Repr

namespace RawRecord

def sizeBytes (raw : RawRecord) : Nat :=
  (raw.key.map List.length).getD 0 + (raw.value.map List.length).getD 0

def sortKey (raw : RawRecord) : SortKey :=
  { timestamp := raw.timestamp, partition := raw.partition, offset := raw.offset }

end RawRecord

structure RecordHeader where
  key : String
  value : String
  deriving DecidableEq, Repr

structure Record where
  topic : String
  partition : Int
  offset : Int
  timestamp : Int
  key : Option String
  value : Option String
  schemaId : Option Int
  headers : List RecordHeader
  sizeBytes : Nat
  verbatim : Bool
  deriving DecidableEq, Repr

inductive Screen where
  | deferred
  | needsPayload
  deriving DecidableEq, Repr

structure DecodedRecord where
  raw : RawRecord
  key : Option DecodedPayload
  value : Option DecodedPayload
  masked : Bool
  deriving Repr

inductive Kept where
  | pending (raw : RawRecord)
  | decoded (record : DecodedRecord)
  deriving Repr

def Kept.raw : Kept → RawRecord
  | .pending raw => raw
  | .decoded record => record.raw

/-- A missing or non-UTF-8 header value cannot round-trip through the text form. -/
def headerText (value : Option Bytes) : String × Bool :=
  match value with
  | none => ("", false)
  | some bytes => match Lib.Utf8.decode bytes with
    | some chars => (String.ofList chars, true)
    | none => (renderRaw bytes, false)

structure Candidate where
  sort : SortKey
  raw : RawRecord
  key : Option Nat
  value : Option Nat

inductive Stage where
  | decoded (record : DecodedRecord)
  | pending (raw : RawRecord) (key value : Option Nat)

/-- `push_slot`: the slots with one more, and where it went. -/
def pushSlot (slots : List PayloadSlot) (bytes : Option Bytes) (fallbackSchemaId : Option Int) :
    List PayloadSlot × Option Nat :=
  match bytes with
  | none => (slots, none)
  | some bytes => (slots ++ [PayloadSlot.new bytes fallbackSchemaId], some slots.length)

section
variable [Crates]

def DecodedRecord.intoRecord (record : DecodedRecord) (topic : String) : Record :=
  let headers := record.raw.headers.map fun (key, value) => (key, headerText value)
  { topic
    partition := record.raw.partition
    offset := record.raw.offset
    timestamp := max record.raw.timestamp 0
    sizeBytes := record.raw.sizeBytes
    key := record.key.map DecodedPayload.intoText
    value := record.value.map DecodedPayload.intoText
    schemaId := record.value.bind DecodedPayload.wireSchemaId
    headers := headers.map fun (key, text, _) => { key, value := text }
    verbatim := !record.masked && headers.all (fun (_, _, verbatim) => verbatim) &&
      (record.key.toList ++ record.value.toList).all DecodedPayload.isVerbatim }

/-- `decode`: every slot, decoded or raw. Without a codec nothing decodes. -/
def decodeSlots (codec : Option PayloadCodec) (slots : List PayloadSlot) :
    List (Option DecodedPayload) :=
  let slots := match codec with
    | some codec => codec.decode slots
    | none => slots
  slots.map fun slot => some slot.take

end

/-- `decoded[index].take()`: the payload at `index`, and the list without it. -/
def takeAt (decoded : List (Option DecodedPayload)) (index : Option Nat) :
    Option DecodedPayload × List (Option DecodedPayload) :=
  match index with
  | none => (none, decoded)
  | some index => (decoded[index]?.join, decoded.set index none)

structure Stages where
  decodes : Bool
  filter : Option CompiledFilter
  obfuscator : Option TopicObfuscator
  fallbackSchemaId : Option Int

namespace Stages

def obfuscated (stages : Stages) : Bool := stages.obfuscator.isSome

variable [Crates]

def field (stages : Stages) (bytes : Option Bytes) (fallbackSchemaId : Option Int) :
    Option RawField :=
  bytes.map fun bytes =>
    { bytes, framed := stages.decodes && needsDecode bytes fallbackSchemaId }

/-- The record with its headers hidden, and how it is to be screened. -/
def screenRecord (stages : Stages) (raw : RawRecord) : RawRecord × Option Screen :=
  let raw := match stages.obfuscator with
    | some rule => { raw with headers := rule.obfuscateHeaders raw.headers }
    | none => raw
  match stages.filter with
  | none => (raw, some .deferred)
  | some filter =>
    if (stages.obfuscator.map TopicObfuscator.hidesPayload).getD false then
      (raw, some .needsPayload)
    else
      let key := stages.field raw.key none
      let value := stages.field raw.value stages.fallbackSchemaId
      match filter.onRaw key value with
      | .fail => (raw, none)
      | .pass => (raw, some .deferred)
      | .needsPayload => (raw, some .needsPayload)

/-- One record of `screen`: the batch, the candidates so far and how many
records the batch turned away. -/
def screenStep (stages : Stages) (state : RecordBatch Kept × List (SortKey × RawRecord) × Nat)
    (record : SortKey × RawRecord) : RecordBatch Kept × List (SortKey × RawRecord) × Nat :=
  let (batch, candidates, rejected) := state
  if !batch.admits record.1 then (batch, candidates, rejected + 1)
  else match stages.screenRecord record.2 with
    | (_, none) => (batch, candidates, rejected)
    | (raw, some .deferred) => (batch.push record.1 (.pending raw), candidates, rejected)
    | (raw, some .needsPayload) => (batch, candidates ++ [(record.1, raw)], rejected)

def screen (stages : Stages) (batch : RecordBatch Kept) (records : List (SortKey × RawRecord)) :
    RecordBatch Kept × List (SortKey × RawRecord) × Nat :=
  records.foldl stages.screenStep (batch, [], 0)

def obfuscate (stages : Stages) (key value : Option DecodedPayload) :
    Option DecodedPayload × Option DecodedPayload :=
  match stages.obfuscator with
  | none => (key, value)
  | some rule => (rule.apply .key key, rule.apply .value value)

def decoded (stages : Stages) (raw : RawRecord) (key value : Option DecodedPayload) :
    DecodedRecord :=
  { raw, key, value, masked := stages.obfuscated }

/-- What `filter_decoded` makes of one candidate's payloads. -/
def filterPayloads (stages : Stages) (raw : RawRecord) (key value : Option DecodedPayload) :
    Option Kept :=
  let (key, value) := stages.obfuscate key value
  let (passed, key, value) := match stages.filter with
    | some filter => filter.onPayload key value
    | none => (true, key, value)
  if passed then
    some (.decoded (stages.decoded raw (key.map .dropTreeIfRendered)
      (value.map .dropTreeIfRendered)))
  else none

def filterDecoded (stages : Stages) :
    List Candidate → List (Option DecodedPayload) → List (SortKey × Kept)
  | [], _ => []
  | candidate :: rest, decoded =>
    let (key, decoded) := takeAt decoded candidate.key
    let (value, decoded) := takeAt decoded candidate.value
    match stages.filterPayloads candidate.raw key value with
    | some kept => (candidate.sort, kept) :: stages.filterDecoded rest decoded
    | none => stages.filterDecoded rest decoded

end Stages

structure RecordPipeline where
  codec : Option PayloadCodec
  stages : Stages

namespace RecordPipeline

def new (codec : Option PayloadCodec) (filter : Option CompiledFilter)
    (obfuscator : Option TopicObfuscator) (fallbackSchemaId : Option Int) : RecordPipeline :=
  { codec, stages := { decodes := codec.isSome, filter, obfuscator, fallbackSchemaId } }

def obfuscated (pipeline : RecordPipeline) : Bool := pipeline.stages.obfuscated

/-- The slots of a list of records, in order, and each record with its indexes. -/
def pushCandidates (pipeline : RecordPipeline) :
    List PayloadSlot → List (SortKey × RawRecord) → List PayloadSlot × List Candidate
  | slots, [] => (slots, [])
  | slots, (sort, raw) :: rest =>
    let (slots, key) := pushSlot slots raw.key none
    let (slots, value) := pushSlot slots raw.value pipeline.stages.fallbackSchemaId
    let (slots, candidates) := pipeline.pushCandidates slots rest
    (slots, { sort, raw, key, value } :: candidates)

def pushStages (pipeline : RecordPipeline) :
    List PayloadSlot → List Kept → List PayloadSlot × List Stage
  | slots, [] => (slots, [])
  | slots, .decoded record :: rest =>
    let (slots, staged) := pipeline.pushStages slots rest
    (slots, .decoded record :: staged)
  | slots, .pending raw :: rest =>
    let (slots, key) := pushSlot slots raw.key none
    let (slots, value) := pushSlot slots raw.value pipeline.stages.fallbackSchemaId
    let (slots, staged) := pipeline.pushStages slots rest
    (slots, .pending raw key value :: staged)

variable [Crates]

def decodeAndFilter (pipeline : RecordPipeline) (records : List (SortKey × RawRecord)) :
    List (SortKey × Kept) :=
  let (slots, candidates) := pipeline.pushCandidates [] records
  pipeline.stages.filterDecoded candidates (decodeSlots pipeline.codec slots)

/-- Screens one poll into `batch` and returns how many records the batch
turned away. -/
def admitRecords (pipeline : RecordPipeline) (batch : RecordBatch Kept)
    (records : List (SortKey × RawRecord)) : RecordBatch Kept × Nat :=
  if records.isEmpty then (batch, 0)
  else
    let (held, _) := batch.take
    let (held, candidates, rejected) := pipeline.stages.screen held records
    let batch := (pipeline.decodeAndFilter candidates).foldl
      (fun batch (sort, kept) => batch.push sort kept) held
    (batch, rejected)

def finishStages (pipeline : RecordPipeline) :
    List Stage → List (Option DecodedPayload) → List DecodedRecord
  | [], _ => []
  | .decoded record :: rest, decoded => record :: pipeline.finishStages rest decoded
  | .pending raw key value :: rest, decoded =>
    let (key, decoded) := takeAt decoded key
    let (value, decoded) := takeAt decoded value
    let (key, value) := pipeline.stages.obfuscate key value
    pipeline.stages.decoded raw key value :: pipeline.finishStages rest decoded

def render (pipeline : RecordPipeline) (page : List Kept) (topic : String) : List Record :=
  let (slots, staged) := pipeline.pushStages [] page
  (pipeline.finishStages staged (decodeSlots pipeline.codec slots)).map (·.intoRecord topic)

end RecordPipeline
end Klens.Scan
