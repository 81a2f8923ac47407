import Klens.Lib.Utf8Proofs
import Klens.Scan.PipelineProofs
import Klens.Schemas.Decode

/-! What a rendered record says of the bytes on the wire. `verbatim` is read off
its payloads as the pipeline leaves them, with rendered texts, dropped trees and
emptied bytes, so it depends on the way the record took. -/
namespace Klens.Scan
open Klens.Lib

section Payloads
variable [Crates]

/-- The text shown encodes to the payload's bytes. -/
def DecodedPayload.Exact (payload : DecodedPayload) : Prop :=
  asBytes payload.intoText = payload.bytes

instance (payload : DecodedPayload) : Decidable payload.Exact :=
  inferInstanceAs (Decidable (asBytes payload.intoText = payload.bytes))

namespace DecodedPayload
variable {payload : DecodedPayload}

theorem exact_iff : payload.Exact ↔ Utf8.decode payload.bytes = some payload.intoText.toList :=
  Utf8.decode_eq_some_iff.symm

theorem exact_of_isVerbatim (verbatim : payload.isVerbatim) : payload.Exact := by
  rw [exact_iff]
  unfold isVerbatim at verbatim
  obtain ⟨untreed, valid⟩ := Bool.and_eq_true_iff.mp verbatim
  cases decoded : Utf8.decode payload.bytes with
  | none => simp [decoded] at valid
  | some chars =>
    cases rendered : payload.text with
    | none =>
      have bytes := Utf8.decode_eq_some_iff.mp decoded
      have json : payload.json = none := by simpa using untreed
      simp [intoText, rendered, json, renderRaw, ← bytes]
    | some text =>
      have same : text = String.ofList chars := by simpa [decoded, rendered] using valid
      simp [intoText, rendered, same]

/-- A payload nothing has rendered yet. -/
theorem isVerbatim_fresh (fresh : payload.text = none) :
    payload.isVerbatim ↔ payload.json = none ∧ payload.Exact := by
  constructor
  · intro verbatim
    refine ⟨?_, exact_of_isVerbatim verbatim⟩
    have untreed := (Bool.and_eq_true_iff.mp verbatim).1
    simpa using untreed
  · rintro ⟨json, exact⟩
    simp [isVerbatim, json, fresh, exact_iff.mp exact]

@[simp] theorem intoText_rendered : payload.rendered.intoText = payload.intoText := rfl

@[simp] theorem bytes_rendered : payload.rendered.bytes = payload.bytes := rfl

@[simp] theorem wireSchemaId_rendered :
    payload.rendered.wireSchemaId = payload.wireSchemaId := rfl

omit [Crates] in
@[simp] theorem bytes_dropTreeIfRendered : payload.dropTreeIfRendered.bytes = payload.bytes := by
  unfold dropTreeIfRendered
  split <;> rfl

omit [Crates] in
@[simp] theorem wireSchemaId_dropTreeIfRendered :
    payload.dropTreeIfRendered.wireSchemaId = payload.wireSchemaId := by
  unfold dropTreeIfRendered
  split <;> rfl

@[simp] theorem intoText_dropTreeIfRendered :
    payload.dropTreeIfRendered.intoText = payload.intoText := by
  unfold dropTreeIfRendered
  split
  · rename_i some
    obtain ⟨text, rendered⟩ := Option.isSome_iff_exists.mp some
    simp [intoText, rendered]
  · rfl

omit [Crates] in
theorem dropTreeIfRendered_fresh (fresh : payload.text = none) :
    payload.dropTreeIfRendered = payload := by
  simp [dropTreeIfRendered, fresh]

/-- A payload whose tree was dropped once it was rendered. -/
theorem isVerbatim_dropped :
    payload.rendered.dropTreeIfRendered.isVerbatim ↔ payload.Exact := by
  constructor
  · intro verbatim
    simpa [Exact] using exact_of_isVerbatim verbatim
  · intro exact
    have valid := exact_iff.mp exact
    simp [isVerbatim, dropTreeIfRendered, rendered, valid]

end DecodedPayload

/-- A payload as the codec leaves it: the bytes it came in, nothing rendered. -/
theorem payloadOf_fresh {codec : Option PayloadCodec} {bytes : Option Bytes} {fallback : Option Int}
    {payload : DecodedPayload} (decoded : payloadOf codec bytes fallback = some payload) :
    bytes = some payload.bytes ∧ payload.text = none := by
  obtain ⟨wire, rfl, rfl⟩ := Option.map_eq_some_iff.mp decoded
  unfold PayloadSlot.decodedBy
  split <;> exact ⟨rfl, rfl⟩

end Payloads

/-- The texts of the record are the bytes on the wire: absent where they are
absent, and every header with its name and in its place. -/
structure ShowsExactly (raw : RawRecord) (record : Record) : Prop where
  key : record.key.map asBytes = raw.key
  value : record.value.map asBytes = raw.value
  headers : (record.headers.map fun header => (header.key, some (asBytes header.value))) = raw.headers

/-- The topic has a rule of its own, or one for a prefix of its name. -/
def ObfuscationPolicy.Covers (policy : ObfuscationPolicy) (topic : String) : Prop :=
  (policy.exact topic).isSome ∨ ∃ entry ∈ policy.prefixes, entry.1.toList <+: topic.toList

theorem ObfuscationPolicy.forTopic_eq_none_iff {policy : ObfuscationPolicy} {topic : String} :
    policy.forTopic topic = none ↔ ¬ policy.Covers topic := by
  unfold forTopic Covers
  cases policy.exact topic with
  | some rule => simp
  | none => simp [List.find?_eq_none]

section Exactly
variable [Crates]

omit [Crates] in
theorem headerText_exact {value : Option Bytes} (verbatim : (headerText value).2 = true) :
    value = some (asBytes (headerText value).1) := by
  unfold headerText at verbatim ⊢
  cases value with
  | none => cases verbatim
  | some bytes =>
    cases decoded : Utf8.decode bytes with
    | none => simp [decoded] at verbatim
    | some chars =>
      simp only [decoded, asBytes, String.toList_ofList, Utf8.decode_eq_some_iff.mp decoded]

namespace DecodedRecord
variable {record : DecodedRecord} {topic : String}

/-- What it takes for a record to be rendered verbatim. -/
theorem verbatim_iff : (record.intoRecord topic).verbatim = true ↔ record.masked = false ∧
    (∀ header ∈ record.raw.headers, (headerText header.2).2 = true) ∧
    (∀ payload ∈ record.key, payload.isVerbatim) ∧ ∀ payload ∈ record.value, payload.isVerbatim := by
  simp only [intoRecord, Bool.and_eq_true, Bool.not_eq_true', List.all_map, List.all_eq_true,
    Function.comp_apply, List.mem_append, Option.mem_toList, Option.mem_def]
  constructor
  · rintro ⟨⟨clear, headers⟩, payloads⟩
    exact ⟨clear, headers, fun payload held => payloads payload (.inl held),
      fun payload held => payloads payload (.inr held)⟩
  · rintro ⟨clear, headers, key, value⟩
    exact ⟨⟨clear, headers⟩, fun payload held => held.elim (key payload) (value payload)⟩

/-- Payloads that still hold the bytes of the wire show them when verbatim. -/
theorem texts_exact {payload : Option DecodedPayload} {bytes : Option Bytes}
    (held : payload.map DecodedPayload.bytes = bytes)
    (verbatim : ∀ found ∈ payload, found.isVerbatim) :
    (payload.map DecodedPayload.intoText).map asBytes = bytes := by
  cases payload with
  | none => exact held
  | some found =>
    rw [← held]
    exact congrArg some (DecodedPayload.exact_of_isVerbatim (verbatim found rfl))

theorem shows_exactly (key : record.key.map DecodedPayload.bytes = record.raw.key)
    (value : record.value.map DecodedPayload.bytes = record.raw.value)
    (verbatim : (record.intoRecord topic).verbatim = true) :
    ShowsExactly record.raw (record.intoRecord topic) := by
  obtain ⟨_, headers, keyVerbatim, valueVerbatim⟩ := verbatim_iff.mp verbatim
  refine ⟨texts_exact key keyVerbatim, texts_exact value valueVerbatim, ?_⟩
  simp only [intoRecord, List.map_map]
  refine Eq.trans (List.map_congr_left fun header member => ?_) (List.map_id _)
  exact Prod.ext rfl (headerText_exact (headers header member)).symm

end DecodedRecord

namespace Stages

/-- What the filter leaves of the payloads it looked at. The search stops at the
key when that matches. -/
def searched (stages : Stages) (key value : Option DecodedPayload) :
    Option DecodedPayload × Option DecodedPayload :=
  match stages.filter with
  | none => (key.map .dropTreeIfRendered, value.map .dropTreeIfRendered)
  | some filter => (key.map fun payload => payload.rendered.dropTreeIfRendered,
      if key.any filter.matchesText then value.map .dropTreeIfRendered
      else value.map fun payload => payload.rendered.dropTreeIfRendered)

theorem kept_of_filterPayloads {stages : Stages} {raw : RawRecord} {kept : Kept}
    {key value : Option DecodedPayload} (passed : stages.filterPayloads raw key value = some kept) :
    kept = .decoded (stages.decoded raw
      (stages.searched (stages.obfuscate key value).1 (stages.obfuscate key value).2).1
      (stages.searched (stages.obfuscate key value).1 (stages.obfuscate key value).2).2) := by
  unfold filterPayloads at passed
  generalize stages.obfuscate key value = payloads at passed ⊢
  obtain ⟨_, same⟩ := Option.ite_none_right_eq_some.mp passed
  rw [← Option.some.inj same]
  unfold searched
  cases stages.filter with
  | none => rfl
  | some filter =>
    dsimp only [CompiledFilter.onPayload]
    split <;> simp [Option.map_map, Function.comp_def]

/-- A record decoded to be matched, next to the same record decoded to be shown:
what differs is whether it is verbatim. -/
theorem intoRecord_searched {raw : RawRecord} {topic : String} (stages : Stages)
    (key value : Option DecodedPayload) :
    (stages.decoded raw key value).intoRecord topic =
      { (stages.decoded raw (stages.searched key value).1
          (stages.searched key value).2).intoRecord topic with
        verbatim := ((stages.decoded raw key value).intoRecord topic).verbatim } := by
  unfold searched
  cases stages.filter with
  | none => cases key <;> cases value <;> simp [DecodedRecord.intoRecord, Stages.decoded]
  | some filter =>
    dsimp only
    split <;> cases key <;> cases value <;> simp [DecodedRecord.intoRecord, Stages.decoded]

/-- Nothing has rendered these payloads, so they are verbatim where no tree was made. -/
theorem verbatim_decoded {stages : Stages} {raw : RawRecord} {topic : String}
    {key value : Option DecodedPayload} (clear : stages.obfuscator = none)
    (freshKey : ∀ payload ∈ key, payload.text = none)
    (freshValue : ∀ payload ∈ value, payload.text = none) :
    ((stages.decoded raw key value).intoRecord topic).verbatim = true ↔
      (∀ header ∈ raw.headers, (headerText header.2).2 = true) ∧
        (∀ payload ∈ key, payload.json = none ∧ payload.Exact) ∧
        ∀ payload ∈ value, payload.json = none ∧ payload.Exact := by
  have key_iff : (∀ payload ∈ key, payload.isVerbatim) ↔
      ∀ payload ∈ key, payload.json = none ∧ payload.Exact :=
    forall₂_congr fun payload held => DecodedPayload.isVerbatim_fresh (freshKey payload held)
  have value_iff : (∀ payload ∈ value, payload.isVerbatim) ↔
      ∀ payload ∈ value, payload.json = none ∧ payload.Exact :=
    forall₂_congr fun payload held => DecodedPayload.isVerbatim_fresh (freshValue payload held)
  rw [DecodedRecord.verbatim_iff]
  simp only [decoded, obfuscated, clear, Option.isSome_none, true_and, key_iff, value_iff]

/-- What the filter rendered is verbatim on its text alone, and only a value it
never came to still needs to be without a tree. -/
theorem verbatim_searched {stages : Stages} {raw : RawRecord} {topic : String}
    {filter : CompiledFilter} {key value : Option DecodedPayload}
    (clear : stages.obfuscator = none) (filtered : stages.filter = some filter)
    (freshValue : ∀ payload ∈ value, payload.text = none) :
    ((stages.decoded raw (stages.searched key value).1
        (stages.searched key value).2).intoRecord topic).verbatim = true ↔
      (∀ header ∈ raw.headers, (headerText header.2).2 = true) ∧
        (∀ payload ∈ key, payload.Exact) ∧ (∀ payload ∈ value, payload.Exact) ∧
        (key.any filter.matchesText → ∀ payload ∈ value, payload.json = none) := by
  have rendered : ∀ payload : Option DecodedPayload,
      (∀ found ∈ payload.map fun payload => payload.rendered.dropTreeIfRendered,
        found.isVerbatim) ↔ ∀ found ∈ payload, found.Exact := by
    intro payload
    simp only [Option.mem_map, forall_exists_index, and_imp, forall_apply_eq_imp_iff₂,
      DecodedPayload.isVerbatim_dropped]
  rw [DecodedRecord.verbatim_iff]
  simp only [decoded, obfuscated, clear, Option.isSome_none, true_and, searched, filtered, rendered]
  refine and_congr_right fun _ => and_congr_right fun _ => ?_
  by_cases reached : key.any filter.matchesText = true
  · have untouched : ∀ payload ∈ value, payload.dropTreeIfRendered = payload :=
      fun payload held => DecodedPayload.dropTreeIfRendered_fresh (freshValue payload held)
    cases value with
    | none => simp
    | some payload =>
      simp [reached, untouched payload rfl,
        DecodedPayload.isVerbatim_fresh (freshValue payload rfl), and_comm]
  · rw [if_neg reached, rendered]
    simp [reached]

end Stages

namespace RecordPipeline
variable {pipeline : RecordPipeline} {raw : RawRecord} {kept : Kept} {topic : String}

omit [Crates] in
theorem hidden_of_clear (clear : pipeline.stages.obfuscator = none) : pipeline.hidden raw = raw := by
  simp [hidden, clear]

theorem bytes_payloadOf (codec : Option PayloadCodec) (bytes : Option Bytes)
    (fallback : Option Int) : (payloadOf codec bytes fallback).map DecodedPayload.bytes = bytes := by
  cases found : payloadOf codec bytes fallback with
  | none => exact (Option.map_eq_none_iff.mp found).symm
  | some payload => exact (payloadOf_fresh found).1.symm

/-- Without an obfuscator a kept record still holds the bytes it came with. -/
theorem bytes_of_keeps (clear : pipeline.stages.obfuscator = none)
    (keeps : pipeline.keeps raw = some kept) :
    (pipeline.finished kept).key.map DecodedPayload.bytes = raw.key ∧
      (pipeline.finished kept).value.map DecodedPayload.bytes = raw.value := by
  have key : (pipeline.keyOf raw).map DecodedPayload.bytes = raw.key := bytes_payloadOf ..
  have value : (pipeline.valueOf raw).map DecodedPayload.bytes = raw.value := bytes_payloadOf ..
  rw [keeps_of_screen, hidden_of_clear clear] at keeps
  split at keeps
  · contradiction
  · obtain rfl := Option.some.inj keeps
    simpa only [finished, Stages.obfuscate, clear, Stages.decoded] using ⟨key, value⟩
  · obtain ⟨_, same⟩ := Option.ite_none_right_eq_some.mp keeps
    obtain rfl := Option.some.inj same
    simp only [finished, clear, Stages.decoded]
    cases pipeline.stages.filter with
    | none => simpa [Option.map_map, Function.comp_def] using ⟨key, value⟩
    | some filter =>
      dsimp only [CompiledFilter.onPayload]
      split <;> simpa [Option.map_map, Function.comp_def] using ⟨key, value⟩

theorem finished_raw_of_keeps (clear : pipeline.stages.obfuscator = none)
    (keeps : pipeline.keeps raw = some kept) : (pipeline.finished kept).raw = raw := by
  rw [finished_raw, keeps_raw pipeline keeps, hidden_of_clear clear]

/-- A kept record that is rendered verbatim shows its bytes. -/
theorem shows_exactly_of_keeps (keeps : pipeline.keeps raw = some kept)
    (verbatim : ((pipeline.finished kept).intoRecord topic).verbatim = true) :
    pipeline.stages.obfuscator = none ∧
      ShowsExactly raw ((pipeline.finished kept).intoRecord topic) := by
  have masked : (pipeline.finished kept).masked = pipeline.stages.obfuscated := by
    rw [keeps_of_screen] at keeps
    split at keeps
    · contradiction
    · obtain rfl := Option.some.inj keeps
      rfl
    · obtain ⟨_, same⟩ := Option.ite_none_right_eq_some.mp keeps
      obtain rfl := Option.some.inj same
      rfl
  have clear : pipeline.stages.obfuscator = none := by
    have open_ := (DecodedRecord.verbatim_iff.mp verbatim).1
    rw [masked] at open_
    simpa [Stages.obfuscated] using open_
  obtain ⟨key, value⟩ := bytes_of_keeps clear keeps
  have same := finished_raw_of_keeps clear keeps
  refine ⟨clear, ?_⟩
  have shown : ShowsExactly (pipeline.finished kept).raw ((pipeline.finished kept).intoRecord topic) :=
    DecodedRecord.shows_exactly (same.symm ▸ key) (same.symm ▸ value) verbatim
  rwa [same] at shown

/-- The batch after some polls. -/
def admitAll (pipeline : RecordPipeline) (batch : RecordBatch Kept)
    (polls : List (List (Ranked RawRecord))) : RecordBatch Kept :=
  polls.foldl (fun batch records => (pipeline.admitRecords batch records).1) batch

/-- Kept by a batch that some of the polls were admitted to. -/
def Gathered (pipeline : RecordPipeline) (polls : List (List (Ranked RawRecord))) (kept : Kept) :
    Prop :=
  ∃ limit order direction read, read ⊆ polls ∧
    kept ∈ (pipeline.admitAll (RecordBatch.new limit order direction) read).intoSorted

theorem DrawnFrom.admitAll {batch : RecordBatch Kept} {source : RawRecord → Prop}
    {polls : List (List (Ranked RawRecord))} (drawn : pipeline.DrawnFrom batch source)
    (from_ : ∀ records ∈ polls, ∀ record ∈ records, source record.2) :
    pipeline.DrawnFrom (pipeline.admitAll batch polls) source := by
  induction polls generalizing batch with
  | nil => exact drawn
  | cons records polls ih =>
    exact ih (drawn.admitRecords pipeline (from_ records List.mem_cons_self))
      fun others member => from_ others (List.mem_cons_of_mem _ member)

theorem Gathered.keeps {polls : List (List (Ranked RawRecord))}
    (gathered : pipeline.Gathered polls kept) :
    ∃ entry ∈ polls.flatten, pipeline.keeps entry.2 = some kept := by
  obtain ⟨limit, order, direction, read, part, held⟩ := gathered
  have start : pipeline.DrawnFrom (RecordBatch.new limit order direction)
      fun raw => ∃ entry ∈ polls.flatten, entry.2 = raw := by
    simp [DrawnFrom, RecordBatch.new]
  have drawn := start.admitAll fun records member record listed =>
    ⟨record, List.mem_flatten.mpr ⟨records, part member, listed⟩, rfl⟩
  obtain ⟨entry, inBatch, rfl⟩ := List.mem_map.mp held
  obtain ⟨_, ⟨source, listed, rfl⟩, keeps⟩ := drawn entry inBatch
  exact ⟨source, listed, keeps⟩

/-- A record rendered verbatim shows a polled record byte for byte, and no
obfuscation rule covers its topic. -/
theorem verbatim_shows_bytes (codec : Option PayloadCodec) (filter : Option CompiledFilter)
    (policy : Option ObfuscationPolicy) (fallback : Option Int) (topic : String)
    (polls : List (List (Ranked RawRecord))) (page : List Kept)
    (gathered : ∀ kept ∈ page,
      (new codec filter (policy.bind (·.forTopic topic)) fallback).Gathered polls kept) :
    ∀ record ∈ (new codec filter (policy.bind (·.forTopic topic)) fallback).render page topic,
      record.verbatim = true →
        (∀ rules ∈ policy, ¬ rules.Covers topic) ∧
        ∃ entry ∈ polls.flatten, ShowsExactly entry.2 record ∧
          record.partition = entry.2.partition ∧ record.offset = entry.2.offset := by
  intro record member verbatim
  rw [render_eq] at member
  obtain ⟨kept, listed, rfl⟩ := List.mem_map.mp member
  obtain ⟨entry, polled, keeps⟩ := (gathered kept listed).keeps
  obtain ⟨clear, shown⟩ := shows_exactly_of_keeps keeps verbatim
  have same := finished_raw_of_keeps clear keeps
  refine ⟨?_, entry, polled, shown, congrArg RawRecord.partition same,
    congrArg RawRecord.offset same⟩
  rintro rules rfl
  exact ObfuscationPolicy.forTopic_eq_none_iff.mp clear

/-- The pipeline of the same request without its filter. -/
def unfiltered (pipeline : RecordPipeline) : RecordPipeline :=
  { pipeline with stages := { pipeline.stages with filter := none } }

/-- One record on its own: admitted to an empty batch and rendered. -/
def renderAlone (pipeline : RecordPipeline) (topic : String) (raw : RawRecord) : List Record :=
  pipeline.render (pipeline.admitRecords (RecordBatch.new 1 .newest .forward)
    [(raw.sortKey, raw)]).1.intoSorted topic

theorem renderAlone_eq (pipeline : RecordPipeline) (topic : String) (raw : RawRecord) :
    pipeline.renderAlone topic raw =
      (pipeline.keeps raw).toList.map fun kept => (pipeline.finished kept).intoRecord topic := by
  have collects := pipeline.admitRecords_collects [(raw.sortKey, raw)]
    (RecordBatch.collects_new 1 .newest .forward) (by simp [places])
  have shape := pipeline.shape_admitRecords (RecordBatch.new 1 .newest .forward) [(raw.sortKey, raw)]
  have values : ∀ batch : RecordBatch Kept, batch.intoSorted = batch.ranked.map Prod.snd := by
    intro batch
    simp [RecordBatch.intoSorted, RecordBatch.ranked]
  unfold renderAlone
  rw [render_eq, values]
  generalize (pipeline.admitRecords (RecordBatch.new 1 .newest .forward)
    [(raw.sortKey, raw)]).1 = batch at collects shape
  have limit : batch.limit = 1 := congrArg Prod.fst shape
  have best := collects.best
  rw [limit, List.append_nil] at best
  cases keeps : pipeline.keeps raw with
  | none =>
    rw [List.filterMap_cons_none (by simp [offers, keeps]), List.filterMap_nil] at best
    rw [List.eq_nil_of_subset_nil fun _ member => best.subset member]
    rfl
  | some kept =>
    have offered : pipeline.offers (raw.sortKey, raw) = some (raw.sortKey, kept) := by
      simp [offers, keeps]
    rw [List.filterMap_cons_some offered, List.filterMap_nil] at best
    obtain ⟨entry, single⟩ := List.length_eq_one_iff.mp best.length_eq
    have held : entry ∈ batch.ranked := by simp [single]
    rw [single, List.mem_singleton.mp (best.subset held)]
    rfl

/-- The codec made a tree of one of the payloads, and yet both are shown as
their bytes. The filter had to look at the texts, and has rendered them all but
the value of a matching key, which stays a tree if it is one. -/
structure Echoes (pipeline : RecordPipeline) (raw : RawRecord) : Prop where
  clear : pipeline.stages.obfuscator = none
  screened : (pipeline.stages.screenRecord raw).2 = some .needsPayload
  headers : ∀ header ∈ raw.headers, (headerText header.2).2 = true
  key : ∀ payload ∈ pipeline.keyOf raw, payload.Exact
  value : ∀ payload ∈ pipeline.valueOf raw, payload.Exact
  tree : (∃ payload ∈ pipeline.keyOf raw, payload.json.isSome) ∨
    ∃ payload ∈ pipeline.valueOf raw, payload.json.isSome
  reached : ∀ filter ∈ pipeline.stages.filter, (pipeline.keyOf raw).any filter.matchesText →
    ∀ payload ∈ pipeline.valueOf raw, payload.json = none

theorem keyOf_fresh : ∀ payload ∈ pipeline.keyOf raw, payload.text = none :=
  fun _ held => (payloadOf_fresh held).2

theorem valueOf_fresh : ∀ payload ∈ pipeline.valueOf raw, payload.text = none :=
  fun _ held => (payloadOf_fresh held).2

/-- The filter's own rendering makes a record verbatim just where it echoes. -/
theorem verbatim_differs_iff {filter : CompiledFilter} (clear : pipeline.stages.obfuscator = none)
    (filtered : pipeline.stages.filter = some filter)
    (screened : (pipeline.stages.screenRecord raw).2 = some .needsPayload) :
    (((pipeline.stages.decoded raw (pipeline.keyOf raw) (pipeline.valueOf raw)).intoRecord
        topic).verbatim =
      ((pipeline.stages.decoded raw
        (pipeline.stages.searched (pipeline.keyOf raw) (pipeline.valueOf raw)).1
        (pipeline.stages.searched (pipeline.keyOf raw) (pipeline.valueOf raw)).2).intoRecord
          topic).verbatim) ↔ ¬ pipeline.Echoes raw := by
  rw [Bool.eq_iff_iff, Stages.verbatim_decoded clear keyOf_fresh valueOf_fresh,
    Stages.verbatim_searched clear filtered valueOf_fresh]
  constructor
  · rintro same ⟨_, _, headers, key, value, tree, reached⟩
    obtain ⟨_, untreedKey, untreedValue⟩ :=
      same.mpr ⟨headers, key, value, reached filter filtered⟩
    obtain ⟨payload, held, treed⟩ | ⟨payload, held, treed⟩ := tree
    · simp [(untreedKey payload held).1] at treed
    · simp [(untreedValue payload held).1] at treed
  · intro silent
    constructor
    · rintro ⟨headers, key, value⟩
      exact ⟨headers, fun payload held => (key payload held).2,
        fun payload held => (value payload held).2, fun _ payload held => (value payload held).1⟩
    · rintro ⟨headers, key, value, reached⟩
      have untreed : ¬ ((∃ payload ∈ pipeline.keyOf raw, payload.json.isSome) ∨
          ∃ payload ∈ pipeline.valueOf raw, payload.json.isSome) := by
        intro tree
        refine silent ⟨clear, screened, headers, key, value, tree, ?_⟩
        intro found same
        obtain rfl := Option.some.inj (filtered.symm.trans same)
        exact reached
      refine ⟨headers, fun payload held => ⟨?_, key payload held⟩,
        fun payload held => ⟨?_, value payload held⟩⟩
      · exact Option.not_isSome_iff_eq_none.mp fun treed => untreed (.inl ⟨payload, held, treed⟩)
      · exact Option.not_isSome_iff_eq_none.mp fun treed => untreed (.inr ⟨payload, held, treed⟩)

theorem verbatim_of_masked {stages : Stages} {key value : Option DecodedPayload}
    (masked : stages.obfuscator ≠ none) :
    ((stages.decoded raw key value).intoRecord topic).verbatim = false := by
  have hides := Option.isSome_iff_ne_none.mpr masked
  simp [DecodedRecord.intoRecord, Stages.decoded, Stages.obfuscated, hides]

theorem filter_of_screened
    (screened : (pipeline.stages.screenRecord raw).2 = some .needsPayload) :
    ∃ filter, pipeline.stages.filter = some filter := by
  cases filtered : pipeline.stages.filter with
  | some filter => exact ⟨filter, rfl⟩
  | none => simp [Stages.screenRecord, filtered] at screened

/-- The record decoded to be shown and the one decoded to be matched. -/
theorem intoRecord_differs_iff {filter : CompiledFilter}
    (filtered : pipeline.stages.filter = some filter)
    (screened : (pipeline.stages.screenRecord raw).2 = some .needsPayload) :
    let payloads := pipeline.stages.obfuscate (pipeline.keyOf (pipeline.hidden raw))
      (pipeline.valueOf (pipeline.hidden raw))
    (pipeline.finished (.pending (pipeline.hidden raw))).intoRecord topic =
        (pipeline.stages.decoded (pipeline.hidden raw)
          (pipeline.stages.searched payloads.1 payloads.2).1
          (pipeline.stages.searched payloads.1 payloads.2).2).intoRecord topic ↔
      ¬ pipeline.Echoes raw := by
  intro payloads
  have decoded : pipeline.finished (.pending (pipeline.hidden raw)) =
      pipeline.stages.decoded (pipeline.hidden raw) payloads.1 payloads.2 := rfl
  rw [decoded]
  by_cases clear : pipeline.stages.obfuscator = none
  · have plain : payloads = (pipeline.keyOf raw, pipeline.valueOf raw) := by
      simp only [payloads, hidden_of_clear clear, Stages.obfuscate, clear]
    have verbatim := @verbatim_differs_iff _ pipeline raw topic filter clear filtered screened
    rw [hidden_of_clear clear, plain, ← verbatim]
    constructor
    · exact congrArg Record.verbatim
    · intro same
      rw [Stages.intoRecord_searched, same]
  · refine iff_of_true ?_ fun echoes => clear echoes.clear
    rw [Stages.intoRecord_searched, verbatim_of_masked clear, ← verbatim_of_masked clear]

/-- A record a filter found is rendered as it would be without the filter, except
where it echoes: then the filter's rendering has dropped the tree, and only the
filtered one is verbatim. -/
theorem renders_same_iff (pipeline : RecordPipeline) (topic : String) (raw : RawRecord)
    (record : Record) (found : pipeline.renderAlone topic raw = [record]) :
    pipeline.unfiltered.renderAlone topic raw = [record] ↔ ¬ pipeline.Echoes raw := by
  rw [renderAlone_eq] at found
  obtain ⟨kept, listed, rfl⟩ := List.map_eq_singleton_iff.mp found
  have keeps : pipeline.keeps raw = some kept := by simpa using congrArg List.head? listed
  have shown : pipeline.unfiltered.finished (.pending (pipeline.unfiltered.hidden raw)) =
      pipeline.finished (.pending (pipeline.hidden raw)) := rfl
  rw [renderAlone_eq, keeps_unfiltered _ rfl, Option.toList_some, List.map_singleton, shown,
    List.singleton_inj]
  rw [keeps_of_screen] at keeps
  cases screened : (pipeline.stages.screenRecord raw).2 with
  | none => simp [screened] at keeps
  | some screen =>
    cases screen with
    | deferred =>
      rw [screened] at keeps
      obtain rfl := Option.some.inj keeps
      exact iff_of_true rfl fun echoes =>
        absurd (screened.symm.trans echoes.screened) (by simp)
    | needsPayload =>
      obtain ⟨filter, filtered⟩ := filter_of_screened screened
      rw [screened] at keeps
      rw [Stages.kept_of_filterPayloads keeps]
      exact intoRecord_differs_iff filtered screened

end RecordPipeline
end Exactly

namespace Sample

/-- The bytes of a JSON text, compact as the tree of them is shown again. -/
def compactText : Bytes := asBytes "\x7b\"a\":1\x7d"

def spacedText : Bytes := asBytes "\x7b\"a\": 1\x7d"

/-- Schema 7 is a JSON schema, and both texts parse to one tree. -/
def jsonSchemas : Schemas.ResolvedSchemas where
  schemas key := if key = .id 7 then some .json else none
  fromSlice body :=
    if body = compactText ∨ body = spacedText then .ok (.object [("a", .number "1")])
    else .error "expected value"

/-- A search for the letter a in a topic read with schema 7. -/
def searching : RecordPipeline :=
  .new (some (@Schemas.ResolvedSchemas.codec Crates.plain jsonSchemas)) (some ⟨"a"⟩) none (some 7)

def unframed (text : Bytes) : RawRecord :=
  { partition := 0, offset := 3, timestamp := 5, key := none, value := some text, headers := [] }

/-- The record as it is shown, text and all. -/
def rendered (verbatim : Bool) (sizeBytes : Nat) : Record :=
  { topic := "orders", partition := 0, offset := 3, timestamp := 5, key := none,
    value := some "\x7b\"a\":1\x7d", schemaId := none, headers := [], sizeBytes, verbatim }

/-- One poll of the record. -/
def poll (text : Bytes) : List (Ranked RawRecord) := [((unframed text).sortKey, unframed text)]

end Sample

/-- A search renders the record as verbatim, and a scan does not. -/
theorem search_changes_verbatim :
    @RecordPipeline.renderAlone Crates.plain Sample.searching "orders"
        (Sample.unframed Sample.compactText) = [Sample.rendered true 7] ∧
      @RecordPipeline.renderAlone Crates.plain Sample.searching.unfiltered "orders"
        (Sample.unframed Sample.compactText) = [Sample.rendered false 7] := by
  decide

/-- The spaced text is decoded and matched as well, but it is not what is shown. -/
theorem renders_same_spaced :
    @RecordPipeline.renderAlone Crates.plain Sample.searching.unfiltered "orders"
      (Sample.unframed Sample.spacedText) = [Sample.rendered false 8] := by
  refine (@RecordPipeline.renders_same_iff Crates.plain Sample.searching "orders"
    (Sample.unframed Sample.spacedText) _ (by decide)).mpr fun echoes => ?_
  have inexact : ¬ ∀ payload ∈ @RecordPipeline.valueOf Crates.plain Sample.searching
      (Sample.unframed Sample.spacedText), @DecodedPayload.Exact Crates.plain payload := by
    decide
  exact inexact (@RecordPipeline.Echoes.value Crates.plain _ _ echoes)

theorem verbatim_shows_bytes_compact :
    ∃ entry ∈ Sample.poll Sample.compactText, ShowsExactly entry.2 (Sample.rendered true 7) := by
  have shown : ∃ page, (∀ kept ∈ page, @RecordPipeline.Gathered Crates.plain Sample.searching
      [Sample.poll Sample.compactText] kept) ∧ Sample.rendered true 7 ∈
        @RecordPipeline.render Crates.plain Sample.searching page "orders" :=
    ⟨_, fun _ held => ⟨1, .newest, .forward, _, List.Subset.refl _, held⟩, by decide⟩
  obtain ⟨page, gathered, rendered⟩ := shown
  obtain ⟨_, entry, polled, shows_, _⟩ := @RecordPipeline.verbatim_shows_bytes Crates.plain
    (some (@Schemas.ResolvedSchemas.codec Crates.plain Sample.jsonSchemas)) (some ⟨"a"⟩) none
    (some 7) "orders" _ page gathered _ rendered rfl
  exact ⟨entry, by simpa using polled, shows_⟩

end Klens.Scan
