import Klens.Scan.Conceal
import Klens.Scan.Log
import Klens.Scan.ScreenProofs
import Klens.Scan.TwinProofs
import Klens.Schemas.Decode

/-! What a rule hides stays hidden. Two logs that differ only in hidden parts
give the same pages, whatever is asked of them. -/
namespace Klens.Scan
open Klens.Schemas List

section Payloads
variable [Crates]

/-- What a codec makes of a payload. -/
def treeOf (codec : Option PayloadCodec) (fallback : Option Int) (bytes : Bytes) : Option Json :=
  codec.bind fun codec => codec bytes fallback

/-- A key or value may differ in what the rule hides of it: in all of it, with
its presence when it is dropped; in its bytes, when nothing decodes them and such
bytes are masked; in its hidden members, when both sides decode. -/
inductive AlikePayload (rule : TopicObfuscator) (codec : Option PayloadCodec)
    (fallback : Option Int) (field : Field) : Option Bytes → Option Bytes → Prop
  | same (bytes : Option Bytes) : AlikePayload rule codec fallback field bytes bytes
  | dropped (whole : rule.whole field = some .drop) (first second : Option Bytes) :
      AlikePayload rule codec fallback field first second
  | masked (whole : rule.whole field = some .mask) (first second : Bytes) :
      AlikePayload rule codec fallback field (some first) (some second)
  | undecoded (masks : rule.masksUndecoded field = true) {first second : Bytes}
      (left : treeOf codec fallback first = none) (right : treeOf codec fallback second = none) :
      AlikePayload rule codec fallback field (some first) (some second)
  | decoded {first second : Bytes} {one two : Json}
      (left : treeOf codec fallback first = some one)
      (right : treeOf codec fallback second = some two)
      (alike : conceal one rule.hiddenPaths = conceal two rule.hiddenPaths) :
      AlikePayload rule codec fallback field (some first) (some second)

/-- The text of a payload after the rules that look into it, before those for
the whole of it. -/
def TopicObfuscator.innerText (rule : TopicObfuscator) (field : Field) (payload : DecodedPayload) :
    String :=
  match payload.json with
  | some json => jsonText (rule.applyFields json)
  | none => if rule.masksUndecoded field then mask else payload.intoText

/-- What is shown of a payload is decided by its inner text. -/
def TopicObfuscator.outerText (rule : TopicObfuscator) (field : Field) (text : String) : String :=
  match rule.whole field with
  | some .mask => mask
  | some (.hash hasher) => hasher.token text
  | some .drop => text
  | none => if rule.patterns.isEmpty then text else (rule.rewriteText text).getD text

/-- The payload as the rules that look into it leave it. -/
def TopicObfuscator.edited (rule : TopicObfuscator) (field : Field) (payload : DecodedPayload) :
    DecodedPayload :=
  match payload.editJson rule.applyFields with
  | some edited => edited
  | none => if rule.masksUndecoded field then payload.redactWith mask else payload

theorem TopicObfuscator.edited_text (rule : TopicObfuscator) (field : Field)
    (payload : DecodedPayload) :
    (rule.edited field payload).intoText = rule.innerText field payload := by
  unfold edited DecodedPayload.editJson innerText
  cases payload.json with
  | some json => rfl
  | none =>
    simp only [Option.map_none]
    split <;> rfl

theorem TopicObfuscator.applyPresent_text (rule : TopicObfuscator) (field : Field)
    (payload : DecodedPayload) : (rule.applyPresent field payload).intoText =
      rule.outerText field (rule.innerText field payload) := by
  rw [← edited_text]
  change DecodedPayload.intoText (match rule.whole field with
    | some .mask => (rule.edited field payload).redactWith mask
    | some (.hash hasher) =>
      (rule.edited field payload).redactWith (hasher.token (rule.edited field payload).intoText)
    | some .drop => rule.edited field payload
    | none => rule.rewriteMatches (rule.edited field payload)) = _
  generalize rule.edited field payload = edited
  unfold outerText
  split
  · rfl
  · rfl
  · rfl
  · unfold rewriteMatches
    split
    · rfl
    · cases rule.rewriteText edited.intoText <;> rfl

/-- A payload with what it was decoded to, if it was. -/
def DecodedPayload.ofTree (bytes : Bytes) : Option Json → DecodedPayload
  | some json => .decoded bytes json
  | none => .raw bytes

theorem payloadOf_some (codec : Option PayloadCodec) (fallback : Option Int) (bytes : Bytes) :
    payloadOf codec (some bytes) fallback =
      some (.ofTree bytes (treeOf codec fallback bytes)) := by
  unfold payloadOf treeOf PayloadSlot.decodedBy
  simp only [Option.map_some, PayloadSlot.new]
  cases codec.bind fun codec => codec bytes fallback <;> rfl

/-- Payloads that differ in hidden parts only are shown as one. -/
theorem AlikePayload.text_eq {rule : TopicObfuscator} (apart : rule.TokensApart)
    {codec : Option PayloadCodec} {fallback : Option Int} {field : Field}
    {first second : Option Bytes} (alike : AlikePayload rule codec fallback field first second) :
    (rule.apply field (payloadOf codec first fallback)).map DecodedPayload.intoText =
      (rule.apply field (payloadOf codec second fallback)).map DecodedPayload.intoText := by
  have present (bytes : Bytes) (kept : rule.whole field ≠ some .drop) :
      (rule.apply field (payloadOf codec (some bytes) fallback)).map DecodedPayload.intoText =
        some (rule.outerText field (rule.innerText field
          (.ofTree bytes (treeOf codec fallback bytes)))) := by
    rw [payloadOf_some, ← TopicObfuscator.applyPresent_text]
    unfold TopicObfuscator.apply
    split
    · contradiction
    · rfl
  have gone (whole : rule.whole field = some .drop) (slot : Option DecodedPayload) :
      rule.apply field slot = none := by
    unfold TopicObfuscator.apply
    rw [whole]
  by_cases whole : rule.whole field = some .drop
  · rw [gone whole, gone whole]
  · cases alike with
    | same => rfl
    | dropped dropped => exact absurd dropped whole
    | masked masked first second =>
      rw [present first whole, present second whole]
      simp only [TopicObfuscator.outerText, masked]
    | undecoded masks left right =>
      rw [present _ whole, present _ whole, left, right]
      simp only [TopicObfuscator.innerText, DecodedPayload.ofTree, DecodedPayload.raw, masks,
        if_true]
    | decoded left right alike =>
      rw [present _ whole, present _ whole, left, right]
      simp only [TopicObfuscator.innerText, DecodedPayload.ofTree, DecodedPayload.decoded,
        TopicObfuscator.applyFields_eq apart alike]

end Payloads

/-- Headers of one name, with one value unless the rule masks that name. -/
def AlikeHeader (rule : TopicObfuscator) (first second : String × Option Bytes) : Prop :=
  first.1 = second.1 ∧ (first.2 = second.2 ∨ rule.masksHeader first.1 = true)

theorem obfuscateHeaders_eq {rule : TopicObfuscator} {first second : List (String × Option Bytes)}
    (alike : Forall₂ (AlikeHeader rule) first second) :
    rule.obfuscateHeaders first = rule.obfuscateHeaders second := by
  unfold TopicObfuscator.obfuscateHeaders
  split
  · rename_i unruled
    have nothing : rule.headers = [] := by
      simp only [Bool.and_eq_true, List.isEmpty_iff] at unruled
      exact unruled.1
    induction alike with
    | nil => rfl
    | cons head _ ih =>
      obtain ⟨names, values⟩ := head
      have shown := values.resolve_right (by simp [TopicObfuscator.masksHeader, nothing])
      rw [ih, Prod.ext names shown]
  · induction alike with
    | nil => rfl
    | cons head _ ih =>
      obtain ⟨names, values⟩ := head
      rw [List.map_cons, List.map_cons, ih]
      congr 1
      unfold TopicObfuscator.obfuscateHeader
      rcases values with values | masked
      · rw [Prod.ext names values]
      · rw [← names, if_pos masked, if_pos masked]

section Records
variable [Crates]

/-- Two records at one place that differ in hidden parts only. -/
structure AlikeRecords (rule : TopicObfuscator) (codec : Option PayloadCodec)
    (schemaId : Option Int) (first second : RawRecord) : Prop where
  partition : first.partition = second.partition
  offset : first.offset = second.offset
  timestamp : first.timestamp = second.timestamp
  headers : Forall₂ (AlikeHeader rule) first.headers second.headers
  key : AlikePayload rule codec none .key first.key second.key
  value : AlikePayload rule codec schemaId .value first.value second.value

theorem intoText_dropTreeIfRendered (payload : DecodedPayload) :
    payload.dropTreeIfRendered.intoText = payload.intoText := by
  obtain ⟨bytes, wireSchemaId, json, text⟩ := payload
  cases text <;> rfl

/-- A masked record shows its place, its headers and the texts of its payloads. -/
theorem shown_congr {first second : DecodedRecord} (topic : String)
    (masked : first.masked = true) (also : second.masked = true)
    (place : first.raw.sortKey = second.raw.sortKey)
    (headers : first.raw.headers = second.raw.headers)
    (key : first.key.map DecodedPayload.intoText = second.key.map DecodedPayload.intoText)
    (value : first.value.map DecodedPayload.intoText = second.value.map DecodedPayload.intoText) :
    (first.intoRecord topic).shown = (second.intoRecord topic).shown := by
  simp only [RawRecord.sortKey, SortKey.mk.injEq] at place
  obtain ⟨timestamp, partition, offset⟩ := place
  simp only [DecodedRecord.intoRecord, Record.shown, masked, also, headers, key, value, timestamp,
    partition, offset, Bool.not_true, Bool.false_and]

namespace CompiledFilter

theorem onPayload_fst_texts (filter : CompiledFilter) (key value : Option DecodedPayload) :
    (filter.onPayload key value).1 =
      ((key.map DecodedPayload.intoText).any (filter.matchesBytes ∘ asBytes) ||
        (value.map DecodedPayload.intoText).any (filter.matchesBytes ∘ asBytes)) := by
  have matching (payload : Option DecodedPayload) : payload.any filter.matchesText =
      (payload.map DecodedPayload.intoText).any (filter.matchesBytes ∘ asBytes) := by
    cases payload <;> rfl
  rw [← matching, ← matching]
  exact filter.onPayload_fst key value

theorem onPayload_texts (filter : CompiledFilter) (key value : Option DecodedPayload) :
    (filter.onPayload key value).2.1.map DecodedPayload.intoText =
        key.map DecodedPayload.intoText ∧
      (filter.onPayload key value).2.2.map DecodedPayload.intoText =
        value.map DecodedPayload.intoText := by
  have rendered (payload : Option DecodedPayload) : (payload.map .rendered).map
      DecodedPayload.intoText = payload.map DecodedPayload.intoText := by
    cases payload <;> rfl
  unfold onPayload
  split
  · exact ⟨rendered key, rfl⟩
  · exact ⟨rendered key, rendered value⟩

end CompiledFilter

namespace RecordPipeline
variable {pipeline : RecordPipeline} {rule : TopicObfuscator}

/-- What a filter makes of two payloads is decided by their texts. -/
theorem view_filterPayloads (topic : String) (held : pipeline.stages.obfuscator = some rule)
    {first second : RawRecord} {key key' value value' : Option DecodedPayload}
    (place : first.sortKey = second.sortKey) (headers : first.headers = second.headers)
    (keys : (rule.apply .key key).map DecodedPayload.intoText =
      (rule.apply .key key').map DecodedPayload.intoText)
    (values : (rule.apply .value value).map DecodedPayload.intoText =
      (rule.apply .value value').map DecodedPayload.intoText) :
    (pipeline.stages.filterPayloads first key value).map (pipeline.view topic) =
      (pipeline.stages.filterPayloads second key' value').map (pipeline.view topic) := by
  have masked : pipeline.stages.obfuscated = true := by simp [Stages.obfuscated, held]
  have trimmed (payload : Option DecodedPayload) : (payload.map .dropTreeIfRendered).map
      DecodedPayload.intoText = payload.map DecodedPayload.intoText := by
    cases payload with
    | none => rfl
    | some payload => exact congrArg some (intoText_dropTreeIfRendered payload)
  -- Records with the same texts, once the filter has let them through.
  have kept {one one' two two' : Option DecodedPayload}
      (keys : one.map DecodedPayload.intoText = one'.map DecodedPayload.intoText)
      (values : two.map DecodedPayload.intoText = two'.map DecodedPayload.intoText) :
      pipeline.view topic (.decoded (pipeline.stages.decoded first (one.map .dropTreeIfRendered)
          (two.map .dropTreeIfRendered))) =
        pipeline.view topic (.decoded (pipeline.stages.decoded second
          (one'.map .dropTreeIfRendered) (two'.map .dropTreeIfRendered))) := by
    refine Prod.ext place (shown_congr topic masked masked place headers ?_ ?_)
    · exact (trimmed one).trans (keys.trans (trimmed one').symm)
    · exact (trimmed two).trans (values.trans (trimmed two').symm)
  unfold Stages.filterPayloads Stages.obfuscate
  rw [held]
  dsimp only
  cases pipeline.stages.filter with
  | none => exact congrArg some (kept keys values)
  | some filter =>
    have passed := (filter.onPayload_fst_texts (rule.apply .key key) (rule.apply .value value)).trans
      ((congrArg₂ _ (congrArg _ keys) (congrArg _ values)).trans
        (filter.onPayload_fst_texts (rule.apply .key key') (rule.apply .value value')).symm)
    obtain ⟨keyText, valueText⟩ :=
      filter.onPayload_texts (rule.apply .key key) (rule.apply .value value)
    obtain ⟨keyText', valueText'⟩ :=
      filter.onPayload_texts (rule.apply .key key') (rule.apply .value value')
    dsimp only
    rw [passed]
    split
    · exact congrArg some (kept (keyText.trans (keys.trans keyText'.symm))
        (valueText.trans (values.trans valueText'.symm)))
    · rfl

theorem pending_eq (topic : String) (held : pipeline.stages.obfuscator = some rule)
    {first second : RawRecord} (place : first.sortKey = second.sortKey)
    (headers : first.headers = second.headers)
    (keys : (rule.apply .key (pipeline.keyOf first)).map DecodedPayload.intoText =
      (rule.apply .key (pipeline.keyOf second)).map DecodedPayload.intoText)
    (values : (rule.apply .value (pipeline.valueOf first)).map DecodedPayload.intoText =
      (rule.apply .value (pipeline.valueOf second)).map DecodedPayload.intoText) :
    pipeline.view topic (.pending first) = pipeline.view topic (.pending second) := by
  have masked : pipeline.stages.obfuscated = true := by simp [Stages.obfuscated, held]
  refine Prod.ext place (shown_congr topic masked masked place headers ?_ ?_)
  · simpa only [finished, Stages.obfuscate, Stages.decoded, held] using keys
  · simpa only [finished, Stages.obfuscate, Stages.decoded, held] using values

omit [Crates] in
theorem hidden_of_rule (held : pipeline.stages.obfuscator = some rule) (raw : RawRecord) :
    pipeline.hidden raw = { raw with headers := rule.obfuscateHeaders raw.headers } := by
  unfold hidden
  rw [held]

end RecordPipeline

/-- Fields that are equal, or both out of reach without a decode. -/
def RawAlike (first second : RawField) : Prop :=
  first = second ∨ (first.framed = true ∧ second.framed = true)

theorem onRawFrom_alike (filter : CompiledFilter) {first second : List RawField}
    (alike : Forall₂ RawAlike first second) (pending : Bool) :
    filter.onRawFrom pending first = filter.onRawFrom pending second := by
  induction alike generalizing pending with
  | nil => rfl
  | cons head _ ih =>
    rcases head with rfl | ⟨framed, also⟩
    · simp only [CompiledFilter.onRawFrom, ih]
    · simp only [CompiledFilter.onRawFrom, framed, also, if_true, ih]

/-- A rule that hides nothing of payloads leaves both sides searched alike. -/
theorem AlikePayload.field_alike {pipeline : RecordPipeline} {rule : TopicObfuscator}
    {fallback : Option Int} {field : Field} {first second : Option Bytes}
    (alike : AlikePayload rule pipeline.codec fallback field first second)
    (decodes : pipeline.stages.decodes = pipeline.codec.isSome)
    (leaves : ∀ codec ∈ pipeline.codec, codec.LeavesUnframed)
    (shown : rule.hidesPayload = false) :
    Forall₂ RawAlike (pipeline.stages.field first fallback).toList
      (pipeline.stages.field second fallback).toList := by
  simp only [TopicObfuscator.hidesPayload, Bool.or_eq_false_iff, Bool.not_eq_false',
    List.isEmpty_iff, Option.isSome_eq_false_iff, Option.isNone_iff_eq_none] at shown
  obtain ⟨⟨⟨fields, _⟩, key⟩, value⟩ := shown
  have whole : rule.whole field = none := by cases field <;> assumption
  have framed {bytes : Bytes} {json : Json} (tree : treeOf pipeline.codec fallback bytes = some json) :
      (pipeline.stages.decodes && needsDecode bytes fallback) = true := by
    obtain ⟨codec, held, decoded⟩ := Option.bind_eq_some_iff.mp tree
    rw [decodes, held, Option.isSome_some, Bool.true_and]
    by_contra unframed
    rw [leaves codec held bytes fallback (by simpa using unframed)] at decoded
    contradiction
  cases alike with
  | same => exact List.forall₂_same.mpr fun _ _ => .inl rfl
  | dropped dropped =>
    rw [whole] at dropped
    contradiction
  | masked masked =>
    rw [whole] at masked
    contradiction
  | undecoded masks =>
    simp [TopicObfuscator.masksUndecoded, fields] at masks
  | decoded left right => exact .cons (.inr ⟨framed left, framed right⟩) .nil

/-- Records with the same headers and texts once the rule is through with them,
and searched alike where they are searched raw. -/
theorem RecordPipeline.twins_of_texts {pipeline : RecordPipeline} {rule : TopicObfuscator}
    (held : pipeline.stages.obfuscator = some rule) (topic : String) {first second : RawRecord}
    (place : first.sortKey = second.sortKey)
    (headers : rule.obfuscateHeaders first.headers = rule.obfuscateHeaders second.headers)
    (keys : (rule.apply .key (pipeline.keyOf first)).map DecodedPayload.intoText =
      (rule.apply .key (pipeline.keyOf second)).map DecodedPayload.intoText)
    (values : (rule.apply .value (pipeline.valueOf first)).map DecodedPayload.intoText =
      (rule.apply .value (pipeline.valueOf second)).map DecodedPayload.intoText)
    (searched : rule.hidesPayload = false → Forall₂ RawAlike
      ((pipeline.stages.field first.key none).toList ++
        (pipeline.stages.field first.value pipeline.stages.fallbackSchemaId).toList)
      ((pipeline.stages.field second.key none).toList ++
        (pipeline.stages.field second.value pipeline.stages.fallbackSchemaId).toList)) :
    pipeline.Twins topic first second := by
  refine ⟨place, ?_, ?_, ?_⟩
  · unfold Stages.screenRecord
    rw [held]
    dsimp only
    cases pipeline.stages.filter with
    | none => rfl
    | some filter =>
      simp only [Option.map_some, Option.getD_some]
      by_cases shown : rule.hidesPayload = true
      · rw [if_pos shown, if_pos shown]
      · rw [if_neg shown, if_neg shown]
        have raws : filter.onRaw (pipeline.stages.field first.key none)
            (pipeline.stages.field first.value pipeline.stages.fallbackSchemaId) =
            filter.onRaw (pipeline.stages.field second.key none)
            (pipeline.stages.field second.value pipeline.stages.fallbackSchemaId) :=
          onRawFrom_alike filter (searched (Bool.not_eq_true _ ▸ shown)) false
        rw [raws]
        split <;> rfl
  · rw [RecordPipeline.hidden_of_rule held, RecordPipeline.hidden_of_rule held]
    exact RecordPipeline.pending_eq topic held place headers keys values
  · rw [RecordPipeline.hidden_of_rule held, RecordPipeline.hidden_of_rule held]
    exact RecordPipeline.view_filterPayloads topic held place headers keys values

/-- Records that differ in hidden parts only are twins. -/
theorem AlikeRecords.twins {pipeline : RecordPipeline} {rule : TopicObfuscator}
    (held : pipeline.stages.obfuscator = some rule) (apart : rule.TokensApart)
    (decodes : pipeline.stages.decodes = pipeline.codec.isSome)
    (leaves : ∀ codec ∈ pipeline.codec, codec.LeavesUnframed) (topic : String)
    {first second : RawRecord}
    (alike : AlikeRecords rule pipeline.codec pipeline.stages.fallbackSchemaId first second) :
    pipeline.Twins topic first second := by
  have place : first.sortKey = second.sortKey := by
    simp only [RawRecord.sortKey, alike.timestamp, alike.partition, alike.offset]
  refine RecordPipeline.twins_of_texts held topic place (obfuscateHeaders_eq alike.headers)
    (alike.key.text_eq apart) (alike.value.text_eq apart) ?_
  intro shown
  exact List.rel_append (alike.key.field_alike decodes leaves shown)
    (alike.value.field_alike decodes leaves shown)

end Records

/-- A turn of the poll loop by the places it polls. -/
structure PlannedTurn where
  polled : Except KafkaError (List (Int × Int))
  position : Int → Option Int
  lags : Int → Option Nat

structure PlannedPass where
  reassignment : Reassignment
  turns : List PlannedTurn
  late : Bool

/-- A poll schedule that says which places each poll brings, and nothing of the
records that are there. -/
structure PollPlan where
  opened : Except KafkaError Unit
  pass : Nat → PlannedPass

/-- The record of a log at a place. -/
def Log.at (log : Log) (place : Int × Int) : Option RawRecord :=
  (log.records place.1).find? fun raw => raw.offset = place.2

def PlannedTurn.on (turn : PlannedTurn) (log : Log) : Turn where
  polled := turn.polled.map (List.filterMap log.at)
  position := turn.position
  lags := turn.lags

/-- The schedule as it reads a log. -/
def PollPlan.on (plan : PollPlan) (log : Log) : Schedule where
  opened := plan.opened
  pass pass :=
    { reassignment := (plan.pass pass).reassignment
      turns := (plan.pass pass).turns.map (PlannedTurn.on · log)
      late := (plan.pass pass).late }

/-- Two logs with records at the same places that differ in hidden parts only. -/
def AlikeLogs (rule : TopicObfuscator) (codec : Option PayloadCodec) (schemaId : Option Int)
    (first second : Log) : Prop :=
  ∀ partition, Forall₂ (AlikeRecords rule codec schemaId) (first.records partition)
    (second.records partition)

theorem AlikeLogs.at {rule : TopicObfuscator} {codec : Option PayloadCodec} {schemaId : Option Int}
    {first second : Log} (alike : AlikeLogs rule codec schemaId first second) (place : Int × Int) :
    Option.Rel (AlikeRecords rule codec schemaId) (first.at place) (second.at place) := by
  unfold Log.at
  have here := alike place.1
  generalize first.records place.1 = left at here
  generalize second.records place.1 = right at here
  induction here with
  | nil => exact .none
  | cons head _ ih =>
    simp only [List.find?_cons, head.offset]
    split
    · exact .some head
    · exact ih

section Fetches
variable [Crates]

/-- Schedules that poll the same places of two such logs. -/
theorem AlikeLogs.schedules {pipeline : RecordPipeline} {rule : TopicObfuscator}
    (held : pipeline.stages.obfuscator = some rule) (apart : rule.TokensApart)
    (decodes : pipeline.stages.decodes = pipeline.codec.isSome)
    (leaves : ∀ codec ∈ pipeline.codec, codec.LeavesUnframed) (topic : String) {first second : Log}
    (alike : AlikeLogs rule pipeline.codec pipeline.stages.fallbackSchemaId first second)
    (plan : PollPlan) : TwinSchedules pipeline topic (plan.on first) (plan.on second) := by
  have polls (polled : List (Int × Int)) : Forall₂ (pipeline.Twins topic)
      (polled.filterMap first.at) (polled.filterMap second.at) := by
    refine (List.rel_filterMap ?_ (List.forall₂_same.mpr fun _ _ => rfl)).imp
      fun _ _ alike => AlikeRecords.twins held apart decodes leaves topic alike
    rintro place _ rfl
    exact alike.at place
  refine ⟨rfl, fun pass => ⟨rfl, ?_, rfl⟩⟩
  refine List.forall₂_map_left_iff.mpr (List.forall₂_map_right_iff.mpr
    (List.forall₂_same.mpr fun turn _ => ⟨?_, rfl, rfl⟩))
  unfold PlannedTurn.on
  cases turn.polled with
  | error error => exact .error error
  | ok polled => exact .ok (polls polled)

theorem leavesUnframed_codec (schemas : ResolvedSchemas) : schemas.codec.LeavesUnframed := by
  intro bytes fallback unframed
  by_contra decoded
  obtain ⟨json, decoded⟩ := Option.ne_none_iff_exists'.mp decoded
  rw [ResolvedSchemas.needsDecode_of_codec decoded] at unframed
  contradiction

/-- Whatever is asked and however the polls fall, a page of a topic under a rule
tells nothing of what the rule hides. -/
theorem PageRequest.fetch_shows_no_hidden_part (request : PageRequest)
    (schemas : Option ResolvedSchemas) (policy : Option ObfuscationPolicy) (span : LogSpan)
    {rule : TopicObfuscator}
    (covered : topicObfuscator ⟨schemas.map ResolvedSchemas.codec, policy⟩ request.query.topic =
      some rule)
    (apart : rule.TokensApart) {first second : Log}
    (alike : AlikeLogs rule (schemas.map ResolvedSchemas.codec) request.query.schemaId first second)
    (plan : PollPlan) :
    (request.fetch ⟨schemas.map ResolvedSchemas.codec, policy⟩ span (plan.on first)).map
        RecordPage.shown =
      (request.fetch ⟨schemas.map ResolvedSchemas.codec, policy⟩ span (plan.on second)).map
        RecordPage.shown := by
  apply PageRequest.fetch_twins
  refine AlikeLogs.schedules covered apart rfl ?_ _ alike plan
  intro codec held
  obtain ⟨resolved, _, rfl⟩ := Option.map_eq_some_iff.mp held
  exact leavesUnframed_codec resolved

end Fetches

namespace Sample

/-- A rule that masks one member and drops another. -/
def cardRule : TopicObfuscator where
  fields := [⟨["card"], .mask⟩, ⟨["owner", "name"], .drop⟩]
  patterns := []
  key := none
  value := none
  headers := []
  unparsed := .mask

/-- One schema whose bodies are one member as text. -/
def cards : ResolvedSchemas where
  schemas key := if key = .id 7 then
    some (.avro fun body => .ok (.object [("card", .string (renderRaw body)), ("paid", .bool true)]))
    else none
  fromSlice _ := .error "unused"

def paid (value : Bytes) : Log :=
  .ofRecords [{ record 0 0 5 with value := some value }] (by simp)

def searched : PageRequest :=
  { request .newest 2 with
    query := { (request .newest 2).query with schemaId := some 7, filter := some ⟨"pa"⟩ } }

def cardPlan : PollPlan where
  opened := .ok ()
  pass _ :=
    { reassignment := .assigned
      turns := [⟨.ok [(0, 0)], fun _ => none, fun _ => none⟩]
      late := false }

private theorem tokensApart_cardRule : cardRule.TokensApart := by
  simp [TopicObfuscator.TokensApart, cardRule, CompiledStrategy.isHash]

private theorem alike_paid :
    AlikeLogs cardRule (some (@ResolvedSchemas.codec Crates.plain cards)) (some 7) (paid [52, 49])
      (paid [53]) := by
  intro partition
  by_cases here : partition = 0
  · subst here
    exact .cons ⟨rfl, rfl, rfl, .nil, .same none, .decoded rfl rfl rfl⟩ .nil
  · have other (value : Bytes) : (paid value).records partition = [] := by
      simpa [paid, Log.ofRecords, ofPartition, record] using fun same => here same.symm
    rw [other, other]
    exact .nil

end Sample

theorem fetch_shows_no_hidden_part_card :
    (@PageRequest.fetch Crates.plain Sample.searched
        ⟨some (@ResolvedSchemas.codec Crates.plain Sample.cards),
          some ⟨fun _ => some Sample.cardRule, []⟩⟩ (Sample.span [0] 0 1)
        (Sample.cardPlan.on (Sample.paid [52, 49]))).map RecordPage.shown =
      (@PageRequest.fetch Crates.plain Sample.searched
        ⟨some (@ResolvedSchemas.codec Crates.plain Sample.cards),
          some ⟨fun _ => some Sample.cardRule, []⟩⟩ (Sample.span [0] 0 1)
        (Sample.cardPlan.on (Sample.paid [53]))).map RecordPage.shown :=
  @PageRequest.fetch_shows_no_hidden_part Crates.plain Sample.searched (some Sample.cards)
    (some ⟨fun _ => some Sample.cardRule, []⟩) (Sample.span [0] 0 1) Sample.cardRule rfl
    Sample.tokensApart_cardRule _ _ Sample.alike_paid Sample.cardPlan

end Klens.Scan
