import Klens.Scan.RawSearch

/-! Screening against filtering everything first. A payload the codec leaves
alone is searched as bytes or as text with the same answer, so the three points
a record can leave the pipeline at agree with one test of what it shows. -/
namespace Klens.Scan
open Klens.Lib

section Payloads
variable [Crates]

theorem decodedBy_text (codec : Option PayloadCodec) (bytes : Bytes) (fallback : Option Int) :
    ((PayloadSlot.new bytes fallback).decodedBy codec).text = none := by
  unfold PayloadSlot.decodedBy
  split <;> rfl

theorem TopicObfuscator.apply_of_not_hides {rule : TopicObfuscator} (open' : rule.hidesPayload = false)
    (field : Field) {slot : Option DecodedPayload} (unrendered : ∀ payload ∈ slot, payload.text = none) :
    rule.apply field slot = slot := by
  simp only [hidesPayload, Bool.or_eq_false_iff, Bool.not_eq_false', List.isEmpty_iff,
    Option.isSome_eq_false_iff, Option.isNone_iff_eq_none] at open'
  obtain ⟨⟨⟨fields, patterns⟩, key⟩, value⟩ := open'
  have none : rule.whole field = none := by cases field <;> assumption
  unfold apply
  rw [none]
  cases slot with
  | none => rfl
  | some payload =>
    have text := unrendered payload rfl
    cases payload with
    | mk bytes wireSchemaId json text =>
      subst text
      cases json <;> simp [applyPresent, none, DecodedPayload.editJson, applyFields, fields, patterns,
        rewriteMatches, masksUndecoded]

end Payloads

namespace RecordPipeline
variable [Crates] (pipeline : RecordPipeline)

/-- The filter applied to what a record shows: its payloads decoded and
obfuscated, without looking at raw bytes or at the batch. -/
def showsMatch (raw : RawRecord) : Bool :=
  match pipeline.stages.filter with
  | none => true
  | some filter =>
    let (key, value) := pipeline.stages.obfuscate (pipeline.keyOf raw) (pipeline.valueOf raw)
    key.any filter.matchesText || value.any filter.matchesText

/-- Filter everything, sort it by rank, take the first `limit`. -/
def naive (limit : Nat) (order : RecordOrder) (direction : CursorDirection)
    (records : List (Ranked RawRecord)) : List (Ranked RawRecord) :=
  (Ranked.sorted order direction
    (records.filter fun record => pipeline.showsMatch record.2)).take limit

def collect (limit : Nat) (order : RecordOrder) (direction : CursorDirection)
    (polls : List (List (Ranked RawRecord))) : RecordBatch Kept :=
  polls.foldl (fun batch poll => (pipeline.admitRecords batch poll).1) (.new limit order direction)

def heldRecords (batch : RecordBatch Kept) : List (Ranked RawRecord) :=
  batch.ranked.map fun entry => (entry.1, entry.2.raw)

/-- What the pipeline is built with: it decodes when it has a codec, the codec
leaves unframed payloads alone, and the needle has no replacement character. -/
structure Screens : Prop where
  decodes : pipeline.stages.decodes = pipeline.codec.isSome
  leaves : ∀ codec ∈ pipeline.codec, codec.LeavesUnframed
  clean : ∀ filter ∈ pipeline.stages.filter, filter.Clean

variable {pipeline}

theorem keepsDecoded_isSome (pipeline : RecordPipeline) (raw : RawRecord) :
    (pipeline.keepsDecoded raw).isSome = pipeline.showsMatch raw := by
  unfold keepsDecoded Stages.filterPayloads showsMatch
  generalize pipeline.stages.obfuscate (pipeline.keyOf raw) (pipeline.valueOf raw) = payloads
  obtain ⟨key, value⟩ := payloads
  cases pipeline.stages.filter with
  | none => rfl
  | some filter =>
    by_cases first : key.any filter.matchesText = true
    · simp [CompiledFilter.onPayload, first]
    · by_cases second : value.any filter.matchesText = true <;>
        simp [CompiledFilter.onPayload, first, second]

@[simp] theorem showsMatch_hidden (raw : RawRecord) :
    pipeline.showsMatch (pipeline.hidden raw) = pipeline.showsMatch raw := by
  have key : (pipeline.hidden raw).key = raw.key := by unfold hidden; split <;> rfl
  have value : (pipeline.hidden raw).value = raw.value := by unfold hidden; split <;> rfl
  unfold showsMatch keyOf valueOf
  rw [key, value]

private theorem obfuscate_of_not_hides
    (shown : (pipeline.stages.obfuscator.map TopicObfuscator.hidesPayload).getD false = false)
    (raw : RawRecord) : pipeline.stages.obfuscate (pipeline.keyOf raw) (pipeline.valueOf raw) =
      (pipeline.keyOf raw, pipeline.valueOf raw) := by
  have unrendered (bytes : Option Bytes) (fallback : Option Int) :
      ∀ payload ∈ payloadOf pipeline.codec bytes fallback, payload.text = none := by
    intro payload member
    obtain ⟨held, _, rfl⟩ := Option.map_eq_some_iff.mp member
    exact decodedBy_text ..
  unfold Stages.obfuscate
  cases rule : pipeline.stages.obfuscator with
  | none => rfl
  | some rule' =>
    rw [rule, Option.map_some, Option.getD_some] at shown
    dsimp only
    unfold keyOf valueOf
    rw [TopicObfuscator.apply_of_not_hides shown .key (unrendered raw.key none),
      TopicObfuscator.apply_of_not_hides shown .value (unrendered raw.value _)]

theorem keeps_eq (raw : RawRecord) : pipeline.keeps raw =
    match pipeline.stages.filter with
    | none => some (.pending (pipeline.hidden raw))
    | some filter =>
      if (pipeline.stages.obfuscator.map TopicObfuscator.hidesPayload).getD false then
        pipeline.keepsDecoded (pipeline.hidden raw)
      else match filter.onRaw (pipeline.stages.field (pipeline.hidden raw).key none)
          (pipeline.stages.field (pipeline.hidden raw).value pipeline.stages.fallbackSchemaId) with
        | .fail => none
        | .pass => some (.pending (pipeline.hidden raw))
        | .needsPayload => pipeline.keepsDecoded (pipeline.hidden raw) := by
  have screened : pipeline.stages.screenRecord raw =
      match pipeline.stages.filter with
      | none => (pipeline.hidden raw, some .deferred)
      | some filter =>
        if (pipeline.stages.obfuscator.map TopicObfuscator.hidesPayload).getD false then
          (pipeline.hidden raw, some .needsPayload)
        else match filter.onRaw (pipeline.stages.field (pipeline.hidden raw).key none)
            (pipeline.stages.field (pipeline.hidden raw).value pipeline.stages.fallbackSchemaId) with
          | .fail => (pipeline.hidden raw, none)
          | .pass => (pipeline.hidden raw, some .deferred)
          | .needsPayload => (pipeline.hidden raw, some .needsPayload) := rfl
  unfold keeps
  rw [screened]
  cases pipeline.stages.filter with
  | none => rfl
  | some filter =>
    dsimp only
    cases (pipeline.stages.obfuscator.map TopicObfuscator.hidesPayload).getD false with
    | true => rfl
    | false =>
      cases filter.onRaw (pipeline.stages.field (pipeline.hidden raw).key none)
        (pipeline.stages.field (pipeline.hidden raw).value pipeline.stages.fallbackSchemaId) <;> rfl

/-- Wherever a record leaves the pipeline, it is kept when what it shows matches. -/
theorem passes_eq_showsMatch (screens : pipeline.Screens) (raw : RawRecord) :
    pipeline.passes raw = pipeline.showsMatch raw := by
  have decoded := keepsDecoded_isSome pipeline (pipeline.hidden raw)
  rw [showsMatch_hidden] at decoded
  unfold passes
  rw [keeps_eq]
  cases filtered : pipeline.stages.filter with
  | none => simp [showsMatch, filtered]
  | some filter =>
    dsimp only
    split
    · exact decoded
    · rename_i shown
      have same : (filter.onPayload (pipeline.keyOf (pipeline.hidden raw))
          (pipeline.valueOf (pipeline.hidden raw))).1 = pipeline.showsMatch raw := by
        rw [CompiledFilter.onPayload_fst, ← showsMatch_hidden]
        simp only [showsMatch, filtered]
        rw [obfuscate_of_not_hides (by simpa using shown)]
      have settles : Verdict.Allows _ (filter.onPayload (pipeline.keyOf (pipeline.hidden raw))
          (pipeline.valueOf (pipeline.hidden raw))).1 :=
        filter.settles_of_readsAlike screens.leaves screens.decodes
          (fun bytes _ => CompiledFilter.readsAlike_of_clean (screens.clean filter filtered) bytes)
          fun bytes _ => CompiledFilter.readsAlike_of_clean (screens.clean filter filtered) bytes
      rw [same] at settles
      split
      · rename_i verdict
        rw [verdict] at settles
        exact Eq.symm settles
      · rename_i verdict
        rw [verdict] at settles
        exact Eq.symm settles
      · exact decoded

variable (pipeline) in
theorem foldl_admitRecords (polls : List (List (Ranked RawRecord))) {batch : RecordBatch Kept}
    {offered : List (Ranked Kept)} (collects : batch.Collects offered)
    (distinct : (places polls.flatten ++ places offered).Nodup) :
    let final := polls.foldl (fun batch poll => (pipeline.admitRecords batch poll).1) batch
    final.Collects (polls.flatten.filterMap pipeline.offers ++ offered) ∧
      final.shape = batch.shape := by
  induction polls generalizing batch offered with
  | nil => exact ⟨collects, rfl⟩
  | cons poll polls ih =>
    rw [List.flatten_cons, places_append, List.append_assoc] at distinct
    have now : (places poll ++ places offered).Nodup :=
      distinct.sublist ((List.sublist_append_right _ _).append_left _)
    have step := pipeline.admitRecords_collects poll collects now
    have later : (places polls.flatten ++
        places (poll.filterMap pipeline.offers ++ offered)).Nodup := by
      have moved : (places polls.flatten ++ (places poll ++ places offered)).Nodup :=
        (List.perm_append_comm_assoc ..).nodup_iff.mp distinct
      rw [places_append]
      exact moved.sublist (((places_offers pipeline poll).append_right _).append_left _)
    obtain ⟨whole, shape⟩ := ih step later
    refine ⟨whole.perm ?_, shape.trans (pipeline.shape_admitRecords ..)⟩
    rw [List.flatten_cons, List.filterMap_append, List.append_assoc]
    exact List.perm_append_comm_assoc ..

theorem collect_best (limit : Nat) (order : RecordOrder) (direction : CursorDirection)
    {polls : List (List (Ranked RawRecord))} (distinct : (places polls.flatten).Nodup) :
    Best (Ranked.Precedes order direction) limit (polls.flatten.filterMap pipeline.offers)
      (pipeline.collect limit order direction polls).ranked := by
  obtain ⟨collects, shape⟩ := pipeline.foldl_admitRecords polls
    (RecordBatch.collects_new limit order direction) (by simpa [places] using distinct)
  have best := collects.best
  rw [List.append_nil] at best
  obtain ⟨limitEq, orderEq, directionEq⟩ := by
    simpa only [RecordBatch.shape, Prod.mk.injEq] using shape
  rw [limitEq, orderEq, directionEq] at best
  exact best

theorem offers_raw (records : List (Ranked RawRecord)) :
    (records.filterMap pipeline.offers).map (fun entry => (entry.1, entry.2.raw)) =
      (pipeline.matching records).map fun record => (record.1, pipeline.hidden record.2) := by
  induction records with
  | nil => rfl
  | cons record records ih =>
    unfold matching at ih ⊢
    cases kept : pipeline.keeps record.2 with
    | none =>
      rw [List.filterMap_cons_none (by simp [offers, kept]),
        List.filter_cons_of_neg (by simp [passes, kept])]
      exact ih
    | some value =>
      rw [List.filterMap_cons_some (b := (record.1, value)) (by simp [offers, kept]),
        List.filter_cons_of_pos (by simp [passes, kept]), List.map_cons, List.map_cons, ih,
        pipeline.keeps_raw kept]

end RecordPipeline

section Refinement
variable [Crates]

/-- However the records were split into polls, and in whatever order they came,
screening ends with what filtering all of them by what they show, sorting them
by rank and taking the first `limit` ends with. -/
theorem RecordPipeline.screening_refines_naive (codec : Option PayloadCodec)
    (filter : Option CompiledFilter) (obfuscator : Option TopicObfuscator)
    (fallbackSchemaId : Option Int) (limit : Nat) (order : RecordOrder)
    (direction : CursorDirection) (polls : List (List (Ranked RawRecord)))
    (leaves : ∀ held ∈ codec, held.LeavesUnframed) (clean : ∀ held ∈ filter, held.Clean)
    (distinct : (places polls.flatten).Nodup) :
    let pipeline := RecordPipeline.new codec filter obfuscator fallbackSchemaId
    heldRecords (pipeline.collect limit order direction polls) =
        (pipeline.naive limit order direction polls.flatten).map
          (fun record => (record.1, pipeline.hidden record.2)) ∧
      ∀ others : List (List (Ranked RawRecord)), others.flatten.Perm polls.flatten →
        (pipeline.collect limit order direction others).ranked =
          (pipeline.collect limit order direction polls).ranked := by
  intro pipeline
  have screens : pipeline.Screens := ⟨rfl, leaves, clean⟩
  have best := pipeline.collect_best limit order direction distinct
  constructor
  · have held : Best (Ranked.Precedes order direction) limit _
        (heldRecords (pipeline.collect limit order direction polls)) :=
      best.map (fun entry => (entry.1, entry.2.raw)) (fun before => before)
    have same : pipeline.matching polls.flatten =
        polls.flatten.filter fun record => pipeline.showsMatch record.2 :=
      List.filter_congr fun record _ => passes_eq_showsMatch screens record.2
    rw [pipeline.offers_raw, same] at held
    have apart : (places (polls.flatten.filter fun record =>
        pipeline.showsMatch record.2)).Nodup :=
      distinct.sublist (List.filter_sublist.map _)
    have first : Best (Ranked.Precedes order direction) limit
        (polls.flatten.filter fun record => pipeline.showsMatch record.2)
        (pipeline.naive limit order direction polls.flatten) :=
      Best.of_sorted (Ranked.sorted_perm _) (Ranked.sorted_pairwise apart)
    exact held.unique (first.map _ fun before => before)
  · intro others same
    have moved : (places others.flatten).Nodup := (same.map _).nodup_iff.mpr distinct
    exact (pipeline.collect_best limit order direction moved).unique
      (best.perm (same.symm.filterMap _))

end Refinement

namespace Sample

/-- Decodes what is framed, and nothing else, to one text. -/
def framedCodec : PayloadCodec := fun bytes fallbackSchemaId =>
  if @needsDecode Crates.plain bytes fallbackSchemaId then some (.string "Paid") else none

def rankedRecord (partition offset timestamp : Int) (value : Bytes) : Ranked RawRecord :=
  let raw : RawRecord := { partition, offset, timestamp, key := none, value := some value, headers := [] }
  (raw.sortKey, raw)

/-- A record that matches raw, one that does not, and two that match decoded. -/
def mixedPolls : List (List (Ranked RawRecord)) :=
  [[rankedRecord 0 0 3 (asBytes "unpaid"), rankedRecord 1 0 9 (asBytes "open")],
    [rankedRecord 1 1 5 [0, 0, 0, 0, 7], rankedRecord 0 1 4 [0, 0, 0, 0, 8]]]

end Sample

/-- Both paths are taken, and the older of the records that matched raw and decoded goes. -/
theorem screening_refines_naive_mixed :
    let pipeline := RecordPipeline.new (some Sample.framedCodec) (some ⟨"PAID"⟩) none none
    (@RecordPipeline.heldRecords
        (@RecordPipeline.collect Crates.plain pipeline 2 .newest .forward Sample.mixedPolls) =
      (@RecordPipeline.naive Crates.plain pipeline 2 .newest .forward Sample.mixedPolls.flatten).map
        (fun record => (record.1, pipeline.hidden record.2))) ∧
    (RecordPipeline.heldRecords
      (@RecordPipeline.collect Crates.plain pipeline 2 .newest .forward Sample.mixedPolls)).map
        (fun record => (record.1.partition, record.1.offset)) = [(1, 1), (0, 1)] := by
  refine ⟨(@RecordPipeline.screening_refines_naive Crates.plain (some Sample.framedCodec)
    (some ⟨"PAID"⟩) none none 2 .newest .forward Sample.mixedPolls ?_ ?_ (by decide)).1, ?_⟩
  · intro held same bytes fallbackSchemaId plain
    obtain rfl := Option.some.inj same
    simp [Sample.framedCodec, plain]
  · intro held same
    obtain rfl := Option.some.inj same
    unfold CompiledFilter.Clean
    decide
  · decide
end Klens.Scan
