import Klens.Scan.BatchProofs
import Klens.Scan.Pipeline

/-! What the pipeline does to one record at a time. The slots a poll or a page
is decoded through never mix the payloads of two records, and a batch fed by
`admitRecords` keeps the best of the records that pass, whatever point they left at. -/
namespace Klens.Scan
open Klens.Lib

section Slots
variable [Crates]

/-- A payload once its slot went through the codec. -/
def PayloadSlot.decodedBy (codec : Option PayloadCodec) (slot : PayloadSlot) : DecodedPayload :=
  match codec.bind fun codec => codec slot.raw slot.fallbackSchemaId with
  | some json => ({ slot with json := some json } : PayloadSlot).take
  | none => slot.take

theorem decodeSlots_eq (codec : Option PayloadCodec) (slots : List PayloadSlot) :
    decodeSlots codec slots = slots.map fun slot => some (slot.decodedBy codec) := by
  cases codec with
  | none => rfl
  | some codec =>
    simp only [decodeSlots, PayloadCodec.decode, List.map_map]
    refine List.map_congr_left fun slot _ => ?_
    simp only [Function.comp_apply, PayloadSlot.decodedBy, Option.bind_some]
    cases codec slot.raw slot.fallbackSchemaId <;> rfl

/-- A record's key or value as the codec leaves it. -/
def payloadOf (codec : Option PayloadCodec) (bytes : Option Bytes) (fallbackSchemaId : Option Int) :
    Option DecodedPayload :=
  bytes.map fun bytes => (PayloadSlot.new bytes fallbackSchemaId).decodedBy codec

/-- From index `count` on, nothing of `slots` has been taken yet. -/
private def Untaken (codec : Option PayloadCodec) (slots : List PayloadSlot) (count : Nat)
    (decoded : List (Option DecodedPayload)) : Prop :=
  ∀ index, count ≤ index → decoded[index]? = (decodeSlots codec slots)[index]?

/-- Taking a payload back finds what its own slot was decoded to. -/
private theorem takeAt_pushSlot {codec : Option PayloadCodec} {front more : List PayloadSlot}
    {bytes : Option Bytes} {fallback : Option Int} {decoded : List (Option DecodedPayload)}
    (untaken : Untaken codec ((pushSlot front bytes fallback).1 ++ more) front.length decoded) :
    (takeAt decoded (pushSlot front bytes fallback).2).1 = payloadOf codec bytes fallback ∧
      Untaken codec ((pushSlot front bytes fallback).1 ++ more)
        (pushSlot front bytes fallback).1.length
        (takeAt decoded (pushSlot front bytes fallback).2).2 := by
  cases bytes with
  | none => exact ⟨rfl, untaken⟩
  | some bytes =>
    constructor
    · have found := untaken front.length (le_refl _)
      simp only [pushSlot, decodeSlots_eq] at found
      simp [takeAt, pushSlot, found, payloadOf]
    · intro index later
      simp only [pushSlot, List.length_append, List.length_singleton] at later
      simp only [takeAt, pushSlot]
      rw [List.getElem?_set_ne (by omega)]
      exact untaken index (by omega)

omit [Crates] in
private theorem pushSlot_grows (front : List PayloadSlot) (bytes : Option Bytes)
    (fallback : Option Int) : ∃ more, (pushSlot front bytes fallback).1 = front ++ more := by
  cases bytes with
  | none => exact ⟨[], by simp [pushSlot]⟩
  | some bytes => exact ⟨[PayloadSlot.new bytes fallback], rfl⟩

end Slots

/-- Where ranked values stand in the log. -/
def places {T : Type} (ranked : List (Ranked T)) : List (Int × Int) :=
  ranked.map fun entry => (entry.1.partition, entry.1.offset)

@[simp] theorem places_append {T : Type} (front back : List (Ranked T)) :
    places (front ++ back) = places front ++ places back := List.map_append

theorem fresh_of_distinct {T U : Type} {entry : Ranked U} {before : List (Ranked U)}
    {offered : List (Ranked T)}
    (distinct : (places (entry :: before) ++ places offered).Nodup) :
    RecordBatch.Fresh entry.1 offered := by
  intro held member same
  refine (List.nodup_cons.mp distinct).1 (List.mem_append_right _ ?_)
  exact List.mem_map.mpr ⟨held, member, Prod.ext same.1.symm same.2.symm⟩

namespace RecordPipeline
variable [Crates] (pipeline : RecordPipeline)

/-- A record's key as the codec leaves it. No fallback schema applies to keys. -/
def keyOf (raw : RawRecord) : Option DecodedPayload := payloadOf pipeline.codec raw.key none

def valueOf (raw : RawRecord) : Option DecodedPayload :=
  payloadOf pipeline.codec raw.value pipeline.stages.fallbackSchemaId

/-- `decodeAndFilter` of a single record. -/
def keepsDecoded (raw : RawRecord) : Option Kept :=
  pipeline.stages.filterPayloads raw (pipeline.keyOf raw) (pipeline.valueOf raw)

omit [Crates] in
private theorem pushCandidates_grows (front : List PayloadSlot)
    (records : List (SortKey × RawRecord)) :
    ∃ more, (pipeline.pushCandidates front records).1 = front ++ more := by
  induction records generalizing front with
  | nil => exact ⟨[], by simp [pushCandidates]⟩
  | cons record records ih =>
    obtain ⟨afterKey, keyEq⟩ := pushSlot_grows front record.2.key none
    obtain ⟨afterValue, valueEq⟩ := pushSlot_grows (pushSlot front record.2.key none).1
      record.2.value pipeline.stages.fallbackSchemaId
    obtain ⟨more, restEq⟩ := ih (pushSlot (pushSlot front record.2.key none).1
      record.2.value pipeline.stages.fallbackSchemaId).1
    refine ⟨afterKey ++ (afterValue ++ more), ?_⟩
    simp only [pushCandidates, restEq]
    rw [valueEq, keyEq]
    simp only [List.append_assoc]

omit [Crates] in
private theorem pushStages_grows (front : List PayloadSlot) (page : List Kept) :
    ∃ more, (pipeline.pushStages front page).1 = front ++ more := by
  induction page generalizing front with
  | nil => exact ⟨[], by simp [pushStages]⟩
  | cons kept page ih =>
    cases kept with
    | decoded record => simpa only [pushStages] using ih front
    | pending raw =>
      obtain ⟨afterKey, keyEq⟩ := pushSlot_grows front raw.key none
      obtain ⟨afterValue, valueEq⟩ := pushSlot_grows (pushSlot front raw.key none).1
        raw.value pipeline.stages.fallbackSchemaId
      obtain ⟨more, restEq⟩ := ih (pushSlot (pushSlot front raw.key none).1
        raw.value pipeline.stages.fallbackSchemaId).1
      refine ⟨afterKey ++ (afterValue ++ more), ?_⟩
      simp only [pushStages, restEq]
      rw [valueEq, keyEq]
      simp only [List.append_assoc]

/-- Both payloads of a record, taken back from the slots they were pushed to. -/
private theorem takeAt_record {front more : List PayloadSlot} {raw : RawRecord}
    {decoded : List (Option DecodedPayload)} {slots : List PayloadSlot}
    (grown : slots = (pushSlot (pushSlot front raw.key none).1 raw.value
      pipeline.stages.fallbackSchemaId).1 ++ more)
    (untaken : Untaken pipeline.codec slots front.length decoded) :
    let first := takeAt decoded (pushSlot front raw.key none).2
    let second := takeAt first.2 (pushSlot (pushSlot front raw.key none).1 raw.value
      pipeline.stages.fallbackSchemaId).2
    first.1 = pipeline.keyOf raw ∧ second.1 = pipeline.valueOf raw ∧
      Untaken pipeline.codec slots (pushSlot (pushSlot front raw.key none).1 raw.value
        pipeline.stages.fallbackSchemaId).1.length second.2 := by
  obtain ⟨afterValue, valueEq⟩ := pushSlot_grows (pushSlot front raw.key none).1
    raw.value pipeline.stages.fallbackSchemaId
  have keyGrown : slots = (pushSlot front raw.key none).1 ++ (afterValue ++ more) := by
    rw [grown, valueEq, List.append_assoc]
  obtain ⟨keyTaken, untaken⟩ := takeAt_pushSlot (keyGrown ▸ untaken)
  rw [← keyGrown, grown] at untaken
  obtain ⟨valueTaken, untaken⟩ := takeAt_pushSlot untaken
  exact ⟨keyTaken, valueTaken, grown ▸ untaken⟩

private theorem filterDecoded_push (front : List PayloadSlot) (records : List (SortKey × RawRecord))
    (decoded : List (Option DecodedPayload))
    (untaken : Untaken pipeline.codec (pipeline.pushCandidates front records).1 front.length
      decoded) :
    pipeline.stages.filterDecoded (pipeline.pushCandidates front records).2 decoded =
      records.filterMap fun record => (pipeline.keepsDecoded record.2).map (record.1, ·) := by
  induction records generalizing front decoded with
  | nil => rfl
  | cons record records ih =>
    obtain ⟨sort, raw⟩ := record
    obtain ⟨more, grown⟩ := pushCandidates_grows pipeline (pushSlot (pushSlot front raw.key none).1
      raw.value pipeline.stages.fallbackSchemaId).1 records
    obtain ⟨keyTaken, valueTaken, rest⟩ := takeAt_record pipeline grown untaken
    simp only [pushCandidates, Stages.filterDecoded, keyTaken, valueTaken, List.filterMap_cons]
    rw [ih _ _ rest]
    unfold keepsDecoded
    cases pipeline.stages.filterPayloads raw (pipeline.keyOf raw) (pipeline.valueOf raw) <;> rfl

theorem decodeAndFilter_eq (records : List (SortKey × RawRecord)) :
    pipeline.decodeAndFilter records =
      records.filterMap fun record => (pipeline.keepsDecoded record.2).map (record.1, ·) :=
  filterDecoded_push pipeline [] records _ fun _ _ => rfl

/-- One kept record on its way into a page. -/
def finished (kept : Kept) : DecodedRecord :=
  match kept with
  | .decoded record => record
  | .pending raw =>
    let (key, value) := pipeline.stages.obfuscate (pipeline.keyOf raw) (pipeline.valueOf raw)
    pipeline.stages.decoded raw key value

private theorem finishStages_push (front : List PayloadSlot) (page : List Kept)
    (decoded : List (Option DecodedPayload))
    (untaken : Untaken pipeline.codec (pipeline.pushStages front page).1 front.length decoded) :
    pipeline.finishStages (pipeline.pushStages front page).2 decoded =
      page.map pipeline.finished := by
  induction page generalizing front decoded with
  | nil => rfl
  | cons kept page ih =>
    cases kept with
    | decoded record =>
      simp only [pushStages, finishStages, List.map_cons] at untaken ⊢
      rw [ih _ _ untaken]
      rfl
    | pending raw =>
      obtain ⟨more, grown⟩ := pushStages_grows pipeline (pushSlot (pushSlot front raw.key none).1
        raw.value pipeline.stages.fallbackSchemaId).1 page
      obtain ⟨keyTaken, valueTaken, rest⟩ := takeAt_record pipeline grown untaken
      simp only [pushStages, finishStages, keyTaken, valueTaken, List.map_cons]
      rw [ih _ _ rest]
      rfl

theorem render_eq (page : List Kept) (topic : String) :
    pipeline.render page topic = page.map fun kept => (pipeline.finished kept).intoRecord topic := by
  change (pipeline.finishStages (pipeline.pushStages [] page).2
    (decodeSlots pipeline.codec (pipeline.pushStages [] page).1)).map _ = _
  rw [finishStages_push pipeline [] page _ fun _ _ => rfl, List.map_map]
  rfl

@[simp] theorem finished_raw (kept : Kept) : (pipeline.finished kept).raw = kept.raw := by
  cases kept <;> rfl

/-- What becomes of one record that the batch does not turn away. -/
def keeps (raw : RawRecord) : Option Kept :=
  match pipeline.stages.screenRecord raw with
  | (_, none) => none
  | (raw, some .deferred) => some (.pending raw)
  | (raw, some .needsPayload) => pipeline.keepsDecoded raw

/-- The record with its headers hidden. -/
def hidden (raw : RawRecord) : RawRecord :=
  match pipeline.stages.obfuscator with
  | some rule => { raw with headers := rule.obfuscateHeaders raw.headers }
  | none => raw

theorem screenRecord_fst (raw : RawRecord) :
    (pipeline.stages.screenRecord raw).1 = pipeline.hidden raw := by
  unfold Stages.screenRecord hidden
  cases pipeline.stages.filter with
  | none => rfl
  | some filter =>
    dsimp only
    split
    · rfl
    · split <;> rfl

theorem filterPayloads_raw {stages : Stages} {raw : RawRecord} {key value : Option DecodedPayload}
    {kept : Kept} (passed : stages.filterPayloads raw key value = some kept) : kept.raw = raw := by
  obtain ⟨_, same⟩ := Option.ite_none_right_eq_some.mp passed
  obtain rfl := Option.some.inj same
  rfl

/-- The verdict on the raw bytes says which way a record goes. -/
theorem keeps_of_screen (raw : RawRecord) : pipeline.keeps raw =
    match (pipeline.stages.screenRecord raw).2 with
    | none => none
    | some .deferred => some (.pending (pipeline.hidden raw))
    | some .needsPayload => pipeline.keepsDecoded (pipeline.hidden raw) := by
  unfold keeps
  rw [← screenRecord_fst]
  obtain ⟨_, verdict⟩ := pipeline.stages.screenRecord raw
  cases verdict with
  | none => rfl
  | some screen => cases screen <;> rfl

/-- Without a filter every record is kept, to be decoded once it is shown. -/
theorem keeps_unfiltered (unfiltered : pipeline.stages.filter = none) (raw : RawRecord) :
    pipeline.keeps raw = some (.pending (pipeline.hidden raw)) := by
  have verdict : (pipeline.stages.screenRecord raw).2 = some .deferred := by
    simp [Stages.screenRecord, unfiltered]
  simp only [keeps_of_screen, verdict]

theorem keeps_raw {raw : RawRecord} {kept : Kept} (keeps : pipeline.keeps raw = some kept) :
    kept.raw = pipeline.hidden raw := by
  rw [keeps_of_screen] at keeps
  split at keeps
  · contradiction
  · obtain rfl := Option.some.inj keeps
    rfl
  · exact filterPayloads_raw keeps

/-- The record passes the filter of the query. -/
def passes (raw : RawRecord) : Bool := (pipeline.keeps raw).isSome

/-- What a ranked record offers to a batch. -/
def offers (record : Ranked RawRecord) : Option (Ranked Kept) :=
  (pipeline.keeps record.2).map (record.1, ·)

/-- What a record offers once it is decoded. -/
def offersDecoded (record : Ranked RawRecord) : Option (Ranked Kept) :=
  (pipeline.keepsDecoded record.2).map (record.1, ·)

theorem place_of_offers {record : Ranked RawRecord} {offer : Ranked Kept}
    (offered : pipeline.offers record = some offer) : offer.1 = record.1 := by
  obtain ⟨kept, _, rfl⟩ := Option.map_eq_some_iff.mp offered
  rfl

theorem places_offers (records : List (Ranked RawRecord)) :
    (places (records.filterMap pipeline.offers)).Sublist (places records) := by
  induction records with
  | nil => exact .slnil
  | cons record records ih =>
    cases offered : pipeline.offers record with
    | none =>
      rw [List.filterMap_cons_none offered]
      exact ih.cons _
    | some offer =>
      rw [List.filterMap_cons_some offered, places, List.map_cons, place_of_offers pipeline offered]
      exact ih.cons_cons _

/-- The records that pass the filter. -/
def matching (ranked : List (Ranked RawRecord)) : List (Ranked RawRecord) :=
  ranked.filter fun entry => pipeline.passes entry.2

/-- Offers carry the keys of the records that pass. -/
theorem keys_offers (ranked : List (Ranked RawRecord)) :
    (ranked.filterMap pipeline.offers).map Prod.fst = (pipeline.matching ranked).map Prod.fst := by
  induction ranked with
  | nil => rfl
  | cons entry ranked ih =>
    unfold matching at ih ⊢
    cases kept : pipeline.keeps entry.2 with
    | none =>
      rw [List.filterMap_cons_none (by simp [offers, kept]),
        List.filter_cons_of_neg (by simp [passes, kept])]
      exact ih
    | some value =>
      rw [List.filterMap_cons_some (b := (entry.1, value)) (by simp [offers, kept]),
        List.filter_cons_of_pos (by simp [passes, kept]), List.map_cons, List.map_cons, ih]

/-- Screening one record: the batch turns it away unseen, or its raw bytes say
which way it goes. -/
theorem screenStep_eq (batch : RecordBatch Kept) (candidates : List (Ranked RawRecord))
    (rejected : Nat) (key : SortKey) (raw : RawRecord) :
    pipeline.stages.screenStep (batch, candidates, rejected) (key, raw) =
      if batch.admits key then
        match (pipeline.stages.screenRecord raw).2 with
        | none => (batch, candidates, rejected)
        | some .deferred => (batch.push key (.pending (pipeline.hidden raw)), candidates, rejected)
        | some .needsPayload => (batch, candidates ++ [(key, pipeline.hidden raw)], rejected)
      else (batch, candidates, rejected + 1) := by
  unfold Stages.screenStep
  rw [← screenRecord_fst]
  dsimp only
  obtain ⟨_, verdict⟩ := pipeline.stages.screenRecord raw
  cases batch.admits key with
  | false => rfl
  | true =>
    cases verdict with
    | none => rfl
    | some screen => cases screen <;> rfl

/-- What screening one record does, with what becomes of the record. -/
inductive ScreenedTo (batch : RecordBatch Kept) (candidates : List (Ranked RawRecord))
    (rejected : Nat) (key : SortKey) (raw : RawRecord) :
    RecordBatch Kept × List (Ranked RawRecord) × Nat → Prop
  | turnedAway (refused : batch.admits key = false) :
      ScreenedTo batch candidates rejected key raw (batch, candidates, rejected + 1)
  | dropped (admitted : batch.admits key = true)
      (verdict : (pipeline.stages.screenRecord raw).2 = none) (keeps : pipeline.keeps raw = none) :
      ScreenedTo batch candidates rejected key raw (batch, candidates, rejected)
  | pushed (admitted : batch.admits key = true)
      (verdict : (pipeline.stages.screenRecord raw).2 = some .deferred)
      (keeps : pipeline.keeps raw = some (.pending (pipeline.hidden raw))) :
      ScreenedTo batch candidates rejected key raw
        (batch.push key (.pending (pipeline.hidden raw)), candidates, rejected)
  | left (admitted : batch.admits key = true)
      (verdict : (pipeline.stages.screenRecord raw).2 = some .needsPayload)
      (keeps : pipeline.keeps raw = pipeline.keepsDecoded (pipeline.hidden raw)) :
      ScreenedTo batch candidates rejected key raw
        (batch, candidates ++ [(key, pipeline.hidden raw)], rejected)

theorem screenStep_screenedTo (batch : RecordBatch Kept) (candidates : List (Ranked RawRecord))
    (rejected : Nat) (key : SortKey) (raw : RawRecord) :
    pipeline.ScreenedTo batch candidates rejected key raw
      (pipeline.stages.screenStep (batch, candidates, rejected) (key, raw)) := by
  have keeps := pipeline.keeps_of_screen raw
  rw [screenStep_eq]
  cases admitted : batch.admits key with
  | false => exact .turnedAway admitted
  | true =>
    rw [if_pos rfl]
    cases verdict : (pipeline.stages.screenRecord raw).2 with
    | none =>
      rw [verdict] at keeps
      exact .dropped admitted verdict keeps
    | some screen =>
      rw [verdict] at keeps
      cases screen with
      | deferred => exact .pushed admitted verdict keeps
      | needsPayload => exact .left admitted verdict keeps

/-- Screening keeps the best of what passed on raw bytes or was turned away,
and hands on what is left to decode. -/
private theorem screen_collects (records : List (Ranked RawRecord)) (batch : RecordBatch Kept)
    (candidates : List (Ranked RawRecord)) (rejected : Nat) (offered : List (Ranked Kept))
    (collects : batch.Collects offered) (distinct : (places records ++ places offered).Nodup) :
    ∃ pushed, (records.foldl pipeline.stages.screenStep (batch, candidates, rejected)).1.Collects
        pushed ∧
      (pushed ++ (records.foldl pipeline.stages.screenStep
        (batch, candidates, rejected)).2.1.filterMap pipeline.offersDecoded).Perm
        (records.filterMap pipeline.offers ++
          (offered ++ candidates.filterMap pipeline.offersDecoded)) := by
  induction records generalizing batch candidates rejected offered with
  | nil => exact ⟨offered, collects, .refl _⟩
  | cons record records ih =>
    obtain ⟨key, raw⟩ := record
    have fresh : RecordBatch.Fresh key offered := fresh_of_distinct distinct
    have later : (places records ++ places offered).Nodup := (List.nodup_cons.mp distinct).2
    have moved (kept : Kept) : (places records ++ places ((key, kept) :: offered)).Nodup :=
      (List.perm_middle.nodup_iff).mpr distinct
    have screens := pipeline.screenStep_screenedTo batch candidates rejected key raw
    rw [List.foldl_cons]
    generalize pipeline.stages.screenStep (batch, candidates, rejected) (key, raw) = state at screens
    cases screens with
    | turnedAway refused =>
      cases kept : pipeline.keeps raw with
      | none =>
        rw [List.filterMap_cons_none (by simp [offers, kept])]
        exact ih batch candidates (rejected + 1) offered collects later
      | some value =>
        rw [List.filterMap_cons_some (b := (key, value)) (by simp [offers, kept])]
        obtain ⟨pushed, best, parts⟩ := ih batch candidates (rejected + 1) ((key, value) :: offered)
          (collects.turned_away fresh refused) (moved value)
        exact ⟨pushed, best, parts.trans List.perm_middle⟩
    | dropped _ _ keeps =>
      rw [List.filterMap_cons_none (by simp [offers, keeps])]
      exact ih batch candidates rejected offered collects later
    | pushed _ _ keeps =>
      rw [List.filterMap_cons_some (b := (key, Kept.pending (pipeline.hidden raw)))
        (by simp [offers, keeps])]
      obtain ⟨pushed, best, parts⟩ := ih (batch.push key (.pending (pipeline.hidden raw))) candidates
        rejected ((key, .pending (pipeline.hidden raw)) :: offered) (collects.push fresh) (moved _)
      exact ⟨pushed, best, parts.trans List.perm_middle⟩
    | left _ _ keeps =>
      have same : pipeline.offers (key, raw) = pipeline.offersDecoded (key, pipeline.hidden raw) := by
        simp [offers, offersDecoded, keeps]
      obtain ⟨pushed, best, parts⟩ := ih batch (candidates ++ [(key, pipeline.hidden raw)]) rejected
        offered collects later
      refine ⟨pushed, best, parts.trans ?_⟩
      rw [List.filterMap_append]
      cases decoded : pipeline.offersDecoded (key, pipeline.hidden raw) with
      | none =>
        rw [List.filterMap_cons_none decoded, List.filterMap_cons_none (same.trans decoded)]
        simp
      | some offer =>
        rw [List.filterMap_cons_some decoded, List.filterMap_cons_some (same.trans decoded)]
        simpa using List.perm_append_singleton offer (records.filterMap pipeline.offers ++
          (offered ++ candidates.filterMap pipeline.offersDecoded))

omit [Crates] in
private theorem foldl_push_collects (offers : List (Ranked Kept)) (batch : RecordBatch Kept)
    (offered : List (Ranked Kept)) (collects : batch.Collects offered)
    (distinct : (places offers ++ places offered).Nodup) :
    (offers.foldl (fun batch (sort, kept) => batch.push sort kept) batch).Collects
      (offers ++ offered) := by
  induction offers generalizing batch offered with
  | nil => exact collects
  | cons offer offers ih =>
    obtain ⟨key, kept⟩ := offer
    have moved : (places offers ++ places ((key, kept) :: offered)).Nodup :=
      (List.perm_middle.nodup_iff).mpr distinct
    have pushed := ih (batch.push key kept) ((key, kept) :: offered)
      (collects.push (fresh_of_distinct distinct)) moved
    exact pushed.perm List.perm_middle

/-- A poll adds what its records offer, whether they reached the batch on raw
bytes, after a decode, or not at all. -/
theorem admitRecords_collects {batch : RecordBatch Kept} {offered : List (Ranked Kept)}
    (records : List (Ranked RawRecord)) (collects : batch.Collects offered)
    (distinct : (places records ++ places offered).Nodup) :
    (pipeline.admitRecords batch records).1.Collects (records.filterMap pipeline.offers ++ offered) := by
  cases records with
  | nil => exact collects
  | cons record rest =>
    obtain ⟨pushed, best, parts⟩ :=
      screen_collects pipeline (record :: rest) batch [] 0 offered collects distinct
    simp only [List.filterMap_nil, List.append_nil] at parts
    have small : (places ((record :: rest).filterMap pipeline.offers ++ offered)).Nodup := by
      rw [places_append]
      exact distinct.sublist ((places_offers pipeline (record :: rest)).append_right _)
    have apart : (places (pushed ++ (pipeline.stages.screen batch
        (record :: rest)).2.1.filterMap pipeline.offersDecoded)).Nodup :=
      (parts.map _).nodup_iff.mpr small
    rw [places_append] at apart
    have whole := foldl_push_collects _ _ pushed best
      ((List.perm_append_comm.nodup_iff).mp apart)
    refine RecordBatch.Collects.perm ?_ (List.perm_append_comm.trans parts)
    change RecordBatch.Collects (List.foldl _ _ (pipeline.decodeAndFilter _)) _
    rw [decodeAndFilter_eq]
    exact whole

omit [Crates] in
private theorem foldl_push_shape (offers : List (Ranked Kept)) (batch : RecordBatch Kept) :
    (offers.foldl (fun batch (sort, kept) => batch.push sort kept) batch).shape = batch.shape := by
  induction offers generalizing batch with
  | nil => rfl
  | cons offer offers ih => rw [List.foldl_cons, ih, RecordBatch.shape_push]

theorem screen_shape (records : List (Ranked RawRecord))
    (state : RecordBatch Kept × List (Ranked RawRecord) × Nat) :
    (records.foldl pipeline.stages.screenStep state).1.shape = state.1.shape := by
  induction records generalizing state with
  | nil => rfl
  | cons record records ih =>
    rw [List.foldl_cons, ih]
    obtain ⟨batch, candidates, rejected⟩ := state
    have screens := pipeline.screenStep_screenedTo batch candidates rejected record.1 record.2
    generalize pipeline.stages.screenStep (batch, candidates, rejected) record = state at screens ⊢
    cases screens with
    | turnedAway => rfl
    | dropped => rfl
    | pushed => exact RecordBatch.shape_push ..
    | left => rfl

theorem shape_admitRecords (batch : RecordBatch Kept) (records : List (Ranked RawRecord)) :
    (pipeline.admitRecords batch records).1.shape = batch.shape := by
  unfold admitRecords
  split
  · rfl
  · exact (foldl_push_shape ..).trans (screen_shape ..)

/-- Every record the batch holds was kept of a record from `source`. -/
def DrawnFrom (batch : RecordBatch Kept) (source : RawRecord → Prop) : Prop :=
  ∀ entry ∈ batch.entries, ∃ raw, source raw ∧ pipeline.keeps raw = some entry.value

theorem DrawnFrom.push {batch : RecordBatch Kept} {source : RawRecord → Prop} {raw : RawRecord}
    {kept : Kept} (drawn : pipeline.DrawnFrom batch source) (from_ : source raw)
    (keeps : pipeline.keeps raw = some kept) (key : SortKey) :
    pipeline.DrawnFrom (batch.push key kept) source := by
  intro entry held
  rcases RecordBatch.of_mem_push held with before | rfl
  · exact drawn entry before
  · exact ⟨raw, from_, keeps⟩

private theorem screen_drawn {source : RawRecord → Prop} (records : List (Ranked RawRecord))
    (from_ : ∀ record ∈ records, source record.2) {batch : RecordBatch Kept}
    {candidates : List (Ranked RawRecord)} (rejected : Nat)
    (drawn : pipeline.DrawnFrom batch source)
    (left : ∀ candidate ∈ candidates, ∃ raw, source raw ∧
      pipeline.keeps raw = pipeline.keepsDecoded candidate.2) :
    pipeline.DrawnFrom (records.foldl pipeline.stages.screenStep
        (batch, candidates, rejected)).1 source ∧
      ∀ candidate ∈ (records.foldl pipeline.stages.screenStep
        (batch, candidates, rejected)).2.1, ∃ raw, source raw ∧
          pipeline.keeps raw = pipeline.keepsDecoded candidate.2 := by
  induction records generalizing batch candidates rejected with
  | nil => exact ⟨drawn, left⟩
  | cons record records ih =>
    obtain ⟨key, raw⟩ := record
    have here : source raw := from_ (key, raw) List.mem_cons_self
    have later := @ih fun record member => from_ record (.tail _ member)
    have screens := pipeline.screenStep_screenedTo batch candidates rejected key raw
    rw [List.foldl_cons]
    generalize pipeline.stages.screenStep (batch, candidates, rejected) (key, raw) = state at screens
    cases screens with
    | turnedAway => exact later (rejected + 1) drawn left
    | dropped => exact later rejected drawn left
    | pushed _ _ keeps => exact later rejected (drawn.push pipeline here keeps key) left
    | left _ _ keeps =>
      refine later rejected drawn fun candidate member => ?_
      rcases List.mem_append.mp member with before | added
      · exact left candidate before
      · obtain rfl := List.mem_singleton.mp added
        exact ⟨raw, here, keeps⟩

/-- A poll adds nothing that its records do not offer. -/
theorem DrawnFrom.admitRecords {batch : RecordBatch Kept} {source : RawRecord → Prop}
    {records : List (Ranked RawRecord)} (drawn : pipeline.DrawnFrom batch source)
    (from_ : ∀ record ∈ records, source record.2) :
    pipeline.DrawnFrom (pipeline.admitRecords batch records).1 source := by
  unfold RecordPipeline.admitRecords
  split
  · exact drawn
  · obtain ⟨held, left⟩ := @screen_drawn _ pipeline source records from_ batch [] 0 drawn (by simp)
    change pipeline.DrawnFrom (List.foldl _ (pipeline.stages.screen batch records).1
      (pipeline.decodeAndFilter _)) source
    rw [decodeAndFilter_eq]
    refine List.foldlRecOn (motive := fun batch => pipeline.DrawnFrom batch source) _ _ held
      fun batch drawn offer member => ?_
    obtain ⟨candidate, listed, offered⟩ := List.mem_filterMap.mp member
    obtain ⟨kept, keeps, rfl⟩ := Option.map_eq_some_iff.mp offered
    obtain ⟨raw, here, same⟩ := left candidate listed
    exact drawn.push pipeline here (same.trans keeps) candidate.1

end RecordPipeline
end Klens.Scan
