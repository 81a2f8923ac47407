import Klens.Scan.PipelineProofs
import Klens.Scan.ReadProofs
import Klens.Scan.Tail

/-! What a tail counts as skipped. A full batch turns records away before the
filter sees them, so the count also holds records the filter would have
dropped: those that come, in their poll, after as many better records as the
batch has room for. -/
namespace Klens.Scan
open Klens.Lib

namespace RecordPipeline
variable [Crates] (pipeline : RecordPipeline)

/-- The record passes on its raw bytes alone. -/
def defers (raw : RawRecord) : Bool :=
  decide ((pipeline.stages.screenRecord raw).2 = some .deferred)

/-- What a record offers before any record of its poll is decoded. -/
def offersRaw (record : Ranked RawRecord) : Option (Ranked Kept) :=
  if pipeline.defers record.2 then
    some (record.1, .pending (pipeline.stages.screenRecord record.2).1)
  else none

/-- The records of a poll that come after `limit` records that pass on their raw
bytes and precede them. `before` are the records of the poll so far. -/
def crowded (limit : Nat) (order : RecordOrder) (direction : CursorDirection) :
    List (Ranked RawRecord) → List (Ranked RawRecord) → List (Ranked RawRecord)
  | _, [] => []
  | before, record :: rest =>
    let ahead := before.countP fun other =>
      pipeline.defers other.2 && decide (other.1.Precedes order direction record.1)
    if limit ≤ ahead then record :: crowded limit order direction (before ++ [record]) rest
    else crowded limit order direction (before ++ [record]) rest

theorem countP_offersRaw (precedes : SortKey → Bool) (records : List (Ranked RawRecord)) :
    (records.filterMap pipeline.offersRaw).countP (fun offer => precedes offer.1) =
      records.countP fun record => pipeline.defers record.2 && precedes record.1 := by
  induction records with
  | nil => rfl
  | cons record records ih =>
    cases deferred : pipeline.defers record.2 with
    | true =>
      rw [List.filterMap_cons_some (b := (record.1, _)) (by simp [offersRaw, deferred]; rfl)]
      simp only [List.countP_cons, ih, deferred, Bool.true_and]
    | false =>
      rw [List.filterMap_cons_none (by simp [offersRaw, deferred])]
      simp only [List.countP_cons, ih, deferred, Bool.false_and, Bool.false_eq_true, ↓reduceIte,
        Nat.add_zero]

theorem places_offersRaw (records : List (Ranked RawRecord)) :
    (places (records.filterMap pipeline.offersRaw)).Sublist (places records) := by
  induction records with
  | nil => exact .slnil
  | cons record records ih =>
    cases offered : pipeline.offersRaw record with
    | none =>
      rw [List.filterMap_cons_none offered]
      exact ih.cons _
    | some offer =>
      have key : offer.1 = record.1 := by
        unfold offersRaw at offered
        split at offered
        · rw [← Option.some.inj offered]
        · contradiction
      rw [List.filterMap_cons_some offered, places, List.map_cons, key]
      exact ih.cons_cons _

theorem offersRaw_append_of_not_defers (records : List (Ranked RawRecord)) (key : SortKey)
    {raw : RawRecord} (plain : pipeline.defers raw = false) :
    (records ++ [(key, raw)]).filterMap pipeline.offersRaw =
      records.filterMap pipeline.offersRaw := by
  simp [List.filterMap_append, offersRaw, plain]

theorem offersRaw_append_of_defers (records : List (Ranked RawRecord)) (key : SortKey)
    {raw : RawRecord} (deferred : pipeline.defers raw = true) :
    ((records ++ [(key, raw)]).filterMap pipeline.offersRaw).Perm
      ((key, .pending (pipeline.hidden raw)) :: records.filterMap pipeline.offersRaw) := by
  simp [List.filterMap_append, offersRaw, deferred, pipeline.screenRecord_fst]

omit [Crates] in
/-- The first of the records to come may as well be the last of those before. -/
theorem distinct_moved {record : Ranked RawRecord} {records before : List (Ranked RawRecord)}
    (distinct : (places (record :: records) ++ places before).Nodup) :
    (places records ++ places (before ++ [record])).Nodup := by
  have moved : (places records ++ (places before ++ places [record])).Perm
      (places (record :: records) ++ places before) := by
    rw [← List.append_assoc]
    exact List.perm_append_singleton _ _
  have split : places (before ++ [record]) = places before ++ places [record] := List.map_append
  rw [split]
  exact moved.nodup_iff.mpr distinct

def passesDecoded (record : Ranked RawRecord) : Bool := (pipeline.keepsDecoded record.2).isSome

/-- Screening turns away the crowded records; what else passes is either pushed
or a candidate. -/
theorem screen_counts (records before : List (Ranked RawRecord)) (batch : RecordBatch Kept)
    (candidates : List (Ranked RawRecord)) (rejected : Nat)
    (collects : batch.Collects (before.filterMap pipeline.offersRaw))
    (distinct : (places records ++ places before).Nodup) :
    let result := records.foldl pipeline.stages.screenStep (batch, candidates, rejected)
    let crowded := pipeline.crowded batch.limit batch.order batch.direction before records
    result.2.2 = rejected + crowded.length ∧
      result.1.seen + result.2.1.countP pipeline.passesDecoded +
          crowded.countP (fun record => pipeline.passes record.2) =
        batch.seen + candidates.countP pipeline.passesDecoded +
          records.countP fun record => pipeline.passes record.2 := by
  induction records generalizing before batch candidates rejected with
  | nil => simp [crowded]
  | cons record records ih =>
    obtain ⟨key, raw⟩ := record
    have apart : (places ((key, raw) :: records) ++
        places (before.filterMap pipeline.offersRaw)).Nodup :=
      distinct.sublist ((pipeline.places_offersRaw before).append_left _)
    have fresh : RecordBatch.Fresh key (before.filterMap pipeline.offersRaw) :=
      fresh_of_distinct apart
    have later := distinct_moved distinct
    have admitted := collects.admits_iff (.pending raw) fresh
    rw [pipeline.countP_offersRaw fun other =>
      decide (other.Precedes batch.order batch.direction key)] at admitted
    have screens := pipeline.screenStep_screenedTo batch candidates rejected key raw
    rw [List.foldl_cons, crowded]
    generalize pipeline.stages.screenStep (batch, candidates, rejected) (key, raw) = state at screens
    dsimp only
    cases screens with
    | turnedAway refused =>
      rw [refused] at admitted
      have next : batch.Collects ((before ++ [(key, raw)]).filterMap pipeline.offersRaw) := by
        cases deferred : pipeline.defers raw with
        | false => exact (pipeline.offersRaw_append_of_not_defers before key deferred).symm ▸ collects
        | true =>
          exact (collects.turned_away fresh refused).perm
            (pipeline.offersRaw_append_of_defers before key deferred).symm
      obtain ⟨turned, counts⟩ := ih _ batch candidates (rejected + 1) next later
      rw [if_pos (by simpa using admitted)]
      simp only [List.length_cons, List.countP_cons]
      omega
    | dropped admits verdict keeps =>
      have drops : pipeline.passes raw = false := by simp [passes, keeps]
      have plain : pipeline.defers raw = false := by simp [defers, verdict]
      have same := pipeline.offersRaw_append_of_not_defers before key plain
      obtain ⟨turned, counts⟩ := ih _ batch candidates rejected (same.symm ▸ collects) later
      rw [if_neg (not_le.mpr (admitted.mp admits))]
      simp only [List.countP_cons, drops]
      exact ⟨turned, by simpa using counts⟩
    | pushed admits verdict keeps =>
      have passes : pipeline.passes raw = true := by simp [passes, keeps]
      have deferred : pipeline.defers raw = true := by simp [defers, verdict]
      have same := pipeline.offersRaw_append_of_defers before key deferred
      obtain ⟨turned, counts⟩ := ih _ (batch.push key (.pending (pipeline.hidden raw))) candidates
        rejected ((collects.push fresh).perm same.symm) later
      rw [RecordBatch.seen_push (RecordBatch.limit_of_admits admits)] at counts
      simp only [RecordBatch.push_limit, RecordBatch.push_order,
        RecordBatch.push_direction] at turned counts
      rw [if_neg (not_le.mpr (admitted.mp admits))]
      simp only [List.countP_cons, passes]
      exact ⟨turned, by simp only [↓reduceIte]; omega⟩
    | left admits verdict keeps =>
      have passes : pipeline.passes raw = pipeline.passesDecoded (key, pipeline.hidden raw) := by
        simp [passes, passesDecoded, keeps]
      have plain : pipeline.defers raw = false := by simp [defers, verdict]
      have same := pipeline.offersRaw_append_of_not_defers before key plain
      obtain ⟨turned, counts⟩ := ih _ batch (candidates ++ [(key, pipeline.hidden raw)]) rejected
        (same.symm ▸ collects) later
      rw [if_neg (not_le.mpr (admitted.mp admits))]
      simp only [List.countP_append, List.countP_nil, List.countP_cons, passes] at counts ⊢
      exact ⟨turned, by omega⟩

theorem screen_of_limit_zero {batch : RecordBatch Kept} (zero : batch.limit = 0)
    (records candidates : List (Ranked RawRecord)) (rejected : Nat) :
    (records.foldl pipeline.stages.screenStep (batch, candidates, rejected)).1 = batch ∧
      (records.foldl pipeline.stages.screenStep (batch, candidates, rejected)).2.1 = candidates := by
  induction records generalizing rejected with
  | nil => exact ⟨rfl, rfl⟩
  | cons record records ih =>
    have step : pipeline.stages.screenStep (batch, candidates, rejected) record =
        (batch, candidates, rejected + 1) := by
      simp [Stages.screenStep, RecordBatch.admits, zero]
    rw [List.foldl_cons, step]
    exact ih _

omit [Crates] in
theorem seen_foldl_push {batch : RecordBatch Kept} (positive : batch.limit ≠ 0)
    (offers : List (Ranked Kept)) :
    (offers.foldl (fun batch (sort, kept) => batch.push sort kept) batch).seen =
      batch.seen + offers.length := by
  induction offers generalizing batch with
  | nil => rfl
  | cons offer offers ih =>
    rw [List.foldl_cons, ih (by simpa using positive), RecordBatch.seen_push positive,
      List.length_cons]
    omega

theorem length_offersDecoded (candidates : List (Ranked RawRecord)) :
    (pipeline.decodeAndFilter candidates).length = candidates.countP pipeline.passesDecoded := by
  rw [decodeAndFilter_eq]
  induction candidates with
  | nil => rfl
  | cons candidate candidates ih =>
    cases kept : pipeline.keepsDecoded candidate.2 with
    | none =>
      rw [List.filterMap_cons_none (by simp [kept])]
      simp [passesDecoded, kept, ih]
    | some value =>
      rw [List.filterMap_cons_some (b := (candidate.1, value)) (by simp [kept])]
      simp [passesDecoded, kept, ih]

/-- One poll into a batch that was offered nothing yet: the crowded records are
turned away, and every other record that passes is seen by the batch. -/
theorem admitRecords_counts {batch : RecordBatch Kept} (collects : batch.Collects [])
    {records : List (Ranked RawRecord)} (distinct : (places records).Nodup) :
    let crowded := pipeline.crowded batch.limit batch.order batch.direction [] records
    (pipeline.admitRecords batch records).2 = crowded.length ∧
      (pipeline.admitRecords batch records).1.seen +
          crowded.countP (fun record => pipeline.passes record.2) =
        batch.seen + records.countP fun record => pipeline.passes record.2 := by
  obtain ⟨turned, counts⟩ := pipeline.screen_counts records [] batch [] 0 collects
    (by simpa [places] using distinct)
  cases records with
  | nil => simp [admitRecords, crowded]
  | cons record rest =>
    refine ⟨turned.trans (Nat.zero_add _), ?_⟩
    generalize result : (record :: rest).foldl pipeline.stages.screenStep (batch, [], 0) = screened
      at turned counts
    obtain ⟨offers, decoded⟩ : ∃ offers : List (Ranked Kept),
      offers = pipeline.decodeAndFilter screened.2.1 := ⟨_, rfl⟩
    have admitted : (pipeline.admitRecords batch (record :: rest)).1 =
        offers.foldl (fun batch (sort, kept) => batch.push sort kept) screened.1 := by
      rw [decoded, ← result]
      rfl
    have limit : screened.1.limit = batch.limit := by
      rw [← result]
      exact congrArg Prod.fst (pipeline.screen_shape (record :: rest) (batch, [], 0))
    rw [admitted, decoded]
    by_cases zero : batch.limit = 0
    · obtain ⟨same, none⟩ := pipeline.screen_of_limit_zero zero (record :: rest) [] 0
      rw [result] at same none
      rw [same, none] at counts ⊢
      rw [decodeAndFilter_eq]
      simpa using counts
    · rw [seen_foldl_push (limit ▸ zero), length_offersDecoded]
      simpa using counts

theorem length_admitRecords_le {batch : RecordBatch Kept}
    (counted : batch.entries.length ≤ batch.seen) (records : List (Ranked RawRecord)) :
    (pipeline.admitRecords batch records).1.entries.length ≤
      (pipeline.admitRecords batch records).1.seen := by
  have pushes : ∀ (offers : List (Ranked Kept)) {batch : RecordBatch Kept},
      batch.entries.length ≤ batch.seen →
      (offers.foldl (fun batch (sort, kept) => batch.push sort kept) batch).entries.length ≤
        (offers.foldl (fun batch (sort, kept) => batch.push sort kept) batch).seen := by
    intro offers
    induction offers with
    | nil => exact id
    | cons offer offers ih => exact fun counted => ih (RecordBatch.length_push_le counted _ _)
  have screens : ∀ (records : List (Ranked RawRecord))
      {state : RecordBatch Kept × List (Ranked RawRecord) × Nat},
      state.1.entries.length ≤ state.1.seen →
      (records.foldl pipeline.stages.screenStep state).1.entries.length ≤
        (records.foldl pipeline.stages.screenStep state).1.seen := by
    intro records
    induction records with
    | nil => exact id
    | cons record records ih =>
      intro state counted
      refine ih ?_
      unfold Stages.screenStep
      dsimp only
      split
      · exact counted
      · split
        · exact counted
        · exact RecordBatch.length_push_le counted _ _
        · exact counted
  unfold admitRecords
  split
  · exact counted
  · exact pushes _ (screens records counted)

end RecordPipeline

def TailTurn.records (turn : TailTurn) : List RawRecord :=
  match turn.polled with
  | .ok records => records
  | .error _ => []

/-- The records of a poll, ranked as a tail ranks them. -/
def ranked (polled : List RawRecord) : List (Ranked RawRecord) :=
  polled.map fun raw => (raw.sortKey, raw)

theorem places_ranked (polled : List RawRecord) :
    places (ranked polled) = polled.map RawRecord.place := by
  simp [places, ranked, RawRecord.place, RawRecord.sortKey]

namespace Tail
variable [Crates] (tail : Tail)

def jumped (turn : TailTurn) : Nat := ((tail.jumps turn).map Prod.snd).sum

/-- The turns the loop takes: those up to the first that leaves a record in the
batch. -/
def taken : List TailTurn → RecordBatch Kept → List TailTurn
  | turns, batch =>
    if !batch.isEmpty then []
    else match turns with
      | [] => []
      | turn :: turns => turn :: taken turns (tail.ingest turn.records batch).1

/-- The records of a poll that a full batch turns away. -/
def turnedAway (turn : TailTurn) : List (Ranked RawRecord) :=
  tail.pipeline.crowded tail.limits.batch .newest .forward [] (ranked turn.records)

/-- The records turned away that the filter would have dropped. -/
def miscounted (turn : TailTurn) : Nat :=
  (tail.turnedAway turn).countP fun record => !tail.pipeline.passes record.2

omit [Crates] in
theorem skipAhead_ok {turn : TailTurn} {count : Nat} (skipped : tail.skipAhead turn = .ok count) :
    count = tail.jumped turn := by
  unfold skipAhead at skipped
  dsimp only at skipped
  split at skipped
  · rename_i none
    rw [← Except.ok.inj skipped, jumped, List.isEmpty_iff.mp none]
    rfl
  · obtain ⟨_, _, rest⟩ := Except.bind_ok skipped
    exact (Except.ok.inj rest).symm

def matched (turns : List TailTurn) : List RawRecord :=
  (turns.flatMap TailTurn.records).filter fun raw => tail.pipeline.passes raw

/-- What the loop has established when it ends with `last`. -/
structure Collected (turns : List TailTurn) (skipped total : Nat) (last : RecordBatch Kept) : Prop where
  counted : total + last.seen = skipped + (turns.map tail.jumped).sum +
    (tail.matched turns).length + (turns.map tail.miscounted).sum
  bounded : last.entries.length ≤ last.seen
  unseen : last.isEmpty → last.seen = 0
  shape : last.shape = (tail.limits.batch, .newest, .forward)
  matching : ∃ rest, ((tail.matched turns).map RawRecord.place).Perm (places last.ranked ++ rest)
  held : edges (last.intoSorted.map Kept.raw) = places last.ranked

omit [Crates] in
theorem collects_of_isEmpty {batch : RecordBatch Kept} (empty : batch.isEmpty) :
    batch.Collects [] := by
  have none : batch.ranked = [] := by
    unfold RecordBatch.ranked
    rw [List.isEmpty_iff.mp empty]
    rfl
  constructor
  rw [none]
  exact Best.nil

theorem crowded_zero (order : RecordOrder) (direction : CursorDirection)
    (before records : List (Ranked RawRecord)) :
    tail.pipeline.crowded 0 order direction before records = records := by
  induction records generalizing before with
  | nil => rfl
  | cons record records ih => simp [RecordPipeline.crowded, ih]

theorem ingest_spec {batch : RecordBatch Kept} {turn : TailTurn} (empty : batch.isEmpty)
    (unseen : batch.seen = 0) (shape : batch.shape = (tail.limits.batch, .newest, .forward))
    (distinct : (turn.records.map RawRecord.place).Nodup) (skipped : Nat) :
    tail.Collected [turn] skipped
      (skipped + (tail.ingest turn.records batch).2 + tail.jumped turn)
      (tail.ingest turn.records batch).1 := by
  have collects := collects_of_isEmpty empty
  rw [← places_ranked] at distinct
  have limit : batch.limit = tail.limits.batch := congrArg Prod.fst shape
  have order : batch.order = .newest := congrArg (fun shape => shape.2.1) shape
  have direction : batch.direction = .forward := congrArg (fun shape => shape.2.2) shape
  obtain ⟨turned, counts⟩ := tail.pipeline.admitRecords_counts collects distinct
  rw [limit, order, direction] at turned counts
  have all : (tail.ingest turn.records batch).1.Collects
      ((ranked turn.records).filterMap tail.pipeline.offers ++ []) :=
    tail.pipeline.admitRecords_collects (ranked turn.records) collects
      (by simpa [places] using distinct)
  rw [List.append_nil] at all
  have matching : tail.pipeline.matching (ranked turn.records) = ranked (tail.matched [turn]) := by
    simp [RecordPipeline.matching, ranked, matched, List.filter_map, Function.comp_def]
  have keys := tail.pipeline.keys_offers (ranked turn.records)
  have total : (ranked turn.records).countP (fun record => tail.pipeline.passes record.2) =
      (tail.matched [turn]).length := by
    rw [List.countP_eq_length_filter]
    exact (congrArg List.length matching).trans (by simp [ranked])
  have split : (tail.turnedAway turn).length = (tail.turnedAway turn).countP
      (fun record => tail.pipeline.passes record.2) + tail.miscounted turn := by
    rw [List.length_eq_countP_add_countP fun record : Ranked RawRecord =>
      tail.pipeline.passes record.2, miscounted]
    simp
  change (tail.ingest turn.records batch).2 = (tail.turnedAway turn).length at turned
  change (tail.ingest turn.records batch).1.seen + (tail.turnedAway turn).countP _ = _ at counts
  rw [total, unseen] at counts
  have bounded := tail.pipeline.length_admitRecords_le
    (by rw [List.isEmpty_iff.mp empty]; exact Nat.zero_le _) (ranked turn.records)
  have kept := tail.pipeline.shape_admitRecords batch (ranked turn.records)
  refine ⟨?_, bounded, ?_, kept.trans shape, ?_, ?_⟩
  · simp only [List.map_cons, List.map_nil, List.sum_cons, List.sum_nil]
    omega
  · intro still
    by_cases zero : tail.limits.batch = 0
    · have everything : (tail.turnedAway turn).countP (fun record =>
          tail.pipeline.passes record.2) = (tail.matched [turn]).length := by
        rw [turnedAway, zero, crowded_zero, total]
      omega
    · have held := all.best.length_eq
      have none : (tail.ingest turn.records batch).1.ranked.length = 0 := by
        unfold RecordBatch.ranked
        rw [List.length_map, List.isEmpty_iff.mp still]
        rfl
      have sameLimit : (tail.ingest turn.records batch).1.limit = tail.limits.batch :=
        congrArg Prod.fst (kept.trans shape)
      have lengths := congrArg List.length keys
      rw [List.length_map, List.length_map, matching] at lengths
      have same : (ranked (tail.matched [turn])).length = (tail.matched [turn]).length := by
        simp [ranked]
      omega
  · obtain ⟨rest, parts, _⟩ := all.best
    refine ⟨places rest, ?_⟩
    have offered : places ((ranked turn.records).filterMap tail.pipeline.offers) =
        (tail.matched [turn]).map RawRecord.place := by
      have mapped := congrArg (List.map fun key : SortKey => (key.partition, key.offset)) keys
      rw [List.map_map, List.map_map, matching] at mapped
      exact mapped.trans (places_ranked _)
    rw [← offered]
    have moved := parts.map fun entry : Ranked Kept => (entry.1.partition, entry.1.offset)
    rwa [List.map_append] at moved
  · refine PageRequest.edges_intoSorted (fun entry member => ?_) all
    obtain ⟨raw, _, rfl⟩ := List.mem_map.mp member
    exact ⟨rfl, rfl⟩

variable {tail}

/-- The loop goes on only while nothing is held. -/
theorem Collected.trans {turns more : List TailTurn} {skipped mid total : Nat}
    {batch last : RecordBatch Kept} (first : tail.Collected turns skipped mid batch)
    (empty : batch.isEmpty) (second : tail.Collected more mid total last) :
    tail.Collected (turns ++ more) skipped total last := by
  have split : tail.matched (turns ++ more) = tail.matched turns ++ tail.matched more := by
    simp [matched, List.flatMap_append, List.filter_append]
  have unseen := first.unseen empty
  refine ⟨?_, second.bounded, second.unseen, second.shape, ?_, second.held⟩
  · have one := first.counted
    have two := second.counted
    rw [split]
    simp only [List.map_append, List.sum_append, List.length_append]
    omega
  · obtain ⟨before, beforePerm⟩ := first.matching
    obtain ⟨after, afterPerm⟩ := second.matching
    refine ⟨before ++ after, ?_⟩
    have none : places batch.ranked = [] := by
      unfold places RecordBatch.ranked
      rw [List.isEmpty_iff.mp empty]
      rfl
    rw [none, List.nil_append] at beforePerm
    rw [split, List.map_append]
    refine (beforePerm.append afterPerm).trans ?_
    rw [← List.append_assoc, ← List.append_assoc]
    exact List.perm_append_comm.append_right _

theorem Collected.refl {batch : RecordBatch Kept} (empty : batch.isEmpty) (unseen : batch.seen = 0)
    (shape : batch.shape = (tail.limits.batch, .newest, .forward)) (skipped : Nat) :
    tail.Collected [] skipped skipped batch := by
  have none := List.isEmpty_iff.mp empty
  refine ⟨?_, ?_, fun _ => unseen, shape, ⟨[], ?_⟩, ?_⟩
  · simp [matched, unseen]
  · simp [none]
  · simp [matched, places, RecordBatch.ranked, none]
  · simp [edges, RecordBatch.intoSorted, places, RecordBatch.ranked, none]

theorem collect_spec {turns : List TailTurn} {batch last : RecordBatch Kept} {skipped total : Nat}
    (empty : batch.isEmpty) (unseen : batch.seen = 0)
    (shape : batch.shape = (tail.limits.batch, .newest, .forward))
    (distinct : (((tail.taken turns batch).flatMap TailTurn.records).map RawRecord.place).Nodup)
    (collected : tail.collect turns batch skipped = .ok (last, total)) :
    tail.Collected (tail.taken turns batch) skipped total last := by
  induction turns generalizing batch skipped with
  | nil =>
    unfold collect at collected
    unfold taken
    simp only [empty, Bool.not_true, Bool.false_eq_true, ↓reduceIte, Except.ok.injEq,
      Prod.mk.injEq] at collected ⊢
    obtain ⟨rfl, rfl⟩ := collected
    exact .refl empty unseen shape skipped
  | cons turn turns ih =>
    unfold collect at collected
    unfold taken at distinct ⊢
    simp only [empty, Bool.not_true, Bool.false_eq_true, ↓reduceIte] at collected distinct ⊢
    obtain ⟨polled, answered, rest⟩ := Except.bind_ok collected
    obtain ⟨count, jumped, rest⟩ := Except.bind_ok rest
    obtain rfl := tail.skipAhead_ok jumped
    have records : turn.records = polled := by simp [TailTurn.records, answered]
    rw [← records] at rest
    rw [List.flatMap_cons, List.map_append] at distinct
    obtain ⟨here, later, _⟩ := List.nodup_append.mp distinct
    have first := tail.ingest_spec empty unseen shape here skipped
    generalize tail.ingest turn.records batch = ingested at first rest later
    obtain ⟨next, rejected⟩ := ingested
    cases still : next.isEmpty with
    | true => exact first.trans still (ih still (first.unseen still) first.shape later rest)
    | false =>
      unfold collect at rest
      unfold taken
      simp only [still, Bool.not_false, ↓reduceIte, Except.ok.injEq, Prod.mk.injEq] at rest ⊢
      obtain ⟨rfl, rfl⟩ := rest
      exact first

variable (tail)

def turnsTaken (turns : List TailTurn) : List TailTurn :=
  tail.taken turns (RecordBatch.new tail.limits.batch .newest .forward)

/-- The turns of a run, call after call. -/
def runTurns (calls : List (List TailTurn)) : List TailTurn := calls.flatMap tail.turnsTaken

def polled (calls : List (List TailTurn)) : List RawRecord :=
  (tail.runTurns calls).flatMap TailTurn.records

end Tail

def TailBatch.places (batch : TailBatch) : List (Int × Int) :=
  batch.records.map fun record => (record.partition, record.offset)

/-- Where the records of a run's batches stand in the log. -/
def delivers (batches : List TailBatch) : List (Int × Int) := batches.flatMap TailBatch.places

namespace Tail
variable [Crates] {tail : Tail}

/-- The books of a run: what was skipped or delivered was jumped over, matched,
or miscounted. -/
structure Booked (tail : Tail) (turns : List TailTurn) (skipped : Nat) (places : List (Int × Int)) :
    Prop where
  counted : skipped + places.length =
    (turns.map tail.jumped).sum + (tail.matched turns).length + (turns.map tail.miscounted).sum
  matching : ∃ rest, ((tail.matched turns).map RawRecord.place).Perm (places ++ rest)

theorem Booked.append {turns more : List TailTurn} {skipped others : Nat}
    {places later : List (Int × Int)} (first : tail.Booked turns skipped places)
    (second : tail.Booked more others later) :
    tail.Booked (turns ++ more) (skipped + others) (places ++ later) := by
  have split : tail.matched (turns ++ more) = tail.matched turns ++ tail.matched more := by
    simp [matched, List.flatMap_append, List.filter_append]
  constructor
  · have one := first.counted
    have two := second.counted
    rw [split]
    simp only [List.map_append, List.sum_append, List.length_append]
    omega
  · obtain ⟨rest, perm⟩ := first.matching
    obtain ⟨end?, laterPerm⟩ := second.matching
    refine ⟨rest ++ end?, ?_⟩
    rw [split, List.map_append]
    refine (perm.append laterPerm).trans ?_
    rw [List.append_assoc, List.append_assoc]
    refine .append_left places ?_
    rw [← List.append_assoc, ← List.append_assoc]
    exact List.perm_append_comm.append_right _

theorem next_booked {turns : List TailTurn} {batch : TailBatch}
    (distinct : (((tail.turnsTaken turns).flatMap TailTurn.records).map RawRecord.place).Nodup)
    (answered : tail.next turns = .ok batch) :
    tail.Booked (tail.turnsTaken turns) batch.skipped batch.places := by
  obtain ⟨⟨last, total⟩, collected, rest⟩ := Except.bind_ok answered
  have spec : tail.Collected (tail.turnsTaken turns) 0 total last :=
    collect_spec rfl rfl rfl distinct collected
  dsimp only at rest
  have counted := spec.counted
  split at rest
  · rename_i empty
    obtain rfl := Except.ok.inj rest
    have unseen := spec.unseen empty
    constructor
    · change total + 0 = _
      omega
    · exact ⟨_, .refl _⟩
  · obtain rfl := Except.ok.inj rest
    have bounded := spec.bounded
    have rendered : (TailBatch.places ⟨tail.pipeline.render
        (PageRequest.sortKept .oldest last.intoSorted) tail.topic, total + last.displaced⟩).Perm
        (Scan.places last.ranked) := by
      rw [← spec.held]
      exact PageRequest.places_render ..
    have lengths := rendered.length_eq
    have held : (Scan.places last.ranked).length = last.entries.length := by
      simp [Scan.places, RecordBatch.ranked]
    constructor
    · change total + (last.seen - last.entries.length) + _ = _
      omega
    · obtain ⟨more, perm⟩ := spec.matching
      exact ⟨more, perm.trans (rendered.symm.append_right _)⟩

theorem run_booked {calls : List (List TailTurn)} {batches : List TailBatch}
    (distinct : ((tail.polled calls).map RawRecord.place).Nodup)
    (answered : tail.run calls = .ok batches) :
    tail.Booked (tail.runTurns calls) (batches.map TailBatch.skipped).sum (delivers batches) := by
  induction calls generalizing batches with
  | nil =>
    obtain rfl := Except.ok.inj answered
    exact ⟨rfl, [], .refl _⟩
  | cons turns calls ih =>
    obtain ⟨batch, first, rest⟩ := Except.bind_ok answered
    obtain ⟨others, later, rest⟩ := Except.bind_ok rest
    obtain rfl := Except.ok.inj rest
    unfold polled runTurns at distinct
    rw [List.flatMap_cons, List.flatMap_append, List.map_append] at distinct
    obtain ⟨here, after, _⟩ := List.nodup_append.mp distinct
    exact (next_booked here first).append (ih after later)

/-- The matching records a run polled and put in no batch. -/
def undelivered (tail : Tail) (calls : List (List TailTurn)) (batches : List TailBatch) :
    List RawRecord :=
  (tail.matched (tail.runTurns calls)).filter fun raw => decide (raw.place ∉ delivers batches)

/-- Every matching record polled is delivered or counted as skipped, once, and
so are the offsets jumped over. Nothing else is. -/
structure Accounts (tail : Tail) (calls : List (List TailTurn)) (batches : List TailBatch) :
    Prop where
  skipped : (batches.map TailBatch.skipped).sum =
    ((tail.runTurns calls).map tail.jumped).sum + (tail.undelivered calls batches).length
  once : (delivers batches).Nodup
  matching : ∀ place ∈ delivers batches, ∃ raw ∈ tail.polled calls,
    tail.pipeline.passes raw ∧ raw.place = place

theorem tail_accounts_iff {calls : List (List TailTurn)} {batches : List TailBatch}
    (answered : tail.run calls = .ok batches)
    (distinct : ((tail.polled calls).map RawRecord.place).Nodup) :
    tail.Accounts calls batches ↔ ∀ turn ∈ tail.runTurns calls,
      ∀ record ∈ tail.turnedAway turn, tail.pipeline.passes record.2 := by
  have booked := run_booked distinct answered
  obtain ⟨rest, perm⟩ := booked.matching
  have nodup : ((tail.matched (tail.runTurns calls)).map RawRecord.place).Nodup :=
    distinct.sublist ((List.filter_sublist).map _)
  obtain ⟨once, _, apart⟩ := List.nodup_append.mp (perm.nodup_iff.mp nodup)
  have left : (tail.undelivered calls batches).length = rest.length := by
    have counted := perm.countP_eq fun place => decide (place ∉ delivers batches)
    rw [List.countP_map, List.countP_append] at counted
    have none : (delivers batches).countP (fun place => decide (place ∉ delivers batches)) = 0 := by
      simp [List.countP_eq_zero]
    have all : rest.countP (fun place => decide (place ∉ delivers batches)) = rest.length := by
      refine List.countP_eq_length.mpr fun place member => ?_
      simp only [decide_eq_true_eq]
      exact fun listed => apart place listed place member rfl
    rw [none, all, Nat.zero_add] at counted
    rw [← counted, undelivered, List.countP_eq_length_filter]
    rfl
  have lengths := perm.length_eq
  rw [List.length_map, List.length_append] at lengths
  have total := booked.counted
  have exact_iff : ((tail.runTurns calls).map tail.miscounted).sum = 0 ↔
      ∀ turn ∈ tail.runTurns calls, ∀ record ∈ tail.turnedAway turn,
        tail.pipeline.passes record.2 := by
    simp [List.sum_eq_zero_iff_forall_eq_nat, miscounted, List.countP_eq_zero]
  rw [← exact_iff]
  constructor
  · intro accounts
    have skipped := accounts.skipped
    omega
  · intro zero
    refine ⟨by omega, once, fun place member => ?_⟩
    have listed := perm.mem_iff.mpr (List.mem_append_left rest member)
    obtain ⟨raw, matched, placed⟩ := List.mem_map.mp listed
    obtain ⟨polled, passes⟩ := List.mem_filter.mp matched
    exact ⟨raw, polled, passes, placed⟩

end Tail

namespace Sample

def keyed (partition offset timestamp : Int) (key : String) : RawRecord :=
  { record partition offset timestamp with key := some (asBytes key) }

/-- A tail that sends one record at a time, of those whose key or value has `hit`. -/
def tail : Tail where
  pipeline := .new none (some ⟨"hit"⟩) none none
  topic := "orders"
  start := [⟨0, 0⟩, ⟨1, 0⟩]
  backlog := 100
  limits := ⟨1, limits⟩

def tailCall (polled : List RawRecord) : List (List TailTurn) :=
  [[{ polled := .ok polled, lags := fun _ => some 0, position := fun _ => none,
      seek := fun _ => .ok () }]]

/-- The record dropped by the filter is the newest, the one turned away matches. -/
def dropsNewest : List (List TailTurn) :=
  tailCall [keyed 0 0 5 "hit", keyed 1 0 6 "miss", keyed 1 1 4 "hit"]

/-- The record dropped by the filter comes after a newer one that matches. -/
def dropsOlder : List (List TailTurn) := tailCall [keyed 0 0 5 "hit", keyed 1 0 4 "miss"]

end Sample

theorem tail_accounts_newest_dropped :
    ∃ batches, @Tail.run Crates.plain Sample.tail Sample.dropsNewest = .ok batches ∧
      @Tail.Accounts Crates.plain Sample.tail Sample.dropsNewest batches := by
  have returns : (@Tail.run Crates.plain Sample.tail Sample.dropsNewest).toOption.isSome := by
    decide
  cases answered : @Tail.run Crates.plain Sample.tail Sample.dropsNewest with
  | error error => simp [answered, Except.toOption] at returns
  | ok batches =>
    exact ⟨batches, rfl, (@Tail.tail_accounts_iff Crates.plain Sample.tail _ batches answered
      (by decide)).mpr (by decide)⟩

/-- A full batch turns the second record away and counts it as skipped, though
the filter drops it. -/
theorem tail_counts_dropped_record :
    ∃ batches, @Tail.run Crates.plain Sample.tail Sample.dropsOlder = .ok batches ∧
      ((@Tail.polled Crates.plain Sample.tail Sample.dropsOlder).map RawRecord.place).Nodup ∧
      ¬ @Tail.Accounts Crates.plain Sample.tail Sample.dropsOlder batches := by
  have outcome : (@Tail.run Crates.plain Sample.tail Sample.dropsOlder).toOption.map
      (fun batches => (batches.map TailBatch.skipped, delivers batches)) =
        some ([1], [(0, 0)]) := by
    decide
  cases answered : @Tail.run Crates.plain Sample.tail Sample.dropsOlder with
  | error error => simp [answered, Except.toOption] at outcome
  | ok batches =>
    simp only [answered, Except.toOption, Option.map_some, Option.some.injEq, Prod.mk.injEq] at outcome
    refine ⟨batches, rfl, by decide, fun accounts => ?_⟩
    have counted := @Tail.Accounts.skipped Crates.plain _ _ _ accounts
    unfold Tail.undelivered at counted
    rw [outcome.1, outcome.2] at counted
    revert counted
    decide

end Klens.Scan
