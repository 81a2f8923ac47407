import Klens.Scan.OrderedPage
import Klens.Scan.SearchProofs

/-! One record looked up by its offset. The lookup is a page of one record,
opened at the offset: the page shows the first record at or after it, so it
shows the record at the offset when there is one. -/
namespace Klens.Scan
open Klens.Lib

/-- A call to Kafka failed with this error. -/
def Schedule.Fails (schedule : Schedule) (error : KafkaError) : Prop :=
  schedule.opened = .error error ∨ ∃ pass, (schedule.pass pass).reassignment = .failed error ∨
    ∃ turn ∈ (schedule.pass pass).turns, turn.polled = .error error

section Errors
variable [Crates] {pipeline : RecordPipeline} {error : KafkaError}

theorem runTurns_error {turns : List Turn} {scan : WindowScan} {batch : RecordBatch Kept}
    (failed : runTurns pipeline turns scan batch = .error error) :
    ∃ turn ∈ turns, turn.polled = .error error := by
  induction turns generalizing scan batch with
  | nil =>
    unfold runTurns at failed
    split at failed <;> cases failed
  | cons turn turns ih =>
    have later (failed : ∃ turn ∈ turns, turn.polled = .error error) :
        ∃ other ∈ turn :: turns, other.polled = .error error := by
      obtain ⟨other, member, answer⟩ := failed
      exact ⟨other, List.mem_cons_of_mem _ member, answer⟩
    unfold runTurns at failed
    split at failed
    · cases failed
    · dsimp only at failed
      cases answer : turn.polled with
      | error other =>
        rw [answer] at failed
        exact ⟨turn, List.mem_cons_self, answer.trans (congrArg Except.error (Except.error.inj failed))⟩
      | ok records =>
        rw [answer] at failed
        cases records with
        | nil => exact later (ih failed)
        | cons raw polled => exact later (ih failed)

theorem run_error {walk : RecordOrder} {assigned windows : List PartitionWindow}
    {batch : RecordBatch Kept} {schedule : PassSchedule}
    (failed : run pipeline walk assigned windows batch schedule = .error error) :
    schedule.reassignment = .failed error ∨ ∃ turn ∈ schedule.turns, turn.polled = .error error := by
  unfold run at failed
  dsimp only at failed
  split at failed
  · cases failed
  · split at failed
    · rename_i moved
      obtain rfl := Except.error.inj failed
      split at moved
      · cases moved
      · exact .inl moved
    · cases failed
    · rcases Except.bind_error failed with turned | ⟨_, _, rest⟩
      · exact .inr (runTurns_error turned)
      · cases rest

namespace PageRequest
variable {request : PageRequest} {session : ClusterSession} {span : LogSpan}

theorem passes_error {schedule : Nat → PassSchedule} {fuel pass : Nat} {state : Progress}
    (failed : request.passes session span schedule fuel pass state = .error error) :
    ∃ pass, (schedule pass).reassignment = .failed error ∨
      ∃ turn ∈ (schedule pass).turns, turn.polled = .error error := by
  induction fuel generalizing pass state with
  | zero => cases failed
  | succ fuel ih =>
    rw [passes] at failed
    dsimp only at failed
    split at failed
    · cases failed
    · rcases Except.bind_error failed with scanned | ⟨⟨after, stop⟩, _, rest⟩
      · rcases Except.bind_error scanned with ran | ⟨_, _, rest⟩
        · exact ⟨pass, run_error ran⟩
        · cases rest
      · cases stop with
        | true => cases rest
        | false => exact ih rest

/-- A fetch fails by running out of time or as a call to Kafka failed. -/
theorem fetch_error {schedule : Schedule}
    (failed : request.fetch session span schedule = .error error) :
    error = .timeout ∨ schedule.Fails error := by
  unfold fetch at failed
  dsimp only at failed
  split at failed
  · cases failed
  · rcases Except.bind_error failed with opened | ⟨_, _, rest⟩
    · exact .inr (.inl opened)
    · rcases Except.bind_error rest with ran | ⟨last, _, rest⟩
      · exact .inr (.inr (passes_error ran))
      · split at rest
        · exact .inl (Except.error.inj rest).symm
        · cases rest

end PageRequest
end Errors

/-- The request a lookup makes. -/
def RecordAt.request (wanted : RecordAt) (limits : RecordLimits) : PageRequest where
  query := wanted.query
  limit := 1
  take := limits.windowTake 1 false

theorem openRequest_query (wanted : RecordAt) (limits : RecordLimits) :
    openRequest wanted.query limits = .ok (wanted.request limits) := by
  have one : min 1 limits.maxLimit = 1 := by
    have := limits.nonzero
    omega
  simp [openRequest, PageRequest.new, RecordLimits.clampLimit, RecordAt.query, RecordAt.request, one,
    RecordQuery.searching, Except.mapError, bind, Except.bind]

/-- A lookup covers the one partition it names. -/
theorem partitions_of_lookup {broker : Broker} {wanted : RecordAt} {span : LogSpan}
    (resolved : resolveSpan broker wanted.query = .ok span) :
    span.partitions = [wanted.partition] := by
  obtain ⟨partitions, selected, rest⟩ := Except.bind_ok resolved
  obtain ⟨watermarks, _, rest⟩ := Except.bind_ok rest
  obtain rfl := Except.ok.inj rest
  have single : ∀ known, selectPartitions broker.cluster wanted.topic [wanted.partition] known =
      .ok partitions → partitions = [wanted.partition] := by
    intro known chosen
    unfold selectPartitions at chosen
    simp only [List.isEmpty_cons, Bool.false_eq_true, ↓reduceIte] at chosen
    split at chosen
    · cases chosen
    · exact (Except.ok.inj chosen).symm
  unfold resolvePartitions at selected
  split at selected
  · exact single _ selected
  · obtain ⟨known, _, selected⟩ := Except.bind_ok selected
    exact single known selected

section Lookup
variable [Crates] {session : ClusterSession} {wanted : RecordAt} {limits : RecordLimits}
  {span : LogSpan} {log : Log} {schedule : Schedule} {page : RecordPage} {raw : RawRecord}

theorem PageRequest.place_shown (request : PageRequest) (session : ClusterSession)
    (raw : RawRecord) : raw.place =
      ((request.shown session raw).partition, (request.shown session raw).offset) := by
  have hidden : ((request.pipeline session).hidden raw).place = raw.place := by
    unfold RecordPipeline.hidden
    split <;> rfl
  simp only [shown, DecodedRecord.intoRecord, RecordPipeline.finished_raw, Kept.raw]
  exact hidden.symm

/-- An unfiltered page shows records its only pass accepted. -/
theorem PageRequest.Opened.shown {request : PageRequest} {earlier : List (PassSchedule × Progress)}
    {used : PassSchedule} {mid last : Progress} {found : RecordBatch Kept} {kept : List (Int × Int)}
    (opened : request.Opened session span log schedule page earlier used mid last found kept)
    (unfiltered : request.query.filter = none) :
    ∀ record ∈ page.records, ∃ raw, log.Holds span raw ∧ record = request.shown session raw := by
  obtain ⟨rfl, rfl, rfl⟩ := opened.single unfiltered
  obtain ⟨after, stop, lastPass⟩ := opened.pass
  have made := lastPass.done.made
  obtain ⟨seen, reads⟩ := made.reads
  intro record member
  rw [opened.assembled.records, RecordPipeline.render_eq] at member
  obtain ⟨held, listed, rfl⟩ := List.mem_map.mp member
  replace listed := List.mem_insertionSort _ |>.mp listed
  rw [lastPass.stands.2.1] at listed
  obtain ⟨entry, inBatch, rfl⟩ := List.mem_map.mp
    (show held ∈ found.entries.map (·.value) from listed)
  obtain ⟨source, accepted, offer⟩ := List.mem_filterMap.mp
    (lastPass.done.collects.best.subset (List.mem_map_of_mem inBatch))
  obtain ⟨value, keeps, same⟩ := Option.map_eq_some_iff.mp offer
  rw [(request.pipeline session).keeps_unfiltered unfiltered] at keeps
  obtain ⟨window, planned, samePartition, inside⟩ := reads.accepted_inWindow accepted
  refine ⟨source.2, (of_inWindow made.walks planned samePartition inside).1, ?_⟩
  rw [← (Prod.mk.inj same).2, ← Option.some.inj keeps]
  rfl

/-- A pass going on from a record of its only partition keeps that record, if it
keeps anything or reads its window to the end. -/
theorem PassMade.keeps_first {pipeline : RecordPipeline} {take : Int} {origin : RecordCursor}
    {scan : WindowScan} {ranked : List (Ranked RawRecord)} {limit : Nat} {kept : List (Int × Int)}
    (made : PassMade pipeline log span .oldest take origin scan ranked limit kept)
    (room : 0 < limit) (passes : ∀ other, pipeline.passes other)
    (single : span.partitions = [raw.partition]) (holds : log.Holds span raw)
    (boundary : origin.remaining.offsets[raw.partition]? = some raw.offset)
    (reached : kept ≠ [] ∨ raw.partition ∈ scan.completed) : raw.place ∈ kept := by
  obtain ⟨seen, reads⟩ := made.reads
  obtain ⟨window, listed, same⟩ := window_of_unread made.walks made.positive holds
    ⟨raw.offset, boundary, le_refl raw.offset⟩
  have start : window.start = raw.offset := by
    obtain ⟨_, marks, _, known, found, _, _, _, near⟩ := window_facts made.walks listed
    obtain ⟨_, _, others, again, low, high⟩ := holds
    rw [same] at known found
    obtain rfl := Option.some.inj (known.symm.trans again)
    obtain rfl := Option.some.inj (boundary.symm.trans found)
    simp only [PartitionWindow.near, clamped] at near
    omega
  have inside : raw ∈ log.inWindow window := by
    have nonempty := (span.planned_windows _ made.walks).nonempty window listed
    exact Log.mem_inWindow.mpr ⟨same ▸ holds.1, by omega, by omega⟩
  by_cases some : kept = []
  · obtain ⟨entry, accepted, rfl⟩ := reads.accepted_of_completed listed
      (same ▸ reached.resolve_left (not_not.mpr some)) inside
    exact made.holding.all (by simpa [some] using room) entry accepted (passes _)
  · -- Whatever was kept lies at or after the record, which was then read before it.
    obtain ⟨⟨other, last⟩, member⟩ := List.exists_mem_of_ne_nil _ some
    obtain ⟨entry, accepted, _, placed⟩ := made.holding.subset _ member
    obtain ⟨entryPartition, entryOffset⟩ := Prod.mk.inj placed
    obtain ⟨planned, plannedListed, plannedSame, _⟩ := reads.accepted_inWindow accepted
    obtain rfl : other = raw.partition := by
      have member := (window_facts made.walks plannedListed).1
      rw [single, List.mem_singleton] at member
      rw [← entryPartition, ← plannedSame, member]
    have after : window.start ≤ last := (made.kept_inside listed (same ▸ member)).1
    obtain ⟨source, sourceAccepted, rfl⟩ := reads.accepted_of_le listed accepted
      (entryPartition.trans same.symm) inside (by omega)
    refine made.holding.closed source sourceAccepted (passes _) last member ?_
    simp only [Ahead, past]
    omega

/-- The page of a lookup shows the record at the offset. Had its window been cut
with nothing kept, there would be no page. -/
theorem records_of_lookup (take : 1 ≤ limits.windowTake 1 false)
    (single : span.partitions = [wanted.partition])
    (delivered : (wanted.request limits).Delivered session span schedule log)
    (fetched : (wanted.request limits).fetch session span schedule = .ok page)
    (holds : log.Holds span raw) (stored : raw.place = (wanted.partition, wanted.offset)) :
    page.records = [(wanted.request limits).shown session raw] := by
  have valid : (wanted.request limits).Valid := by
    refine ⟨le_refl 1, take, fun cursor given => ?_⟩
    obtain rfl := Option.some.inj given
    rfl
  obtain ⟨partition, offset⟩ := Prod.mk.inj stored
  have boundary : ((wanted.request limits).origin span
      (wanted.request limits).query.cursor).remaining.offsets[raw.partition]? = some raw.offset :=
    (RecordCursor.offsets_at .oldest wanted.partition wanted.offset _ _).mpr ⟨partition, offset⟩
  rcases PageRequest.fetch_spec valid delivered fetched with
    ⟨empty, _⟩ | ⟨earlier, used, mid, last, found, kept, opened⟩
  · exact absurd ⟨raw.offset, boundary, le_refl raw.offset⟩
      (PageRequest.nothing_unread valid empty holds)
  have shown := opened.shown rfl
  obtain ⟨rfl, rfl, rfl⟩ := opened.single rfl
  obtain ⟨after, stop, lastPass⟩ := opened.pass
  have made := lastPass.done.made
  have only : span.partitions = [raw.partition] := by rw [single, partition]
  have passes : ∀ other, ((wanted.request limits).pipeline session).passes other := by
    intro other
    have keeps := RecordPipeline.keeps_unfiltered ((wanted.request limits).pipeline session) rfl other
    simp [RecordPipeline.passes, keeps]
  have reached : places found.ranked ≠ [] ∨
      raw.partition ∈ ((schedule.pass 0).reading ((wanted.request limits).initial span)).1.completed := by
    have scanned : last.scanned = after.scanned := by
      rcases lastPass.ends with rfl | ⟨_, _, _, scanned, _⟩
      · rfl
      · exact scanned
    have unscanned : ((wanted.request limits).initial span).scanned = false := rfl
    have unkept : ((wanted.request limits).initial span).kept = [] := rfl
    have some := opened.some
    rw [scanned, lastPass.done.scanned, lastPass.stands.2.1, unscanned, unkept] at some
    simp only [Bool.false_or, List.nil_append, Bool.or_eq_true, Bool.not_eq_true'] at some
    rcases some with finished | held
    · obtain ⟨seen, reads⟩ := made.reads
      obtain ⟨done, member⟩ : ∃ done, done ∈
          ((schedule.pass 0).reading ((wanted.request limits).initial span)).1.completed := by
        by_contra nothing
        rw [not_exists, ← Std.ExtTreeSet.eq_empty_iff_forall_not_mem] at nothing
        simp [nothing] at finished
      obtain ⟨window, listed, rfl⟩ := reads.known done member
      have inSpan := (window_facts made.walks listed).1
      rw [only, List.mem_singleton] at inSpan
      exact .inr (inSpan ▸ member)
    · left
      rintro none
      simp only [places, RecordBatch.ranked, List.map_map, List.map_eq_nil_iff] at none
      simp [RecordBatch.intoSorted, none] at held
  have kept : raw.place ∈ page.places := opened.places.symm.subset
    (List.mem_append_right _ (made.keeps_first Nat.zero_lt_one passes only holds boundary reached))
  have few : page.records.length ≤ 1 := PageRequest.length_fetch valid delivered fetched
  obtain ⟨record, listed, placed⟩ := List.mem_map.mp kept
  obtain ⟨other, otherHolds, rfl⟩ := shown record listed
  obtain rfl : other = raw := by
    refine Log.eq_of_place otherHolds holds ?_
    rw [← placed]
    exact PageRequest.place_shown _ session other
  obtain ⟨first, same⟩ := List.length_eq_one_iff.mp
    (le_antisymm few (List.length_pos_of_mem listed))
  rw [same, List.mem_singleton] at listed
  rw [same, listed]

/-- A lookup returns the record stored at its offset or runs out of time, unless
a call to Kafka fails, and finds the offset unknown only where no record is. -/
theorem read_record_exact {broker : Broker} {marks : Watermarks}
    (take : 1 ≤ limits.windowTake 1 false)
    (resolved : resolveSpan broker wanted.query = .ok span)
    (known : span.watermarks wanted.partition = some marks)
    (retained : ∀ raw ∈ log.records wanted.partition,
      marks.low ≤ raw.offset ∧ raw.offset < marks.high)
    (delivered : (wanted.request limits).Delivered session span schedule log) :
    (∀ raw ∈ log.records wanted.partition, raw.offset = wanted.offset →
      readRecord session broker wanted limits schedule =
          .ok ⟨(wanted.request limits).shown session raw,
            (topicObfuscator session wanted.topic).isSome⟩ ∨
        readRecord session broker wanted limits schedule = .error .timeout ∨
        ∃ error, schedule.Fails error ∧
          readRecord session broker wanted limits schedule = .error error) ∧
    ∀ cluster topic partition offset,
      readRecord session broker wanted limits schedule =
          .error (.unknownOffset cluster topic partition offset) →
        schedule.Fails (.unknownOffset cluster topic partition offset) ∨
          ∀ raw ∈ log.records wanted.partition, raw.offset ≠ wanted.offset := by
  have single := partitions_of_lookup resolved
  have read : readRecord session broker wanted limits schedule =
      ((wanted.request limits).fetch session span schedule).bind fun page =>
        (page.records.find? fun record => record.offset == wanted.offset).elim
          (.error (.unknownOffset broker.cluster wanted.topic wanted.partition wanted.offset))
          fun record => .ok { record, obfuscated := page.obfuscated } := by
    unfold readRecord readPage
    rw [openRequest_query]
    change (resolveSpan broker wanted.query >>= _) >>= _ = _
    rw [resolved]
    refine congrArg _ (funext fun page => ?_)
    cases page.records.find? fun record => record.offset == wanted.offset <;> rfl
  have found : ∀ page, (wanted.request limits).fetch session span schedule = .ok page →
      ∀ raw ∈ log.records wanted.partition, raw.offset = wanted.offset →
        readRecord session broker wanted limits schedule =
          .ok ⟨(wanted.request limits).shown session raw,
            (topicObfuscator session wanted.topic).isSome⟩ := by
    intro page fetched raw member stored
    have own := log.placed wanted.partition raw member
    have holds : log.Holds span raw := by
      refine ⟨own.symm ▸ member, by simp [single, own], marks, own.symm ▸ known, ?_⟩
      exact retained raw member
    have records := records_of_lookup take single delivered fetched holds (Prod.ext own stored)
    have offset : ((wanted.request limits).shown session raw).offset = wanted.offset := by
      have placed := PageRequest.place_shown (wanted.request limits) session raw
      exact (Prod.mk.inj placed).2.symm.trans stored
    have obfuscated : page.obfuscated = (topicObfuscator session wanted.topic).isSome := by
      rcases PageRequest.fetch_cases fetched with ⟨_, rfl⟩ | ⟨_, _, _, _, assembled⟩
      · rfl
      · exact assembled.obfuscated
    rw [read, fetched]
    simp [Except.bind, records, offset, obfuscated]
  refine ⟨fun raw member stored => ?_, fun cluster topic partition offset unknown => ?_⟩
  · cases fetched : (wanted.request limits).fetch session span schedule with
    | ok page => exact .inl (found page fetched raw member stored)
    | error error =>
      have failed : readRecord session broker wanted limits schedule = .error error := by
        rw [read, fetched]
        rfl
      rcases PageRequest.fetch_error fetched with rfl | fails
      · exact .inr (.inl failed)
      · exact .inr (.inr ⟨error, fails, failed⟩)
  · cases fetched : (wanted.request limits).fetch session span schedule with
    | ok page =>
      refine .inr fun raw member stored => ?_
      rw [found page fetched raw member stored] at unknown
      cases unknown
    | error error =>
      rw [read, fetched] at unknown
      obtain rfl := Except.error.inj unknown
      exact .inl ((PageRequest.fetch_error fetched).resolve_left (by simp))

end Lookup

namespace Sample

/-- A partition whose offset 1 was compacted away. The record at 2 is stamped
after the one that follows it. -/
def compacted : Log := .ofRecords [record 0 0 0, record 0 2 9, record 0 3 1] (by decide)

def compactedSpan : LogSpan :=
  ⟨[0], mergeWatermarks (lookup [0] 0).found (lookup [0] 4).found "orders"⟩

/-- The record at offset 2. -/
def second : RecordAt := { topic := "orders", partition := 0, offset := 2, schemaId := none }

def answered : Schedule := polling [[record 0 2 9, record 0 3 1]]

end Sample

theorem read_record_exact_second :
    @readRecord Crates.plain Sample.session (Sample.broker [0] (Sample.lookup [0] 0) (Sample.lookup [0] 4))
      Sample.second Sample.limits Sample.answered =
      .ok ⟨@PageRequest.shown Crates.plain (Sample.second.request Sample.limits) Sample.session
        (Sample.record 0 2 9), false⟩ := by
  have outcome : (@readRecord Crates.plain Sample.session
      (Sample.broker [0] (Sample.lookup [0] 0) (Sample.lookup [0] 4)) Sample.second Sample.limits
      Sample.answered).isOk := by
    decide
  have inOrder : ∀ window ∈ ((Sample.second.request Sample.limits).initial Sample.compactedSpan).windows,
      ofPartition window.partition [[Sample.record 0 2 9, Sample.record 0 3 1]].flatten <+:
        Sample.compacted.startingFrom window := by
    decide
  have exact := (@read_record_exact Crates.plain Sample.session Sample.second Sample.limits
    Sample.compactedSpan Sample.compacted Sample.answered
    (Sample.broker [0] (Sample.lookup [0] 0) (Sample.lookup [0] 4)) ⟨0, 4⟩ (by decide) rfl
    (by decide) (by decide)
    (@PageRequest.delivered_polling Crates.plain _ rfl _ _ _ _ inOrder)).1
    (Sample.record 0 2 9) (by decide) rfl
  rcases exact with found | late | ⟨error, _, failed⟩
  · exact found
  · simp [late, Except.isOk, Except.toBool] at outcome
  · simp [failed, Except.isOk, Except.toBool] at outcome

end Klens.Scan
