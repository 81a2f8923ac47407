import Klens.Scan.FetchProofs
import Klens.Scan.Read

/-! What a read covers. A partition that a watermark lookup did not answer for
has no window, so its records are neither read nor missed by the page. -/
namespace Klens.Scan
open Klens.Lib

theorem Except.mapError_ok {ε η α : Type} {result : Except ε α} {change : ε → η} {value : α}
    (done : result.mapError change = .ok value) : result = .ok value := by
  cases result with
  | error => contradiction
  | ok other => exact congrArg Except.ok (Except.ok.inj done)

/-- A request comes with its query and a page of at least one record. -/
theorem openRequest_spec {query : RecordQuery} {limits : RecordLimits} {request : PageRequest}
    (opened : openRequest query limits = .ok request) :
    request.query = query ∧ 1 ≤ request.limit ∧
      request.take = limits.windowTake request.limit query.searching := by
  obtain ⟨limit, clamped, rest⟩ := Except.bind_ok (Except.mapError_ok opened)
  obtain rfl := Except.ok.inj rest
  refine ⟨rfl, ?_, rfl⟩
  unfold RecordLimits.clampLimit at clamped
  split at clamped
  · contradiction
  · obtain rfl := Except.ok.inj clamped
    have nonzero := limits.nonzero
    change 1 ≤ min query.limit.toNat limits.maxLimit
    omega

/-- Both lookups are about the same log: where one finds an offset for a
requested partition, it is the start or the end of what the partition retains. -/
def Broker.Truthful (log : Log) (requested : List Int) (lows highs : Offsets) : Prop :=
  ∀ partition ∈ requested, ∃ low high, low ≤ high ∧
    (∀ raw ∈ log.records partition, low ≤ raw.offset ∧ raw.offset < high) ∧
    (∀ found, lows[partition]? = some found → found = low) ∧
    ∀ found, highs[partition]? = some found → found = high

/-- The marks of a partition with a record in it are the ones both lookups found. -/
theorem mergeWatermarks_of_mem {log : Log} {requested : List Int} {topic : String}
    {lows highs : String → Offsets}
    (truthful : Broker.Truthful log requested (lows topic) (highs topic)) {raw : RawRecord}
    (member : raw ∈ log.records raw.partition) (wanted : raw.partition ∈ requested) :
    (∃ marks, mergeWatermarks lows highs topic raw.partition = some marks ∧
        marks.low ≤ raw.offset ∧ raw.offset < marks.high) ↔
      ((lows topic)[raw.partition]?).isSome ∧ ((highs topic)[raw.partition]?).isSome := by
  obtain ⟨low, high, ordered, retained, lowTrue, highTrue⟩ := truthful _ wanted
  have inside := retained raw member
  unfold mergeWatermarks
  cases foundHigh : (highs topic)[raw.partition]? with
  | none => simp
  | some end? =>
    obtain rfl := highTrue _ foundHigh
    cases foundLow : (lows topic)[raw.partition]? with
    | none => simp
    | some start =>
      obtain rfl := lowTrue _ foundLow
      simp [ordered, inside]

/-- Without time bounds a span has the marks the lookups found. -/
theorem resolveSpan_unbounded {broker : Broker} {query : RecordQuery} {span : LogSpan}
    (resolved : resolveSpan broker query = .ok span) (unbounded : query.timestamps = .unbounded)
    {lows highs : OffsetLookup} (low : broker.lowWatermarks query.topic span.partitions = .ok lows)
    (high : broker.highWatermarks query.topic span.partitions = .ok highs) :
    span.watermarks = mergeWatermarks lows.found highs.found query.topic := by
  obtain ⟨partitions, _, rest⟩ := Except.bind_ok resolved
  obtain ⟨watermarks, found, rest⟩ := Except.bind_ok rest
  obtain rfl := Except.ok.inj rest
  obtain ⟨byTopic, merged, rest⟩ := Except.bind_ok found
  have marks : broker.watermarks query.topic partitions =
      .ok (mergeWatermarks lows.found highs.found) := by
    unfold Broker.watermarks
    rw [low, high]
    rfl
  obtain rfl := Except.ok.inj (marks.symm.trans merged)
  simp only [unbounded, TimestampRange.startSeek, TimestampRange.endSeek, TimestampRange.unbounded,
    seek] at rest
  exact (Except.ok.inj rest).symm

section Page
variable [Crates]

/-- Every matching record of the requested partitions is on the page. -/
def LeavesNothingOut (pipeline : RecordPipeline) (log : Log) (requested : List Int)
    (page : RecordPage) : Prop :=
  ∀ partition ∈ requested, ∀ raw ∈ log.records partition, pipeline.passes raw →
    raw.place ∈ page.places

/-- Every requested partition with a matching record was answered by both
lookups, and windows are not cut to nothing. -/
def Answered (pipeline : RecordPipeline) (log : Log) (requested : List Int)
    (lows highs : Offsets) (take : Int) : Prop :=
  ∀ partition ∈ requested, (∃ raw ∈ log.records partition, pipeline.passes raw) →
    lows[partition]?.isSome ∧ highs[partition]?.isSome ∧ 1 ≤ take

/-- A read is its request, the span it resolves and the fetch of its page. -/
theorem readPage_spec {session : ClusterSession} {broker : Broker} {query : RecordQuery}
    {limits : RecordLimits} {schedule : Schedule} {page : RecordPage}
    (read : readPage session broker query limits schedule = .ok page) :
    ∃ request span, openRequest query limits = .ok request ∧
      resolveSpan broker query = .ok span ∧ request.fetch session span schedule = .ok page := by
  obtain ⟨request, opened, rest⟩ := Except.bind_ok read
  obtain ⟨span, resolved, fetched⟩ := Except.bind_ok rest
  obtain ⟨rfl, _⟩ := openRequest_spec opened
  exact ⟨request, span, opened, resolved, fetched⟩

theorem complete_page_leaves_nothing_out_iff {session : ClusterSession} {broker : Broker}
    {query : RecordQuery} {limits : RecordLimits} {schedule : Schedule} {page : RecordPage}
    {request : PageRequest} {span : LogSpan} {log : Log} {lows highs : OffsetLookup}
    (read : readPage session broker query limits schedule = .ok page)
    (complete : page.complete = true) (ended : page.nextCursor = none)
    (unpaged : query.cursor = none) (unbounded : query.timestamps = .unbounded)
    (opened : openRequest query limits = .ok request)
    (resolved : resolveSpan broker query = .ok span)
    (low : broker.lowWatermarks query.topic span.partitions = .ok lows)
    (high : broker.highWatermarks query.topic span.partitions = .ok highs)
    (truthful : Broker.Truthful log span.partitions (lows.found query.topic)
      (highs.found query.topic))
    (delivered : request.Delivered session span schedule log) :
    LeavesNothingOut (request.pipeline session) log span.partitions page ↔
      Answered (request.pipeline session) log span.partitions (lows.found query.topic)
        (highs.found query.topic) request.take := by
  obtain ⟨again, other, openedAgain, resolvedAgain, fetched⟩ := readPage_spec read
  obtain rfl := Except.ok.inj (openedAgain.symm.trans opened)
  obtain rfl := Except.ok.inj (resolvedAgain.symm.trans resolved)
  obtain ⟨rfl, limit, _⟩ := openRequest_spec opened
  have marks := resolveSpan_unbounded resolved unbounded low high
  by_cases take : 1 ≤ again.take
  swap
  · have nowhere : page.places = [] := by
      rcases PageRequest.fetch_cases fetched with ⟨_, rfl⟩ | ⟨windows, _⟩
      · rfl
      · exact absurd (PageRequest.windows_of_take other take) windows
    constructor
    · rintro nothing partition wanted ⟨raw, member, passes⟩
      have listed := nothing partition wanted raw member passes
      rw [nowhere] at listed
      contradiction
    · intro answered partition wanted raw member passes
      exact absurd (answered partition wanted ⟨raw, member, passes⟩).2.2 take
  have valid : again.Valid := ⟨limit, take, by simp [unpaged]⟩
  obtain ⟨boundaries, cursor, sweeps, stands, onward⟩ :=
    PageRequest.fetch_complete valid delivered fetched complete
  constructor
  · rintro nothing partition wanted ⟨raw, member, passes⟩
    obtain rfl := log.placed partition raw member
    obtain ⟨found, placed, ⟨_, _, bounds, known, start, stop⟩, _⟩ :=
      sweeps.swept _ (nothing _ wanted raw member passes)
    obtain ⟨samePartition, sameOffset⟩ := Prod.mk.inj placed
    rw [samePartition, marks] at known
    rw [sameOffset] at start stop
    obtain ⟨answeredLow, answeredHigh⟩ :=
      (mergeWatermarks_of_mem truthful member wanted).mp ⟨bounds, known, start, stop⟩
    exact ⟨answeredLow, answeredHigh, take⟩
  · intro answered partition wanted raw member passes
    obtain rfl := log.placed partition raw member
    obtain ⟨answeredLow, answeredHigh, _⟩ := answered _ wanted ⟨raw, member, passes⟩
    obtain ⟨bounds, known, start, stop⟩ :=
      (mergeWatermarks_of_mem truthful member wanted).mpr ⟨answeredLow, answeredHigh⟩
    rw [← marks] at known
    have holds : log.Holds other raw := ⟨member, wanted, bounds, known, start, stop⟩
    refine sweeps.all raw holds passes ?_ ?_
    · refine ⟨LogSpan.nearEnd again.query.walk bounds, ?_, ?_⟩
      · simp only [PageRequest.origin, unpaged, Option.getD_none, PageRequest.fresh]
        exact (other.start_offsets _).mpr ⟨wanted, bounds, known, rfl⟩
      · generalize again.query.walk = walk
        cases walk <;> simp only [Ahead, LogSpan.nearEnd] <;> omega
    · have forward : again.query.direction = .forward := by simp [RecordQuery.direction, unpaged]
      rw [forward] at onward
      change page.nextCursor = _ at onward
      rw [ended] at onward
      obtain rfl : cursor = none := by simpa using onward.symm
      exact stands raw holds

end Page

namespace Sample

/-- A lookup that finds `offset` in each of `partitions` and fails for others. -/
def lookup (partitions : List Int) (offset : Int) : OffsetLookup where
  offsets _ := .ofList (partitions.map fun partition => (partition, offset))
  failure := some .timeout

/-- A topic whose partitions were all seen, with what each lookup found. -/
def broker (partitions : List Int) (lows highs : OffsetLookup) : Broker where
  cluster := "local"
  topology _ := some partitions
  topicMetadata _ := .ok partitions
  lowWatermarks _ _ := .ok lows
  highWatermarks _ _ := .ok highs
  offsetsForTimes _ _ _ := .ok fun _ => none

def limits : RecordLimits where
  maxLimit := 3
  nonzero := by decide
  minWindow := 10
  windowMultiplier := 2
  searchWindowMultiplier := 8

/-- One record in each of two partitions. -/
def pair : Log := .ofRecords [record 0 0 0, record 1 0 0] (by decide)

theorem found_lookup {partitions : List Int} {offset partition found : Int}
    (member : ((lookup partitions offset).found "orders")[partition]? = some found) :
    found = offset := by
  have functional : Maps.Functional (partitions.map fun partition => (partition, offset)) :=
    Maps.functional_map fun _ _ _ _ _ => rfl
  obtain ⟨_, _, same⟩ := List.mem_map.mp ((Maps.getElem?_ofList functional).mp member)
  exact (Prod.mk.inj same).2.symm

theorem truthful_pair (lows highs : List Int) :
    Broker.Truthful pair [0, 1] ((lookup lows 0).found "orders") ((lookup highs 1).found "orders") := by
  have both : ∀ partition ∈ [(0 : Int), 1], ∀ raw ∈ pair.records partition,
      (0 : Int) ≤ raw.offset ∧ raw.offset < 1 := by decide
  intro partition wanted
  exact ⟨0, 1, by decide, both partition wanted, fun _ => found_lookup, fun _ => found_lookup⟩

/-- The span of the two partitions where the highs of `answered` were found. -/
def pairSpan (answered : List Int) : LogSpan :=
  ⟨[0, 1], mergeWatermarks (lookup [0, 1] 0).found (lookup answered 1).found "orders"⟩

def readPair (answered : List Int) (polled : List RawRecord) : Except KafkaError RecordPage :=
  @readPage Crates.plain session (broker [0, 1] (lookup [0, 1] 0) (lookup answered 1))
    (request .oldest 3).query limits (polling [polled])

theorem delivered_pair {answered : List Int} {polled : List RawRecord}
    (inOrder : ∀ window ∈ ((request .oldest 3).initial (pairSpan answered)).windows,
      ofPartition window.partition [polled].flatten <+: pair.startingFrom window) :
    @PageRequest.Delivered Crates.plain (request .oldest 3) session (pairSpan answered)
      (polling [polled]) pair :=
  @PageRequest.delivered_polling Crates.plain _ rfl _ _ _ _ inOrder

end Sample

theorem complete_page_of_pair :
    ∃ page, Sample.readPair [0, 1] [Sample.record 0 0 0, Sample.record 1 0 0] = .ok page ∧
      @LeavesNothingOut Crates.plain (@PageRequest.pipeline (Sample.request .oldest 3) Sample.session)
        Sample.pair [0, 1] page := by
  have outcome : (Sample.readPair [0, 1] [Sample.record 0 0 0, Sample.record 1 0 0]).toOption.map
      (fun page => (page.complete, page.nextCursor)) = some (true, none) := by decide
  cases read : Sample.readPair [0, 1] [Sample.record 0 0 0, Sample.record 1 0 0] with
  | error error => simp [read, Except.toOption] at outcome
  | ok page =>
    simp only [read, Except.toOption, Option.map_some, Option.some.injEq, Prod.mk.injEq] at outcome
    refine ⟨page, rfl, (@complete_page_leaves_nothing_out_iff Crates.plain _ _ _ _ _ _
      (Sample.request .oldest 3) (Sample.pairSpan [0, 1]) Sample.pair (Sample.lookup [0, 1] 0)
      (Sample.lookup [0, 1] 1) read outcome.1 outcome.2 rfl rfl rfl rfl rfl rfl
      (Sample.truthful_pair _ _) (Sample.delivered_pair (by decide))).mpr ?_⟩
    rintro partition wanted _
    refine ⟨?_, ?_, by decide⟩
    · revert partition
      decide
    · revert partition
      decide

/-- The high watermark lookup fails for partition 1. The page says that it is
complete and has no cursor, and the record of partition 1 is not on it. -/
theorem complete_page_leaves_out_failed_partition :
    ∃ page, Sample.readPair [0] [Sample.record 0 0 0] = .ok page ∧ page.complete = true ∧
      page.nextCursor = none ∧
      @PageRequest.Delivered Crates.plain (Sample.request .oldest 3) Sample.session
        (Sample.pairSpan [0]) (polling [[Sample.record 0 0 0]]) Sample.pair ∧
      Broker.Truthful Sample.pair [0, 1] ((Sample.lookup [0, 1] 0).found "orders")
        ((Sample.lookup [0] 1).found "orders") ∧
      ¬ @LeavesNothingOut Crates.plain
        (@PageRequest.pipeline (Sample.request .oldest 3) Sample.session) Sample.pair [0, 1] page := by
  have outcome : (Sample.readPair [0] [Sample.record 0 0 0]).toOption.map
      (fun page => (page.complete, page.nextCursor, page.places)) = some (true, none, [(0, 0)]) := by
    decide
  cases read : Sample.readPair [0] [Sample.record 0 0 0] with
  | error error => simp [read, Except.toOption] at outcome
  | ok page =>
    simp only [read, Except.toOption, Option.map_some, Option.some.injEq, Prod.mk.injEq] at outcome
    refine ⟨page, rfl, outcome.1, outcome.2.1, Sample.delivered_pair (by decide),
      Sample.truthful_pair _ _, fun nothing => ?_⟩
    have listed := nothing 1 (by decide) (Sample.record 1 0 0) (by decide) (by decide)
    rw [outcome.2.2] at listed
    exact absurd listed (by decide)
end Klens.Scan
