import Klens.Scan.ExactlyOnce
import Klens.Scan.ReadProofs

/-! Time bounds. A bound is a seek: it turns a time into the first offset stamped
at or after it, and the query into an interval of offsets. What such an interval
keeps is what is stamped in range only where stamps rise enough with offsets. -/
namespace Klens.Scan
open Klens.Lib PageRequest

def TimestampRange.Holds (range : TimestampRange) (timestamp : Int) : Prop :=
  (∀ start ∈ range.from?, start ≤ timestamp) ∧ ∀ stop ∈ range.to?, timestamp ≤ stop

instance (range : TimestampRange) (timestamp : Int) : Decidable (range.Holds timestamp) :=
  inferInstanceAs (Decidable (_ ∧ _))

section Seeks

/-- The first offset of the partition stamped at or after `timestamp`. -/
def Log.firstAt (log : Log) (partition timestamp : Int) : Option Int :=
  ((log.records partition).find? fun raw => timestamp ≤ raw.timestamp).map RawRecord.offset

/-- How Kafka answers a seek: for every partition, with the first offset stamped
at or after the time, if there is one. -/
def Broker.SeeksTruly (broker : Broker) (log : Log) (topic : String) : Prop :=
  ∀ partitions timestamp found, broker.offsetsForTimes topic partitions timestamp = .ok found →
    ∀ partition ∈ partitions, found partition = some (log.firstAt partition timestamp)

/-- The seek lands at or before an offset just where something that far is
stamped late enough. -/
theorem Log.firstAt_le_iff {log : Log} {partition timestamp offset : Int} :
    (∃ first ∈ log.firstAt partition timestamp, first ≤ offset) ↔
      ∃ raw ∈ log.records partition, raw.offset ≤ offset ∧ timestamp ≤ raw.timestamp := by
  unfold firstAt
  have rising := log.rising partition
  generalize log.records partition = records at rising
  induction records with
  | nil => simp
  | cons raw records ih =>
    obtain ⟨before, rising⟩ := List.pairwise_cons.mp rising
    by_cases stamped : timestamp ≤ raw.timestamp
    · rw [List.find?_cons_of_pos (by simpa using stamped)]
      constructor
      · rintro ⟨first, same, far⟩
        obtain rfl := Option.some.inj same
        exact ⟨raw, List.mem_cons_self, far, stamped⟩
      · rintro ⟨other, member, far, _⟩
        refine ⟨raw.offset, rfl, ?_⟩
        rcases List.mem_cons.mp member with rfl | later
        · exact far
        · exact (before other later).le.trans far
    · rw [List.find?_cons_of_neg (by simpa using stamped)]
      refine (ih rising).trans ?_
      constructor
      · rintro ⟨other, member, rest⟩
        exact ⟨other, List.mem_cons_of_mem _ member, rest⟩
      · rintro ⟨other, member, far, late⟩
        rcases List.mem_cons.mp member with rfl | later
        · exact absurd late stamped
        · exact ⟨other, later, far, late⟩

theorem seek_spec {broker : Broker} {log : Log} {topic : String} {partitions : List Int}
    {timestamp : Option Int} {offsets : Option (Int → Option (Option Int))}
    (truly : broker.SeeksTruly log topic)
    (sought : seek broker topic partitions timestamp = .ok offsets) {partition : Int}
    (wanted : partition ∈ partitions) :
    (offsets.bind fun found => found partition) = timestamp.map (log.firstAt partition) := by
  cases timestamp with
  | none =>
    obtain rfl := Except.ok.inj sought
    rfl
  | some timestamp =>
    change (broker.offsetsForTimes topic partitions timestamp).map some = .ok offsets at sought
    cases answered : broker.offsetsForTimes topic partitions timestamp with
    | error error => simp [answered, Except.map] at sought
    | ok found =>
      rw [answered] at sought
      obtain rfl := Except.ok.inj sought
      exact truly partitions timestamp found answered partition wanted

/-- Inverted marks and the empty ones put in their place have no offset inside. -/
theorem inside_uninverted {marks : Watermarks} {offset : Int} :
    ((if marks.low > marks.high then { marks with low := marks.high } else marks).low ≤ offset ∧
        offset < (if marks.low > marks.high then { marks with low := marks.high } else marks).high) ↔
      marks.low ≤ offset ∧ offset < marks.high := by
  split
  · dsimp only
    omega
  · rfl

theorem inside_boundMarks {marks : Watermarks} {fromOffset toOffset : Option (Option Int)}
    {offset : Int} :
    ((boundMarks marks fromOffset toOffset).low ≤ offset ∧
        offset < (boundMarks marks fromOffset toOffset).high) ↔
      (marks.low ≤ offset ∧ offset < marks.high) ∧
        (∀ found ∈ fromOffset, ∃ first ∈ found, first ≤ offset) ∧
        ∀ found ∈ toOffset, ∀ first ∈ found, offset < first := by
  unfold boundMarks
  refine inside_uninverted.trans ?_
  rcases fromOffset with _ | _ | first <;> rcases toOffset with _ | _ | stop <;>
    simp <;> omega

def RecordQuery.untimed (query : RecordQuery) : RecordQuery :=
  { query with timestamps := .unbounded }

theorem resolveSpan_untimed {broker : Broker} {query : RecordQuery} {span whole : LogSpan}
    (resolved : resolveSpan broker query = .ok span)
    (untimed : resolveSpan broker query.untimed = .ok whole) :
    whole.partitions = span.partitions ∧
      windowWatermarks broker query span.partitions = .ok span.watermarks ∧
      ∃ byTopic, broker.watermarks query.topic span.partitions = .ok byTopic ∧
        whole.watermarks = byTopic query.topic := by
  obtain ⟨partitions, chosen, rest⟩ := Except.bind_ok resolved
  obtain ⟨watermarks, found, rest⟩ := Except.bind_ok rest
  obtain rfl := Except.ok.inj rest
  obtain ⟨others, again, rest⟩ := Except.bind_ok untimed
  obtain rfl : partitions = others := Except.ok.inj (chosen.symm.trans again)
  obtain ⟨marks, foundAgain, rest⟩ := Except.bind_ok rest
  obtain rfl := Except.ok.inj rest
  obtain ⟨byTopic, merged, rest⟩ := Except.bind_ok foundAgain
  exact ⟨rfl, found, byTopic, merged, (Except.ok.inj rest).symm⟩

theorem holds_resolved {broker : Broker} {query : RecordQuery} {span whole : LogSpan} {log : Log}
    (truly : broker.SeeksTruly log query.topic) (resolved : resolveSpan broker query = .ok span)
    (untimed : resolveSpan broker query.untimed = .ok whole) {raw : RawRecord} :
    log.Holds span raw ↔ log.Holds whole raw ∧
      (∀ start ∈ query.timestamps.startSeek,
        ∃ first ∈ log.firstAt raw.partition start, first ≤ raw.offset) ∧
      ∀ stop ∈ query.timestamps.endSeek,
        ∀ first ∈ log.firstAt raw.partition stop, raw.offset < first := by
  obtain ⟨covers, found, byTopic, merged, marks⟩ := resolveSpan_untimed resolved untimed
  obtain ⟨again, mergedAgain, rest⟩ := Except.bind_ok found
  obtain rfl := Except.ok.inj (merged.symm.trans mergedAgain)
  obtain ⟨fromOffsets, soughtFrom, rest⟩ := Except.bind_ok rest
  obtain ⟨toOffsets, soughtTo, rest⟩ := Except.bind_ok rest
  unfold Log.Holds
  rw [covers, marks]
  by_cases wanted : raw.partition ∈ span.partitions
  swap
  · simp [wanted]
  have start := seek_spec truly soughtFrom wanted
  have stop := seek_spec truly soughtTo wanted
  split at rest
  · rename_i neither
    obtain ⟨noStart, noStop⟩ := Bool.and_eq_true_iff.mp neither
    rw [Option.isNone_iff_eq_none.mp noStart, Option.isNone_iff_eq_none.mp noStop,
      Except.ok.inj rest]
    simp
  · rw [← Except.ok.inj rest]
    unfold applyTimestampBounds
    rw [start, stop]
    cases byTopic query.topic raw.partition with
    | none => simp
    | some marks =>
      simp only [Option.map_some, Option.some.injEq, exists_eq_left', inside_boundMarks,
        Option.mem_map, forall_exists_index, and_imp, forall_apply_eq_imp_iff₂]
      tauto

/-- Something at or before the record is stamped at or after the start, and
nothing is stamped after the end. -/
def TimestampRange.Reaches (range : TimestampRange) (log : Log) (raw : RawRecord) : Prop :=
  (∀ start ∈ range.from?, ∃ before ∈ log.records raw.partition,
    before.offset ≤ raw.offset ∧ start ≤ before.timestamp) ∧
  ∀ stop ∈ range.to?, ∀ before ∈ log.records raw.partition,
    before.offset ≤ raw.offset → before.timestamp ≤ stop

/-- The end of the range is a time, and no time comes near the ends of an `i64`. -/
def TimestampRange.Ranged (range : TimestampRange) : Prop :=
  ∀ stop ∈ range.to?, i64Min ≤ stop ∧ stop < i64Max

theorem endSeek_of_ranged {range : TimestampRange} (ranged : range.Ranged) :
    range.endSeek = range.to?.map (· + 1) := by
  unfold TimestampRange.endSeek
  refine Option.map_congr fun stop given => ?_
  have bounds := ranged stop given
  unfold saturatingAdd
  omega

theorem holds_resolved_iff {broker : Broker} {query : RecordQuery} {span whole : LogSpan} {log : Log}
    (ranged : query.timestamps.Ranged) (truly : broker.SeeksTruly log query.topic)
    (resolved : resolveSpan broker query = .ok span)
    (untimed : resolveSpan broker query.untimed = .ok whole) {raw : RawRecord} :
    log.Holds span raw ↔ log.Holds whole raw ∧ query.timestamps.Reaches log raw := by
  rw [holds_resolved truly resolved untimed, endSeek_of_ranged ranged]
  refine and_congr_right fun _ => and_congr ?_ ?_
  · exact forall₂_congr fun start _ => Log.firstAt_le_iff
  · simp only [Option.mem_map, forall_exists_index, and_imp, forall_apply_eq_imp_iff₂]
    refine forall₂_congr fun stop _ => ?_
    have beyond := not_congr (@Log.firstAt_le_iff log raw.partition (stop + 1) raw.offset)
    push Not at beyond
    rw [beyond]
    exact forall₃_congr fun before _ _ => Int.lt_add_one_iff

end Seeks

section Paging
variable [Crates]

/-- Over a fixed log, the pages from the first one on hold exactly the matching
records of the span. -/
theorem PageRequest.Follows.returned_all_iff {request : PageRequest} {session : ClusterSession}
    {fetches : List PageFetch} {log : Log} {span : LogSpan} (limit : 1 ≤ request.limit)
    (take : 1 ≤ request.take) (fixed : ∀ fetch ∈ fetches, fetch.log = log ∧ fetch.span = span)
    (followed : request.Follows session RecordPage.nextCursor none fetches) {place : Int × Int} :
    place ∈ returned fetches ↔ ∃ raw, raw.place = place ∧ log.Holds span raw ∧
      (request.pipeline session).passes raw := by
  cases fetches with
  | nil => exact followed.elim
  | cons first rest =>
    rw [← onward_forward request.query.order] at followed
    rw [followed.returned_iff (heading_fresh limit take) fixed]
    refine exists_congr fun raw => and_congr_right fun _ => ?_
    constructor
    · rintro ⟨holds, passes, _⟩
      exact ⟨holds, passes⟩
    · rintro ⟨holds, passes⟩
      have ⟨_, member, marks, known, low, high⟩ := holds
      refine ⟨holds, passes, unread_fresh member known ?_⟩
      generalize request.query.order = order
      cases order <;> simp only [Ahead, LogSpan.nearEnd] <;> omega

/-- The pages hold just the matching records of the log that are stamped in range. -/
def KeepsRange (pipeline : RecordPipeline) (log : Log) (whole : LogSpan) (range : TimestampRange)
    (fetches : List PageFetch) : Prop :=
  ∀ place, place ∈ returned fetches ↔ ∃ raw, raw.place = place ∧ log.Holds whole raw ∧
    pipeline.passes raw ∧ range.Holds raw.timestamp

/-- As far as the range can tell, stamps rise with offsets: no matching record
stamped too early comes after one stamped late enough, unless one stamped too
late cuts it off, and none stamped in range comes after one stamped too late. -/
structure InStep (pipeline : RecordPipeline) (log : Log) (whole : LogSpan) (range : TimestampRange) :
    Prop where
  early : ∀ raw, log.Holds whole raw → pipeline.passes raw → ∀ start ∈ range.from?,
    raw.timestamp < start →
      (∀ before ∈ log.records raw.partition, before.offset ≤ raw.offset → before.timestamp < start) ∨
      ∃ stop ∈ range.to?, ∃ before ∈ log.records raw.partition,
        before.offset ≤ raw.offset ∧ stop < before.timestamp
  late : ∀ raw, log.Holds whole raw → pipeline.passes raw → range.Holds raw.timestamp →
    ∀ stop ∈ range.to?, ∀ before ∈ log.records raw.partition,
      before.offset ≤ raw.offset → before.timestamp ≤ stop

theorem inStep_iff {pipeline : RecordPipeline} {log : Log} {whole : LogSpan}
    {range : TimestampRange} : InStep pipeline log whole range ↔
      ∀ raw, log.Holds whole raw → pipeline.passes raw →
        (range.Reaches log raw ↔ range.Holds raw.timestamp) := by
  constructor
  · rintro ⟨early, late⟩ raw holds passes
    constructor
    · rintro ⟨begun, unended⟩
      refine ⟨fun start given => ?_, fun stop given => unended stop given raw holds.1 (le_refl _)⟩
      by_contra tooEarly
      rcases early raw holds passes start given (not_le.mp tooEarly) with none_ | ⟨stop, ends, cut⟩
      · obtain ⟨before, member, far, stamped⟩ := begun start given
        exact absurd stamped (not_le.mpr (none_ before member far))
      · obtain ⟨before, member, far, stamped⟩ := cut
        exact absurd (unended stop ends before member far) (not_le.mpr stamped)
    · intro inRange
      exact ⟨fun start given => ⟨raw, holds.1, le_refl _, inRange.1 start given⟩,
        late raw holds passes inRange⟩
  · intro same
    constructor
    · intro raw holds passes start given tooEarly
      by_contra reached
      push Not at reached
      obtain ⟨⟨before, member, far, stamped⟩, unended⟩ := reached
      have reaches : range.Reaches log raw := by
        refine ⟨fun other also => ?_, unended⟩
        obtain rfl := Option.some.inj (given.symm.trans also)
        exact ⟨before, member, far, stamped⟩
      exact absurd (((same raw holds passes).mp reaches).1 start given) (not_le.mpr tooEarly)
    · intro raw holds passes inRange
      exact ((same raw holds passes).mpr inRange).2

theorem InStep.of_rising {pipeline : RecordPipeline} {log : Log} {whole : LogSpan}
    {range : TimestampRange}
    (rising : ∀ partition, (log.records partition).Pairwise (·.timestamp ≤ ·.timestamp)) :
    InStep pipeline log whole range := by
  have rises : ∀ {raw before : RawRecord}, raw ∈ log.records raw.partition →
      before ∈ log.records raw.partition → before.offset ≤ raw.offset →
        before.timestamp ≤ raw.timestamp := by
    intro raw before member earlier
    refine List.Pairwise.forall_of_forall_of_flip
      (R := fun a b : RawRecord => a.offset ≤ b.offset → a.timestamp ≤ b.timestamp)
      (fun _ _ _ => le_refl _) ?_ ?_ earlier member
    · refine (rising raw.partition).imp ?_
      exact fun le _ => le
    · exact (log.rising _).imp fun less le => absurd le (not_le.mpr less)
  constructor
  · intro raw holds _ start _ tooEarly
    exact .inl fun before member far => (rises holds.1 member far).trans_lt tooEarly
  · intro raw holds _ inRange stop given before member far
    exact (rises holds.1 member far).trans (inRange.2 stop given)

/-- Paging a query with time bounds to the end keeps what is stamped in range
just where stamps are in step with offsets. -/
theorem paging_keeps_range_iff (request : PageRequest) (session : ClusterSession) (broker : Broker)
    (log : Log) (whole : LogSpan) (fetches : List PageFetch) (limit : 1 ≤ request.limit)
    (take : 1 ≤ request.take) (ranged : request.query.timestamps.Ranged)
    (truly : broker.SeeksTruly log request.query.topic)
    (untimed : resolveSpan broker request.query.untimed = .ok whole)
    (fixed : ∀ fetch ∈ fetches,
      fetch.log = log ∧ resolveSpan broker request.query = .ok fetch.span)
    (followed : request.Follows session RecordPage.nextCursor none fetches) :
    KeepsRange (request.pipeline session) log whole request.query.timestamps fetches ↔
      InStep (request.pipeline session) log whole request.query.timestamps := by
  obtain ⟨first, rest, rfl⟩ : ∃ first rest, fetches = first :: rest := by
    cases fetches with
    | nil => exact followed.elim
    | cons first rest => exact ⟨first, rest, rfl⟩
  have resolved := (fixed first List.mem_cons_self).2
  have same : ∀ fetch ∈ first :: rest, fetch.log = log ∧ fetch.span = first.span :=
    fun fetch listed => ⟨(fixed fetch listed).1,
      Except.ok.inj ((fixed fetch listed).2.symm.trans resolved)⟩
  have kept : ∀ place, place ∈ returned (first :: rest) ↔ ∃ raw, raw.place = place ∧
      (log.Holds whole raw ∧ request.query.timestamps.Reaches log raw) ∧
        (request.pipeline session).passes raw := by
    intro place
    rw [followed.returned_all_iff limit take same]
    simp only [holds_resolved_iff ranged truly resolved untimed]
  rw [inStep_iff]
  constructor
  · intro keeps raw holds passes
    constructor
    · intro reaches
      obtain ⟨other, placed, held, _, inRange⟩ :=
        (keeps raw.place).mp ((kept raw.place).mpr ⟨raw, rfl, ⟨holds, reaches⟩, passes⟩)
      rwa [Log.eq_of_place held holds placed] at inRange
    · intro inRange
      obtain ⟨other, placed, ⟨held, reaches⟩, _⟩ :=
        (kept raw.place).mp ((keeps raw.place).mpr ⟨raw, rfl, holds, passes, inRange⟩)
      rwa [Log.eq_of_place held holds placed] at reaches
  · intro inStep place
    rw [kept]
    refine exists_congr fun raw => and_congr_right fun _ => ?_
    constructor
    · rintro ⟨⟨holds, reaches⟩, passes⟩
      exact ⟨holds, passes, (inStep raw holds passes).mp reaches⟩
    · rintro ⟨holds, passes, inRange⟩
      exact ⟨⟨holds, (inStep raw holds passes).mpr inRange⟩, passes⟩

end Paging

namespace Sample

/-- A broker that seeks truly in a log of one partition from offset 0 to `high`. -/
def timed (log : Log) (high : Int) : Broker :=
  { broker [0] (lookup [0] 0) (lookup [0] high) with
    offsetsForTimes := fun _ _ timestamp =>
      .ok fun partition => some (log.firstAt partition timestamp) }

theorem timed_truly (log : Log) (high : Int) : (timed log high).SeeksTruly log "orders" := by
  intro partitions timestamp found answered partition _
  obtain rfl := Except.ok.inj answered
  rfl

def between (from? to? : Option Int) : PageRequest :=
  { request .oldest 3 with
    query := { (request .oldest 3).query with timestamps := { from?, to? } } }

def wholeSpan (high : Int) : LogSpan :=
  ⟨[0], mergeWatermarks (lookup [0] 0).found (lookup [0] high).found "orders"⟩

def timedSpan (log : Log) (high : Int) (from? to? : Option Int) : LogSpan :=
  ⟨[0], applyTimestampBounds (wholeSpan high).watermarks
    (from?.map fun start partition => some (log.firstAt partition start))
    (to?.map fun stop partition => some (log.firstAt partition (stop + 1)))⟩

/-- Stamps that fall, and a page of what is stamped at 3 or after. -/
def falling : Log := .ofRecords [record 0 0 5, record 0 1 1] (by decide)

def fromThree : PageFetch :=
  fetch (between (some 3) none) none [record 0 0 5, record 0 1 1] (by decide)
    [record 0 0 5, record 0 1 1] (timedSpan falling 2 (some 3) none)

def climbing : Log := .ofRecords [record 0 0 1, record 0 1 4, record 0 2 9] (by decide)

def twoToFive : PageFetch :=
  fetch (between (some 2) (some 5)) none [record 0 0 1, record 0 1 4, record 0 2 9] (by decide)
    [record 0 1 4] (timedSpan climbing 3 (some 2) (some 5))

end Sample

/-- A record stamped before the range is on a page, as it comes after one that
is in the range. -/
theorem paging_keeps_early_record :
    (Sample.timed Sample.falling 2).SeeksTruly Sample.falling "orders" ∧
      resolveSpan (Sample.timed Sample.falling 2) (Sample.between (some 3) none).query =
        .ok Sample.fromThree.span ∧
      resolveSpan (Sample.timed Sample.falling 2) (Sample.between (some 3) none).query.untimed =
        .ok (Sample.wholeSpan 2) ∧
      @PageRequest.Follows Crates.plain (Sample.between (some 3) none) Sample.session
        RecordPage.nextCursor none [Sample.fromThree] ∧
      ¬ @KeepsRange Crates.plain
        (@PageRequest.pipeline (Sample.between (some 3) none) Sample.session) Sample.falling
        (Sample.wholeSpan 2)
        (Sample.between (some 3) none).query.timestamps [Sample.fromThree] := by
  refine ⟨Sample.timed_truly _ _, rfl, rfl,
    ⟨Sample.made (by decide) (by decide), by decide⟩, fun keeps => ?_⟩
  obtain ⟨raw, placed, holds, _, inRange⟩ := (keeps (0, 1)).mp (by decide)
  obtain ⟨partition, offset⟩ := Prod.mk.inj placed
  have early : ∀ raw ∈ Sample.falling.records 0, raw.offset = 1 → raw.timestamp < 3 := by decide
  have member := holds.1
  rw [partition] at member
  exact absurd (inRange.1 3 rfl) (not_le.mpr (early raw member offset))

theorem paging_keeps_range_climbing :
    (0, 1) ∈ returned [Sample.twoToFive] ∧ (0, 0) ∉ returned [Sample.twoToFive] := by
  have climbs : [Sample.record 0 0 1, Sample.record 0 1 4, Sample.record 0 2 9].Pairwise
      (·.timestamp ≤ ·.timestamp) := by decide
  have ranged : (Sample.between (some 2) (some 5)).query.timestamps.Ranged := by
    intro stop given
    obtain rfl := Option.some.inj given
    decide
  have fixed : ∀ fetch ∈ [Sample.twoToFive], fetch.log = Sample.climbing ∧ resolveSpan
      (Sample.timed Sample.climbing 3) (Sample.between (some 2) (some 5)).query = .ok fetch.span := by
    intro fetch listed
    obtain rfl := List.mem_singleton.mp listed
    exact ⟨rfl, rfl⟩
  have keeps := (@paging_keeps_range_iff Crates.plain (Sample.between (some 2) (some 5))
    Sample.session (Sample.timed Sample.climbing 3) Sample.climbing
    (Sample.wholeSpan 3) [Sample.twoToFive] (by decide) (by decide) ranged
    (Sample.timed_truly _ _) rfl fixed
    ⟨Sample.made (by decide) (by decide), by decide⟩).mpr
    (@InStep.of_rising Crates.plain _ _ _ _ fun partition =>
      climbs.filter fun raw : RawRecord => decide (raw.partition = partition))
  constructor
  · rw [keeps]
    refine ⟨Sample.record 0 1 4, rfl, ?_, by decide, by decide⟩
    exact ⟨by decide, by decide, ⟨0, 3⟩, by decide, by decide, by decide⟩
  · rw [keeps]
    rintro ⟨raw, placed, holds, _, inRange⟩
    obtain ⟨partition, offset⟩ := Prod.mk.inj placed
    have early : ∀ raw ∈ Sample.climbing.records 0, raw.offset = 0 → raw.timestamp < 2 := by decide
    have member := holds.1
    rw [partition] at member
    exact absurd (inRange.1 2 rfl) (not_le.mpr (early raw member offset))

end Klens.Scan
