import Klens.Scan.Standing

/-! A page of an orderly log. With windows at least as wide as the page is
long, the first records ahead of a cursor are all inside the windows, so the
page is the first stretch of the sorted log that the cursor has yet to read. -/
namespace Klens.Scan
open Klens.Lib

theorem length_of_offsets {records : List RawRecord} {start stop : Int}
    (all : ∀ offset, start ≤ offset → offset < stop → ∃ raw ∈ records, raw.offset = offset) :
    stop - start ≤ records.length := by
  have distinct : ((List.range (stop - start).toNat).map fun index : Nat => start + (index : Int)).Nodup :=
    List.nodup_range.map fun a b same => by simpa using same
  have contained : ∀ offset ∈ (List.range (stop - start).toNat).map fun index : Nat => start + (index : Int),
      offset ∈ records.map RawRecord.offset := by
    intro offset member
    obtain ⟨index, bound, rfl⟩ := List.mem_map.mp member
    have bound := List.mem_range.mp bound
    obtain ⟨raw, listed, same⟩ := all (start + index) (by omega) (by omega)
    exact List.mem_map.mpr ⟨raw, listed, same⟩
  have bound := (List.subperm_of_subset distinct contained).length_le
  simp only [List.length_map, List.length_range] at bound
  omega

section Windows
variable {log : Log} {span : LogSpan} {order walk : RecordOrder} {direction : CursorDirection}
  {take : Int} {origin : RecordCursor} {ahead : List RawRecord} {limit : Nat}

/-- A window that ends short of a record of its partition is `take` wide. -/
theorem window_width (walks : origin.walk = walk) {window : PartitionWindow}
    (listed : window ∈ span.windows walk take (some origin)) {raw : RawRecord}
    (holds : log.Holds span raw) (same : window.partition = raw.partition)
    (beyond : Ahead walk (window.far walk) raw.offset) : window.stop - window.start = take := by
  obtain ⟨partition, _, planned⟩ := LogSpan.mem_windows.mp listed
  obtain ⟨marks, boundary, known, _, rfl, near, far, _⟩ := (LogSpan.window_eq_some_iff walks).mp planned
  obtain ⟨_, _, others, otherKnown, low, high⟩ := holds
  rw [same] at known
  obtain rfl := Option.some.inj (known.symm.trans otherKnown)
  cases walk <;> simp only [PartitionWindow.near, PartitionWindow.far, clamped, LogSpan.reach, Ahead]
    at near far beyond <;> omega

/-- The first `limit` records ahead of a cursor lie in the windows cut at it. -/
theorem inWindow_of_first (orderly : Orderly log span) (wide : (limit : Int) ≤ take)
    (ranks : SortKey.walkOf order direction = walk)
    (stood : Stood log span order walk origin ahead)
    (ascending : ahead.Pairwise (RawRecord.Precedes order direction)) {raw : RawRecord}
    (first : raw ∈ ahead.take limit) {window : PartitionWindow}
    (listed : window ∈ span.windows walk take (some origin))
    (same : window.partition = raw.partition) : raw ∈ log.inWindow window := by
  obtain ⟨holds, unread⟩ := (stood.ahead raw).mp (List.mem_of_mem_take first)
  have near := (unread_iff_near stood.walks listed holds same).mp unread
  refine Log.mem_inWindow.mpr ⟨same ▸ holds.1, ?_⟩
  rw [window.mem_iff_ahead walk]
  refine ⟨near, fun beyond => ?_⟩
  have width := window_width stood.walks listed holds same beyond
  obtain ⟨inSpan, marks, _, known, _, low, _, high, _⟩ := window_facts stood.walks listed
  obtain ⟨index, bound, placed⟩ := List.mem_take_iff_getElem.mp first
  have placed : ahead[index]? = some raw := List.getElem?_eq_some_iff.mpr ⟨by omega, placed⟩
  -- every record of the window precedes `raw`, and there are `take` of them
  have many : window.stop - window.start ≤ (ahead.take index).length := by
    refine length_of_offsets fun offset start stop => ?_
    obtain ⟨early, earlyHolds, partition, rfl⟩ :=
      orderly.holds inSpan known (show marks.low ≤ offset by omega) (by omega)
    have entered := ((window.mem_iff_ahead walk _).mp ⟨start, stop⟩)
    have earlyUnread := (unread_iff_near stood.walks listed earlyHolds partition.symm).mpr entered.1
    have before : early.Precedes order direction raw := by
      refine orderly.precedes earlyHolds holds (partition.trans same) ?_
      rw [ranks]
      have passed := entered.2
      cases walk <;> simp only [Ahead] at passed beyond ⊢ <;> omega
    refine ⟨early, ?_, rfl⟩
    exact mem_take_of_before ascending placed ((stood.ahead early).mpr ⟨earlyHolds, earlyUnread⟩) before
  have short := List.length_take_le index ahead
  omega

end Windows

section Pass
variable {log : Log} {windows : List PartitionWindow} {seen : List RawRecord} {scan : WindowScan}
  {ranked : List (Ranked RawRecord)} {span : LogSpan}

theorem Reads.own_key (reads : Reads log windows seen scan ranked) (orderly : Orderly log span)
    (held : ∀ entry ∈ ranked, log.Holds span entry.2) {entry : Ranked RawRecord}
    (member : entry ∈ ranked) : entry.1 = entry.2.sortKey := by
  obtain ⟨partition, offset⟩ := reads.keyed.placed entry member
  obtain ⟨least, other, listed, samePartition, before, stamp⟩ := reads.keyed.source entry member
  have most := orderly.timestamp_le (held other listed) (held entry member) samePartition before
  obtain ⟨⟨timestamp, _, _⟩, raw⟩ := entry
  simp only [RawRecord.sortKey, SortKey.mk.injEq] at partition offset least stamp most ⊢
  exact ⟨by omega, partition, offset⟩

variable [Crates] {pipeline : RecordPipeline} {order walk : RecordOrder}
  {direction : CursorDirection} {take : Int} {origin : RecordCursor} {limit : Nat}
  {kept : List (Int × Int)} {ahead : List RawRecord}

namespace PassMade

theorem placed (pass : PassMade pipeline log span walk take origin scan ranked limit kept)
    (opened : Placed span origin.remaining.offsets) :
    Placed span (movedTo span walk take origin scan limit kept) := by
  have moved : ∀ partition, (∃ window ∈ span.windows walk take (some origin),
        window.partition = partition) ∨
      (movedTo span walk take origin scan limit kept)[partition]? =
        origin.remaining.offsets[partition]? := by
    intro partition
    by_cases planned : ∃ window ∈ span.windows walk take (some origin), window.partition = partition
    · exact .inl planned
    · exact .inr (movedTo_of_no_window fun window listed same => planned ⟨window, listed, same⟩)
  constructor
  · intro partition
    rcases moved partition with ⟨window, listed, rfl⟩ | same
    · obtain ⟨inSpan, marks, _, known, _⟩ := window_facts pass.walks listed
      simp [movedTo_window _ _ _ pass.walks listed, inSpan, known]
    · rw [same]
      exact opened.domain partition
  · intro partition boundary marks found known
    rcases moved partition with ⟨window, listed, rfl⟩ | same
    · obtain ⟨_, others, _, otherKnown, _, low, nonempty, high, _⟩ := window_facts pass.walks listed
      obtain rfl := Option.some.inj (known.symm.trans otherKnown)
      suffices window.start ≤ boundary ∧ boundary ≤ window.stop by omega
      rw [movedTo_window _ _ _ pass.walks listed] at found
      obtain rfl := Option.some.inj found
      have edges : (window.start ≤ window.near walk ∧ window.near walk ≤ window.stop) ∧
          window.start ≤ window.far walk ∧ window.far walk ≤ window.stop := by
        cases walk <;> simp only [PartitionWindow.near, PartitionWindow.far] <;> omega
      split
      · have furthest := pastFurthest_spec walk kept window.partition
        generalize (pastFurthest walk kept)[window.partition]? = edge at furthest ⊢
        cases furthest with
        | nowhere => exact edges.1
        | «at» last member _ =>
          have inside := pass.kept_inside listed member
          cases walk <;> simp only [past, Option.getD_some] <;> omega
      · split
        · exact edges.2
        · exact edges.1
    · rw [same] at found
      exact opened.within partition boundary marks found known

/-- A finished pass accepts the first records ahead of it, and of what it
accepts they are the best. -/
theorem best (pass : PassMade pipeline log span walk take origin scan ranked limit kept)
    (complete : scan.remaining.isEmpty) (orderly : Orderly log span) (wide : (limit : Int) ≤ take)
    (ranks : SortKey.walkOf order direction = walk) (stood : Stood log span order walk origin ahead)
    (ascending : ahead.Pairwise (RawRecord.Precedes order direction)) :
    Best (RawRecord.Precedes order direction) limit (ranked.map Prod.snd) (ahead.take limit) := by
  obtain ⟨seen, reads⟩ := pass.reads
  have done := reads.isEmpty_iff.mp complete
  refine Best.of_first ascending ?_ ?_ ?_
  · refine List.pairwise_map.mpr (reads.keyed.rising.imp ?_)
    intro first second rises same
    have less := (rises (by rw [same])).1
    rw [same] at less
    exact lt_irrefl _ less
  · intro raw accepted
    obtain ⟨entry, member, rfl⟩ := List.mem_map.mp accepted
    obtain ⟨window, listed, same, inside⟩ := reads.accepted_inWindow member
    exact (stood.ahead _).mpr (of_inWindow pass.walks listed same inside)
  · intro raw first
    obtain ⟨holds, unread⟩ := (stood.ahead raw).mp (List.mem_of_mem_take first)
    obtain ⟨window, listed, same⟩ := window_of_unread pass.walks pass.positive holds unread
    have inside := inWindow_of_first orderly wide ranks stood ascending first listed same
    obtain ⟨entry, member, rfl⟩ := reads.accepted_of_completed listed (done window listed) inside
    exact List.mem_map_of_mem member

end PassMade

def RecordPipeline.offer (pipeline : RecordPipeline) (raw : RawRecord) : Ranked Kept :=
  (raw.sortKey, .pending (pipeline.hidden raw))

theorem PassMade.found (pass : PassMade pipeline log span walk take origin scan ranked limit kept)
    (complete : scan.remaining.isEmpty) (orderly : Orderly log span) (wide : (limit : Int) ≤ take)
    (unfiltered : pipeline.stages.filter = none) {found : RecordBatch Kept}
    (collects : found.Collects (ranked.filterMap pipeline.offers))
    (shape : found.shape = (limit, order, direction)) (ranks : SortKey.walkOf order direction = walk)
    (stood : Stood log span order walk origin ahead)
    (ascending : ahead.Pairwise (RawRecord.Precedes order direction)) :
    found.ranked = (ahead.take limit).map pipeline.offer := by
  obtain ⟨seen, reads⟩ := pass.reads
  have held : ∀ entry ∈ ranked, log.Holds span entry.2 := by
    intro entry member
    obtain ⟨window, listed, same, inside⟩ := reads.accepted_inWindow member
    exact (of_inWindow pass.walks listed same inside).1
  have offered : ranked.filterMap pipeline.offers = (ranked.map Prod.snd).map pipeline.offer := by
    rw [List.map_map, ← List.filterMap_eq_map]
    refine List.filterMap_congr fun entry member => ?_
    unfold RecordPipeline.offers
    rw [pipeline.keeps_unfiltered unfiltered, reads.own_key orderly held member]
    rfl
  obtain ⟨sameLimit, sameOrder, sameDirection⟩ :
      found.limit = limit ∧ found.order = order ∧ found.direction = direction := by
    simpa [RecordBatch.shape] using shape
  have first := collects.best
  rw [sameLimit, sameOrder, sameDirection, offered] at first
  exact first.unique ((pass.best complete orderly wide ranks stood ascending).map pipeline.offer id)

end Pass

/-- Records read in `direction`, turned to the order of the page. -/
def CursorDirection.along {α : Type} (direction : CursorDirection) (records : List α) : List α :=
  match direction with
  | .forward => records
  | .backward => records.reverse

theorem CursorDirection.along_ascending {order : RecordOrder} {direction : CursorDirection}
    {records : List RawRecord} (ascending : records.Pairwise (RawRecord.Precedes order direction)) :
    (direction.along records).Pairwise (RawRecord.Precedes order .forward) := by
  cases direction with
  | forward => exact ascending
  | backward => exact List.pairwise_reverse.mpr ascending

theorem CursorDirection.along_perm {α : Type} (direction : CursorDirection) (records : List α) :
    (direction.along records).Perm records := by
  cases direction with
  | forward => exact .refl _
  | backward => exact List.reverse_perm _

/-- The text of the cursor with `ahead` to read, none when there is nothing. -/
def Handed (log : Log) (span : LogSpan) (order walk : RecordOrder) (ahead : List RawRecord) :
    Option String → Prop
  | none => ahead = []
  | some text => ahead ≠ [] ∧ ∃ cursor : RecordCursor, text = cursor.display ∧
      Stood log span order walk cursor ahead

theorem Handed.unique {log : Log} {span : LogSpan} {order walk : RecordOrder}
    {ahead : List RawRecord} (orderly : Orderly log span) {first second : Option String}
    (one : Handed log span order walk ahead first) (two : Handed log span order walk ahead second) :
    first = second := by
  cases first with
  | none =>
    cases second with
    | none => rfl
    | some other => exact absurd one two.1
  | some text =>
    cases second with
    | none => exact absurd two one.1
    | some other =>
      obtain ⟨_, cursor, rfl, here⟩ := one
      obtain ⟨_, again, rfl, there⟩ := two
      rw [here.unique orderly there]

theorem Stood.handed_back {log : Log} {span : LogSpan} {order walk : RecordOrder}
    {cursor : RecordCursor} {ahead behind : List RawRecord} (orderly : Orderly log span)
    (stood : Stood log span order walk cursor ahead)
    (rest : ∀ raw, raw ∈ behind ↔ log.Holds span raw ∧ raw ∉ ahead) :
    Handed log span order walk.flipped behind ((span.rewind cursor).map RecordCursor.display) := by
  have turned := stood.turn orderly rest
  generalize span.rewind cursor = result at turned
  cases result with
  | none => exact turned
  | some back => exact ⟨turned.1, back, rfl, turned.2⟩

/-- After a sweep that kept the first `limit` records ahead, the rest are. -/
theorem Sweeps.mem_drop [Crates] {pipeline : RecordPipeline} {log : Log} {span : LogSpan}
    {walk : RecordOrder} {before after : Offsets} {kept : List (Int × Int)} {limit : Nat}
    {ahead : List RawRecord} (sweeps : Sweeps pipeline log span walk before after kept)
    (passes : ∀ raw, pipeline.passes raw)
    (opened : ∀ raw, raw ∈ ahead ↔ log.Holds span raw ∧ Unread walk before raw)
    (distinct : ahead.Nodup) (first : kept = (ahead.take limit).map RawRecord.place)
    (raw : RawRecord) : raw ∈ ahead.drop limit ↔ log.Holds span raw ∧ Unread walk after raw := by
  subst first
  constructor
  · intro late
    obtain ⟨holds, unread⟩ := (opened raw).mp (List.mem_of_mem_drop late)
    refine ⟨holds, ?_⟩
    by_contra behind
    obtain ⟨early, listed, same⟩ := List.mem_map.mp (sweeps.all raw holds (passes raw) unread behind)
    have earlyHolds := ((opened early).mp (List.mem_of_mem_take listed)).1
    obtain rfl := Log.eq_of_place earlyHolds holds same
    exact List.disjoint_take_drop distinct (le_refl limit) listed late
  · rintro ⟨holds, unread⟩
    have listed := (opened raw).mpr ⟨holds, sweeps.onward raw unread⟩
    rw [← List.take_append_drop limit ahead] at listed
    refine (List.mem_append.mp listed).resolve_left fun early => ?_
    obtain ⟨other, same, otherHolds, _, _, behind⟩ :=
      sweeps.swept raw.place (List.mem_map_of_mem early)
    obtain rfl := Log.eq_of_place otherHolds holds same
    exact behind unread

namespace PageRequest

theorem Stands.handed {request : PageRequest} {log : Log} {span : LogSpan} {boundaries : Offsets}
    {cursor : Option RecordCursor} {rest : List RawRecord} (orderly : Orderly log span)
    (stands : request.Stands span log boundaries cursor) (placed : Placed span boundaries)
    (ahead : ∀ raw, raw ∈ rest ↔ log.Holds span raw ∧ Unread request.query.walk boundaries raw) :
    Handed log span request.query.order request.query.walk rest
      (cursor.map RecordCursor.display) := by
  cases cursor with
  | none =>
    refine List.eq_nil_iff_forall_not_mem.mpr fun raw member => ?_
    obtain ⟨holds, unread⟩ := (ahead raw).mp member
    exact stands raw holds unread
  | some cursor =>
    obtain ⟨order, walks, offsets, partition, boundary, found, unread⟩ := stands
    have same : cursor.remaining.offsets = boundaries := by
      refine Std.ExtTreeMap.ext_getElem? fun partition => ?_
      rw [offsets]
      split
      · rfl
      · rename_i unknown
        cases there : boundaries[partition]? with
        | none => rfl
        | some boundary =>
          exact absurd ((placed.domain partition).mp (by simp [there])).2 unknown
    refine ⟨?_, cursor, rfl, order, walks, same ▸ placed, same ▸ ahead⟩
    obtain ⟨raw, holds, later⟩ := placed.exists_unread orderly found unread
    exact List.ne_nil_of_mem ((ahead raw).mpr ⟨holds, later⟩)

variable [Crates]

/-- What an unfiltered page shows of a record. -/
def shown (request : PageRequest) (session : ClusterSession) (raw : RawRecord) : Record :=
  ((request.pipeline session).finished
    (.pending ((request.pipeline session).hidden raw))).intoRecord request.query.topic

omit [Crates] in
theorem sortKept_pending (pipeline : RecordPipeline) (order : RecordOrder) (records : List RawRecord) :
    sortKept order (records.map fun raw => .pending (pipeline.hidden raw)) =
      (records.insertionSort (RawRecord.notAfter order)).map
        fun raw => .pending (pipeline.hidden raw) := by
  have key : ∀ raw, (pipeline.hidden raw).sortKey = raw.sortKey := by
    intro raw
    unfold RecordPipeline.hidden
    split <;> rfl
  refine (List.map_insertionSort _ _ _ _ fun left _ right _ => ?_).symm
  unfold RawRecord.notAfter
  simp only [Kept.raw, key]

theorem fetch_ordered {request : PageRequest} {session : ClusterSession} {span : LogSpan}
    {schedule : Schedule} {log : Log} {page : RecordPage} (valid : request.Valid)
    (unfiltered : request.query.filter = none) (wide : (request.limit : Int) ≤ request.take)
    (orderly : Orderly log span) (delivered : request.Delivered session span schedule log)
    (fetched : request.fetch session span schedule = .ok page) (complete : page.complete = true)
    {ahead : List RawRecord}
    (stood : Stood log span request.query.order request.query.walk
      (request.origin span request.query.cursor) ahead)
    (ascending : ahead.Pairwise
      (RawRecord.Precedes request.query.order request.query.direction)) :
    page.records = (request.query.direction.along (ahead.take request.limit)).map
        (request.shown session) ∧
      Handed log span request.query.order request.query.walk (ahead.drop request.limit)
        (page.onward request.query.direction) := by
  rcases fetch_spec valid delivered fetched with
    ⟨empty, rfl⟩ | ⟨earlier, used, mid, last, found, kept, opened⟩
  · obtain rfl : ahead = [] := List.eq_nil_iff_forall_not_mem.mpr fun raw member =>
      nothing_unread valid empty ((stood.ahead raw).mp member).1 ((stood.ahead raw).mp member).2
    rw [List.take_nil, List.drop_nil]
    cases request.query.direction <;> exact ⟨rfl, rfl⟩
  · obtain ⟨rfl, rfl, rfl⟩ := opened.single unfiltered
    obtain ⟨after, stop, lastPass⟩ := opened.pass
    have whole : (((schedule.pass 0).reading (request.initial span)).1).remaining.isEmpty :=
      opened.complete ▸ complete
    have done := lastPass.done
    have made := done.made
    have ranked : found.ranked = (ahead.take request.limit).map (request.pipeline session).offer :=
      made.found whole orderly wide unfiltered done.collects done.shape (walkOf_query valid) stood
        ascending
    obtain ⟨stands, lastKept, _⟩ := lastPass.stands
    have keptEq : last.kept = (ahead.take request.limit).map
        fun raw => .pending ((request.pipeline session).hidden raw) := by
      have values : found.intoSorted = found.ranked.map Prod.snd := by
        simp [RecordBatch.intoSorted, RecordBatch.ranked]
      rw [lastKept, values, ranked, List.map_map]
      rfl
    have shownAscending := CursorDirection.along_ascending
      (ascending.sublist (List.take_sublist request.limit ahead))
    constructor
    · rw [opened.assembled.records, keptEq, sortKept_pending, RawRecord.insertionSort_eq
        (CursorDirection.along_perm _ _).symm shownAscending, RecordPipeline.render_eq, List.map_map]
      rfl
    · rw [opened.assembled.onward]
      refine stands.handed orderly (made.placed stood.placed) fun raw => ?_
      refine (made.sweeps whole).mem_drop ?_ stood.ahead ascending.nodup ?_ raw
      · intro raw
        have keeps := (request.pipeline session).keeps_unfiltered unfiltered raw
        simp [RecordPipeline.passes, keeps]
      · rw [ranked, places, List.map_map]
        rfl

end PageRequest
end Klens.Scan
