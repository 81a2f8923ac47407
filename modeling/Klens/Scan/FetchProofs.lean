import Klens.Lib.Except
import Klens.Scan.CursorProofs
import Klens.Scan.PageProofs

/-! A fetch as a sequence of passes. `Sweeps` is what complete passes do: the
places kept are exactly those of the matching records between the boundaries
before and the boundaries after. -/
namespace Klens.Scan
open Klens.Lib

section Run
variable [Crates] {pipeline : RecordPipeline} {log : Log}

theorem run_spec {walk : RecordOrder} {state : Progress} {schedule : PassSchedule}
    {batch found : RecordBatch Kept} {outcome : ScanOutcome} {assigned : List PartitionWindow}
    {cut : Bool} (planned : Planned state.windows)
    (delivers : Delivers log state.windows schedule.turns) (empty : batch.Collects [])
    (ran : run pipeline walk state.assigned state.windows batch schedule =
      .ok (outcome, found, assigned, cut)) :
    (∃ seen, Reads log state.windows seen (schedule.reading state).1 (schedule.reading state).2) ∧
      outcome = (schedule.reading state).1.outcome state.windows walk ∧
      found.Collects ((schedule.reading state).2.filterMap pipeline.offers) ∧
      found.shape = batch.shape ∧
      (cut = false ↔ (schedule.reading state).1.remaining.isEmpty) := by
  have start := Reads.start log planned
  have nothing : (WindowScan.new state.windows).planned = 0 →
      (WindowScan.new state.windows).remaining.isEmpty := by
    intro zero
    change (WindowScan.new state.windows).remaining.size = 0 at zero
    rw [Std.ExtTreeMap.eq_empty_iff_size_eq_zero.mpr zero]
    rfl
  unfold run at ran
  unfold PassSchedule.reading
  dsimp only at ran
  split at ran
  · rename_i zero
    cases ran
    have idle : ∀ turns, accepting turns (WindowScan.new state.windows, []) =
        (WindowScan.new state.windows, []) := by
      intro turns
      unfold accepting
      rw [if_pos (nothing zero)]
    split
    · rw [idle]
      exact ⟨⟨[], start⟩, rfl, empty, rfl, by simp [nothing zero]⟩
    · exact ⟨⟨[], start⟩, rfl, empty, rfl, by simp [nothing zero]⟩
  · rename_i some
    split at ran
    · contradiction
    · rename_i late
      cases ran
      rw [late]
      refine ⟨⟨[], start⟩, rfl, empty, rfl, ?_⟩
      have more : (WindowScan.new state.windows).remaining.isEmpty = false := by
        rw [← Bool.not_eq_true, Std.ExtTreeMap.isEmpty_iff]
        intro empty
        exact some (Std.ExtTreeMap.eq_empty_iff_size_eq_zero.mp empty)
      simp [more]
    · rename_i moved
      rw [moved]
      obtain ⟨⟨last, kept, wasCut⟩, turned, rest⟩ := Except.bind_ok ran
      cases rest
      have delivered : ∀ window ∈ state.windows, ofPartition window.partition
          ([] ++ delivered schedule.turns) <+: log.startingFrom window := by
        simpa using delivers.inOrder
      obtain ⟨rfl, collects, shape, cutIff⟩ :=
        runTurns_spec pipeline start empty delivered delivers.idle turned
      exact ⟨start.accepting schedule.turns delivered delivers.idle, rfl, collects, shape, cutIff⟩

end Run

theorem Log.eq_of_place {log : Log} {span : LogSpan} {first second : RawRecord}
    (one : log.Holds span first) (two : log.Holds span second) (same : first.place = second.place) :
    first = second := by
  obtain ⟨partition, offset⟩ := Prod.mk.inj same
  have inLog : first ∈ log.records second.partition := partition ▸ one.1
  refine List.Pairwise.forall_of_forall_of_flip
    (R := fun a b : RawRecord => a.offset = b.offset → a = b) (fun _ _ _ => rfl) ?_ ?_ inLog two.1
    offset
  · exact (log.rising _).imp fun less same => absurd same (ne_of_lt less)
  · exact (log.rising _).imp fun less same => absurd same.symm (ne_of_lt less)

theorem unread_restrict {span : LogSpan} {walk : RecordOrder} {boundaries restricted : Offsets}
    (same : ∀ partition, restricted[partition]? =
      if (span.watermarks partition).isSome then boundaries[partition]? else none)
    (raw : RawRecord) : Unread walk restricted raw ↔
      Unread walk boundaries raw ∧ (span.watermarks raw.partition).isSome := by
  unfold Unread
  rw [same]
  by_cases known : (span.watermarks raw.partition).isSome
  · simp [known]
  · simp [known]

/-- The records swept between two sets of boundaries, and the places kept of them. -/
structure Sweeps [Crates] (pipeline : RecordPipeline) (log : Log) (span : LogSpan)
    (walk : RecordOrder) (before after : Offsets) (kept : List (Int × Int)) : Prop where
  distinct : kept.Nodup
  domain : ∀ partition : Int, after[partition]?.isSome → before[partition]?.isSome
  onward : ∀ raw, Unread walk after raw → Unread walk before raw
  beyond : ∀ raw marks, span.watermarks raw.partition = some marks →
    Beyond walk marks raw.offset → Unread walk before raw → Unread walk after raw
  swept : ∀ place ∈ kept, ∃ raw, raw.place = place ∧ log.Holds span raw ∧ pipeline.passes raw ∧
    Unread walk before raw ∧ ¬ Unread walk after raw
  all : ∀ raw, log.Holds span raw → pipeline.passes raw → Unread walk before raw →
    ¬ Unread walk after raw → raw.place ∈ kept

namespace Sweeps
variable [Crates] {pipeline : RecordPipeline} {log : Log} {span : LogSpan} {walk : RecordOrder}
  {first second third : Offsets} {kept more : List (Int × Int)}

theorem refl (boundaries : Offsets) : Sweeps pipeline log span walk boundaries boundaries [] where
  distinct := .nil
  domain _ known := known
  onward _ unread := unread
  beyond _ _ _ _ unread := unread
  swept := by simp
  all _ _ _ unread behind := absurd unread behind

theorem perm (sweeps : Sweeps pipeline log span walk first second kept) (same : kept.Perm more) :
    Sweeps pipeline log span walk first second more where
  distinct := same.nodup_iff.mp sweeps.distinct
  domain := sweeps.domain
  onward := sweeps.onward
  beyond := sweeps.beyond
  swept place member := sweeps.swept place (same.mem_iff.mpr member)
  all raw holds passes unread behind := same.mem_iff.mp (sweeps.all raw holds passes unread behind)

theorem trans (one : Sweeps pipeline log span walk first second kept)
    (two : Sweeps pipeline log span walk second third more) :
    Sweeps pipeline log span walk first third (kept ++ more) where
  distinct := by
    refine List.nodup_append.mpr ⟨one.distinct, two.distinct, ?_⟩
    intro place early other late same
    subst same
    obtain ⟨raw, rawPlace, rawHolds, _, _, behind⟩ := one.swept place early
    obtain ⟨again, againPlace, againHolds, _, unread, _⟩ := two.swept place late
    obtain rfl := Log.eq_of_place rawHolds againHolds (rawPlace.trans againPlace.symm)
    exact behind unread
  domain partition known := one.domain partition (two.domain partition known)
  onward raw unread := one.onward raw (two.onward raw unread)
  beyond raw marks known far unread :=
    two.beyond raw marks known far (one.beyond raw marks known far unread)
  swept place member := by
    rcases List.mem_append.mp member with early | late
    · obtain ⟨raw, placed, holds, passes, unread, behind⟩ := one.swept place early
      exact ⟨raw, placed, holds, passes, unread, fun later => behind (two.onward raw later)⟩
    · obtain ⟨raw, placed, holds, passes, unread, behind⟩ := two.swept place late
      exact ⟨raw, placed, holds, passes, one.onward raw unread, behind⟩
  all raw holds passes unread behind := by
    by_cases middle : Unread walk second raw
    · exact List.mem_append_right _ (two.all raw holds passes middle behind)
    · exact List.mem_append_left _ (one.all raw holds passes unread middle)

/-- Boundaries without the partitions the span has no marks for sweep alike. -/
theorem restrict (sweeps : Sweeps pipeline log span walk first second kept)
    (same : ∀ partition, third[partition]? =
      if (span.watermarks partition).isSome then second[partition]? else none) :
    Sweeps pipeline log span walk first third kept where
  distinct := sweeps.distinct
  domain partition known := by
    refine sweeps.domain partition ?_
    rw [same] at known
    split at known
    · exact known
    · contradiction
  onward raw unread := sweeps.onward raw ((unread_restrict same raw).mp unread).1
  beyond raw marks known far unread :=
    (unread_restrict same raw).mpr ⟨sweeps.beyond raw marks known far unread, by simp [known]⟩
  swept place member := by
    obtain ⟨raw, placed, holds, passes, unread, behind⟩ := sweeps.swept place member
    refine ⟨raw, placed, holds, passes, unread, fun later => behind ?_⟩
    exact ((unread_restrict same raw).mp later).1
  all raw holds passes unread behind := by
    refine sweeps.all raw holds passes unread fun later => behind ?_
    obtain ⟨_, _, marks, known, _⟩ := holds
    exact (unread_restrict same raw).mpr ⟨later, by simp [known]⟩

end Sweeps

/-- A pass that finished its windows sweeps up to the boundaries it leaves. -/
theorem PassMade.sweeps [Crates] {pipeline : RecordPipeline} {log : Log} {span : LogSpan}
    {walk : RecordOrder} {take : Int} {origin : RecordCursor} {scan : WindowScan}
    {ranked : List (Ranked RawRecord)} {limit : Nat} {kept : List (Int × Int)}
    (pass : PassMade pipeline log span walk take origin scan ranked limit kept)
    (complete : scan.remaining.isEmpty) :
    Sweeps pipeline log span walk origin.remaining.offsets
      (movedTo span walk take origin scan limit kept) kept := by
  obtain ⟨seen, reads⟩ := pass.reads
  have done := reads.isEmpty_iff.mp complete
  have completed : ∀ raw, log.Holds span raw → Unread walk origin.remaining.offsets raw →
      raw.partition ∈ scan.completed := by
    intro raw holds unread
    obtain ⟨window, listed, same⟩ := window_of_unread pass.walks pass.positive holds unread
    exact same ▸ done window listed
  refine ⟨pass.holding.distinct, fun partition => pass.origin_of_moved, fun raw => pass.unread_of_moved,
    fun raw marks known beyond => pass.moved_of_beyond known beyond, ?_, ?_⟩
  · intro place member
    obtain ⟨raw, rfl, holds, passes, unread, _⟩ := pass.kept_unread member
    exact ⟨raw, rfl, holds, passes, unread,
      pass.kept_behind member (.inr (completed raw holds unread))⟩
  · intro raw holds passes unread behind
    have accepted := pass.accepted_of_passed_over holds unread behind
      (.inr (.inl (completed raw holds unread)))
    exact pass.kept_of_passed_over holds unread behind accepted passes

namespace PageRequest

/-- A request as `PageRequest::new` and `validate_for` let it through. -/
structure Valid (request : PageRequest) : Prop where
  limit : 1 ≤ request.limit
  take : 1 ≤ request.take
  order : ∀ cursor, request.query.cursor = some cursor → cursor.order = request.query.order

/-- The cursor a pass starts from, the fresh one when there is none. -/
def origin (request : PageRequest) (span : LogSpan) (cursor : Option RecordCursor) : RecordCursor :=
  cursor.getD (request.fresh span)

/-- A batch ranks along the walk of the page. -/
theorem walkOf_query {request : PageRequest} (valid : request.Valid) :
    SortKey.walkOf request.query.order request.query.direction = request.query.walk := by
  unfold RecordQuery.walk RecordQuery.direction
  cases given : request.query.cursor with
  | none => rfl
  | some cursor =>
    have order := valid.order cursor given
    simp only [Option.map_some, Option.getD_some, RecordCursor.direction]
    split
    · rename_i same
      simp only [SortKey.walkOf]
      rw [same, order]
    · rename_i different
      rw [order] at different
      simp only [SortKey.walkOf]
      generalize cursor.walk = walk at different
      generalize request.query.order = asked at different
      cases walk <;> cases asked <;> simp_all [RecordOrder.flipped]

/-- A state the loop starts a pass in. -/
structure Ready (request : PageRequest) (span : LogSpan) (state : Progress) : Prop where
  walks : (request.origin span state.cursor).walk = request.query.walk
  order : (request.origin span state.cursor).order = request.query.order
  windows : state.windows = span.windows request.query.walk request.take
    (some (request.origin span state.cursor))
  room : state.kept.length < request.limit

theorem windows_origin (request : PageRequest) (span : LogSpan) (cursor : Option RecordCursor) :
    span.windows request.query.walk request.take cursor =
      span.windows request.query.walk request.take (some (request.origin span cursor)) := by
  cases cursor with
  | none => exact span.windows_none request.query.order request.query.walk request.take
  | some cursor => rfl

theorem origin_walk (request : PageRequest) (span : LogSpan) :
    (request.origin span request.query.cursor).walk = request.query.walk := by
  unfold origin RecordQuery.walk
  cases given : request.query.cursor with
  | none => simp [fresh, RecordCursor.walk, LogSpan.start, RecordQuery.walk, given]
  | some cursor => rfl

theorem origin_order {request : PageRequest} (valid : request.Valid) (span : LogSpan) :
    (request.origin span request.query.cursor).order = request.query.order := by
  unfold origin
  cases given : request.query.cursor with
  | none => rfl
  | some cursor => exact valid.order cursor given

/-- A window of no offsets is none. -/
theorem windows_of_take {request : PageRequest} (span : LogSpan) (empty : ¬ 1 ≤ request.take) :
    (request.initial span).windows = [] := by
  refine List.eq_nil_iff_forall_not_mem.mpr fun window listed => ?_
  change window ∈ span.windows request.query.walk request.take request.query.cursor at listed
  rw [windows_origin] at listed
  obtain ⟨partition, _, planned⟩ := LogSpan.mem_windows.mp listed
  obtain ⟨marks, boundary, _, _, _, near, far, nonempty⟩ :=
    (LogSpan.window_eq_some_iff (origin_walk request span)).mp planned
  generalize request.query.walk = walk at near far
  cases walk <;> simp only [PartitionWindow.near, PartitionWindow.far, LogSpan.reach] at near far <;>
    omega

theorem ready_initial {request : PageRequest} (valid : request.Valid) (span : LogSpan) :
    request.Ready span (request.initial span) where
  walks := origin_walk request span
  order := origin_order valid span
  windows := windows_origin request span request.query.cursor
  room := valid.limit

variable [Crates]

/-- What one pass of the loop did. -/
structure PassDone (request : PageRequest) (session : ClusterSession) (span : LogSpan) (log : Log)
    (schedule : PassSchedule) (state after : Progress) (stop : Bool) (found : RecordBatch Kept) :
    Prop where
  made : PassMade (request.pipeline session) log span request.query.walk request.take
    (request.origin span state.cursor) (schedule.reading state).1 (schedule.reading state).2
    (request.limit - state.kept.length) (places found.ranked)
  collects : found.Collects
    ((schedule.reading state).2.filterMap (request.pipeline session).offers)
  shape : found.shape =
    (request.limit - state.kept.length, request.query.order, request.query.direction)
  kept : after.kept = state.kept ++ found.intoSorted
  edges : edges (found.intoSorted.map Kept.raw) = places found.ranked
  cursor : after.cursor = span.cursor request.query.order request.query.walk
    (movedTo span request.query.walk request.take (request.origin span state.cursor)
      (schedule.reading state).1 (request.limit - state.kept.length) (places found.ranked)).toList
  complete : after.complete = (state.complete && (schedule.reading state).1.remaining.isEmpty)
  scanned : after.scanned = (state.scanned || !(schedule.reading state).1.completed.isEmpty)
  onward : stop = false → (places found.ranked).length < request.limit - state.kept.length ∧
    after.cursor.isSome ∧ (schedule.reading state).1.remaining.isEmpty

theorem edges_intoSorted {pipeline : RecordPipeline} {batch : RecordBatch Kept}
    {ranked : List (Ranked RawRecord)}
    (placed : ∀ entry ∈ ranked, entry.1.partition = entry.2.partition ∧
      entry.1.offset = entry.2.offset)
    (collects : batch.Collects (ranked.filterMap pipeline.offers)) :
    Scan.edges (batch.intoSorted.map Kept.raw) = places batch.ranked := by
  unfold Scan.edges RecordBatch.intoSorted places RecordBatch.ranked
  rw [List.map_map, List.map_map, List.map_map]
  refine List.map_congr_left fun entry member => ?_
  have held : (entry.key, entry.value) ∈ batch.ranked :=
    List.mem_map.mpr ⟨entry, member, rfl⟩
  obtain ⟨source, listed, offer⟩ := List.mem_filterMap.mp (collects.best.subset held)
  obtain ⟨kept, keeps, same⟩ := Option.map_eq_some_iff.mp offer
  obtain ⟨key, rfl⟩ := Prod.mk.inj same
  have kept := RecordPipeline.place_of_keeps keeps
  obtain ⟨partition, offset⟩ := placed source listed
  simp only [Function.comp_apply]
  rw [← key, partition, offset]
  exact kept

theorem scanPass_spec {request : PageRequest} {session : ClusterSession} {span : LogSpan} {log : Log}
    {schedule : PassSchedule} {state after : Progress} {stop : Bool} (valid : request.Valid)
    (ready : request.Ready span state) (delivers : Delivers log state.windows schedule.turns)
    (scanned : request.scanPass session span schedule state = .ok (after, stop)) :
    ∃ found, request.PassDone session span log schedule state after stop found := by
  obtain ⟨⟨outcome, found, assigned, cut⟩, ran, rest⟩ := Except.bind_ok scanned
  have planned : Planned state.windows :=
    ready.windows ▸ span.planned_windows request.take ready.walks
  obtain ⟨⟨seen, reads⟩, rfl, collects, shape, cutIff⟩ :=
    run_spec planned delivers (RecordBatch.collects_new ..) ran
  have sameEdges := edges_intoSorted reads.keyed.placed collects
  have holding := collects.holding reads.keyed
  have limit : found.limit = request.limit - state.kept.length := congrArg Prod.fst shape
  have order : found.order = request.query.order := congrArg (fun shape => shape.2.1) shape
  have direction : found.direction = request.query.direction :=
    congrArg (fun shape => shape.2.2) shape
  rw [order, direction, walkOf_query valid, limit] at holding
  have complete : ((schedule.reading state).1.outcome state.windows request.query.walk).complete =
      (schedule.reading state).1.remaining.isEmpty := by
    have counted := reads.counted
    rw [Bool.eq_iff_iff, Std.ExtTreeMap.isEmpty_iff, Std.ExtTreeMap.eq_empty_iff_size_eq_zero]
    simp only [WindowScan.outcome, beq_iff_eq]
    omega
  have cursor : span.advance (request.origin span state.cursor)
      ((schedule.reading state).1.outcome state.windows request.query.walk).covered
      (Scan.edges (found.intoSorted.map Kept.raw)) (request.limit - state.kept.length) =
      span.cursor request.query.order request.query.walk
        (movedTo span request.query.walk request.take (request.origin span state.cursor)
          (schedule.reading state).1 (request.limit - state.kept.length)
          (places found.ranked)).toList := by
    unfold LogSpan.advance movedTo
    rw [ready.order, ready.walks, sameEdges, ← ready.windows]
  have lengths : found.intoSorted.length = (places found.ranked).length := by
    simp [RecordBatch.intoSorted, places, RecordBatch.ranked]
  simp only [Except.ok.injEq, Prod.mk.injEq] at rest
  obtain ⟨rfl, rfl⟩ := rest
  refine ⟨found, ⟨⟨ready.walks, valid.take, ⟨seen, ready.windows ▸ reads⟩, holding⟩, collects,
    shape, rfl, sameEdges, cursor, ?_, rfl, ?_⟩⟩
  · rw [complete]
  · intro goes
    simp only [Bool.or_eq_false_iff, decide_eq_false_iff_not] at goes
    obtain ⟨⟨⟨short, more⟩, uncut⟩, _⟩ := goes
    refine ⟨by omega, ?_, cutIff.mp uncut⟩
    simpa [Option.isSome_iff_ne_none] using more

/-- The cursor a page hands out for its own direction stands at `boundaries`:
there is none once nothing of the log is left ahead of them. -/
def Stands (request : PageRequest) (span : LogSpan) (log : Log) (boundaries : Offsets) :
    Option RecordCursor → Prop
  | none => ∀ raw, log.Holds span raw → ¬ Unread request.query.walk boundaries raw
  | some cursor => cursor.order = request.query.order ∧ cursor.walk = request.query.walk ∧
      (∀ partition, cursor.remaining.offsets[partition]? =
        if (span.watermarks partition).isSome then boundaries[partition]? else none) ∧
      ∃ partition boundary, boundaries[partition]? = some boundary ∧
        span.unread request.query.walk partition boundary

omit [Crates] in
theorem stands_cursor (request : PageRequest) (span : LogSpan) (log : Log) (boundaries : Offsets) :
    request.Stands span log boundaries
      (span.cursor request.query.order request.query.walk boundaries.toList) := by
  have spec := span.cursor_spec request.query.order request.query.walk
    (Maps.functional_toList boundaries)
  generalize span.cursor request.query.order request.query.walk boundaries.toList = cursor at spec
  cases cursor with
  | none =>
    rintro raw ⟨_, _, marks, known, low, high⟩ ⟨boundary, found, ahead⟩
    refine spec (raw.partition, boundary)
      (Std.ExtTreeMap.mem_toList_iff_getElem?_eq_some.mpr found) ?_
    exact LogSpan.unread_iff.mpr ⟨marks, known, raw.offset, low, high, ahead⟩
  | some cursor =>
    obtain ⟨order, walk, offsets, ⟨partition, boundary⟩, listed, unread⟩ := spec
    refine ⟨order, walk, fun partition => Option.ext fun boundary => ?_, partition, boundary,
      Std.ExtTreeMap.mem_toList_iff_getElem?_eq_some.mp listed, unread⟩
    rw [offsets, Std.ExtTreeMap.mem_toList_iff_getElem?_eq_some]
    split
    · rename_i known
      exact ⟨And.left, fun found => ⟨found, known⟩⟩
    · rename_i unknown
      exact ⟨fun facts => absurd facts.2 unknown, fun absent => by contradiction⟩

/-- The last pass a loop made from `start`. Every pass before it finished its
windows and left room on the page; `kept` is what they kept. -/
structure LastPass (request : PageRequest) (session : ClusterSession) (span : LogSpan) (log : Log)
    (start last : Progress) (used : PassSchedule) (mid after : Progress) (stop : Bool)
    (found : RecordBatch Kept) (kept : List (Int × Int)) : Prop where
  ready : request.Ready span mid
  delivers : Delivers log mid.windows used.turns
  done : request.PassDone session span log used mid after stop found
  sweeps : Sweeps (request.pipeline session) log span request.query.walk
    (request.origin span start.cursor).remaining.offsets
    (request.origin span mid.cursor).remaining.offsets kept
  edges : Scan.edges (mid.kept.map Kept.raw) = Scan.edges (start.kept.map Kept.raw) ++ kept
  complete : mid.complete = start.complete
  ends : last = after ∨ stop = false ∧ last.kept = after.kept ∧ last.complete = after.complete ∧
    last.scanned = after.scanned ∧ last.cursor = none ∧
    span.windows request.query.walk request.take after.cursor = []

/-- After a pass that does not stop the loop, the next one starts where it ended. -/
theorem PassDone.next {request : PageRequest} {session : ClusterSession} {span : LogSpan} {log : Log}
    {schedule : PassSchedule} {state after : Progress} {found : RecordBatch Kept}
    (done : request.PassDone session span log schedule state after false found)
    (ready : request.Ready span state) (pass : Nat) :
    request.Ready span (request.replan span (pass + 1) after) ∧
      Sweeps (request.pipeline session) log span request.query.walk
        (request.origin span state.cursor).remaining.offsets
        (request.origin span after.cursor).remaining.offsets (places found.ranked) ∧
      Scan.edges (after.kept.map Kept.raw) =
        Scan.edges (state.kept.map Kept.raw) ++ places found.ranked ∧
      after.complete = state.complete := by
  obtain ⟨short, more, complete⟩ := done.onward rfl
  obtain ⟨cursor, given⟩ := Option.isSome_iff_exists.mp more
  have stands : request.Stands span log _ after.cursor := done.cursor ▸ stands_cursor ..
  rw [given] at stands
  have lengths : found.intoSorted.length = (places found.ranked).length := by
    simp [RecordBatch.intoSorted, places, RecordBatch.ranked]
  have replanned : request.replan span (pass + 1) after =
      { after with windows := span.windows request.query.walk request.take after.cursor } := by
    simp [replan]
  refine ⟨?_, ?_, ?_, ?_⟩
  · rw [replanned]
    constructor
    · simp only [origin, given, Option.getD_some]
      exact stands.2.1
    · simp only [origin, given, Option.getD_some]
      exact stands.1
    · exact windows_origin request span after.cursor
    · have room := ready.room
      simp only [done.kept, List.length_append]
      omega
  · rw [given]
    exact (done.made.sweeps complete).restrict stands.2.2.1
  · rw [done.kept, List.map_append, Scan.edges, List.map_append]
    exact congrArg (_ ++ ·) done.edges
  · rw [done.complete, complete, Bool.and_true]

/-- The passes between two sets of boundaries when none of them was cut: they
read their windows whole, and no record between the boundaries but those. -/
structure Uncut (log : Log) (span : LogSpan) (walk : RecordOrder) (before after : Offsets)
    (passes : List (PassSchedule × Progress)) : Prop where
  whole : ∀ visit ∈ passes, ∀ window ∈ visit.2.windows, ∀ raw ∈ log.inWindow window,
    visit.1.Polled visit.2 raw
  behind : ∀ visit ∈ passes, ∀ raw, visit.1.Polled visit.2 raw → ¬ Unread walk after raw
  between : ∀ raw, log.Holds span raw → Unread walk before raw → ¬ Unread walk after raw →
    ∃ visit ∈ passes, visit.1.Polled visit.2 raw

omit [Crates] in
theorem Uncut.nil (log : Log) (span : LogSpan) (walk : RecordOrder) (boundaries : Offsets) :
    Uncut log span walk boundaries boundaries [] where
  whole := by simp
  behind := by simp
  between _ _ unread behind := absurd unread behind

theorem PassDone.uncut {request : PageRequest} {session : ClusterSession} {span : LogSpan}
    {log : Log} {schedule : PassSchedule} {state after : Progress} {found : RecordBatch Kept}
    (done : request.PassDone session span log schedule state after false found)
    (ready : request.Ready span state) {last : Offsets} {rest : List (PassSchedule × Progress)}
    (onward : ∀ raw, Unread request.query.walk last raw →
      Unread request.query.walk (request.origin span after.cursor).remaining.offsets raw)
    (uncut : Uncut log span request.query.walk
      (request.origin span after.cursor).remaining.offsets last rest) :
    Uncut log span request.query.walk (request.origin span state.cursor).remaining.offsets last
      ((schedule, state) :: rest) := by
  obtain ⟨short, more, complete⟩ := done.onward rfl
  obtain ⟨cursor, given⟩ := Option.isSome_iff_exists.mp more
  have stands : request.Stands span log _ after.cursor := done.cursor ▸ stands_cursor ..
  rw [given] at stands onward uncut
  have restricted : ∀ raw, Unread request.query.walk cursor.remaining.offsets raw ↔ _ :=
    fun raw => unread_restrict stands.2.2.1 raw
  obtain ⟨seen, reads⟩ := done.made.reads
  have completed := reads.isEmpty_iff.mp complete
  have made := done.made
  refine ⟨?_, ?_, ?_⟩
  · intro visit member window listed raw inside
    rcases List.mem_cons.mp member with rfl | member
    · rw [ready.windows] at listed
      obtain ⟨entry, accepted, rfl⟩ :=
        reads.accepted_of_completed listed (completed window listed) inside
      exact List.mem_map_of_mem accepted
    · exact uncut.whole visit member window listed raw inside
  · intro visit member raw polled
    rcases List.mem_cons.mp member with rfl | member
    · obtain ⟨entry, accepted, rfl⟩ := List.mem_map.mp polled
      obtain ⟨window, listed, same, _⟩ := reads.accepted_inWindow accepted
      intro unread
      exact made.accepted_behind short accepted (same ▸ completed window listed)
        ((restricted entry.2).mp (onward _ unread)).1
    · exact uncut.behind visit member raw polled
  · intro raw holds unread behind
    by_cases middle : Unread request.query.walk
        (request.origin span (some cursor)).remaining.offsets raw
    · obtain ⟨visit, member, polled⟩ := uncut.between raw holds middle behind
      exact ⟨visit, List.mem_cons_of_mem _ member, polled⟩
    · have known : (span.watermarks raw.partition).isSome := by
        obtain ⟨_, _, marks, known, _⟩ := holds
        simp [known]
      have passedOver : ¬ Unread request.query.walk _ raw := fun moved =>
        middle ((restricted raw).mpr ⟨moved, known⟩)
      obtain ⟨entry, accepted, rfl⟩ :=
        made.accepted_of_passed_over holds unread passedOver (.inr (.inr short))
      exact ⟨_, List.mem_cons_self, List.mem_map_of_mem accepted⟩

theorem passes_spec {request : PageRequest} {session : ClusterSession} {span : LogSpan} {log : Log}
    {schedule : Nat → PassSchedule} (valid : request.Valid) {fuel pass : Nat}
    {state last : Progress} (ready : request.Ready span (request.replan span pass state))
    (makes : ¬ (pass ≠ 0 ∧ (request.replan span pass state).windows = []))
    (delivers : ∀ visit ∈ request.visits session span schedule (fuel + 1) pass state,
      Delivers log visit.2.windows visit.1.turns)
    (ran : request.passes session span schedule (fuel + 1) pass state = .ok last) :
    ∃ used mid after stop found kept earlier,
      request.visits session span schedule (fuel + 1) pass state = earlier ++ [(used, mid)] ∧
      Uncut log span request.query.walk
        (request.origin span (request.replan span pass state).cursor).remaining.offsets
        (request.origin span mid.cursor).remaining.offsets earlier ∧
      request.LastPass session span log (request.replan span pass state) last used mid after stop
        found kept := by
  induction fuel generalizing pass state with
  | zero =>
    rw [visits] at delivers ⊢
    rw [passes] at ran
    simp only [makes, ↓reduceIte] at delivers ran ⊢
    obtain ⟨⟨after, stop⟩, scanned, rest⟩ := Except.bind_ok ran
    have now := delivers _ List.mem_cons_self
    obtain ⟨found, done⟩ := scanPass_spec valid ready now scanned
    refine ⟨_, _, after, stop, found, [], [], ?_, .nil .., ready, now, done, .refl _, by simp, rfl,
      .inl ?_⟩
    · cases stop <;> simp [scanned, visits]
    · cases stop <;> simp only [passes, Bool.false_eq_true, ↓reduceIte, Except.ok.injEq] at rest <;>
        exact rest.symm
  | succ fuel ih =>
    rw [visits] at delivers ⊢
    rw [passes] at ran
    simp only [makes, ↓reduceIte] at delivers ran ⊢
    obtain ⟨⟨after, stop⟩, scanned, rest⟩ := Except.bind_ok ran
    have now := delivers _ List.mem_cons_self
    obtain ⟨found, done⟩ := scanPass_spec valid ready now scanned
    rw [scanned] at delivers ⊢
    cases stop with
    | true =>
      refine ⟨_, _, after, true, found, [], [], rfl, .nil .., ready, now, done, .refl _, by simp, rfl,
        .inl ?_⟩
      simpa using rest.symm
    | false =>
      obtain ⟨nextReady, sweeps, edges, complete⟩ := done.next ready pass
      simp only [Bool.false_eq_true, ↓reduceIte] at rest
      by_cases empty : pass + 1 ≠ 0 ∧ (request.replan span (pass + 1) after).windows = []
      · unfold passes at rest
        dsimp only at rest
        rw [if_pos empty] at rest
        have windows : span.windows request.query.walk request.take after.cursor = [] := by
          simpa [replan] using empty.2
        refine ⟨_, _, after, false, found, [], [], ?_, .nil .., ready, now, done, .refl _, by simp, rfl,
          .inr ?_⟩
        · unfold visits
          dsimp only
          rw [if_pos empty]
          rfl
        · obtain rfl := Except.ok.inj rest
          exact ⟨rfl, by simp [replan], by simp [replan], by simp [replan], rfl, windows⟩
      · obtain ⟨used, mid, later, stop, others, kept, earlier, final, uncut, lastPass⟩ :=
          ih nextReady empty
            (fun visit member => delivers visit (List.mem_cons_of_mem _ member)) rest
        have same : (request.replan span (pass + 1) after).cursor = after.cursor := by
          simp [replan]
        have onward := lastPass.sweeps
        rw [same] at uncut onward
        refine ⟨used, mid, later, stop, others, places found.ranked ++ kept, _ :: earlier, ?_,
          done.uncut ready onward.onward uncut, lastPass.ready, lastPass.delivers, lastPass.done,
          sweeps.trans onward, ?_, ?_, lastPass.ends⟩
        · exact congrArg (_ :: ·) final
        · rw [lastPass.edges, ← List.append_assoc]
          have same : (request.replan span (pass + 1) after).kept = after.kept := by simp [replan]
          rw [same, edges]
        · have same : (request.replan span (pass + 1) after).complete = after.complete := by
            simp [replan]
          rw [lastPass.complete, same, complete]

end PageRequest

/-- Where the records of a page stand in the log. -/
def RecordPage.places (page : RecordPage) : List (Int × Int) :=
  page.records.map fun record => (record.partition, record.offset)

/-- The cursor that goes on in the direction the page was read in. -/
def RecordPage.onward (page : RecordPage) : CursorDirection → Option String
  | .forward => page.nextCursor
  | .backward => page.prevCursor

/-- The cursor that goes back to where the page was opened. -/
def RecordPage.back (page : RecordPage) : CursorDirection → Option String
  | .forward => page.prevCursor
  | .backward => page.nextCursor

namespace PageRequest
variable [Crates]

/-- How a page comes out of the state its passes left. -/
structure Assembled (request : PageRequest) (session : ClusterSession) (span : LogSpan)
    (last : Progress) (page : RecordPage) : Prop where
  records : page.records = (request.pipeline session).render
    (sortKept request.query.order last.kept) request.query.topic
  complete : page.complete = last.complete
  onward : page.onward request.query.direction = last.cursor.map RecordCursor.display
  back : page.back request.query.direction =
    (request.query.cursor.bind span.rewind).map RecordCursor.display
  obfuscated : page.obfuscated = (topicObfuscator session request.query.topic).isSome

theorem fetch_cases {request : PageRequest} {session : ClusterSession} {span : LogSpan}
    {schedule : Schedule} {page : RecordPage}
    (fetched : request.fetch session span schedule = .ok page) :
    (request.initial span).windows = [] ∧
        page = { RecordPage.empty with
          obfuscated := (topicObfuscator session request.query.topic).isSome } ∨
      (request.initial span).windows ≠ [] ∧ ∃ last,
        request.passes session span schedule.pass request.maxPasses 0 (request.initial span) =
          .ok last ∧ (last.scanned || !last.kept.isEmpty) ∧
        request.Assembled session span last page := by
  unfold fetch at fetched
  dsimp only at fetched
  split at fetched
  · rename_i empty
    exact .inl ⟨empty, (Except.ok.inj fetched).symm⟩
  · rename_i some
    obtain ⟨_, _, rest⟩ := Except.bind_ok fetched
    obtain ⟨last, ran, rest⟩ := Except.bind_ok rest
    refine .inr ⟨some, last, ran, ?_⟩
    split at rest
    · contradiction
    · rename_i found
      obtain rfl := Except.ok.inj rest
      have some : (last.scanned || !last.kept.isEmpty) = true := by
        generalize last.scanned = scanned at found
        cases scanned
        · simpa using found
        · rfl
      refine ⟨some, rfl, rfl, ?_, ?_, rfl⟩
      · cases request.query.direction <;> rfl
      · cases request.query.direction <;> rfl

/-- A page renders every kept record, sorted. -/
theorem places_render (pipeline : RecordPipeline) (order : RecordOrder) (kept : List Kept)
    (topic : String) :
    ((pipeline.render (sortKept order kept) topic).map fun record =>
      (record.partition, record.offset)).Perm (Scan.edges (kept.map Kept.raw)) := by
  unfold Scan.edges
  rw [RecordPipeline.render_eq, List.map_map, List.map_map]
  have rendered : ((fun record : Record => (record.partition, record.offset)) ∘ fun kept =>
      (pipeline.finished kept).intoRecord topic) =
      (fun raw : RawRecord => (raw.partition, raw.offset)) ∘ Kept.raw := by
    funext kept
    simp [DecodedRecord.intoRecord]
  rw [rendered]
  exact (List.perm_insertionSort _ _).map _

theorem Assembled.places {request : PageRequest} {session : ClusterSession} {span : LogSpan}
    {last : Progress} {page : RecordPage} (assembled : request.Assembled session span last page) :
    page.places.Perm (Scan.edges (last.kept.map Kept.raw)) := by
  unfold RecordPage.places
  rw [assembled.records]
  exact places_render ..

omit [Crates] in
theorem maxPasses_pos (request : PageRequest) : ∃ fuel, request.maxPasses = fuel + 1 := by
  unfold maxPasses maxFilterPasses
  split
  · exact ⟨63, rfl⟩
  · exact ⟨0, rfl⟩

/-- The last pass of a fetch that opened its consumer. -/
theorem fetch_lastPass {request : PageRequest} {session : ClusterSession} {span : LogSpan}
    {schedule : Schedule} {log : Log} {last : Progress} (valid : request.Valid)
    (delivered : request.Delivered session span schedule log)
    (some : (request.initial span).windows ≠ [])
    (ran : request.passes session span schedule.pass request.maxPasses 0 (request.initial span) =
      .ok last) :
    ∃ used mid after stop found kept earlier,
      request.fetchVisits session span schedule = earlier ++ [(used, mid)] ∧
      Uncut log span request.query.walk
        (request.origin span request.query.cursor).remaining.offsets
        (request.origin span mid.cursor).remaining.offsets earlier ∧
      request.LastPass session span log (request.initial span) last used mid after stop found
        kept := by
  obtain ⟨fuel, passes⟩ := request.maxPasses_pos
  have first : request.replan span 0 (request.initial span) = request.initial span := by
    simp [replan]
  unfold Delivered at delivered
  unfold fetchVisits at delivered ⊢
  rw [if_neg some] at delivered ⊢
  rw [passes] at ran delivered ⊢
  obtain ⟨used, mid, after, stop, found, kept, earlier, final, uncut, lastPass⟩ :=
    passes_spec valid (first.symm ▸ ready_initial valid span) (by simp) delivered ran
  rw [first] at uncut lastPass
  exact ⟨used, mid, after, stop, found, kept, earlier, final, uncut, lastPass⟩

/-- What the last pass adds to the boundaries of the passes before it. -/
theorem LastPass.stands {request : PageRequest} {session : ClusterSession} {span : LogSpan}
    {log : Log} {start last mid after : Progress} {used : PassSchedule} {stop : Bool}
    {found : RecordBatch Kept} {kept : List (Int × Int)}
    (lastPass : request.LastPass session span log start last used mid after stop found kept) :
    request.Stands span log
      (movedTo span request.query.walk request.take (request.origin span mid.cursor)
        (used.reading mid).1 (request.limit - mid.kept.length) (places found.ranked)) last.cursor ∧
      last.kept = mid.kept ++ found.intoSorted ∧
      last.complete = (mid.complete && (used.reading mid).1.remaining.isEmpty) := by
  have done := lastPass.done
  have stands : request.Stands span log _ after.cursor := done.cursor ▸ stands_cursor ..
  rcases lastPass.ends with rfl | ⟨rfl, kept, complete, _, none, empty⟩
  · exact ⟨stands, done.kept, done.complete⟩
  · refine ⟨?_, kept.trans done.kept, complete.trans done.complete⟩
    obtain ⟨_, more, _⟩ := done.onward rfl
    obtain ⟨cursor, given⟩ := Option.isSome_iff_exists.mp more
    rw [given] at stands
    rw [none]
    intro raw holds unread
    rw [windows_origin, given] at empty
    have known : (span.watermarks raw.partition).isSome := by
      obtain ⟨_, _, marks, known, _⟩ := holds
      simp [known]
    obtain ⟨window, listed, _⟩ := window_of_unread stands.2.1 done.made.positive holds
      ((unread_restrict stands.2.2.1 raw).mpr ⟨unread, known⟩)
    rw [origin, Option.getD_some] at empty
    rw [empty] at listed
    contradiction

omit [Crates] in
/-- With no window to read there is nothing ahead of where the page opens. -/
theorem nothing_unread {request : PageRequest} {span : LogSpan} {log : Log} (valid : request.Valid)
    (empty : (request.initial span).windows = []) {raw : RawRecord} (holds : log.Holds span raw) :
    ¬ Unread request.query.walk (request.origin span request.query.cursor).remaining.offsets raw := by
  intro unread
  have windows := (windows_origin request span request.query.cursor).symm.trans empty
  obtain ⟨window, listed, _⟩ :=
    window_of_unread (origin_walk request span) valid.take holds unread
  rw [windows] at listed
  contradiction

/-- The page of a fetch that opened its consumer, by its passes: the earlier
ones, and the last with what it found. -/
structure Opened (request : PageRequest) (session : ClusterSession) (span : LogSpan) (log : Log)
    (schedule : Schedule) (page : RecordPage) (earlier : List (PassSchedule × Progress))
    (used : PassSchedule) (mid last : Progress) (found : RecordBatch Kept)
    (kept : List (Int × Int)) : Prop where
  visits : request.fetchVisits session span schedule = earlier ++ [(used, mid)]
  uncut : Uncut log span request.query.walk
    (request.origin span request.query.cursor).remaining.offsets
    (request.origin span mid.cursor).remaining.offsets earlier
  pass : ∃ after stop, request.LastPass session span log (request.initial span) last used mid after
    stop found kept
  stands : request.Stands span log
    (movedTo span request.query.walk request.take (request.origin span mid.cursor)
      (used.reading mid).1 (request.limit - mid.kept.length) (places found.ranked)) last.cursor
  complete : page.complete = (used.reading mid).1.remaining.isEmpty
  some : last.scanned || !last.kept.isEmpty
  assembled : request.Assembled session span last page
  places : page.places.Perm (kept ++ places found.ranked)

/-- An unfiltered fetch makes one pass, from its initial state. -/
theorem Opened.single {request : PageRequest} {session : ClusterSession} {span : LogSpan}
    {log : Log} {schedule : Schedule} {page : RecordPage} {earlier : List (PassSchedule × Progress)}
    {used : PassSchedule} {mid last : Progress} {found : RecordBatch Kept} {kept : List (Int × Int)}
    (opened : request.Opened session span log schedule page earlier used mid last found kept)
    (unfiltered : request.query.filter = none) :
    earlier = [] ∧ used = schedule.pass 0 ∧ mid = request.initial span := by
  have visits := opened.visits
  rw [fetchVisits_unfiltered unfiltered] at visits
  split at visits
  · simp at visits
  · have parts := List.append_eq_singleton_iff.mp visits.symm
    simpa using parts

theorem fetch_spec {request : PageRequest} {session : ClusterSession} {span : LogSpan}
    {schedule : Schedule} {log : Log} {page : RecordPage} (valid : request.Valid)
    (delivered : request.Delivered session span schedule log)
    (fetched : request.fetch session span schedule = .ok page) :
    (request.initial span).windows = [] ∧
        page = { RecordPage.empty with
          obfuscated := (topicObfuscator session request.query.topic).isSome } ∨
      ∃ earlier used mid last found kept,
        request.Opened session span log schedule page earlier used mid last found kept := by
  rcases fetch_cases fetched with empty | ⟨windows, last, ran, some, assembled⟩
  · exact .inl empty
  · obtain ⟨used, mid, after, stop, found, kept, earlier, visits, uncut, lastPass⟩ :=
      fetch_lastPass valid delivered windows ran
    obtain ⟨stands, lastKept, lastComplete⟩ := lastPass.stands
    refine .inr ⟨earlier, used, mid, last, found, kept, visits, uncut, ⟨after, stop, lastPass⟩,
      stands, ?_, some, assembled, ?_⟩
    · rw [assembled.complete, lastComplete, lastPass.complete]
      rfl
    · have edges : Scan.edges (last.kept.map Kept.raw) = kept ++ Scan.places found.ranked := by
        rw [lastKept, List.map_append, Scan.edges, List.map_append]
        refine Eq.trans (congrArg (_ ++ ·) lastPass.done.edges) (congrArg (· ++ _) ?_)
        exact lastPass.edges
      exact edges ▸ assembled.places

/-- A page whose windows were all read to their ends holds exactly the matching
records between where it was opened and where it stands. -/
theorem fetch_complete {request : PageRequest} {session : ClusterSession} {span : LogSpan}
    {schedule : Schedule} {log : Log} {page : RecordPage} (valid : request.Valid)
    (delivered : request.Delivered session span schedule log)
    (fetched : request.fetch session span schedule = .ok page) (complete : page.complete = true) :
    ∃ boundaries cursor,
      Sweeps (request.pipeline session) log span request.query.walk
        (request.origin span request.query.cursor).remaining.offsets boundaries page.places ∧
      request.Stands span log boundaries cursor ∧
      page.onward request.query.direction = cursor.map RecordCursor.display := by
  rcases fetch_spec valid delivered fetched with
    ⟨empty, rfl⟩ | ⟨earlier, used, mid, last, found, kept, opened⟩
  · refine ⟨_, none, .refl _, fun raw => nothing_unread valid empty, ?_⟩
    cases request.query.direction <;> rfl
  · obtain ⟨after, stop, lastPass⟩ := opened.pass
    rw [opened.complete] at complete
    refine ⟨_, last.cursor, ?_, opened.stands, opened.assembled.onward⟩
    exact (lastPass.sweeps.trans (lastPass.done.made.sweeps complete)).perm opened.places.symm

end PageRequest
end Klens.Scan
