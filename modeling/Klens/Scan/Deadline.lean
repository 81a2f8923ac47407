import Klens.Scan.FetchProofs

/-! A page cut by the deadline. A consumer reads a window from its oldest
record on, so a page that walks newest first can be filled by the far side of
a window it did not finish. The cursor then goes past the records kept, and
with them past the records of that window that were never polled. -/
namespace Klens.Scan
open Klens.Lib

/-- The page's cursor has left the record behind. Without a cursor nothing is
left to read. -/
def RecordPage.Passed (page : RecordPage) (direction : CursorDirection) (walk : RecordOrder)
    (raw : RawRecord) : Prop :=
  match page.onward direction with
  | none => True
  | some text => ∃ cursor : RecordCursor,
      cursor.display = text ∧ ¬ Unread walk cursor.remaining.offsets raw

section Matching
variable [Crates] {pipeline : RecordPipeline} {batch : RecordBatch Kept} {ranked : List (Ranked RawRecord)} {newest : Offsets}

theorem RecordBatch.Collects.full_iff (collects : batch.Collects (ranked.filterMap pipeline.offers)) :
    batch.limit ≤ (places batch.ranked).length ↔
      batch.limit ≤ (pipeline.matching ranked).length := by
  have keys := congrArg List.length (pipeline.keys_offers ranked)
  rw [List.length_map, List.length_map] at keys
  have held := collects.best.length_eq
  unfold places
  rw [List.length_map]
  omega

/-- A matching record is held when fewer matching records than the batch has
room for precede it. -/
theorem RecordBatch.Collects.held_iff (collects : batch.Collects (ranked.filterMap pipeline.offers))
    (keyed : Keyed newest ranked) {entry : Ranked RawRecord}
    (matched : entry ∈ pipeline.matching ranked) :
    entry.2.place ∈ places batch.ranked ↔
      (pipeline.matching ranked).countP
        (fun other => other.1.Precedes batch.order batch.direction entry.1) < batch.limit := by
  obtain ⟨accepted, passes⟩ := List.mem_filter.mp matched
  obtain ⟨kept, keeps⟩ := Option.isSome_iff_exists.mp passes
  have offered : (entry.1, kept) ∈ ranked.filterMap pipeline.offers :=
    List.mem_filterMap.mpr ⟨entry, accepted, by simp [RecordPipeline.offers, keeps]⟩
  have held : entry.2.place ∈ places batch.ranked ↔ (entry.1, kept) ∈ batch.ranked := by
    constructor
    · intro member
      obtain ⟨other, listed, placed⟩ := List.mem_map.mp member
      obtain ⟨source, sourceListed, offer⟩ := List.mem_filterMap.mp (collects.best.subset listed)
      have key := pipeline.place_of_offers offer
      obtain ⟨partition, offset⟩ := keyed.placed source sourceListed
      rw [key, partition, offset] at placed
      obtain rfl := keyed.eq_of_place sourceListed accepted placed
      simp only [RecordPipeline.offers, keeps, Option.map_some, Option.some.injEq] at offer
      exact offer ▸ listed
    · intro member
      obtain ⟨partition, offset⟩ := keyed.placed entry accepted
      exact List.mem_map.mpr ⟨_, member, Prod.ext partition offset⟩
  have counted : ∀ precedes : SortKey → Bool,
      ((ranked.filterMap pipeline.offers).filter fun other => precedes other.1).length =
        (pipeline.matching ranked).countP fun other => precedes other.1 := by
    intro precedes
    have keys := congrArg (List.countP precedes) (pipeline.keys_offers ranked)
    rwa [List.countP_map, List.countP_map, List.countP_eq_length_filter] at keys
  rw [held, collects.best.mem_iff offered,
    ← counted fun key => decide (key.Precedes batch.order batch.direction entry.1)]
  rfl

end Matching

namespace PageRequest
variable [Crates]

/-- Every record the page's cursor has passed was returned, or it was polled
and does not match. -/
def StepsOverNothing (request : PageRequest) (session : ClusterSession) (span : LogSpan)
    (schedule : Schedule) (log : Log) (page : RecordPage) : Prop :=
  ∀ raw, log.Holds span raw →
    Unread request.query.walk (request.origin span request.query.cursor).remaining.offsets raw →
    page.Passed request.query.direction request.query.walk raw →
    raw.place ∈ page.places ∨
      (∃ visit ∈ request.fetchVisits session span schedule, visit.1.Polled visit.2 raw) ∧
        ¬ (request.pipeline session).passes raw

/-- A pass that walks newest first polls as many matching records as the page
has room for, and one of the first of them lies in a window that still holds a
record the pass has not polled. -/
def Overruns (request : PageRequest) (session : ClusterSession) (log : Log)
    (schedule : PassSchedule) (state : Progress) : Prop :=
  let room := request.limit - state.kept.length
  let matching := (request.pipeline session).matching (schedule.reading state).2
  request.query.walk = .newest ∧ room ≤ matching.length ∧
    ∃ window ∈ state.windows,
      (∃ raw ∈ log.inWindow window, ¬ schedule.Polled state raw) ∧
      ∃ entry ∈ matching, entry.2.partition = window.partition ∧
        matching.countP (fun other =>
          other.1.Precedes request.query.order request.query.direction entry.1) < room

section Pass
variable {request : PageRequest} {session : ClusterSession} {span : LogSpan} {log : Log}
  {schedule : PassSchedule} {state after : Progress} {stop : Bool} {found : RecordBatch Kept}

theorem PassDone.full_iff
    (done : request.PassDone session span log schedule state after stop found) :
    request.limit - state.kept.length ≤ (places found.ranked).length ↔
      request.limit - state.kept.length ≤
        ((request.pipeline session).matching (schedule.reading state).2).length := by
  have limit : found.limit = request.limit - state.kept.length := congrArg Prod.fst done.shape
  rw [← limit]
  exact done.collects.full_iff

theorem PassDone.held_iff
    (done : request.PassDone session span log schedule state after stop found)
    {entry : Ranked RawRecord}
    (matched : entry ∈ (request.pipeline session).matching (schedule.reading state).2) :
    entry.2.place ∈ places found.ranked ↔
      ((request.pipeline session).matching (schedule.reading state).2).countP (fun other =>
        other.1.Precedes request.query.order request.query.direction entry.1) <
          request.limit - state.kept.length := by
  obtain ⟨seen, reads⟩ := done.made.reads
  have limit : found.limit = request.limit - state.kept.length := congrArg Prod.fst done.shape
  have order : found.order = request.query.order := congrArg (fun shape => shape.2.1) done.shape
  have direction : found.direction = request.query.direction :=
    congrArg (fun shape => shape.2.2) done.shape
  have held := done.collects.held_iff reads.keyed matched
  rwa [limit, order, direction] at held

theorem PassDone.missed_of_overruns
    (done : request.PassDone session span log schedule state after stop found)
    (ready : request.Ready span state) (overruns : request.Overruns session log schedule state) :
    ∃ raw, log.Holds span raw ∧
      Unread request.query.walk (request.origin span state.cursor).remaining.offsets raw ∧
      ¬ Unread request.query.walk (movedTo span request.query.walk request.take
        (request.origin span state.cursor) (schedule.reading state).1
        (request.limit - state.kept.length) (places found.ranked)) raw ∧
      ¬ schedule.Polled state raw := by
  obtain ⟨newest, fills, window, listed, ⟨raw, inside, unpolled⟩, entry, matched, same, first⟩ :=
    overruns
  rw [ready.windows] at listed
  obtain ⟨seen, reads⟩ := done.made.reads
  have accepted := (List.mem_filter.mp matched).1
  have place : (window.partition, entry.2.offset) ∈ places found.ranked := by
    rw [← same]
    exact (done.held_iff matched).mpr first
  have placed : raw.partition = window.partition :=
    log.placed _ raw (Log.mem_inWindow.mp inside).1
  obtain ⟨holds, unread⟩ := of_inWindow done.made.walks listed placed.symm inside
  -- the window is read from its start, so an unpolled record lies above every polled one
  have above : entry.2.offset < raw.offset := by
    by_contra below
    obtain ⟨other, otherAccepted, rfl⟩ :=
      reads.accepted_of_le listed accepted same inside (by omega)
    exact unpolled (List.mem_map_of_mem otherAccepted)
  refine ⟨raw, holds, unread, ?_, unpolled⟩
  rintro ⟨boundary, moved, ahead⟩
  rw [placed, movedTo_window _ _ _ done.made.walks listed, if_pos (done.full_iff.mpr fills)] at moved
  obtain rfl := Option.some.inj moved
  have furthest := pastFurthest_spec request.query.walk (places found.ranked) window.partition
  generalize (pastFurthest request.query.walk (places found.ranked))[window.partition]? = edge
    at furthest ahead
  cases furthest with
  | nowhere absent => exact absent _ place
  | «at» last lastMember behind =>
    have notAhead := behind _ place
    rw [newest] at notAhead ahead
    simp only [Ahead, past, Option.getD_some] at notAhead ahead
    omega

theorem PassDone.overruns_of_missed
    (done : request.PassDone session span log schedule state after stop found)
    (ready : request.Ready span state) {raw : RawRecord} (holds : log.Holds span raw)
    (unread : Unread request.query.walk (request.origin span state.cursor).remaining.offsets raw)
    (behind : ¬ Unread request.query.walk (movedTo span request.query.walk request.take
      (request.origin span state.cursor) (schedule.reading state).1
      (request.limit - state.kept.length) (places found.ranked)) raw)
    (unpolled : ¬ schedule.Polled state raw) : request.Overruns session log schedule state := by
  have made := done.made
  have unaccepted : ¬ ∃ entry ∈ (schedule.reading state).2, entry.2 = raw := by
    rintro ⟨entry, accepted, rfl⟩
    exact unpolled (List.mem_map_of_mem accepted)
  have unfair : ¬ (request.query.walk = .oldest ∨
      raw.partition ∈ (schedule.reading state).1.completed ∨
      (places found.ranked).length < request.limit - state.kept.length) := fun fair =>
    unaccepted (made.accepted_of_passed_over holds unread behind fair)
  simp only [not_or, not_lt] at unfair
  obtain ⟨notOldest, _, full⟩ := unfair
  have newest : request.query.walk = .newest := by
    cases walk : request.query.walk with
    | newest => rfl
    | oldest => exact absurd walk notOldest
  obtain ⟨window, listed, same⟩ := window_of_unread made.walks made.positive holds unread
  have ahead := (unread_iff_near made.walks listed holds same).mp unread
  have moved := movedTo_window (schedule.reading state).1 (request.limit - state.kept.length)
    (places found.ranked) made.walks listed
  rw [if_pos full, same] at moved
  have notAhead : ¬ Ahead request.query.walk _ raw.offset := fun ahead => behind ⟨_, moved, ahead⟩
  have furthest := pastFurthest_spec request.query.walk (places found.ranked) raw.partition
  generalize (pastFurthest request.query.walk (places found.ranked))[raw.partition]? = edge
    at furthest notAhead
  cases furthest with
  | nowhere => exact absurd ahead notAhead
  | «at» last lastMember _ =>
    obtain ⟨entry, accepted, passes, placed⟩ := made.holding.subset _ lastMember
    have matched : entry ∈ (request.pipeline session).matching (schedule.reading state).2 :=
      List.mem_filter.mpr ⟨accepted, passes⟩
    have edges := made.kept_inside listed (by rw [same]; exact lastMember)
    have inside : raw ∈ log.inWindow window := by
      refine Log.mem_inWindow.mpr ⟨same ▸ holds.1, ?_⟩
      rw [newest] at ahead notAhead
      simp only [Ahead, past, PartitionWindow.near, Option.getD_some] at ahead notAhead
      omega
    refine ⟨newest, done.full_iff.mp full, window, ready.windows ▸ listed, ⟨raw, inside, unpolled⟩,
      entry, matched, (Prod.mk.inj placed).1.trans same.symm, ?_⟩
    exact (done.held_iff matched).mp (placed.symm ▸ lastMember)

end Pass

omit [Crates] in
/-- The text of a cursor says which records it has passed. -/
theorem passed_iff {request : PageRequest} {span : LogSpan} {log : Log} {boundaries : Offsets}
    {cursor : Option RecordCursor} {page : RecordPage}
    (stands : request.Stands span log boundaries cursor)
    (onward : page.onward request.query.direction = cursor.map RecordCursor.display)
    {raw : RawRecord} (holds : log.Holds span raw) :
    page.Passed request.query.direction request.query.walk raw ↔
      ¬ Unread request.query.walk boundaries raw := by
  unfold RecordPage.Passed
  rw [onward]
  cases cursor with
  | none => exact ⟨fun _ => stands raw holds, fun _ => trivial⟩
  | some cursor =>
    have known : (span.watermarks raw.partition).isSome := by
      obtain ⟨_, _, marks, known, _⟩ := holds
      simp [known]
    have restricted : Unread request.query.walk cursor.remaining.offsets raw ↔ _ :=
      unread_restrict stands.2.2.1 raw
    simp only [Option.map_some]
    constructor
    · rintro ⟨other, same, behind⟩ unread
      obtain rfl := RecordCursor.display_injective same
      exact behind (restricted.mpr ⟨unread, known⟩)
    · intro behind
      exact ⟨cursor, rfl, fun unread => behind (restricted.mp unread).1⟩

theorem page_steps_over_nothing_iff {request : PageRequest} {session : ClusterSession}
    {span : LogSpan} {schedule : Schedule} {log : Log} {page : RecordPage} (valid : request.Valid)
    (delivered : request.Delivered session span schedule log)
    (fetched : request.fetch session span schedule = .ok page) :
    request.StepsOverNothing session span schedule log page ↔
      ∀ visit ∈ request.fetchVisits session span schedule,
        ¬ request.Overruns session log visit.1 visit.2 := by
  rcases fetch_spec valid delivered fetched with
    ⟨empty, rfl⟩ | ⟨earlier, used, mid, last, found, kept, opened⟩
  · have none : request.fetchVisits session span schedule = [] := if_pos empty
    rw [none]
    refine ⟨by simp, fun _ raw holds unread => ?_⟩
    exact absurd unread (nothing_unread valid empty holds)
  obtain ⟨after, stop, lastPass⟩ := opened.pass
  have done := lastPass.done
  have passed : ∀ {raw}, log.Holds span raw → (_ ↔ _) := fun holds =>
    passed_iff opened.stands opened.assembled.onward holds
  constructor
  · intro nothing visit member overruns
    rw [opened.visits] at member
    rcases List.mem_append.mp member with early | final
    · obtain ⟨_, _, window, listed, ⟨raw, inside, unpolled⟩, _⟩ := overruns
      exact unpolled (opened.uncut.whole visit early window listed raw inside)
    obtain rfl := List.mem_singleton.mp final
    obtain ⟨raw, holds, unread, behind, unpolled⟩ :=
      done.missed_of_overruns lastPass.ready overruns
    rcases nothing raw holds (lastPass.sweeps.onward raw unread) ((passed holds).mpr behind) with
      returned | ⟨⟨other, listed, polled⟩, _⟩
    · rcases List.mem_append.mp (opened.places.mem_iff.mp returned) with before | now
      · obtain ⟨again, placed, againHolds, _, _, gone⟩ := lastPass.sweeps.swept _ before
        obtain rfl := Log.eq_of_place againHolds holds placed
        exact gone unread
      · obtain ⟨again, placed, againHolds, _, _, entry, accepted, rfl⟩ := done.made.kept_unread now
        obtain rfl := Log.eq_of_place againHolds holds placed
        exact unpolled (List.mem_map_of_mem accepted)
    · rw [opened.visits] at listed
      rcases List.mem_append.mp listed with early | final
      · exact opened.uncut.behind other early raw polled unread
      · obtain rfl := List.mem_singleton.mp final
        exact unpolled polled
  · intro fair raw holds unread behind
    have behind := (passed holds).mp behind
    have visits := opened.visits
    by_cases middle : Unread request.query.walk (request.origin span mid.cursor).remaining.offsets raw
    · have polled : used.Polled mid raw := by
        by_contra unpolled
        refine fair (used, mid) (by simp [visits]) ?_
        exact done.overruns_of_missed lastPass.ready holds middle behind unpolled
      by_cases passes : (request.pipeline session).passes raw
      · refine .inl (opened.places.mem_iff.mpr (List.mem_append_right _ ?_))
        exact done.made.kept_of_passed_over holds middle behind (List.mem_map.mp polled) passes
      · exact .inr ⟨⟨(used, mid), by simp [visits], polled⟩, passes⟩
    · by_cases passes : (request.pipeline session).passes raw
      · refine .inl (opened.places.mem_iff.mpr (List.mem_append_left _ ?_))
        exact lastPass.sweeps.all raw holds passes unread middle
      · obtain ⟨visit, listed, polled⟩ := opened.uncut.between raw holds unread middle
        exact .inr ⟨⟨visit, by simp [visits, listed], polled⟩, passes⟩

end PageRequest

namespace Sample

def four : Log :=
  .ofRecords [record 0 0 0, record 0 1 1, record 0 2 2, record 0 3 3] (by decide)

def twoPolled : Schedule := polling [[record 0 0 0, record 0 1 1]]

theorem delivered_twoPolled (order : RecordOrder) (limit : Nat) :
    @PageRequest.Delivered Crates.plain (request order limit) session (span [0] 0 4) twoPolled
      four := by
  refine @PageRequest.delivered_polling Crates.plain _ rfl _ _ _ _ ?_
  change ∀ window ∈ (span [0] 0 4).windows order 10 none, _
  cases order <;> decide

end Sample

theorem page_steps_over_nothing_oldest :
    ∃ page, @PageRequest.fetch Crates.plain (Sample.request .oldest 3) Sample.session
        (Sample.span [0] 0 4) Sample.twoPolled = .ok page ∧
      @PageRequest.StepsOverNothing Crates.plain (Sample.request .oldest 3) Sample.session
        (Sample.span [0] 0 4) Sample.twoPolled Sample.four page := by
  cases fetched : @PageRequest.fetch Crates.plain (Sample.request .oldest 3) Sample.session
      (Sample.span [0] 0 4) Sample.twoPolled with
  | error error =>
    have returns : (@PageRequest.fetch Crates.plain (Sample.request .oldest 3) Sample.session
        (Sample.span [0] 0 4) Sample.twoPolled).toOption.isSome := by decide
    simp [fetched, Except.toOption] at returns
  | ok page =>
    refine ⟨page, rfl, (@PageRequest.page_steps_over_nothing_iff Crates.plain _ _ _ _ _ _
      ⟨by decide, by decide, by simp [Sample.request]⟩ (Sample.delivered_twoPolled .oldest 3)
      fetched).mpr ?_⟩
    rintro visit _ ⟨newest, _⟩
    exact absurd newest (by decide)

/-- Newest first, a page of two is filled by the two oldest records of its
window. It has no cursor, and the two newest records were never polled. -/
theorem page_steps_over_unpolled_records :
    ∃ page, @PageRequest.fetch Crates.plain (Sample.request .newest 2) Sample.session
        (Sample.span [0] 0 4) Sample.twoPolled = .ok page ∧
      (Sample.request .newest 2).Valid ∧
      @PageRequest.Delivered Crates.plain (Sample.request .newest 2) Sample.session
        (Sample.span [0] 0 4) Sample.twoPolled Sample.four ∧
      ¬ @PageRequest.StepsOverNothing Crates.plain (Sample.request .newest 2) Sample.session
        (Sample.span [0] 0 4) Sample.twoPolled Sample.four page := by
  have outcome : (@PageRequest.fetch Crates.plain (Sample.request .newest 2) Sample.session
      (Sample.span [0] 0 4) Sample.twoPolled).toOption.map
        (fun page => (page.nextCursor, page.places)) = some (none, [(0, 1), (0, 0)]) := by
    decide
  cases fetched : @PageRequest.fetch Crates.plain (Sample.request .newest 2) Sample.session
      (Sample.span [0] 0 4) Sample.twoPolled with
  | error error => simp [fetched, Except.toOption] at outcome
  | ok page =>
    simp only [fetched, Except.toOption, Option.map_some, Option.some.injEq, Prod.mk.injEq] at outcome
    refine ⟨page, rfl, ⟨by decide, by decide, by simp [Sample.request]⟩,
      Sample.delivered_twoPolled .newest 2, fun nothing => ?_⟩
    have passed : page.Passed (Sample.request .newest 2).query.direction
        (Sample.request .newest 2).query.walk (Sample.record 0 2 2) := by
      have forward : page.onward (Sample.request .newest 2).query.direction = page.nextCursor := rfl
      simp [RecordPage.Passed, forward, outcome.1]
    rcases nothing (Sample.record 0 2 2) ⟨by decide, by decide, ⟨0, 4⟩, by decide, by decide, by decide⟩
      ⟨4, by decide, by decide⟩ passed with returned | ⟨_, fails⟩
    · rw [outcome.2] at returned
      exact absurd returned (by decide)
    · exact fails (by decide)

end Klens.Scan
