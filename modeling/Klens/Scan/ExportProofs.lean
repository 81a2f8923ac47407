import Klens.Scan.Deadline
import Klens.Scan.Export
import Klens.Scan.Paging
import Klens.Scan.ReadProofs

/-! What an export emits. A record is emitted twice when a page returns it out
of a window the deadline cut: the cursor goes back to that window's near edge
unless the page is full. -/
namespace Klens.Scan
open Klens.Lib

namespace PageRequest
variable [Crates]

/-- The pass leaves room on the page, and a matching record it polled lies in a
window it did not finish. -/
def Rereads (request : PageRequest) (session : ClusterSession) (schedule : PassSchedule)
    (state : Progress) : Prop :=
  let matching := (request.pipeline session).matching (schedule.reading state).2
  matching.length < request.limit - state.kept.length ∧
    ∃ entry ∈ matching, entry.2.partition ∉ (schedule.reading state).1.completed

/-- The places of a page, whatever the deadline did: distinct, ahead of where
the page was opened, and behind its cursor unless a pass reads on over them. -/
structure Emits (request : PageRequest) (session : ClusterSession) (span : LogSpan) (log : Log)
    (schedule : Schedule) (boundaries : Offsets) (places : List (Int × Int)) : Prop where
  distinct : places.Nodup
  onward : ∀ raw, Unread request.query.walk boundaries raw →
    Unread request.query.walk (request.origin span request.query.cursor).remaining.offsets raw
  ahead : ∀ place ∈ places, ∃ raw, raw.place = place ∧ log.Holds span raw ∧
    Unread request.query.walk (request.origin span request.query.cursor).remaining.offsets raw
  behind : (∀ visit ∈ request.fetchVisits session span schedule,
    ¬ request.Rereads session visit.1 visit.2) → ∀ raw, raw.place ∈ places →
      ¬ Unread request.query.walk boundaries raw

/-- A record the last pass kept is behind the boundaries it leaves, unless it
reads on over it. -/
theorem PassDone.behind_of_steady {request : PageRequest} {session : ClusterSession}
    {span : LogSpan} {log : Log} {schedule : PassSchedule} {state after : Progress} {stop : Bool}
    {found : RecordBatch Kept}
    (done : request.PassDone session span log schedule state after stop found)
    (steady : ¬ request.Rereads session schedule state) {raw : RawRecord}
    (kept : raw.place ∈ places found.ranked) :
    ¬ Unread request.query.walk (movedTo span request.query.walk request.take
      (request.origin span state.cursor) (schedule.reading state).1
      (request.limit - state.kept.length) (places found.ranked)) raw := by
  refine done.made.kept_behind kept ?_
  by_contra cut
  rw [not_or, done.full_iff] at cut
  obtain ⟨entry, accepted, passes, placed⟩ := done.made.holding.subset _ kept
  refine steady ⟨by omega, entry, List.mem_filter.mpr ⟨accepted, passes⟩, ?_⟩
  rw [show entry.2.partition = raw.partition from (Prod.mk.inj placed).1]
  exact cut.2

theorem fetch_emits {request : PageRequest} {session : ClusterSession} {span : LogSpan}
    {schedule : Schedule} {log : Log} {page : RecordPage} (valid : request.Valid)
    (delivered : request.Delivered session span schedule log)
    (fetched : request.fetch session span schedule = .ok page) :
    ∃ boundaries cursor, request.Stands span log boundaries cursor ∧
      page.onward request.query.direction = cursor.map RecordCursor.display ∧
      request.Emits session span log schedule boundaries page.places := by
  rcases fetch_spec valid delivered fetched with
    ⟨empty, rfl⟩ | ⟨earlier, used, mid, last, found, kept, opened⟩
  · refine ⟨_, none, fun raw => nothing_unread valid empty, ?_,
      ⟨.nil, fun _ unread => unread, fun place member => ?_, fun _ raw member => ?_⟩⟩
    · cases request.query.direction <;> rfl
    · contradiction
    · contradiction
  obtain ⟨after, stop, lastPass⟩ := opened.pass
  have done := lastPass.done
  have sweeps := lastPass.sweeps
  refine ⟨_, last.cursor, opened.stands, opened.assembled.onward, ?_, ?_, ?_, ?_⟩
  · refine opened.places.nodup_iff.mpr
      (List.nodup_append.mpr ⟨sweeps.distinct, done.made.holding.distinct, ?_⟩)
    intro place early other late same
    subst same
    obtain ⟨raw, placed, holds, _, _, gone⟩ := sweeps.swept place early
    obtain ⟨again, againPlaced, _, _, unread, _⟩ := done.made.kept_unread late
    exact gone (unread_of_place (againPlaced.trans placed.symm) unread)
  · exact fun raw moved => sweeps.onward raw (done.made.unread_of_moved moved)
  · intro place member
    rcases List.mem_append.mp (opened.places.mem_iff.mp member) with early | late
    · obtain ⟨raw, placed, holds, _, unread, _⟩ := sweeps.swept place early
      exact ⟨raw, placed, holds, unread⟩
    · obtain ⟨raw, placed, holds, _, unread, _⟩ := done.made.kept_unread late
      exact ⟨raw, placed, holds, sweeps.onward raw unread⟩
  · intro steady raw member moved
    rcases List.mem_append.mp (opened.places.mem_iff.mp member) with early | late
    · obtain ⟨again, placed, _, _, _, gone⟩ := sweeps.swept _ early
      exact gone (unread_of_place placed.symm (done.made.unread_of_moved moved))
    · exact done.behind_of_steady (steady (used, mid) (by simp [opened.visits])) late moved

end PageRequest

namespace Export
variable [Crates]

/-- Where the records of successive calls stand in the log. -/
def emitted (source : Export) (schedules : List Schedule) : List (Int × Int) :=
  (source.batches schedules).flatten.map fun record => (record.partition, record.offset)

/-- Every call that returns records meets `holds`. -/
inductive Along (holds : Export → Schedule → Prop) : Export → List Schedule → Prop where
  | nil (source : Export) : Along holds source []
  | stopped {source : Export} {schedule : Schedule} {rest : List Schedule}
      (stopped : ∀ records after, source.next schedule ≠ .ok (some records, after)) :
      Along holds source (schedule :: rest)
  | step {source after : Export} {schedule : Schedule} {rest : List Schedule} {records : List Record}
      (stepped : source.next schedule = .ok (some records, after)) (first : holds source schedule)
      (later : Along holds after rest) : Along holds source (schedule :: rest)

theorem Along.inv {holds : Export → Schedule → Prop} {source after : Export} {schedule : Schedule}
    {rest : List Schedule} {records : List Record} (along : source.Along holds (schedule :: rest))
    (stepped : source.next schedule = .ok (some records, after)) :
    holds source schedule ∧ after.Along holds rest := by
  cases along with
  | stopped stopped => exact absurd stepped (stopped _ _)
  | step again first later =>
    obtain ⟨-, rfl⟩ := Prod.mk.inj (Except.ok.inj (stepped.symm.trans again))
    exact ⟨first, later⟩

/-- The consumer delivers the log to the page the call fetches. -/
def Served (log : Log) (source : Export) (schedule : Schedule) : Prop :=
  source.request.Delivered source.session source.span schedule log

/-- No pass of the page the call fetches reads on over records it returns. -/
def Steady (source : Export) (schedule : Schedule) : Prop :=
  source.request.query.direction = .forward →
    ∀ visit ∈ source.request.fetchVisits source.session source.span schedule,
      ¬ source.request.Rereads source.session visit.1 visit.2

theorem next_cases (source : Export) (schedule : Schedule) :
    (∀ records after, source.next schedule ≠ .ok (some records, after)) ∨
      ∃ records after, source.next schedule = .ok (some records, after) := by
  by_contra neither
  simp only [not_or, not_forall, not_not] at neither
  exact neither.2 neither.1

theorem next_eq_some {source after : Export} {schedule : Schedule} {records : List Record}
    (stepped : source.next schedule = .ok (some records, after)) :
    ∃ page cursor, source.request.fetch source.session source.span schedule = .ok page ∧
      nextCursor page = .ok cursor ∧ records = page.records ∧
      after = { source with request := source.request.setCursor cursor, done := cursor.isNone } := by
  unfold next at stepped
  split at stepped
  · cases stepped
  · obtain ⟨page, fetched, rest⟩ := Except.bind_ok stepped
    obtain ⟨cursor, parsed, rest⟩ := Except.bind_ok rest
    split at rest
    · cases rest
    · simp only [Except.ok.injEq, Prod.mk.injEq, Option.some.injEq] at rest
      exact ⟨page, cursor, fetched, parsed, rest.1.symm, rest.2.symm⟩

omit [Crates] in
theorem nextCursor_display {page : RecordPage} {cursor next : Option RecordCursor}
    (shown : page.nextCursor = cursor.map RecordCursor.display) (read : nextCursor page = .ok next) :
    next = cursor := by
  unfold nextCursor at read
  rw [shown] at read
  cases cursor with
  | none => exact (Except.ok.inj read).symm
  | some cursor =>
    simp only [Option.map_some] at read
    cases parsed : RecordCursor.parse cursor.display with
    | error error =>
      rw [parsed] at read
      contradiction
    | ok again =>
      rw [parsed] at read
      rw [← Except.ok.inj read, RecordCursor.parse_display parsed]

theorem emitted_of_stopped {source : Export} {schedule : Schedule} {rest : List Schedule}
    (stopped : ∀ records after, source.next schedule ≠ .ok (some records, after)) :
    source.emitted (schedule :: rest) = [] := by
  unfold emitted batches
  split
  · rename_i stepped
    exact absurd stepped (stopped _ _)
  · rfl

theorem emitted_of_next {source after : Export} {schedule : Schedule} {rest : List Schedule}
    {page : RecordPage} (stepped : source.next schedule = .ok (some page.records, after)) :
    source.emitted (schedule :: rest) = page.places ++ after.emitted rest := by
  unfold emitted
  rw [batches, stepped]
  simp only [List.flatten_cons, List.map_append]
  rfl

theorem emitted_of_done {source : Export} (done : source.done = true) (schedules : List Schedule) :
    source.emitted schedules = [] := by
  cases schedules with
  | nil => rfl
  | cons schedule rest =>
    refine emitted_of_stopped fun records after stepped => ?_
    simp [next, done] at stepped

/-- Pages read forward emit distinct records, all ahead of the export's cursor. -/
theorem emitted_forward {log : Log} (schedules : List Schedule) {source : Export}
    (valid : source.request.Valid) (forward : source.request.query.direction = .forward)
    (served : source.Along (Served log) schedules) (steady : source.Along Steady schedules) :
    (source.emitted schedules).Nodup ∧ ∀ place ∈ source.emitted schedules, ∃ raw,
      raw.place = place ∧ log.Holds source.span raw ∧
      Unread source.request.query.walk
        (source.request.origin source.span source.request.query.cursor).remaining.offsets raw := by
  induction schedules generalizing source with
  | nil => exact ⟨.nil, by simp [emitted, batches]⟩
  | cons schedule rest ih =>
    rcases source.next_cases schedule with stopped | ⟨records, after, stepped⟩
    · rw [emitted_of_stopped stopped]
      exact ⟨.nil, by simp⟩
    have served := served.inv stepped
    have steady := steady.inv stepped
    obtain ⟨page, cursor, fetched, parsed, rfl, moved⟩ := next_eq_some stepped
    obtain ⟨boundaries, left, stands, onward, emits⟩ :=
      PageRequest.fetch_emits valid served.1 fetched
    rw [forward] at onward
    obtain rfl := nextCursor_display onward parsed
    have behind := emits.behind (steady.1 forward)
    rw [emitted_of_next stepped]
    cases cursor with
    | none =>
      rw [emitted_of_done (by simp [moved]), List.append_nil]
      exact ⟨emits.distinct, emits.ahead⟩
    | some cursor =>
      obtain ⟨order, walk, offsets, _⟩ := stands
      have walks : source.request.query.walk = source.request.query.order := by
        rw [← PageRequest.walkOf_query valid, forward]
        rfl
      have nextValid : after.request.Valid := by
        rw [moved]
        refine ⟨valid.limit, valid.take, fun other same => ?_⟩
        obtain rfl := Option.some.inj same
        exact order
      have nextForward : after.request.query.direction = .forward := by
        rw [moved]
        change cursor.direction = .forward
        simp [RecordCursor.direction, walk, order, walks]
      obtain ⟨distinct, ahead⟩ := ih nextValid nextForward served.2 steady.2
      have later : ∀ place ∈ after.emitted rest, ∃ raw, raw.place = place ∧
          log.Holds source.span raw ∧ Unread source.request.query.walk boundaries raw := by
        intro place member
        obtain ⟨raw, placed, holds, unread⟩ := ahead place member
        rw [moved] at holds unread
        change Unread cursor.walk cursor.remaining.offsets raw at unread
        rw [walk] at unread
        exact ⟨raw, placed, holds, ((unread_restrict offsets raw).mp unread).1⟩
      refine ⟨List.nodup_append.mpr ⟨emits.distinct, distinct, ?_⟩, ?_⟩
      · intro place early other late same
        subst same
        obtain ⟨raw, rfl, _, unread⟩ := later place late
        exact behind raw early unread
      · intro place member
        rcases List.mem_append.mp member with early | late
        · exact emits.ahead place early
        · obtain ⟨raw, placed, holds, unread⟩ := later place late
          exact ⟨raw, placed, holds, emits.onward raw unread⟩

/-- The cursor after a page read backward is the opened one, turned round. -/
theorem turned_of_backward {source : Export} {schedule : Schedule} {page : RecordPage}
    {cursor : RecordCursor} (backward : source.request.query.direction = .backward)
    (fetched : source.request.fetch source.session source.span schedule = .ok page)
    (parsed : nextCursor page = .ok (some cursor)) :
    ∃ opened, source.request.query.cursor = some opened ∧ opened.direction = .backward ∧
      source.span.rewind opened = some cursor := by
  have turned : some cursor = source.request.query.cursor.bind source.span.rewind := by
    refine nextCursor_display ?_ parsed
    rcases PageRequest.fetch_cases fetched with ⟨_, rfl⟩ | ⟨_, last, _, _, assembled⟩
    · cases parsed
    · have back := assembled.back
      rwa [backward] at back
  obtain ⟨opened, given, turned⟩ := Option.bind_eq_some_iff.mp turned.symm
  refine ⟨opened, given, ?_, turned⟩
  simpa [RecordQuery.direction, given] using backward

/-- A page read backward leaves the export where its cursor stood, turned round. -/
theorem emitted_backward {log : Log} {schedules : List Schedule} {source : Export}
    (valid : source.request.Valid) (backward : source.request.query.direction = .backward)
    (served : source.Along (Served log) schedules) (steady : source.Along Steady schedules) :
    (source.emitted schedules).Nodup := by
  cases schedules with
  | nil => exact .nil
  | cons schedule rest =>
    rcases source.next_cases schedule with stopped | ⟨records, after, stepped⟩
    · rw [emitted_of_stopped stopped]
      exact .nil
    have served := served.inv stepped
    have steady := steady.inv stepped
    obtain ⟨page, cursor, fetched, parsed, rfl, moved⟩ := next_eq_some stepped
    obtain ⟨boundaries, left, stands, onward, emits⟩ :=
      PageRequest.fetch_emits valid served.1 fetched
    rw [emitted_of_next stepped]
    cases cursor with
    | none =>
      rw [emitted_of_done (by simp [moved]), List.append_nil]
      exact emits.distinct
    | some cursor =>
      obtain ⟨opened, given, against, turned⟩ := turned_of_backward backward fetched parsed
      obtain ⟨order, walk, _⟩ := LogSpan.rewind_eq_some turned
      have walks : source.request.query.walk = opened.walk := by simp [RecordQuery.walk, given]
      have openedOrder := valid.order opened given
      have nextValid : after.request.Valid := by
        rw [moved]
        refine ⟨valid.limit, valid.take, fun other same => ?_⟩
        obtain rfl := Option.some.inj same
        exact order.trans openedOrder
      have nextForward : after.request.query.direction = .forward := by
        rw [moved]
        exact LogSpan.direction_of_rewind turned against
      obtain ⟨distinct, ahead⟩ := emitted_forward rest nextValid nextForward served.2 steady.2
      refine List.nodup_append.mpr ⟨emits.distinct, distinct, ?_⟩
      intro place early other late same
      subst same
      obtain ⟨raw, placed, holds, unread⟩ := emits.ahead place early
      obtain ⟨again, againPlaced, _, againUnread⟩ := ahead place late
      rw [moved] at againUnread
      change Unread cursor.walk cursor.remaining.offsets again at againUnread
      have round := PageRequest.unread_rewind opened holds
      rw [turned] at round
      rw [walk] at againUnread
      refine round.mp (PageRequest.unread_of_place (againPlaced.trans placed.symm) againUnread) ?_
      rw [walks] at unread
      simpa [PageRequest.origin, given] using unread

/-- A run whose calls all read on steadily emits no record twice. -/
theorem export_emits_once {session : ClusterSession} {broker : Broker} {query : RecordQuery}
    {limits : RecordLimits} {source : Export}
    (opened : Export.open session broker query limits = .ok source)
    (validated : ∀ cursor, query.cursor = some cursor → cursor.validateFor query.order = .ok ())
    (log : Log) (schedules : List Schedule) (served : source.Along (Served log) schedules)
    (steady : source.Along Steady schedules) : (source.emitted schedules).Nodup := by
  obtain ⟨request, asked, rest⟩ := Except.bind_ok opened
  obtain ⟨span, _, rest⟩ := Except.bind_ok rest
  obtain rfl := Except.ok.inj rest
  obtain ⟨rfl, limit, _⟩ := openRequest_spec asked
  by_cases take : 1 ≤ request.take
  · have valid : request.Valid := by
      refine ⟨limit, take, fun cursor given => ?_⟩
      exact RecordCursor.order_of_validateFor (validated cursor given)
    cases direction : request.query.direction with
    | forward => exact (emitted_forward schedules valid direction served steady).1
    | backward => exact emitted_backward valid direction served steady
  · have empty := PageRequest.windows_of_take span take
    cases schedules with
    | nil => exact .nil
    | cons schedule rest =>
      rcases next_cases ⟨session, request, span, false⟩ schedule with
        stopped | ⟨records, after, stepped⟩
      · rw [emitted_of_stopped stopped]
        exact .nil
      obtain ⟨page, cursor, fetched, parsed, rfl, moved⟩ := next_eq_some stepped
      rcases PageRequest.fetch_cases fetched with ⟨_, rfl⟩ | ⟨some, _⟩
      · obtain rfl := Except.ok.inj parsed
        rw [emitted_of_next stepped, emitted_of_done (by simp [moved])]
        exact .nil
      · exact absurd empty some

end Export

/-- The export after a page that ended at `cursor`. -/
def Export.past (source : Export) (cursor : RecordCursor) : Export :=
  { source with request := source.request.setCursor (some cursor), done := false }

section Runs
variable [Crates] {holds : Export → Schedule → Prop} {source : Export} {schedule : Schedule}
  {rest : List Schedule}

theorem Export.along_single (first : holds source schedule) : source.Along holds [schedule] := by
  rcases source.next_cases schedule with stopped | ⟨records, after, stepped⟩
  · exact .stopped stopped
  · exact .step stepped first (.nil _)

theorem Export.along_cons {text : String} {cursor : RecordCursor} (first : holds source schedule)
    (shown : ((source.request.fetch source.session source.span schedule).toOption.bind
      RecordPage.nextCursor) = some text) (parsed : RecordCursor.parse text = .ok cursor)
    (later : (source.past cursor).Along holds rest) :
    source.Along holds (schedule :: rest) := by
  rcases source.next_cases schedule with stopped | ⟨records, after, stepped⟩
  · exact .stopped stopped
  · obtain ⟨page, next, fetched, read, _, rfl⟩ := next_eq_some stepped
    rw [fetched] at shown
    have text : page.nextCursor = some text := shown
    rw [nextCursor, text] at read
    simp only [parsed] at read
    obtain rfl := Except.ok.inj read
    exact .step stepped first later

end Runs

namespace Sample

/-- The export of the four records, in pages of three. -/
def source : Export where
  session := session
  request := { (request .oldest 3) with take := 10 }
  span := ⟨[0], mergeWatermarks (lookup [0] 0).found (lookup [0] 4).found "orders"⟩
  done := false

theorem opened_source : Export.open session (broker [0] (lookup [0] 0) (lookup [0] 4))
    (request .oldest 3).query limits = .ok source := rfl

/-- The records from `start` up to `stop`. -/
def records (start stop : Nat) : List RawRecord :=
  ((List.range stop).drop start).map fun offset => record 0 offset offset

/-- A consumer that gets to deliver the records from `start` up to `stop`. -/
def polls (start stop : Nat) : Schedule := polling [records start stop]

theorem served {given : Export} {start stop : Nat} (unfiltered : given.request.query.filter = none)
    (inOrder : ∀ window ∈ (given.request.initial given.span).windows,
      ofPartition window.partition [records start stop].flatten <+: four.startingFrom window) :
    @Export.Served Crates.plain four given (polls start stop) :=
  @PageRequest.delivered_polling Crates.plain _ unfiltered _ _ _ _ inOrder

theorem steady {given : Export} {start stop : Nat} (unfiltered : given.request.query.filter = none)
    (goesOn : ¬ @PageRequest.Rereads Crates.plain given.request given.session
      ((polls start stop).pass 0) (given.request.initial given.span)) :
    @Export.Steady Crates.plain given (polls start stop) := by
  intro _ visit member
  rw [@PageRequest.fetchVisits_unfiltered Crates.plain _ unfiltered] at member
  split at member
  · contradiction
  · obtain rfl := List.mem_singleton.mp member
    exact goesOn

theorem along_source {holds : Export → Schedule → Prop} (first : holds source (polls 0 4))
    (second : holds (source.past (cursor .oldest .oldest [(0, 3)])) (polls 3 4)) :
    @Export.Along Crates.plain holds source [polls 0 4, polls 3 4] :=
  @Export.along_cons Crates.plain _ _ _ _ "v2:o:f:0:3" _ first (by decide +kernel)
    (by decide +kernel) (@Export.along_single Crates.plain _ _ _ second)

end Sample

theorem export_emits_once_four :
    (@Export.emitted Crates.plain Sample.source [Sample.polls 0 4, Sample.polls 3 4]).Nodup ∧
      @Export.emitted Crates.plain Sample.source [Sample.polls 0 4, Sample.polls 3 4] =
        [(0, 0), (0, 1), (0, 2), (0, 3)] := by
  refine ⟨@Export.export_emits_once Crates.plain Sample.session
    (Sample.broker [0] (Sample.lookup [0] 0) (Sample.lookup [0] 4)) (Sample.request .oldest 3).query
    Sample.limits Sample.source Sample.opened_source (fun cursor given => by contradiction) Sample.four
    [Sample.polls 0 4, Sample.polls 3 4] ?_ ?_, by decide +kernel⟩
  · apply Sample.along_source
    · exact Sample.served rfl (by decide +kernel)
    · exact Sample.served rfl (by decide +kernel)
  · apply Sample.along_source
    · exact Sample.steady rfl (by unfold PageRequest.Rereads; decide +kernel)
    · exact Sample.steady rfl (by unfold PageRequest.Rereads; decide +kernel)

/-- The first call returns record 0 out of a window the deadline cut. Its cursor
is not the export's, which has none, so the second call returns it again. -/
theorem export_emits_record_twice :
    ∃ source, Export.open Sample.session (Sample.broker [0] (Sample.lookup [0] 0) (Sample.lookup [0] 4))
        (Sample.request .oldest 3).query Sample.limits = .ok source ∧
      @Export.Along Crates.plain (@Export.Served Crates.plain Sample.four) source
        [Sample.polls 0 1, Sample.polls 0 4] ∧
      ¬ (@Export.emitted Crates.plain source [Sample.polls 0 1, Sample.polls 0 4]).Nodup := by
  refine ⟨Sample.source, Sample.opened_source, ?_, by decide +kernel⟩
  refine @Export.along_cons Crates.plain _ _ _ _ "v2:o:f:0:0"
    (Sample.cursor .oldest .oldest [(0, 0)]) ?_ (by decide +kernel) (by decide +kernel)
    (@Export.along_single Crates.plain _ _ _ ?_)
  · exact Sample.served rfl (by decide +kernel)
  · exact Sample.served rfl (by decide +kernel)

end Klens.Scan
