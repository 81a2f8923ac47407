import Klens.Scan.PassProofs

/-! What a window scan holds after any polls and idle turns, record by record.
A partition is completed by the first event that ends its window, whichever of
the three kinds it is, and remains until then. -/
namespace Klens.Scan
open Klens.Lib

/-- What the bookkeeping of a scan meets: a polled record, or a turn of the loop
that polled nothing. -/
inductive ScanEvent where
  | record (raw : RawRecord)
  | idle (turn : Turn)

namespace ScanEvent

def records : ScanEvent → List RawRecord
  | .record raw => [raw]
  | .idle _ => []

/-- The event ends the window: its last offset or one past it, or a position or
a lag that says there is no more. -/
def Ends (window : PartitionWindow) : ScanEvent → Prop
  | .record raw => raw.partition = window.partition ∧ raw.offset ≥ window.stop - 1
  | .idle turn => settled turn window.partition (window.start, window.stop) = true

instance (window : PartitionWindow) : DecidablePred (Ends window)
  | .record _ => inferInstanceAs (Decidable (_ ∧ _))
  | .idle _ => inferInstanceAs (Decidable (_ = true))

end ScanEvent

def polled (events : List ScanEvent) : List RawRecord := events.flatMap ScanEvent.records

/-- One event, as `ingest` and `settle_idle` deal with it. -/
def bookkeep (state : WindowScan × List (Ranked RawRecord)) :
    ScanEvent → WindowScan × List (Ranked RawRecord)
  | .record raw => ingestStep state raw
  | .idle turn => (settleIdle state.1 turn, state.2)

/-- The scan of `windows` after all of `events`, and what it accepted. -/
def booked (windows : List PartitionWindow) (events : List ScanEvent) :
    WindowScan × List (Ranked RawRecord) := events.foldl bookkeep (WindowScan.new windows, [])

/-- The events of the poll loop. -/
def turnEvents : List Turn → List ScanEvent
  | [] => []
  | turn :: turns => match turn.polled with
    | .error _ => []
    | .ok [] => .idle turn :: turnEvents turns
    | .ok (raw :: records) => (raw :: records).map .record ++ turnEvents turns

theorem bookkeep_of_isEmpty {state : WindowScan × List (Ranked RawRecord)}
    (empty : state.1.remaining.isEmpty = true) (event : ScanEvent) : bookkeep state event = state := by
  have none_left : state.1.remaining = ∅ := Std.ExtTreeMap.isEmpty_iff.mp empty
  have unlisted : state.1.remaining.toList = [] := Std.ExtTreeMap.toList_eq_nil_iff.mpr none_left
  cases event with
  | record raw => simp [bookkeep, ingestStep, none_left]
  | idle turn =>
    have unsettled : settleIdle state.1 turn = state.1 := by
      rw [settleIdle, unlisted]
      rfl
    rw [bookkeep, unsettled]

theorem foldl_bookkeep_record (records : List RawRecord) (state : WindowScan × List (Ranked RawRecord)) :
    (records.map ScanEvent.record).foldl bookkeep state = records.foldl ingestStep state :=
  List.foldl_map

/-- The poll loop deals with its events one after the other; once nothing
remains it stops, and they would change nothing. -/
theorem accepting_eq_booked (turns : List Turn) (state : WindowScan × List (Ranked RawRecord)) :
    accepting turns state = (turnEvents turns).foldl bookkeep state := by
  induction turns generalizing state with
  | nil =>
    unfold accepting
    split <;> rfl
  | cons turn turns ih =>
    unfold accepting
    split
    · rename_i empty
      have still : ∀ events : List ScanEvent, events.foldl bookkeep state = state := by
        intro events
        induction events with
        | nil => rfl
        | cons event events ih => rw [List.foldl_cons, bookkeep_of_isEmpty empty, ih]
      exact (still _).symm
    · dsimp only [turnEvents]
      cases turn.polled with
      | error error => rfl
      | ok records =>
        cases records with
        | nil => exact ih _
        | cons raw records =>
          dsimp only
          rw [List.foldl_append, foldl_bookkeep_record]
          exact ih _

namespace WindowScan
variable {scan : WindowScan}

theorem getElem?_remaining_finish (partition other : Int) :
    (scan.finish partition).remaining[other]? =
      if other = partition then none else scan.remaining[other]? := by
  by_cases member : partition ∈ scan.remaining
  · rw [finish_of_mem member, Std.ExtTreeMap.getElem?_erase]
    by_cases same : other = partition
    · simp [same]
    · simp [same, Ne.symm same]
  · rw [finish_of_not_mem member]
    split
    · rename_i same
      rw [same]
      exact Std.ExtTreeMap.getElem?_eq_none member
    · rfl

theorem mem_remaining_finish (partition other : Int) :
    other ∈ (scan.finish partition).remaining ↔ other ≠ partition ∧ other ∈ scan.remaining := by
  rw [Std.ExtTreeMap.mem_iff_isSome_getElem?, getElem?_remaining_finish,
    Std.ExtTreeMap.mem_iff_isSome_getElem?]
  by_cases same : other = partition
  · simp [same]
  · simp [same]

theorem mem_completed_finish (partition other : Int) :
    other ∈ (scan.finish partition).completed ↔
      other ∈ scan.completed ∨ other = partition ∧ other ∈ scan.remaining := by
  by_cases member : partition ∈ scan.remaining
  · rw [finish_of_mem member, Std.ExtTreeSet.mem_insert, compare_eq_iff_eq]
    constructor
    · rintro (rfl | done)
      · exact .inr ⟨rfl, member⟩
      · exact .inl done
    · rintro (done | ⟨rfl, _⟩)
      · exact .inr done
      · exact .inl rfl
  · rw [finish_of_not_mem member]
    refine (or_iff_left ?_).symm
    rintro ⟨rfl, here⟩
    exact member here

@[simp] theorem planned_finish (partition : Int) : (scan.finish partition).planned = scan.planned := by
  unfold finish
  split <;> rfl

@[simp] theorem newest_finish (partition : Int) : (scan.finish partition).newest = scan.newest := by
  unfold finish
  split <;> rfl

/-- What one event leaves of a scan: the partitions it names are finished. -/
def finishAll (scan : WindowScan) (done : List Int) : WindowScan := done.foldl .finish scan

theorem getElem?_remaining_finishAll (done : List Int) (other : Int) :
    (scan.finishAll done).remaining[other]? =
      if other ∈ done then none else scan.remaining[other]? := by
  induction done generalizing scan with
  | nil => simp [finishAll]
  | cons partition done ih =>
    refine ih.trans ?_
    rw [getElem?_remaining_finish]
    by_cases later : other ∈ done
    · simp [later]
    · simp [later]

theorem mem_completed_finishAll (done : List Int) (other : Int) :
    other ∈ (scan.finishAll done).completed ↔
      other ∈ scan.completed ∨ other ∈ done ∧ other ∈ scan.remaining := by
  induction done generalizing scan with
  | nil => simp [finishAll]
  | cons partition done ih =>
    refine ih.trans ?_
    rw [mem_completed_finish, mem_remaining_finish, List.mem_cons]
    tauto

theorem apart_finish (apart : ∀ partition ∈ scan.completed, partition ∉ scan.remaining)
    (partition other : Int) (done : other ∈ (scan.finish partition).completed) :
    other ∉ (scan.finish partition).remaining := by
  rw [mem_remaining_finish]
  rintro ⟨different, here⟩
  rcases (mem_completed_finish partition other).mp done with before | ⟨same, _⟩
  · exact apart other before here
  · exact different same

theorem apart_finishAll (apart : ∀ partition ∈ scan.completed, partition ∉ scan.remaining)
    (done : List Int) : (∀ partition ∈ (scan.finishAll done).completed,
        partition ∉ (scan.finishAll done).remaining) ∧
      (scan.finishAll done).completed.size + (scan.finishAll done).remaining.size =
        scan.completed.size + scan.remaining.size := by
  induction done generalizing scan with
  | nil => exact ⟨apart, rfl⟩
  | cons partition done ih =>
    obtain ⟨later, moved⟩ := ih (apart_finish apart partition)
    exact ⟨later, moved.trans (size_finish apart partition)⟩

@[simp] theorem planned_finishAll (done : List Int) : (scan.finishAll done).planned = scan.planned := by
  induction done generalizing scan with
  | nil => rfl
  | cons partition done ih => exact ih.trans (planned_finish partition)

@[simp] theorem newest_finishAll (done : List Int) : (scan.finishAll done).newest = scan.newest := by
  induction done generalizing scan with
  | nil => rfl
  | cons partition done ih => exact ih.trans (newest_finish partition)

end WindowScan

/-- The books of a scan: what remains has not been ended by any event, what is
completed has, and only windows with offsets in them count. -/
structure Books (windows : List PartitionWindow) (events : List ScanEvent) (scan : WindowScan) :
    Prop where
  remaining : ∀ partition range, scan.remaining[partition]? = some range ↔
    (⟨partition, range.1, range.2⟩ : PartitionWindow) ∈ windows ∧ range.1 < range.2 ∧
      ∀ event ∈ events, ¬ event.Ends ⟨partition, range.1, range.2⟩
  completed : ∀ partition, partition ∈ scan.completed ↔ ∃ window ∈ windows,
    window.partition = partition ∧ window.start < window.stop ∧ ∃ event ∈ events, event.Ends window
  apart : ∀ partition ∈ scan.completed, partition ∉ scan.remaining
  counted : scan.completed.size + scan.remaining.size = scan.planned

namespace Books
variable {windows : List PartitionWindow} {events : List ScanEvent} {scan : WindowScan}

theorem start (single : ∀ first ∈ windows, ∀ second ∈ windows,
    first.partition = second.partition → first = second) :
    Books windows [] (WindowScan.new windows) where
  remaining partition range := by simpa using remaining_new_iff single partition range
  completed partition := by simp [WindowScan.new]
  apart partition done := by simp [WindowScan.new] at done
  counted := by simp [WindowScan.new]

theorem mem_remaining (books : Books windows events scan) {window : PartitionWindow}
    (listed : window ∈ windows) (nonempty : window.start < window.stop)
    (unended : ∀ event ∈ events, ¬ event.Ends window) :
    scan.remaining[window.partition]? = some (window.start, window.stop) :=
  (books.remaining _ _).mpr ⟨listed, nonempty, unended⟩

/-- An event finishes the partitions whose windows it ends, and no others. -/
theorem finishAll (books : Books windows events scan) {event : ScanEvent} (done : List Int)
    (ends : ∀ partition range, scan.remaining[partition]? = some range →
      (partition ∈ done ↔ event.Ends ⟨partition, range.1, range.2⟩)) :
    Books windows (events ++ [event]) (scan.finishAll done) := by
  constructor
  · intro partition range
    rw [WindowScan.getElem?_remaining_finishAll]
    constructor
    · intro found
      split at found
      · contradiction
      · rename_i kept
        obtain ⟨listed, nonempty, unended⟩ := (books.remaining partition range).mp found
        refine ⟨listed, nonempty, fun other member => ?_⟩
        rcases List.mem_append.mp member with earlier | last
        · exact unended other earlier
        · obtain rfl := List.mem_singleton.mp last
          exact fun ended => kept ((ends partition range found).mpr ended)
    · rintro ⟨listed, nonempty, unended⟩
      have found := (books.remaining partition range).mpr
        ⟨listed, nonempty, fun other earlier => unended other (List.mem_append_left _ earlier)⟩
      rw [if_neg, found]
      exact fun finished => unended event (by simp) ((ends partition range found).mp finished)
  · intro partition
    rw [WindowScan.mem_completed_finishAll, books.completed]
    constructor
    · rintro (⟨window, listed, rfl, nonempty, other, earlier, ended⟩ | ⟨finished, here⟩)
      · exact ⟨window, listed, rfl, nonempty, other, List.mem_append_left _ earlier, ended⟩
      · obtain ⟨range, found⟩ := Maps.mem_iff_exists.mp here
        obtain ⟨listed, nonempty, _⟩ := (books.remaining partition range).mp found
        exact ⟨_, listed, rfl, nonempty, event, by simp, (ends partition range found).mp finished⟩
    · rintro ⟨window, listed, rfl, nonempty, other, member, ended⟩
      by_cases before : ∃ event ∈ events, event.Ends window
      · exact .inl ⟨window, listed, rfl, nonempty, before⟩
      · have found := books.mem_remaining listed nonempty fun event earlier ended =>
          before ⟨event, earlier, ended⟩
        rcases List.mem_append.mp member with earlier | last
        · exact absurd ⟨other, earlier, ended⟩ before
        · obtain rfl := List.mem_singleton.mp last
          refine .inr ⟨(ends _ _ found).mpr ended, ?_⟩
          exact Maps.mem_of_getElem? found
  · exact (WindowScan.apart_finishAll books.apart done).1
  · rw [WindowScan.planned_finishAll, (WindowScan.apart_finishAll books.apart done).2]
    exact books.counted

/-- Only the partitions that remain, those completed and their number are in the books. -/
theorem rank (books : Books windows events scan) (raw : RawRecord) :
    Books windows events (scan.rank raw).2 :=
  ⟨books.remaining, books.completed, books.apart, books.counted⟩

theorem record (books : Books windows events scan) (ranked : List (Ranked RawRecord))
    (raw : RawRecord) :
    Books windows (events ++ [.record raw]) (bookkeep (scan, ranked) (.record raw)).1 := by
  cases found : scan.remaining[raw.partition]? with
  | none =>
    have gone : raw.partition ∉ scan.remaining := Maps.not_mem_of_getElem? found
    have same : (bookkeep (scan, ranked) (.record raw)).1 = scan.finishAll [] := by
      simp [bookkeep, ingestStep, gone, WindowScan.finishAll]
    rw [same]
    refine books.finishAll [] fun partition range lookup => iff_of_false (by simp) ?_
    rintro ⟨rfl, _⟩
    exact absurd (found.symm.trans lookup) (by simp)
  | some range =>
    obtain ⟨start, stop⟩ := range
    have next : Books windows (events ++ [.record raw])
        (if raw.offset ≥ stop - 1 then scan.finish raw.partition else scan) := by
      split
      · rename_i last
        refine books.finishAll [raw.partition] fun partition range lookup => ?_
        rw [List.mem_singleton]
        constructor
        · rintro rfl
          obtain rfl := Option.some.inj (found.symm.trans lookup)
          exact ⟨rfl, last⟩
        · exact fun ends => ends.1.symm
      · rename_i early
        refine books.finishAll [] fun partition range lookup => iff_of_false (by simp) ?_
        rintro ⟨rfl, last⟩
        obtain rfl := Option.some.inj (found.symm.trans lookup)
        exact early last
    rw [bookkeep, ingestStep_open found]
    dsimp only
    split
    · exact next.rank raw
    · exact next

theorem idle (books : Books windows events scan) (turn : Turn) :
    Books windows (events ++ [.idle turn]) (settleIdle scan turn) := by
  refine books.finishAll _ fun partition range found => ?_
  rw [List.mem_filterMap]
  constructor
  · rintro ⟨⟨other, window⟩, member, chosen⟩
    simp only [Option.ite_none_right_eq_some, Option.some.injEq] at chosen
    obtain ⟨ended, rfl⟩ := chosen
    have lookup := Std.ExtTreeMap.mem_toList_iff_getElem?_eq_some.mp member
    obtain rfl := Option.some.inj (found.symm.trans lookup)
    exact ended
  · intro ended
    have member := Std.ExtTreeMap.mem_toList_iff_getElem?_eq_some.mpr found
    exact ⟨(partition, range), member, if_pos ended⟩

/-- A partition is open, completed or not planned. -/
theorem open_or_completed (books : Books windows events scan) (partition : Int) :
    partition ∈ scan.remaining ∨ partition ∈ scan.completed ↔
      ∃ window ∈ windows, window.partition = partition ∧ window.start < window.stop := by
  constructor
  · rintro (here | done)
    · obtain ⟨range, found⟩ := Maps.mem_iff_exists.mp here
      obtain ⟨listed, nonempty, _⟩ := (books.remaining partition range).mp found
      exact ⟨_, listed, rfl, nonempty⟩
    · obtain ⟨window, listed, same, nonempty, _⟩ := (books.completed partition).mp done
      exact ⟨window, listed, same, nonempty⟩
  · rintro ⟨window, listed, rfl, nonempty⟩
    by_cases ended : ∃ event ∈ events, event.Ends window
    · exact .inr ((books.completed _).mpr ⟨window, listed, rfl, nonempty, ended⟩)
    · have found := books.mem_remaining listed nonempty fun event member ends =>
        ended ⟨event, member, ends⟩
      exact .inl (Maps.mem_of_getElem? found)

/-- A scan is complete once every window with offsets in it was ended. -/
theorem complete_iff (books : Books windows events scan) (walk : RecordOrder) :
    (scan.outcome windows walk).complete = true ↔
      ∀ window ∈ windows, window.start < window.stop → ∃ event ∈ events, event.Ends window := by
  have counted := books.counted
  have all : (scan.outcome windows walk).complete = true ↔ scan.remaining = ∅ := by
    rw [Std.ExtTreeMap.eq_empty_iff_size_eq_zero, WindowScan.outcome, beq_iff_eq]
    omega
  rw [all, Std.ExtTreeMap.eq_empty_iff_forall_not_mem]
  constructor
  · intro nothing window listed nonempty
    by_contra unended
    have found := books.mem_remaining listed nonempty fun event member ends =>
      unended ⟨event, member, ends⟩
    exact nothing window.partition (Maps.mem_of_getElem? found)
  · intro ended partition here
    obtain ⟨range, found⟩ := Maps.mem_iff_exists.mp here
    obtain ⟨listed, nonempty, unended⟩ := (books.remaining partition range).mp found
    obtain ⟨event, member, ends⟩ := ended _ listed nonempty
    exact unended event member ends

end Books

section Accepted
variable {windows : List PartitionWindow} {events : List ScanEvent}

/-- The polls bring each planned partition by rising offset. -/
def Rising (windows : List PartitionWindow) (events : List ScanEvent) : Prop :=
  ∀ window ∈ windows, (ofPartition window.partition (polled events)).Pairwise (·.offset < ·.offset)

/-- What a polled record does to the accepted ones. -/
theorem bookkeep_record (scan : WindowScan) (ranked : List (Ranked RawRecord)) (raw : RawRecord) :
    (∃ range, scan.remaining[raw.partition]? = some range ∧ range.1 ≤ raw.offset ∧
        raw.offset < range.2 ∧
        (bookkeep (scan, ranked) (.record raw)).1.newest = (scan.rank raw).2.newest ∧
        (bookkeep (scan, ranked) (.record raw)).2 = ranked ++ [((scan.rank raw).1, raw)]) ∨
      (∀ range, scan.remaining[raw.partition]? = some range →
        ¬ (range.1 ≤ raw.offset ∧ raw.offset < range.2)) ∧
        (bookkeep (scan, ranked) (.record raw)).1.newest = scan.newest ∧
        (bookkeep (scan, ranked) (.record raw)).2 = ranked := by
  cases found : scan.remaining[raw.partition]? with
  | none =>
    have gone : raw.partition ∉ scan.remaining := Maps.not_mem_of_getElem? found
    exact .inr (by simp [bookkeep, ingestStep, gone])
  | some range =>
    obtain ⟨start, stop⟩ := range
    have ranks : ∀ partition, ((scan.finish partition).rank raw).1 = (scan.rank raw).1 ∧
        ((scan.finish partition).rank raw).2.newest = (scan.rank raw).2.newest := by
      intro partition
      rw [WindowScan.rank_finish]
      exact ⟨rfl, WindowScan.newest_finish _⟩
    rw [bookkeep, ingestStep_open found]
    by_cases inside : start ≤ raw.offset ∧ raw.offset < stop
    · refine .inl ⟨(start, stop), rfl, inside.1, inside.2, ?_⟩
      dsimp only
      rw [if_pos inside]
      split
      · exact ⟨(ranks _).2, by rw [(ranks _).1]⟩
      · exact ⟨rfl, rfl⟩
    · refine .inr ⟨fun range same => ?_, ?_⟩
      · obtain rfl := Option.some.inj same
        exact inside
      · dsimp only
        rw [if_neg inside]
        split
        · exact ⟨WindowScan.newest_finish _, rfl⟩
        · exact ⟨rfl, rfl⟩

/-- What was accepted was polled, in the same order. -/
structure Accepted (windows : List PartitionWindow) (events : List ScanEvent)
    (state : WindowScan × List (Ranked RawRecord)) : Prop where
  books : Books windows events state.1
  sublist : (state.2.map Prod.snd).Sublist (polled events)
  keyed : Rising windows events → Keyed state.1.newest state.2

theorem Accepted.step {state : WindowScan × List (Ranked RawRecord)}
    (accepted : Accepted windows events state) (event : ScanEvent) :
    Accepted windows (events ++ [event]) (bookkeep state event) := by
  obtain ⟨scan, ranked⟩ := state
  obtain ⟨books, sublist, keyed⟩ := accepted
  have longer : polled (events ++ [event]) = polled events ++ event.records := by
    simp [polled]
  have earlier : Rising windows (events ++ [event]) → Rising windows events := by
    intro rising window listed
    have whole := rising window listed
    rw [longer, ofPartition_append] at whole
    exact (List.pairwise_append.mp whole).1
  cases event with
  | idle turn =>
    have newest : (settleIdle scan turn).newest = scan.newest := WindowScan.newest_finishAll _
    refine ⟨books.idle turn, ?_, fun rising => ?_⟩
    · rw [longer]
      exact sublist.trans (List.sublist_append_left ..)
    · rw [bookkeep, newest]
      exact keyed (earlier rising)
  | record raw =>
    refine ⟨books.record ranked raw, ?_, fun rising => ?_⟩
    · rw [longer]
      rcases bookkeep_record scan ranked raw with
        ⟨_, _, _, _, _, taken⟩ | ⟨_, _, kept⟩
      · rw [taken, List.map_append]
        exact sublist.append (List.Sublist.refl _)
      · rw [kept]
        exact sublist.trans (List.sublist_append_left ..)
    · rcases bookkeep_record scan ranked raw with
        ⟨range, found, _, _, newest, taken⟩ | ⟨_, newest, kept⟩
      · rw [newest, taken]
        refine (keyed (earlier rising)).rank fun entry member same => ?_
        obtain ⟨listed, _, _⟩ := (books.remaining _ _).mp found
        have whole := rising _ listed
        rw [longer, ofPartition_append] at whole
        refine (List.pairwise_append.mp whole).2.2 entry.2 ?_ raw ?_
        · exact mem_ofPartition.mpr ⟨sublist.subset (List.mem_map_of_mem member), same⟩
        · exact mem_ofPartition.mpr ⟨by simp [ScanEvent.records], rfl⟩
      · rw [newest, kept]
        exact keyed (earlier rising)

theorem Accepted.fold {state : WindowScan × List (Ranked RawRecord)}
    (accepted : Accepted windows events state) (more : List ScanEvent) :
    Accepted windows (events ++ more) (more.foldl bookkeep state) := by
  induction more generalizing events state with
  | nil => simpa using accepted
  | cons event more ih =>
    rw [List.append_cons, List.foldl_cons]
    exact ih (accepted.step event)

theorem Accepted.start (single : ∀ first ∈ windows, ∀ second ∈ windows,
    first.partition = second.partition → first = second) :
    Accepted windows [] (WindowScan.new windows, []) :=
  ⟨.start single, .slnil, fun _ => .empty⟩

end Accepted

/-- A record is accepted just when its partition remains and the offset is in
the planned window. -/
theorem accepts_iff {windows : List PartitionWindow} {events : List ScanEvent} {scan : WindowScan}
    (single : ∀ first ∈ windows, ∀ second ∈ windows, first.partition = second.partition →
      first = second) (books : Books windows events scan) (ranked : List (Ranked RawRecord))
    (raw : RawRecord) :
    let planned := raw.partition ∈ scan.remaining ∧ ∃ window ∈ windows,
      window.partition = raw.partition ∧ window.start ≤ raw.offset ∧ raw.offset < window.stop
    (planned → (bookkeep (scan, ranked) (.record raw)).2 = ranked ++ [((scan.rank raw).1, raw)]) ∧
      (¬ planned → (bookkeep (scan, ranked) (.record raw)).2 = ranked) := by
  intro planned
  rcases bookkeep_record scan ranked raw with
    ⟨range, found, first, last, _, taken⟩ | ⟨outside, _, kept⟩
  · refine ⟨fun _ => taken, fun refused => absurd ⟨?_, ?_⟩ refused⟩
    · exact Maps.mem_of_getElem? found
    · exact ⟨_, ((books.remaining _ _).mp found).1, rfl, first, last⟩
  · refine ⟨?_, fun _ => kept⟩
    rintro ⟨here, window, listed, same, first, last⟩
    obtain ⟨range, found⟩ := Maps.mem_iff_exists.mp here
    have equal := single _ ((books.remaining _ _).mp found).1 window listed same.symm
    refine absurd ⟨?_, ?_⟩ (outside range found)
    · rw [← equal] at first
      exact first
    · rw [← equal] at last
      exact last

section Log
variable {log : Log} {windows : List PartitionWindow}

/-- Every idle turn reports positions and lags truthfully. -/
def IdleEvents (log : Log) (windows : List PartitionWindow) :
    List RawRecord → List ScanEvent → Prop
  | _, [] => True
  | before, .record raw :: events => IdleEvents log windows (before ++ [raw]) events
  | before, .idle turn :: events =>
    (∀ window ∈ windows, turn.Truthful log window before) ∧ IdleEvents log windows before events

theorem Reads.bookkeep {seen : List RawRecord} {scan : WindowScan} {ranked : List (Ranked RawRecord)}
    (reads : Reads log windows seen scan ranked) (events : List ScanEvent)
    (delivered : ∀ window ∈ windows,
      ofPartition window.partition (seen ++ polled events) <+: log.startingFrom window)
    (idle : IdleEvents log windows seen events) :
    Reads log windows (seen ++ polled events) (events.foldl Scan.bookkeep (scan, ranked)).1
      (events.foldl Scan.bookkeep (scan, ranked)).2 := by
  induction events generalizing seen scan ranked with
  | nil => simpa [polled] using reads
  | cons event events ih =>
    have longer : seen ++ polled (event :: events) = seen ++ event.records ++ polled events := by
      simp [polled]
    rw [longer] at delivered ⊢
    cases event with
    | record raw =>
      refine ih (reads.ingestStep raw fun window listed => ?_) delivered idle
      exact ofPartition_front (delivered window listed)
    | idle turn =>
      rw [ScanEvent.records, List.append_nil] at delivered ⊢
      exact ih (reads.settleIdle idle.1) delivered idle.2

/-- The windows with offsets in them. -/
def nonempty (windows : List PartitionWindow) : List PartitionWindow :=
  windows.filter fun window => !window.isEmpty

theorem mem_nonempty {window : PartitionWindow} :
    window ∈ nonempty windows ↔ window ∈ windows ∧ window.start < window.stop := by
  simp [nonempty, PartitionWindow.isEmpty]

theorem new_nonempty (windows : List PartitionWindow) :
    WindowScan.new (nonempty windows) = WindowScan.new windows := by
  simp [WindowScan.new, nonempty, List.filter_filter]

theorem planned_nonempty (single : ∀ first ∈ windows, ∀ second ∈ windows,
    first.partition = second.partition → first = second) : Planned (nonempty windows) where
  nonempty _ listed := (mem_nonempty.mp listed).2
  single first one second two := single first (mem_nonempty.mp one).1 second (mem_nonempty.mp two).1

/-- A window that was ended has been read in full, when the consumer delivers
the log and answers truthfully. -/
theorem taken_of_completed (single : ∀ first ∈ windows, ∀ second ∈ windows,
      first.partition = second.partition → first = second) {events : List ScanEvent}
    (delivered : ∀ window ∈ nonempty windows,
      ofPartition window.partition (polled events) <+: log.startingFrom window)
    (idle : IdleEvents log (nonempty windows) [] events) {window : PartitionWindow}
    (listed : window ∈ nonempty windows)
    (done : window.partition ∈ (booked windows events).1.completed) :
    taken (booked windows events).2 window.partition = log.inWindow window := by
  have start := Reads.start log (planned_nonempty single)
  have reads := start.bookkeep events delivered idle
  rw [new_nonempty] at reads
  exact reads.settled window listed done

end Log

/-- Whatever the polls and idle turns bring: the partitions are split between
those that remain and those completed, a record is accepted just when its
partition remains and its offset is planned, what is accepted is accepted once
and ranked by rising timestamps, and the outcome covers the completed windows.
It is complete once every window was ended, and then every record was read. -/
theorem bookkeeping_sound {windows : List PartitionWindow}
    (distinct : (windows.map PartitionWindow.partition).Nodup) (walk : RecordOrder)
    (events : List ScanEvent) :
    let (scan, ranked) := booked windows events
    let outcome := scan.outcome windows walk
    (∀ partition, ¬ (partition ∈ scan.remaining ∧ partition ∈ scan.completed)) ∧
    (∀ partition, partition ∈ scan.remaining ∨ partition ∈ scan.completed ↔
      ∃ window ∈ windows, window.partition = partition ∧ window.start < window.stop) ∧
    (∀ raw : RawRecord,
      let planned := raw.partition ∈ scan.remaining ∧ ∃ window ∈ windows,
        window.partition = raw.partition ∧ window.start ≤ raw.offset ∧ raw.offset < window.stop
      (planned → (bookkeep (scan, ranked) (.record raw)).2 = ranked ++ [((scan.rank raw).1, raw)]) ∧
      (¬ planned → (bookkeep (scan, ranked) (.record raw)).2 = ranked)) ∧
    (Rising windows events →
      (ranked.map fun entry => (entry.2.partition, entry.2.offset)).Nodup ∧
      ranked.Pairwise fun first second => first.2.partition = second.2.partition →
        first.2.offset < second.2.offset ∧ first.1.timestamp ≤ second.1.timestamp) ∧
    outcome.covered = windows.map (fun window =>
      let edge := match walk with
        | .newest => window.stop
        | .oldest => window.start
      if window.partition ∈ scan.completed then window else ⟨window.partition, edge, edge⟩) ∧
    (outcome.complete = true ↔
      ∀ window ∈ windows, window.start < window.stop → ∃ event ∈ events, event.Ends window) ∧
    ∀ log : Log,
      (∀ window ∈ nonempty windows,
        ofPartition window.partition (polled events) <+: log.startingFrom window) →
      IdleEvents log (nonempty windows) [] events → outcome.complete = true →
      ∀ window ∈ nonempty windows, taken ranked window.partition = log.inWindow window := by
  have single : ∀ first ∈ windows, ∀ second ∈ windows, first.partition = second.partition →
      first = second := fun _ one _ two same => List.inj_on_of_nodup_map distinct one two same
  have accepted : Accepted windows events (booked windows events) := (Accepted.start single).fold events
  have read := fun log => @taken_of_completed log windows single events
  generalize booked windows events = state at accepted read ⊢
  obtain ⟨scan, ranked⟩ := state
  obtain ⟨books, _, keyed⟩ := accepted
  refine ⟨fun partition both => books.apart partition both.2 both.1, books.open_or_completed,
    fun raw => accepts_iff single books ranked raw, fun rising => ⟨?_, (keyed rising).rising⟩, rfl,
    books.complete_iff walk, fun log delivered idle complete window listed => ?_⟩
  · have placed : places ranked = ranked.map fun entry => (entry.2.partition, entry.2.offset) :=
      List.map_congr_left fun entry held => Prod.ext_iff.mpr ((keyed rising).placed entry held)
    exact placed ▸ (keyed rising).distinct
  · obtain ⟨planned, offsets⟩ := mem_nonempty.mp listed
    have ended := (books.complete_iff walk).mp complete window planned offsets
    exact read log delivered idle listed
      ((books.completed _).mpr ⟨window, planned, rfl, offsets, ended⟩)

namespace Sample

/-- A window whose last offsets a compaction took, and the only record left of it. -/
def gapWindows : List PartitionWindow := [⟨0, 0, 3⟩]

def gapEvents : List ScanEvent := [.record (record 0 0 10)]

/-- Every record of the window was read, but nothing said so yet. -/
theorem gap_not_complete :
    (gapWindows.map PartitionWindow.partition).Nodup ∧
    (∃ log : Log,
      (∀ window ∈ nonempty gapWindows,
        ofPartition window.partition (polled gapEvents) <+: log.startingFrom window) ∧
      IdleEvents log (nonempty gapWindows) [] gapEvents ∧
      ∀ window ∈ nonempty gapWindows,
        taken (booked gapWindows gapEvents).2 window.partition = log.inWindow window) ∧
    ((booked gapWindows gapEvents).1.outcome gapWindows .oldest).complete = false := by
  refine ⟨by decide, ⟨.ofRecords [record 0 0 10] (by simp), ?_, trivial, ?_⟩, by decide⟩
  · decide
  · decide

def threeWindows : List PartitionWindow := [⟨0, 0, 2⟩, ⟨1, 4, 4⟩, ⟨2, 5, 9⟩]

def threeTurn : Turn where
  polled := .ok []
  position partition := if partition = 2 then some 9 else none
  lags _ := none

def threeEvents : List ScanEvent :=
  [.record (record 0 0 10), .record (record 7 3 30), .record (record 0 1 5), .idle threeTurn]

theorem three_complete :
    ((booked threeWindows threeEvents).1.outcome threeWindows .newest).complete = true := by
  have sound := @bookkeeping_sound threeWindows (by decide) .newest threeEvents
  obtain ⟨_, _, _, _, _, complete, _⟩ := sound
  exact complete.mpr (by decide)

end Sample
end Klens.Scan
