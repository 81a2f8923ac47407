import Klens.Scan.PlanProofs

/-! Windows and cursors of the same boundaries. `windows` clamps a boundary into
the marks and `cursor` compares it with them; both answer for the offsets ahead.
The sums in `windows` are read once more as checked `i64` arithmetic. -/
namespace Klens.Scan
open Klens.Lib

def InI64 (value : Int) : Prop := i64Min ≤ value ∧ value ≤ i64Max

instance : DecidablePred InI64 := fun _ => inferInstanceAs (Decidable (_ ∧ _))

/-- `i64::checked_add`. -/
def checkedAdd (left right : Int) : Option Int :=
  if InI64 (left + right) then some (left + right) else none

/-- `i64::checked_sub`. -/
def checkedSub (left right : Int) : Option Int :=
  if InI64 (left - right) then some (left - right) else none

theorem checkedAdd_of_inI64 {left right : Int} (fits : InI64 (left + right)) :
    checkedAdd left right = some (left + right) := if_pos fits

theorem checkedSub_of_inI64 {left right : Int} (fits : InI64 (left - right)) :
    checkedSub left right = some (left - right) := if_pos fits

namespace LogSpan

/-- `endingAt`, or none when a difference leaves the range of `i64`. -/
def endingAtChecked (marks : Watermarks) (take stop : Int) : Option (Int × Int) := do
  let stop := max (min stop marks.high) marks.low
  let room ← checkedSub stop marks.low
  let start ← checkedSub stop (min take room)
  some (start, stop)

/-- `startingAt`, or none when a sum leaves the range of `i64`. -/
def startingAtChecked (marks : Watermarks) (take start : Int) : Option (Int × Int) := do
  let start := min (max start marks.low) marks.high
  let room ← checkedSub marks.high start
  let stop ← checkedAdd start (min take room)
  some (start, stop)

/-- `window` with checked arithmetic: none when it overflows. -/
def windowChecked (span : LogSpan) (walk : RecordOrder) (take : Int)
    (cursor : Option RecordCursor) (partition : Int) : Option (Option PartitionWindow) :=
  let window (edges : Int × Int) : Option PartitionWindow :=
    let window : PartitionWindow := { partition, start := edges.1, stop := edges.2 }
    if window.isEmpty then none else some window
  match span.watermarks partition with
  | none => some none
  | some marks => match cursor.map RecordCursor.remaining, walk with
    | none, .newest => (endingAtChecked marks take marks.high).map window
    | none, .oldest => (startingAtChecked marks take marks.low).map window
    | some (.beforeOffsets ends), _ => match ends[partition]? with
      | none => some none
      | some stop => (endingAtChecked marks take stop).map window
    | some (.fromOffsets starts), _ => match starts[partition]? with
      | none => some none
      | some start => (startingAtChecked marks take start).map window

def windowsChecked (span : LogSpan) (walk : RecordOrder) (take : Int)
    (cursor : Option RecordCursor) : Option (List PartitionWindow) :=
  (span.partitions.mapM (span.windowChecked walk take cursor)).map List.reduceOption

section Arithmetic
variable {marks : Watermarks} (low : 0 ≤ marks.low) (ordered : marks.low ≤ marks.high)
  (high : marks.high ≤ i64Max)
include low ordered high

theorem endingAtChecked_eq {take : Int} (positive : 1 ≤ take) (stop : Int) :
    endingAtChecked marks take stop = some (endingAt marks take stop) := by
  unfold i64Max at high
  have room : InI64 (max (min stop marks.high) marks.low - marks.low) := by
    unfold InI64 i64Min i64Max
    omega
  have start : InI64 (max (min stop marks.high) marks.low -
      min take (max (min stop marks.high) marks.low - marks.low)) := by
    unfold InI64 i64Min i64Max
    omega
  simp only [endingAtChecked, endingAt, checkedSub_of_inI64 room, checkedSub_of_inI64 start,
    Option.bind_eq_bind, Option.bind_some]

theorem startingAtChecked_eq {take : Int} (positive : 1 ≤ take) (start : Int) :
    startingAtChecked marks take start = some (startingAt marks take start) := by
  unfold i64Max at high
  have room : InI64 (marks.high - min (max start marks.low) marks.high) := by
    unfold InI64 i64Min i64Max
    omega
  have stop : InI64 (min (max start marks.low) marks.high +
      min take (marks.high - min (max start marks.low) marks.high)) := by
    unfold InI64 i64Min i64Max
    omega
  simp only [startingAtChecked, startingAt, checkedSub_of_inI64 room, checkedAdd_of_inI64 stop,
    Option.bind_eq_bind, Option.bind_some]

end Arithmetic

/-- Marks as Kafka has them: offsets are not negative and fit an `i64`. -/
def Sound (span : LogSpan) : Prop :=
  ∀ partition marks, span.watermarks partition = some marks →
    0 ≤ marks.low ∧ marks.low ≤ marks.high ∧ marks.high ≤ i64Max

variable {span : LogSpan} {walk : RecordOrder} {take : Int}

theorem windowChecked_eq (sound : span.Sound) (positive : 1 ≤ take) (cursor : Option RecordCursor)
    (partition : Int) :
    span.windowChecked walk take cursor partition =
      some (span.window walk take cursor partition) := by
  unfold windowChecked window
  cases known : span.watermarks partition with
  | none => rfl
  | some marks =>
    obtain ⟨low, ordered, high⟩ := sound partition marks known
    have ending := endingAtChecked_eq low ordered high positive
    have starting := startingAtChecked_eq low ordered high positive
    cases cursor with
    | none => cases walk <;> simp [ending, starting]
    | some cursor =>
      obtain ⟨order, remaining⟩ := cursor
      cases remaining with
      | fromOffsets starts => cases found : starts[partition]? <;> simp [found, starting]
      | beforeOffsets ends => cases found : ends[partition]? <;> simp [found, ending]

/-- No sum in `windows` overflows. -/
theorem windowsChecked_eq (sound : span.Sound) (positive : 1 ≤ take)
    (cursor : Option RecordCursor) :
    span.windowsChecked walk take cursor = some (span.windows walk take cursor) := by
  have exact : span.windowChecked walk take cursor =
      fun partition => pure (span.window walk take cursor partition) :=
    funext fun partition => windowChecked_eq sound positive cursor partition
  rw [windowsChecked, exact, List.mapM_pure]
  change some ((span.partitions.map (span.window walk take cursor)).filterMap id) = _
  rw [List.filterMap_map]
  rfl

/-- A window of the boundaries: offsets of its partition that the walk has ahead,
from the boundary on and at most `take`. -/
structure Cuts (span : LogSpan) (walk : RecordOrder) (take : Int) (offsets : Offsets)
    (window : PartitionWindow) (marks : Watermarks) (boundary : Int) : Prop where
  known : span.watermarks window.partition = some marks
  found : offsets[window.partition]? = some boundary
  nonempty : window.start < window.stop
  low : marks.low ≤ window.start
  high : window.stop ≤ marks.high
  touches : window.near walk = clamped walk marks boundary
  width : window.stop - window.start ≤ take
  ahead : ∀ offset, window.start ≤ offset → offset < window.stop → Ahead walk boundary offset

/-- The cursor at some boundaries. -/
def standing (order walk : RecordOrder) (offsets : Offsets) : RecordCursor :=
  { order, remaining := .walking walk offsets }

theorem standing_walk (order walk : RecordOrder) (offsets : Offsets) :
    (standing order walk offsets).walk = walk := by
  simp [standing, RecordCursor.walk]

theorem cuts_of_mem (sound : span.Sound) (order : RecordOrder) {offsets : Offsets}
    {window : PartitionWindow}
    (listed : window ∈ span.windows walk take (some (standing order walk offsets))) :
    ∃ marks boundary, Cuts span walk take offsets window marks boundary := by
  obtain ⟨partition, _, planned⟩ := mem_windows.mp listed
  obtain ⟨marks, boundary, known, found, rfl, near, far, nonempty⟩ :=
    (window_eq_some_iff (standing_walk order walk offsets)).mp planned
  obtain ⟨_, ordered, _⟩ := sound _ marks known
  have edges : marks.low ≤ window.start ∧ window.stop ≤ marks.high ∧
      window.stop - window.start ≤ take := by
    cases walk <;>
      simp only [PartitionWindow.near, PartitionWindow.far, clamped, reach] at near far <;> omega
  refine ⟨marks, boundary, known, ?_, nonempty, edges.1, edges.2.1, near, edges.2.2, ?_⟩
  · simpa [standing] using found
  · intro offset start stop
    rw [← ahead_clamped walk (edges.1.trans start) (stop.trans_le edges.2.1), ← near]
    exact ((window.mem_iff_ahead walk offset).mp ⟨start, stop⟩).1

/-- Whether anything is left is the same question to both. -/
theorem windows_ne_nil_iff (positive : 1 ≤ take)
    (own : ∀ partition, (span.watermarks partition).isSome → partition ∈ span.partitions)
    (order : RecordOrder) (offsets : Offsets) :
    span.windows walk take (some (standing order walk offsets)) ≠ [] ↔
      ∃ partition boundary, offsets[partition]? = some boundary ∧
        span.unread walk partition boundary = true := by
  have walks := standing_walk order walk offsets
  have planned (partition : Int) :
      (span.window walk take (some (standing order walk offsets)) partition).isSome ↔
        ∃ boundary, offsets[partition]? = some boundary ∧ span.unread walk partition boundary := by
    rw [window_isSome_iff walks positive]
    simp [standing]
  constructor
  · intro some
    obtain ⟨window, listed⟩ := List.exists_mem_of_ne_nil _ some
    obtain ⟨partition, _, found⟩ := mem_windows.mp listed
    exact ⟨partition, (planned partition).mp (by simp [found])⟩
  · rintro ⟨partition, boundary, found, unread⟩
    obtain ⟨window, cut⟩ :=
      Option.isSome_iff_exists.mp ((planned partition).mpr ⟨boundary, found, unread⟩)
    obtain ⟨marks, known, _⟩ := unread_iff.mp unread
    exact List.ne_nil_of_mem (mem_windows.mpr ⟨partition, own partition (by simp [known]), cut⟩)

/-- The boundaries a cursor drops, those of partitions without marks, have no
window anyway. -/
theorem windows_cursor {order : RecordOrder} {offsets : Offsets} {cursor : RecordCursor}
    (given : span.cursor order walk offsets.toList = some cursor) :
    span.windows walk take (some cursor) =
      span.windows walk take (some (standing order walk offsets)) := by
  have spec := span.cursor_spec order walk (Maps.functional_toList offsets)
  rw [given] at spec
  obtain ⟨_, walks, lookup, _⟩ := spec
  refine List.filterMap_congr fun partition _ => Option.ext fun window => ?_
  rw [window_eq_some_iff walks, window_eq_some_iff (standing_walk order walk offsets)]
  refine exists₂_congr fun marks boundary => and_congr_right fun known => and_congr_left fun _ => ?_
  rw [lookup, Std.ExtTreeMap.mem_toList_iff_getElem?_eq_some]
  simp [known, standing]

/-- A cursor is handed out exactly when there is a window to go on with, its
windows lie in the unread part of the marks, and no sum in them overflows. -/
theorem cursor_and_windows_agree (span : LogSpan) (sound : span.Sound)
    (own : ∀ partition, (span.watermarks partition).isSome → partition ∈ span.partitions)
    (order walk : RecordOrder) (take : Int) (positive : 1 ≤ take) (offsets : Offsets) :
    ((span.cursor order walk offsets.toList).isSome ↔
      span.windows walk take (some (standing order walk offsets)) ≠ []) ∧
    (∀ cursor, span.cursor order walk offsets.toList = some cursor →
      span.windows walk take (some cursor) =
        span.windows walk take (some (standing order walk offsets))) ∧
    (∀ window ∈ span.windows walk take (some (standing order walk offsets)),
      ∃ marks boundary, Cuts span walk take offsets window marks boundary) ∧
    span.windowsChecked walk take (some (standing order walk offsets)) =
      some (span.windows walk take (some (standing order walk offsets))) := by
  refine ⟨?_, fun cursor given => windows_cursor given,
    fun window listed => cuts_of_mem sound order listed, windowsChecked_eq sound positive _⟩
  rw [windows_ne_nil_iff positive own]
  have spec := span.cursor_spec order walk (Maps.functional_toList offsets)
  cases given : span.cursor order walk offsets.toList with
  | none =>
    rw [given] at spec
    refine iff_of_false (by simp) ?_
    rintro ⟨partition, boundary, found, unread⟩
    exact spec (partition, boundary)
      (Std.ExtTreeMap.mem_toList_iff_getElem?_eq_some.mpr found) unread
  | some cursor =>
    rw [given] at spec
    obtain ⟨_, _, _, ⟨partition, boundary⟩, listed, unread⟩ := spec
    exact iff_of_true rfl ⟨partition, boundary,
      Std.ExtTreeMap.mem_toList_iff_getElem?_eq_some.mp listed, unread⟩

/-- Partition 0 holds the offsets from 5 up to 9. -/
private def fiveToNine : LogSpan where
  partitions := [0]
  watermarks partition := if partition = 0 then some ⟨5, 9⟩ else none

private def aboveHigh : Offsets := .ofList [((0 : Int), (40 : Int)), (7, 2)]

/-- A boundary above the high mark, read back from the end. -/
theorem cursor_and_windows_agree_above :
    fiveToNine.windows .newest 3 (some (standing .newest .newest aboveHigh)) ≠ [] := by
  refine (cursor_and_windows_agree fiveToNine ?_ ?_ .newest .newest 3 (by decide)
    aboveHigh).1.mp (by decide)
  · intro partition marks known
    simp only [fiveToNine, Option.ite_none_right_eq_some, Option.some.injEq] at known
    obtain ⟨_, rfl⟩ := known
    decide
  · intro partition known
    by_contra other
    simp_all [fiveToNine]

end LogSpan
end Klens.Scan
