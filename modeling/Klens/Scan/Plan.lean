import Klens.Scan.Cursor

/-! What a page reads: the offsets each partition held when the read opened,
the windows cut from them, and the cursor a page leaves behind. -/
namespace Klens.Scan

structure Watermarks where
  low : Int
  high : Int
  deriving DecidableEq, Repr

/-- The offsets from `start` up to, but not including, `stop`. -/
structure PartitionWindow where
  partition : Int
  start : Int
  stop : Int
  deriving DecidableEq, Repr

def PartitionWindow.isEmpty (window : PartitionWindow) : Bool := decide (window.start ≥ window.stop)

/-- The partitions a read covers and the offsets each one held when the read
opened. The table of watermarks is read by key only. -/
structure LogSpan where
  partitions : List Int
  watermarks : Int → Option Watermarks

/-- `past_furthest`: for each partition, the offset just past the kept record
the walk meets last. -/
def pastFurthest (walk : RecordOrder) (kept : List (Int × Int)) : Offsets :=
  kept.foldl (fun edges (partition, offset) =>
    let past := match walk with
      | .oldest => offset + 1
      | .newest => offset
    let further := match walk with
      | .oldest => max
      | .newest => min
    let edge := (edges[partition]?).getD past
    edges.insert partition (further edge past)) ∅

namespace LogSpan

def endingAt (marks : Watermarks) (take stop : Int) : Int × Int :=
  let stop := max (min stop marks.high) marks.low
  (stop - min take (stop - marks.low), stop)

def startingAt (marks : Watermarks) (take start : Int) : Int × Int :=
  let start := min (max start marks.low) marks.high
  (start, start + min take (marks.high - start))

/-- The body of `windows` for one partition. -/
def window (span : LogSpan) (walk : RecordOrder) (take : Int) (cursor : Option RecordCursor)
    (partition : Int) : Option PartitionWindow := do
  let marks ← span.watermarks partition
  let (start, stop) ← match cursor.map RecordCursor.remaining, walk with
    | none, .newest => some (endingAt marks take marks.high)
    | none, .oldest => some (startingAt marks take marks.low)
    | some (.beforeOffsets ends), _ => (ends[partition]?).map (endingAt marks take)
    | some (.fromOffsets starts), _ => (starts[partition]?).map (startingAt marks take)
  let window : PartitionWindow := { partition, start, stop }
  if window.isEmpty then none else some window

def windows (span : LogSpan) (walk : RecordOrder) (take : Int) (cursor : Option RecordCursor) :
    List PartitionWindow :=
  span.partitions.filterMap (span.window walk take cursor)

def start (span : LogSpan) (walk : RecordOrder) : Remaining :=
  .walking walk <| .ofList <| span.partitions.filterMap fun partition => do
    let marks ← span.watermarks partition
    let nearEnd := match walk with
      | .oldest => marks.low
      | .newest => marks.high
    some (partition, nearEnd)

def unread (span : LogSpan) (walk : RecordOrder) (partition offset : Int) : Bool :=
  match span.watermarks partition with
  | none => false
  | some marks => match walk with
    | .oldest => decide (max offset marks.low < marks.high)
    | .newest => decide (min offset marks.high > marks.low)

/-- `LogSpan::cursor`: no cursor once nothing is left to read on the walk's side. -/
def cursor (span : LogSpan) (order walk : RecordOrder) (offsets : List (Int × Int)) :
    Option RecordCursor :=
  let offsets : Offsets :=
    .ofList (offsets.filter fun entry => (span.watermarks entry.1).isSome)
  if offsets.toList.any fun entry => span.unread walk entry.1 entry.2 then
    some { order, remaining := .walking walk offsets }
  else none

/-- The offsets `advance` moves to, before `cursor` looks at them. -/
def advanced (origin : RecordCursor) (covered : List PartitionWindow) (kept : List (Int × Int))
    (limit : Nat) : Offsets :=
  let walk := origin.walk
  let returned := if kept.length ≥ limit then some (pastFurthest walk kept) else none
  covered.foldl (fun next window =>
    let (near, far) := match walk with
      | .oldest => (window.start, window.stop)
      | .newest => (window.stop, window.start)
    let offset := match returned with
      | some returned => (returned[window.partition]?).getD near
      | none => far
    next.insert window.partition offset) origin.remaining.offsets

def advance (span : LogSpan) (origin : RecordCursor) (covered : List PartitionWindow)
    (kept : List (Int × Int)) (limit : Nat) : Option RecordCursor :=
  span.cursor origin.order origin.walk (advanced origin covered kept limit).toList

def rewind (span : LogSpan) (opened : RecordCursor) : Option RecordCursor :=
  let walk := opened.walk
  let boundaries := opened.remaining.offsets
  let back := span.partitions.filterMap fun partition => do
    let marks ← span.watermarks partition
    let farEnd := match walk with
      | .oldest => marks.high
      | .newest => marks.low
    some (partition, (boundaries[partition]?).getD farEnd)
  span.cursor opened.order walk.flipped back

end LogSpan

/-- One partition's step of `apply_timestamp_bounds`: a lookup that has no
entry for the partition leaves its mark alone. -/
def boundMarks (marks : Watermarks) (fromOffset toOffset : Option (Option Int)) : Watermarks :=
  let marks : Watermarks := match fromOffset with
    | some (some offset) => { marks with low := max marks.low offset }
    | some none => { marks with low := marks.high }
    | none => marks
  let marks : Watermarks := match toOffset.join with
    | some offset => { marks with high := min marks.high offset }
    | none => marks
  if marks.low > marks.high then { marks with low := marks.high } else marks

def applyTimestampBounds (watermarks : Int → Option Watermarks)
    (fromOffsets toOffsets : Option (Int → Option (Option Int))) : Int → Option Watermarks :=
  fun partition => (watermarks partition).map fun marks =>
    boundMarks marks (fromOffsets.bind fun found => found partition)
      (toOffsets.bind fun found => found partition)

end Klens.Scan
