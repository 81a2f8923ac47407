import Klens.Lib.Maps
import Klens.Scan.Plan
import Mathlib.Data.List.Induction

/-! Boundaries and the side of them a walk has yet to read. Windows, cursors
and rewinds are stated through `Ahead`, so that the two walks need separate
arguments only where the edges are computed. -/
namespace Klens.Scan
open Klens.Lib

/-- A walk that stands at `boundary` has yet to read `offset`. -/
def Ahead (walk : RecordOrder) (boundary offset : Int) : Prop :=
  match walk with
  | .oldest => boundary ≤ offset
  | .newest => offset < boundary

instance (walk : RecordOrder) (boundary offset : Int) : Decidable (Ahead walk boundary offset) := by
  unfold Ahead
  cases walk <;> exact inferInstance

/-- Turning round, a walk has ahead of it what it had behind. -/
theorem ahead_flipped (walk : RecordOrder) (boundary offset : Int) :
    Ahead walk.flipped boundary offset ↔ ¬ Ahead walk boundary offset := by
  cases walk <;> simp only [RecordOrder.flipped, Ahead] <;> omega

@[simp] theorem RecordOrder.flipped_flipped (order : RecordOrder) : order.flipped.flipped = order := by
  cases order <;> rfl

/-- The offset lies past the far end of the marks. -/
def Beyond (walk : RecordOrder) (marks : Watermarks) (offset : Int) : Prop :=
  match walk with
  | .oldest => marks.high ≤ offset
  | .newest => offset < marks.low

/-- The boundary just past a record. -/
def past (walk : RecordOrder) (offset : Int) : Int :=
  match walk with
  | .oldest => offset + 1
  | .newest => offset

/-- The boundary `offset` is moved to so that it lies within the marks. -/
def clamped (walk : RecordOrder) (marks : Watermarks) (offset : Int) : Int :=
  match walk with
  | .oldest => min (max offset marks.low) marks.high
  | .newest => max (min offset marks.high) marks.low

theorem ahead_clamped (walk : RecordOrder) {marks : Watermarks} {boundary offset : Int}
    (low : marks.low ≤ offset) (high : offset < marks.high) :
    Ahead walk (clamped walk marks boundary) offset ↔ Ahead walk boundary offset := by
  cases walk <;> simp only [Ahead, clamped] <;> omega

namespace PartitionWindow

/-- The edge a walk enters the window by. -/
def near (window : PartitionWindow) (walk : RecordOrder) : Int :=
  match walk with
  | .oldest => window.start
  | .newest => window.stop

/-- The edge a walk leaves the window by. -/
def far (window : PartitionWindow) (walk : RecordOrder) : Int :=
  match walk with
  | .oldest => window.stop
  | .newest => window.start

theorem mem_iff_ahead (window : PartitionWindow) (walk : RecordOrder) (offset : Int) :
    window.start ≤ offset ∧ offset < window.stop ↔
      Ahead walk (window.near walk) offset ∧ ¬ Ahead walk (window.far walk) offset := by
  cases walk <;> simp only [near, far, Ahead] <;> omega

end PartitionWindow

namespace LogSpan
variable {span : LogSpan} {walk : RecordOrder} {take : Int} {origin : RecordCursor}

/-- The edge `take` offsets past `near`, or the end of the marks. -/
def reach (walk : RecordOrder) (marks : Watermarks) (take near : Int) : Int :=
  match walk with
  | .oldest => near + min take (marks.high - near)
  | .newest => near - min take (near - marks.low)

theorem window_eq_some_iff (same : origin.walk = walk) {partition : Int} {window : PartitionWindow} :
    span.window walk take (some origin) partition = some window ↔
      ∃ marks boundary, span.watermarks partition = some marks ∧
        origin.remaining.offsets[partition]? = some boundary ∧ window.partition = partition ∧
        window.near walk = clamped walk marks boundary ∧
        window.far walk = reach walk marks take (clamped walk marks boundary) ∧
        window.start < window.stop := by
  obtain ⟨_, start, stop⟩ := window
  obtain ⟨order, remaining⟩ := origin
  subst same
  cases remaining with
  | fromOffsets offsets =>
    cases found : span.watermarks partition with
    | none => simp [LogSpan.window, found]
    | some marks =>
      cases lookup : offsets[partition]? with
      | none => simp [LogSpan.window, found, lookup, Remaining.offsets]
      | some boundary =>
        simp only [LogSpan.window, found, lookup, Remaining.offsets, RecordCursor.walk,
          Remaining.walk, Option.map_some, Option.bind_eq_bind, Option.bind_some, startingAt,
          PartitionWindow.isEmpty, PartitionWindow.near, PartitionWindow.far, clamped, reach,
          Option.some.injEq, exists_and_left, exists_eq_left', decide_eq_true_eq, Option.ite_none_left_eq_some,
          PartitionWindow.mk.injEq]
        omega
  | beforeOffsets offsets =>
    cases found : span.watermarks partition with
    | none => simp [LogSpan.window, found]
    | some marks =>
      cases lookup : offsets[partition]? with
      | none => simp [LogSpan.window, found, lookup, Remaining.offsets]
      | some boundary =>
        simp only [LogSpan.window, found, lookup, Remaining.offsets, RecordCursor.walk,
          Remaining.walk, Option.map_some, Option.bind_eq_bind, Option.bind_some, endingAt,
          PartitionWindow.isEmpty, PartitionWindow.near, PartitionWindow.far, clamped, reach,
          Option.some.injEq, exists_and_left, exists_eq_left', decide_eq_true_eq, Option.ite_none_left_eq_some,
          PartitionWindow.mk.injEq]
        omega

/-- A partition without a window has nothing ahead. -/
theorem not_ahead_of_window_none (same : origin.walk = walk) (positive : 1 ≤ take) {partition : Int}
    (missing : span.window walk take (some origin) partition = none) {marks : Watermarks}
    (known : span.watermarks partition = some marks) {boundary : Int}
    (found : origin.remaining.offsets[partition]? = some boundary) {offset : Int}
    (low : marks.low ≤ offset) (high : offset < marks.high) : ¬ Ahead walk boundary offset := by
  intro ahead
  have inside := (ahead_clamped walk low high).mpr ahead
  generalize nearEq : clamped walk marks boundary = near at inside
  have window : ∃ window : PartitionWindow, window.partition = partition ∧
      window.near walk = near ∧ window.far walk = reach walk marks take near ∧
      window.start < window.stop := by
    cases walk with
    | oldest =>
      refine ⟨⟨partition, near, reach .oldest marks take near⟩, rfl, rfl, rfl, ?_⟩
      simp only [reach, Ahead] at inside ⊢
      omega
    | newest =>
      refine ⟨⟨partition, reach .newest marks take near, near⟩, rfl, rfl, rfl, ?_⟩
      simp only [reach, Ahead] at inside ⊢
      omega
  obtain ⟨window, placed, atNear, atFar, nonempty⟩ := window
  have some : span.window walk take (some origin) partition = some window :=
    (window_eq_some_iff same).mpr
      ⟨marks, boundary, known, found, placed, nearEq ▸ atNear, nearEq ▸ atFar, nonempty⟩
  rw [missing] at some
  contradiction

theorem functional_start (span : LogSpan) (value : Int → Watermarks → Int) :
    Maps.Functional (span.partitions.filterMap fun partition =>
      (span.watermarks partition).bind fun marks => some (partition, value partition marks)) := by
  intro partition first second one two
  obtain ⟨left, _, leftEq⟩ := List.mem_filterMap.mp one
  obtain ⟨right, _, rightEq⟩ := List.mem_filterMap.mp two
  obtain ⟨leftMarks, leftKnown, leftPair⟩ := Option.bind_eq_some_iff.mp leftEq
  obtain ⟨rightMarks, rightKnown, rightPair⟩ := Option.bind_eq_some_iff.mp rightEq
  obtain ⟨rfl, rfl⟩ := Prod.mk.inj (Option.some.inj leftPair)
  obtain ⟨rfl, rfl⟩ := Prod.mk.inj (Option.some.inj rightPair)
  rw [Option.some.inj (leftKnown.symm.trans rightKnown)]

theorem mem_start (span : LogSpan) (value : Int → Watermarks → Int) {partition offset : Int} :
    (partition, offset) ∈ (span.partitions.filterMap fun partition =>
      (span.watermarks partition).bind fun marks => some (partition, value partition marks)) ↔
    partition ∈ span.partitions ∧ ∃ marks, span.watermarks partition = some marks ∧
      offset = value partition marks := by
  simp only [List.mem_filterMap, Option.bind_eq_some_iff, Option.some.injEq, Prod.mk.injEq]
  constructor
  · rintro ⟨_, listed, marks, known, rfl, rfl⟩
    exact ⟨listed, marks, known, rfl⟩
  · rintro ⟨listed, marks, known, rfl⟩
    exact ⟨partition, listed, marks, known, rfl, rfl⟩

/-- The end of the marks a walk starts from. -/
def nearEnd (walk : RecordOrder) (marks : Watermarks) : Int :=
  match walk with
  | .oldest => marks.low
  | .newest => marks.high

theorem start_offsets (span : LogSpan) (walk : RecordOrder) {partition offset : Int} :
    (span.start walk).offsets[partition]? = some offset ↔
      partition ∈ span.partitions ∧ ∃ marks, span.watermarks partition = some marks ∧
        offset = nearEnd walk marks := by
  unfold start
  rw [Remaining.offsets_walking]
  exact (Maps.getElem?_ofList (functional_start span fun _ => nearEnd walk)).trans
    (mem_start span fun _ => nearEnd walk)

/-- Without a cursor, a page reads as from the cursor at the start of its walk. -/
theorem windows_none (span : LogSpan) (order walk : RecordOrder) (take : Int) :
    span.windows walk take none = span.windows walk take (some ⟨order, span.start walk⟩) := by
  refine List.filterMap_congr fun partition listed => ?_
  cases known : span.watermarks partition with
  | none => simp [window, known]
  | some marks =>
    obtain ⟨offsets, startEq, found⟩ : ∃ offsets : Offsets,
        span.start walk = .walking walk offsets ∧
          offsets[partition]? = some (nearEnd walk marks) := by
      refine ⟨(span.start walk).offsets, ?_, (start_offsets span walk).mpr
        ⟨listed, marks, known, rfl⟩⟩
      simp [start]
    rw [startEq]
    cases walk <;> simp [window, known, Remaining.walking, found, nearEnd]

theorem mem_windows {cursor : Option RecordCursor} {window : PartitionWindow} :
    window ∈ span.windows walk take cursor ↔
      ∃ partition ∈ span.partitions, span.window walk take cursor partition = some window :=
  List.mem_filterMap

end LogSpan

/-- Windows a pass can be made over. -/
structure Planned (windows : List PartitionWindow) : Prop where
  nonempty : ∀ window ∈ windows, window.start < window.stop
  single : ∀ first ∈ windows, ∀ second ∈ windows, first.partition = second.partition → first = second

theorem LogSpan.planned_windows (span : LogSpan) {walk : RecordOrder} {origin : RecordCursor}
    (take : Int) (same : origin.walk = walk) : Planned (span.windows walk take (some origin)) where
  nonempty window listed := by
    obtain ⟨partition, _, planned⟩ := mem_windows.mp listed
    obtain ⟨_, _, _, _, _, _, _, nonempty⟩ := (window_eq_some_iff same).mp planned
    exact nonempty
  single first one second two equal := by
    obtain ⟨left, _, leftPlanned⟩ := mem_windows.mp one
    obtain ⟨right, _, rightPlanned⟩ := mem_windows.mp two
    obtain ⟨_, _, _, _, leftEq, _⟩ := (window_eq_some_iff same).mp leftPlanned
    obtain ⟨_, _, _, _, rightEq, _⟩ := (window_eq_some_iff same).mp rightPlanned
    obtain rfl : left = right := by omega
    exact Option.some.inj (leftPlanned.symm.trans rightPlanned)

/-- What `pastFurthest` says of one partition: nothing was kept there, or the
boundary is just past the record kept furthest along the walk. -/
inductive Furthest (walk : RecordOrder) (kept : List (Int × Int)) (partition : Int) :
    Option Int → Prop where
  | nowhere (absent : ∀ offset, (partition, offset) ∉ kept) : Furthest walk kept partition none
  | at (last : Int) (member : (partition, last) ∈ kept)
      (behind : ∀ offset, (partition, offset) ∈ kept → ¬ Ahead walk (past walk last) offset) :
      Furthest walk kept partition (some (past walk last))

/-- The one of two boundaries that is further along the walk. -/
def further (walk : RecordOrder) (first second : Int) : Int :=
  match walk with
  | .oldest => max first second
  | .newest => min first second

theorem pastFurthest_snoc (walk : RecordOrder) (kept : List (Int × Int)) (added offset partition : Int) :
    (pastFurthest walk (kept ++ [(added, offset)]))[partition]? =
      if compare added partition = .eq then
        some (further walk (((pastFurthest walk kept)[added]?).getD (past walk offset))
          (past walk offset))
      else (pastFurthest walk kept)[partition]? := by
  unfold pastFurthest
  rw [List.foldl_append, List.foldl_cons, List.foldl_nil, Std.ExtTreeMap.getElem?_insert]
  cases walk <;> rfl

theorem pastFurthest_spec (walk : RecordOrder) (kept : List (Int × Int)) (partition : Int) :
    Furthest walk kept partition (pastFurthest walk kept)[partition]? := by
  induction kept using List.reverseRecOn with
  | nil => simpa [pastFurthest] using Furthest.nowhere (by simp)
  | append_singleton kept entry ih =>
    obtain ⟨added, offset⟩ := entry
    rw [pastFurthest_snoc]
    split
    · rename_i same
      obtain rfl := compare_eq_iff_eq.mp same
      generalize (pastFurthest walk kept)[added]? = edge at ih ⊢
      cases ih with
      | nowhere absent =>
        have only : ∀ other, (added, other) ∈ kept ++ [(added, offset)] → other = offset := by
          intro other member
          rcases List.mem_append.mp member with member | member
          · exact absurd member (absent other)
          · simpa using member
        have here : Furthest walk (kept ++ [(added, offset)]) added (some (past walk offset)) := by
          refine .at offset (by simp) fun other member => ?_
          rw [only other member]
          cases walk <;> simp only [Ahead, past] <;> omega
        cases walk <;> simpa [further] using here
      | «at» last member behind =>
        by_cases beyond : Ahead walk (past walk last) offset
        · have here : Furthest walk (kept ++ [(added, offset)]) added (some (past walk offset)) := by
            refine .at offset (by simp) fun other listed => ?_
            rcases List.mem_append.mp listed with listed | listed
            · have before := behind other listed
              cases walk <;> simp only [Ahead, past] at before beyond ⊢ <;> omega
            · obtain rfl : other = offset := by simpa using listed
              cases walk <;> simp only [Ahead, past] <;> omega
          cases walk with
          | oldest =>
            simp only [Ahead, past, Scan.further, Option.getD_some] at beyond here ⊢
            rwa [max_eq_right (by omega)]
          | newest =>
            simp only [Ahead, past, Scan.further, Option.getD_some] at beyond here ⊢
            rwa [min_eq_right (by omega)]
        · have here : Furthest walk (kept ++ [(added, offset)]) added (some (past walk last)) := by
            refine .at last (by simp [member]) fun other listed => ?_
            rcases List.mem_append.mp listed with listed | listed
            · exact behind other listed
            · obtain rfl : other = offset := by simpa using listed
              exact beyond
          cases walk with
          | oldest =>
            simp only [Ahead, past, Scan.further, Option.getD_some] at beyond here ⊢
            rwa [max_eq_left (by omega)]
          | newest =>
            simp only [Ahead, past, Scan.further, Option.getD_some] at beyond here ⊢
            rwa [min_eq_left (by omega)]
    · rename_i different
      have other : added ≠ partition := fun same => different (compare_eq_iff_eq.mpr same)
      have unchanged : ∀ place, (partition, place) ∈ kept ++ [(added, offset)] ↔
          (partition, place) ∈ kept := by
        intro place
        simp [Ne.symm other]
      generalize (pastFurthest walk kept)[partition]? = edge at ih ⊢
      cases ih with
      | nowhere absent => exact .nowhere fun place member => absent place ((unchanged place).mp member)
      | «at» last member behind =>
        exact .at last ((unchanged last).mpr member)
          fun place listed => behind place ((unchanged place).mp listed)

namespace LogSpan
variable {span : LogSpan} {walk : RecordOrder} {take : Int} {origin : RecordCursor}
  {covered : List PartitionWindow} {kept : List (Int × Int)} {limit : Nat}

theorem advanced_eq (origin : RecordCursor) (covered : List PartitionWindow)
    (kept : List (Int × Int)) (limit : Nat) : advanced origin covered kept limit =
      origin.remaining.offsets.insertMany (covered.map fun window => (window.partition,
        if limit ≤ kept.length then
          ((pastFurthest origin.walk kept)[window.partition]?).getD (window.near origin.walk)
        else window.far origin.walk)) := by
  unfold advanced
  rw [← Maps.foldl_insert_eq]
  by_cases full : limit ≤ kept.length
  · cases origin.walk <;> simp only [full, ↓reduceIte, PartitionWindow.near]
  · cases origin.walk <;> simp only [full, ↓reduceIte, PartitionWindow.far]

theorem advanced_of_covered (origin : RecordCursor) (kept : List (Int × Int)) (limit : Nat)
    (single : ∀ first ∈ covered, ∀ second ∈ covered,
    first.partition = second.partition → first = second) {window : PartitionWindow}
    (listed : window ∈ covered) :
    (advanced origin covered kept limit)[window.partition]? = some
      (if limit ≤ kept.length then
        ((pastFurthest origin.walk kept)[window.partition]?).getD (window.near origin.walk)
      else window.far origin.walk) := by
  rw [advanced_eq]
  refine Maps.getElem?_insertMany_of_mem ?_ _ (List.mem_map.mpr ⟨window, listed, rfl⟩)
  intro key first second one two
  obtain ⟨left, leftListed, leftEq⟩ := List.mem_map.mp one
  obtain ⟨right, rightListed, rightEq⟩ := List.mem_map.mp two
  obtain ⟨leftKey, rfl⟩ := Prod.mk.inj leftEq
  obtain ⟨rightKey, rfl⟩ := Prod.mk.inj rightEq
  obtain rfl := single left leftListed right rightListed (leftKey.trans rightKey.symm)
  rfl

theorem advanced_of_not_covered {partition : Int}
    (absent : ∀ window ∈ covered, window.partition ≠ partition) :
    (advanced origin covered kept limit)[partition]? = origin.remaining.offsets[partition]? := by
  rw [advanced_eq]
  refine Maps.getElem?_insertMany_of_not_mem _ fun value member => ?_
  obtain ⟨window, listed, equal⟩ := List.mem_map.mp member
  exact absent window listed (Prod.mk.inj equal).1

theorem unread_iff {partition offset : Int} : span.unread walk partition offset = true ↔
    ∃ marks, span.watermarks partition = some marks ∧
      ∃ unread, marks.low ≤ unread ∧ unread < marks.high ∧ Ahead walk offset unread := by
  unfold unread
  cases span.watermarks partition with
  | none => simp
  | some marks =>
    simp only [Option.some.injEq, exists_eq_left']
    cases walk with
    | oldest =>
      simp only [decide_eq_true_eq, Ahead]
      refine ⟨fun room => ⟨max offset marks.low, by omega, room, by omega⟩, ?_⟩
      rintro ⟨place, low, high, ahead⟩
      omega
    | newest =>
      simp only [decide_eq_true_eq, Ahead]
      refine ⟨fun room => ⟨min offset marks.high - 1, by omega, by omega, by omega⟩, ?_⟩
      rintro ⟨place, low, high, ahead⟩
      omega

/-- A partition has a window as long as something is left ahead of its boundary. -/
theorem window_isSome_iff {origin : RecordCursor} {take : Int} (same : origin.walk = walk)
    (positive : 1 ≤ take) {partition : Int} :
    (span.window walk take (some origin) partition).isSome ↔
      ∃ boundary, origin.remaining.offsets[partition]? = some boundary ∧
        span.unread walk partition boundary := by
  constructor
  · intro some
    obtain ⟨window, planned⟩ := Option.isSome_iff_exists.mp some
    obtain ⟨marks, boundary, known, found, _, near, far, nonempty⟩ :=
      (window_eq_some_iff same).mp planned
    refine ⟨boundary, found, ?_⟩
    cases walk <;> simp only [PartitionWindow.near, PartitionWindow.far, clamped, reach] at near far <;>
      simp only [unread, known, decide_eq_true_eq] <;> omega
  · rintro ⟨boundary, found, unread⟩
    obtain ⟨marks, known, offset, low, high, ahead⟩ := unread_iff.mp unread
    by_contra none
    rw [Option.not_isSome_iff_eq_none] at none
    exact not_ahead_of_window_none same positive none known found low high ahead

/-- A cursor is there as long as something is left ahead of its boundaries. -/
theorem cursor_spec (span : LogSpan) (order walk : RecordOrder) {offsets : List (Int × Int)}
    (functional : Maps.Functional offsets) :
    match span.cursor order walk offsets with
    | none => ∀ entry ∈ offsets, ¬ span.unread walk entry.1 entry.2
    | some cursor => cursor.order = order ∧ cursor.walk = walk ∧
        (∀ partition boundary, cursor.remaining.offsets[partition]? = some boundary ↔
          (partition, boundary) ∈ offsets ∧ (span.watermarks partition).isSome) ∧
        ∃ entry ∈ offsets, span.unread walk entry.1 entry.2 := by
  have smaller : Maps.Functional (offsets.filter fun entry => (span.watermarks entry.1).isSome) :=
    fun _ _ _ one two => functional (List.mem_filter.mp one).1 (List.mem_filter.mp two).1
  generalize mapEq : (Std.ExtTreeMap.ofList
    (offsets.filter fun entry => (span.watermarks entry.1).isSome) compare : Offsets) = map
  have lookup : ∀ partition boundary, map[partition]? = some boundary ↔
      (partition, boundary) ∈ offsets ∧ (span.watermarks partition).isSome := by
    intro partition boundary
    rw [← mapEq, Maps.getElem?_ofList smaller, List.mem_filter]
  have known : ∀ entry : Int × Int, span.unread walk entry.1 entry.2 = true →
      (span.watermarks entry.1).isSome := by
    intro entry unread
    obtain ⟨marks, found, _⟩ := unread_iff.mp unread
    simp [found]
  unfold cursor
  rw [mapEq]
  dsimp only
  by_cases more : (map.toList.any fun entry => span.unread walk entry.1 entry.2) = true
  · rw [if_pos more]
    obtain ⟨⟨partition, boundary⟩, listed, unread⟩ := List.any_eq_true.mp more
    have found := Std.ExtTreeMap.mem_toList_iff_getElem?_eq_some.mp listed
    refine ⟨rfl, Remaining.walk_walking .., ?_, (partition, boundary),
      ((lookup partition boundary).mp found).1, unread⟩
    simpa using lookup
  · rw [if_neg more]
    intro entry listed unread
    refine more (List.any_eq_true.mpr ⟨entry, ?_, unread⟩)
    exact Std.ExtTreeMap.mem_toList_iff_getElem?_eq_some.mpr
      ((lookup entry.1 entry.2).mpr ⟨listed, known entry unread⟩)

/-- The end of the marks a walk goes towards. -/
def farEnd (walk : RecordOrder) (marks : Watermarks) : Int :=
  match walk with
  | .oldest => marks.high
  | .newest => marks.low

/-- Turning round at a cursor: the same boundaries, and the far end of each
partition it has none for. -/
theorem rewind_spec (span : LogSpan) (opened : RecordCursor) :
    match span.rewind opened with
    | none => ∀ partition ∈ span.partitions, ∀ marks, span.watermarks partition = some marks →
        ¬ span.unread opened.walk.flipped partition
          ((opened.remaining.offsets[partition]?).getD (farEnd opened.walk marks))
    | some cursor => cursor.order = opened.order ∧ cursor.walk = opened.walk.flipped ∧
        (∀ partition boundary, cursor.remaining.offsets[partition]? = some boundary ↔
          partition ∈ span.partitions ∧ ∃ marks, span.watermarks partition = some marks ∧
            boundary = (opened.remaining.offsets[partition]?).getD (farEnd opened.walk marks)) ∧
        ∃ partition boundary, cursor.remaining.offsets[partition]? = some boundary ∧
          span.unread opened.walk.flipped partition boundary := by
  let value := fun (partition : Int) (marks : Watermarks) =>
    (opened.remaining.offsets[partition]?).getD (farEnd opened.walk marks)
  have spec := cursor_spec span opened.order opened.walk.flipped (functional_start span value)
  have same : span.rewind opened = span.cursor opened.order opened.walk.flipped
      (span.partitions.filterMap fun partition =>
        (span.watermarks partition).bind fun marks => some (partition, value partition marks)) := rfl
  rw [same]
  generalize span.cursor opened.order opened.walk.flipped _ = result at spec
  cases result with
  | none =>
    intro partition listed marks known
    exact spec (partition, value partition marks)
      ((mem_start span value).mpr ⟨listed, marks, known, rfl⟩)
  | some cursor =>
    obtain ⟨order, walks, offsets, ⟨partition, boundary⟩, listed, unread⟩ := spec
    have lookup : ∀ partition boundary, cursor.remaining.offsets[partition]? = some boundary ↔
        partition ∈ span.partitions ∧ ∃ marks, span.watermarks partition = some marks ∧
          boundary = value partition marks := by
      intro partition boundary
      rw [offsets, mem_start span value]
      refine ⟨And.left, fun facts => ⟨facts, ?_⟩⟩
      obtain ⟨_, marks, known, _⟩ := facts
      simp [known]
    exact ⟨order, walks, lookup, partition, boundary,
      (lookup partition boundary).mpr ((mem_start span value).mp listed), unread⟩

/-- What a turn that gives a cursor says of it. -/
theorem rewind_eq_some {span : LogSpan} {opened cursor : RecordCursor}
    (turned : span.rewind opened = some cursor) :
    cursor.order = opened.order ∧ cursor.walk = opened.walk.flipped ∧
      (∀ partition boundary, cursor.remaining.offsets[partition]? = some boundary ↔
        partition ∈ span.partitions ∧ ∃ marks, span.watermarks partition = some marks ∧
          boundary = (opened.remaining.offsets[partition]?).getD (farEnd opened.walk marks)) ∧
      ∃ partition boundary, cursor.remaining.offsets[partition]? = some boundary ∧
        span.unread opened.walk.flipped partition boundary := by
  have spec := span.rewind_spec opened
  rwa [turned] at spec

/-- Turned round, a backward cursor reads forward. -/
theorem direction_of_rewind {span : LogSpan} {opened cursor : RecordCursor}
    (turned : span.rewind opened = some cursor) (backward : opened.direction = .backward) :
    cursor.direction = .forward := by
  obtain ⟨order, walk, _⟩ := rewind_eq_some turned
  unfold RecordCursor.direction at backward ⊢
  rw [walk, order]
  generalize opened.walk = opposite at backward ⊢
  generalize opened.order = asked at backward ⊢
  cases opposite <;> cases asked <;> first | rfl | contradiction

end LogSpan
end Klens.Scan
