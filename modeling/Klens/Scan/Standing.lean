import Klens.Scan.Sorted

/-! Where a cursor stands in an orderly log. What a cursor has ahead of it
determines the cursor, so that cursors met on different ways to one place are
the same. -/
namespace Klens.Scan
open Klens.Lib

/-- Boundaries for exactly the partitions the span has marks for, each between
its marks. -/
structure Placed (span : LogSpan) (boundaries : Offsets) : Prop where
  domain : ∀ partition, boundaries[partition]?.isSome ↔
    partition ∈ span.partitions ∧ (span.watermarks partition).isSome
  within : ∀ partition boundary marks, boundaries[partition]? = some boundary →
    span.watermarks partition = some marks → marks.low ≤ boundary ∧ boundary ≤ marks.high

/-- The cursor walks `walk` and has exactly the records of `ahead` to read. -/
structure Stood (log : Log) (span : LogSpan) (order walk : RecordOrder) (cursor : RecordCursor)
    (ahead : List RawRecord) : Prop where
  order : cursor.order = order
  walks : cursor.walk = walk
  placed : Placed span cursor.remaining.offsets
  ahead : ∀ raw, raw ∈ ahead ↔ log.Holds span raw ∧ Unread walk cursor.remaining.offsets raw

section Place
variable {log : Log} {span : LogSpan} {walk : RecordOrder}

theorem Placed.of_lookup {boundaries : Offsets} (value : Int → Watermarks → Int)
    (lookup : ∀ partition boundary, boundaries[partition]? = some boundary ↔
      partition ∈ span.partitions ∧ ∃ marks, span.watermarks partition = some marks ∧
        boundary = value partition marks)
    (within : ∀ partition ∈ span.partitions, ∀ marks, span.watermarks partition = some marks →
      marks.low ≤ value partition marks ∧ value partition marks ≤ marks.high) :
    Placed span boundaries where
  domain partition := by
    simp only [Option.isSome_iff_exists, lookup]
    constructor
    · rintro ⟨boundary, listed, marks, known, _⟩
      exact ⟨listed, marks, known⟩
    · rintro ⟨listed, marks, known⟩
      exact ⟨_, listed, marks, known, rfl⟩
  within partition boundary marks found known := by
    obtain ⟨listed, others, otherKnown, rfl⟩ := (lookup partition boundary).mp found
    obtain rfl := Option.some.inj (known.symm.trans otherKnown)
    exact within partition listed marks known

theorem Placed.le_of_unread (orderly : Orderly log span) {first second : Offsets}
    (one : Placed span first) (two : Placed span second)
    (same : ∀ raw, log.Holds span raw → (Unread walk first raw ↔ Unread walk second raw))
    {partition left right : Int} (atLeft : first[partition]? = some left)
    (atRight : second[partition]? = some right) : right ≤ left := by
  obtain ⟨listed, known⟩ := (one.domain partition).mp (by simp [atLeft])
  obtain ⟨marks, known⟩ := Option.isSome_iff_exists.mp known
  by_contra less
  have low := (one.within partition left marks atLeft known).1
  have high := (two.within partition right marks atRight known).2
  -- the record at `left` lies between the two boundaries
  obtain ⟨raw, holds, rfl, rfl⟩ := orderly.holds listed known low (by omega)
  have unread : ∀ {boundaries : Offsets} {boundary : Int},
      boundaries[raw.partition]? = some boundary →
        (Unread walk boundaries raw ↔ Ahead walk boundary raw.offset) := by
    intro boundaries boundary found
    simp [Unread, found]
  have between := same raw holds
  rw [unread atLeft, unread atRight] at between
  cases walk <;> simp only [Ahead] at between <;> omega

theorem Placed.unique (walk : RecordOrder) (orderly : Orderly log span) {first second : Offsets}
    (one : Placed span first) (two : Placed span second)
    (same : ∀ raw, log.Holds span raw → (Unread walk first raw ↔ Unread walk second raw)) :
    first = second := by
  refine Std.ExtTreeMap.ext_getElem? fun partition => ?_
  cases atLeft : first[partition]? with
  | none =>
    cases atRight : second[partition]? with
    | none => rfl
    | some right =>
      have known := (one.domain partition).mpr ((two.domain partition).mp (by simp [atRight]))
      simp [atLeft] at known
  | some left =>
    have known := (two.domain partition).mpr ((one.domain partition).mp (by simp [atLeft]))
    obtain ⟨right, atRight⟩ := Option.isSome_iff_exists.mp known
    rw [atRight]
    refine congrArg some (le_antisymm ?_ ?_)
    · exact two.le_of_unread orderly one (fun raw holds => (same raw holds).symm) atRight atLeft
    · exact one.le_of_unread orderly two same atLeft atRight

/-- Something is left ahead of a boundary when a record is. -/
theorem Placed.exists_unread (orderly : Orderly log span) {boundaries : Offsets}
    (placed : Placed span boundaries) {partition boundary : Int}
    (found : boundaries[partition]? = some boundary) (unread : span.unread walk partition boundary) :
    ∃ raw, log.Holds span raw ∧ Unread walk boundaries raw := by
  obtain ⟨marks, known, offset, low, high, ahead⟩ := LogSpan.unread_iff.mp unread
  obtain ⟨raw, holds, rfl, rfl⟩ :=
    orderly.holds ((placed.domain partition).mp (by simp [found])).1 known low high
  exact ⟨raw, holds, boundary, found, ahead⟩

end Place

namespace Stood
variable {log : Log} {span : LogSpan} {order walk : RecordOrder} {cursor : RecordCursor}
  {ahead behind : List RawRecord}

theorem unique (orderly : Orderly log span) {other : RecordCursor}
    (one : Stood log span order walk cursor ahead) (two : Stood log span order walk other ahead) :
    cursor = other := by
  have offsets : cursor.remaining.offsets = other.remaining.offsets := by
    refine one.placed.unique walk orderly two.placed fun raw holds => ?_
    have here := one.ahead raw
    rw [two.ahead raw] at here
    simpa [holds] using here.symm
  obtain ⟨cursorOrder, remaining⟩ := cursor
  obtain ⟨otherOrder, others⟩ := other
  obtain rfl : cursorOrder = otherOrder := one.order.trans two.order.symm
  have walks : remaining.walk = others.walk := one.walks.trans two.walks.symm
  rw [← remaining.walking_self, ← others.walking_self, walks, show remaining.offsets = _ from offsets]

theorem start (orderly : Orderly log span) (all : ∀ raw, raw ∈ ahead ↔ log.Holds span raw) :
    Stood log span order walk ⟨order, span.start walk⟩ ahead where
  order := rfl
  walks := by simp [RecordCursor.walk, LogSpan.start]
  placed := by
    refine .of_lookup (fun _ => LogSpan.nearEnd walk)
      (fun partition boundary => span.start_offsets walk) fun partition listed marks known => ?_
    have ordered := orderly.marks partition listed marks known
    cases walk <;> simp only [LogSpan.nearEnd] <;> omega
  ahead raw := by
    rw [all]
    refine ⟨fun holds => ⟨holds, ?_⟩, And.left⟩
    obtain ⟨_, listed, marks, known, low, high⟩ := holds
    refine ⟨_, (span.start_offsets walk).mpr ⟨listed, marks, known, rfl⟩, ?_⟩
    cases walk <;> simp only [LogSpan.nearEnd, Ahead] <;> omega

/-- Turning round, a cursor has ahead of it what it had behind. -/
theorem turn (orderly : Orderly log span) (stood : Stood log span order walk cursor ahead)
    (rest : ∀ raw, raw ∈ behind ↔ log.Holds span raw ∧ raw ∉ ahead) :
    match span.rewind cursor with
    | none => behind = []
    | some back => behind ≠ [] ∧ Stood log span order walk.flipped back behind := by
  have turned : ∀ raw, log.Holds span raw → (raw ∈ behind ↔
      ¬ Unread walk cursor.remaining.offsets raw) := by
    intro raw holds
    rw [rest, stood.ahead]
    simp [holds]
  have unread := fun {raw} (holds : log.Holds span raw) => PageRequest.unread_rewind cursor holds
  have spec := span.rewind_spec cursor
  rw [stood.walks] at unread spec
  generalize span.rewind cursor = result at spec unread
  cases result with
  | none =>
    refine List.eq_nil_iff_forall_not_mem.mpr fun raw member => ?_
    have holds := ((rest raw).mp member).1
    exact (turned raw holds).mp member (unread holds)
  | some back =>
    obtain ⟨sameOrder, flipped, offsets, partition, boundary, found, more⟩ := spec
    have placed : Placed span back.remaining.offsets := by
      refine .of_lookup _ offsets fun partition listed marks known => ?_
      have there := (stood.placed.domain partition).mpr ⟨listed, by simp [known]⟩
      obtain ⟨boundary, here⟩ := Option.isSome_iff_exists.mp there
      rw [here]
      exact stood.placed.within partition boundary marks here known
    have ahead : ∀ raw, raw ∈ behind ↔
        log.Holds span raw ∧ Unread walk.flipped back.remaining.offsets raw := by
      intro raw
      constructor
      · intro member
        have holds := ((rest raw).mp member).1
        exact ⟨holds, (unread holds).mpr ((turned raw holds).mp member)⟩
      · rintro ⟨holds, later⟩
        exact (turned raw holds).mpr ((unread holds).mp later)
    refine ⟨?_, sameOrder.trans stood.order, flipped, placed, ahead⟩
    obtain ⟨raw, holds, later⟩ := placed.exists_unread orderly found more
    exact List.ne_nil_of_mem ((ahead raw).mpr ⟨holds, later⟩)

end Stood
end Klens.Scan
