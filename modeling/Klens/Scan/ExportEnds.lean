import Klens.Scan.Boundaries
import Klens.Scan.ExportProofs
import Mathlib.Algebra.Order.Group.Nat

/-! An export comes to an end whatever cuts its scans short. The offsets left
ahead of its cursor are the measure: a call that hands on the cursor it was
given is an error, and any other cursor has less ahead of it. -/
namespace Klens.Scan
open Klens.Lib

/-- The offsets between the marks that lie ahead of the boundary. -/
def offsetsLeft (walk : RecordOrder) (marks : Watermarks) (boundary : Int) : Nat :=
  match walk with
  | .oldest => (marks.high - clamped .oldest marks boundary).toNat
  | .newest => (clamped .newest marks boundary - marks.low).toNat

theorem offsetsLeft_le (walk : RecordOrder) (marks : Watermarks) (boundary : Int) :
    offsetsLeft walk marks boundary ≤ (marks.high - marks.low).toNat := by
  cases walk <;> simp only [offsetsLeft, clamped] <;> omega

namespace Moved
variable {span : LogSpan} {walk : RecordOrder} {partition before after : Int} {marks : Watermarks}

theorem offsetsLeft_le (moved : Moved span walk partition before after)
    (known : span.watermarks partition = some marks) :
    offsetsLeft walk marks after ≤ offsetsLeft walk marks before := by
  rcases moved with ⟨rfl, _⟩ | ⟨others, again, _, _, forth, low, high⟩
  · exact le_refl _
  · obtain rfl := Option.some.inj (known.symm.trans again)
    cases walk <;> simp only [offsetsLeft, Forth, clamped] at forth ⊢ <;> omega

theorem forth_of_ne (moved : Moved span walk partition before after) (other : after ≠ before) :
    Forth walk before after := by
  rcases moved with ⟨same, _⟩ | ⟨marks, known, _, unread, forth, _⟩
  · exact absurd same other
  · cases walk <;> simp only [LogSpan.unread, known, decide_eq_true_eq] at unread <;>
      simp only [Forth, clamped] at forth ⊢ <;> omega

theorem offsetsLeft_lt (moved : Moved span walk partition before after)
    (known : span.watermarks partition = some marks) (other : after ≠ before)
    (settled : span.unread walk partition before → marks.low ≤ before ∧ before ≤ marks.high) :
    offsetsLeft walk marks after < offsetsLeft walk marks before := by
  rcases moved with ⟨same, _⟩ | ⟨others, again, _, unread, forth, low, high⟩
  · exact absurd same other
  · obtain rfl := Option.some.inj (known.symm.trans again)
    obtain ⟨least, most⟩ := settled unread
    cases walk <;> simp only [offsetsLeft, Forth, clamped] at forth ⊢ <;> omega

end Moved

namespace LogSpan

def size (span : LogSpan) : Nat :=
  (span.partitions.dedup.map fun partition => match span.watermarks partition with
    | some marks => (marks.high - marks.low).toNat
    | none => 0).sum

def left (span : LogSpan) (walk : RecordOrder) (offsets : Offsets) : Nat :=
  (span.partitions.dedup.map fun partition =>
    match span.watermarks partition, offsets[partition]? with
    | some marks, some boundary => offsetsLeft walk marks boundary
    | _, _ => 0).sum

theorem left_le_size (span : LogSpan) (walk : RecordOrder) (offsets : Offsets) :
    span.left walk offsets ≤ span.size := by
  refine List.sum_le_sum fun partition _ => ?_
  cases span.watermarks partition with
  | none => exact le_refl _
  | some marks => cases offsets[partition]? with
    | none => exact Nat.zero_le _
    | some boundary => exact offsetsLeft_le walk marks boundary

/-- The boundaries with something ahead of them lie between their marks. -/
def Settled (span : LogSpan) (walk : RecordOrder) (offsets : Offsets) : Prop :=
  ∀ partition boundary marks, partition ∈ span.partitions → offsets[partition]? = some boundary →
    span.watermarks partition = some marks → span.unread walk partition boundary →
    marks.low ≤ boundary ∧ boundary ≤ marks.high

end LogSpan

namespace Carried
variable {span : LogSpan} {walk : RecordOrder} {before after : Offsets}

theorem settled (carried : Carried span walk before after) : span.Settled walk after := by
  intro partition boundary marks listed found known unread
  obtain ⟨first, here⟩ :=
    Option.isSome_iff_exists.mp ((carried.keys partition).mp (by simp [found])).1
  rcases carried.moved partition first boundary here found with
    ⟨rfl, still⟩ | ⟨others, again, _, _, _, within⟩
  · exact absurd ⟨listed, unread⟩ still
  · obtain rfl := Option.some.inj (known.symm.trans again)
    exact within

/-- Boundaries of partitions with marks that do not all stay move along the walk. -/
theorem moves (carried : Carried span walk before after)
    (marked : ∀ partition : Int, before[partition]?.isSome → (span.watermarks partition).isSome)
    (different : after ≠ before) : ∃ partition first second, before[partition]? = some first ∧
      after[partition]? = some second ∧ second ≠ first ∧ Moved span walk partition first second := by
  by_contra still
  refine different (Std.ExtTreeMap.ext_getElem? fun partition => ?_)
  have keys := carried.keys partition
  cases here : before[partition]? with
  | none =>
    rw [here] at keys
    simpa using keys
  | some first =>
    have known := marked partition (by simp [here])
    rw [here] at keys
    obtain ⟨second, there⟩ := Option.isSome_iff_exists.mp (keys.mpr ⟨rfl, known⟩)
    rw [there]
    by_contra other
    exact still ⟨partition, first, second, here, there, fun same => other (congrArg some same),
      carried.moved partition first second here there⟩

theorem left_lt (carried : Carried span walk before after) (settled : span.Settled walk before)
    (marked : ∀ partition : Int, before[partition]?.isSome → (span.watermarks partition).isSome)
    (different : after ≠ before) : span.left walk after < span.left walk before := by
  refine List.sum_lt_sum _ _ (fun partition _ => ?_) ?_
  · cases known : span.watermarks partition with
    | none => exact le_refl _
    | some marks =>
      cases there : after[partition]? with
      | none => exact Nat.zero_le _
      | some second =>
        obtain ⟨first, here⟩ :=
          Option.isSome_iff_exists.mp ((carried.keys partition).mp (by simp [there])).1
        rw [here]
        exact (carried.moved partition first second here there).offsetsLeft_le known
  · obtain ⟨partition, first, second, here, there, other, moved⟩ := carried.moves marked different
    obtain ⟨marks, known⟩ := Option.isSome_iff_exists.mp (marked partition (by simp [here]))
    have listed : partition ∈ span.partitions := by
      rcases moved with ⟨same, _⟩ | ⟨_, _, listed, _⟩
      · exact absurd same other
      · exact listed
    refine ⟨partition, List.mem_dedup.mpr listed, ?_⟩
    rw [known, here, there]
    exact moved.offsetsLeft_lt known other (settled partition first marks listed here known)

end Carried

namespace Export
variable [Crates]

/-- The export after some calls. A call that fails leaves it as it was. -/
def after (source : Export) : List Schedule → Export
  | [] => source
  | schedule :: rest => match source.next schedule with
    | .ok (_, next) => next.after rest
    | .error _ => source.after rest

def pages (source : Export) : List Schedule → Nat
  | [] => 0
  | schedule :: rest => match source.next schedule with
    | .ok (some _, next) => next.pages rest + 1
    | .ok (none, next) => next.pages rest
    | .error _ => source.pages rest

/-- The export is under way: it stands at a cursor that a page left, read
forward, and knows the marks of all its partitions. -/
structure Underway (source : Export) (cursor : RecordCursor) : Prop where
  given : source.request.query.cursor = some cursor
  forward : cursor.direction = .forward
  marked : ∀ partition : Int, cursor.remaining.offsets[partition]?.isSome →
    (source.span.watermarks partition).isSome

theorem next_eq_none {source next : Export} {schedule : Schedule}
    (stepped : source.next schedule = .ok (none, next)) : source.done = true ∧ next = source := by
  unfold Export.next at stepped
  split at stepped
  · rename_i done
    cases stepped
    exact ⟨done, rfl⟩
  · obtain ⟨page, _, rest⟩ := Except.bind_ok stepped
    obtain ⟨cursor, _, rest⟩ := Except.bind_ok rest
    split at rest <;> cases rest

/-- A call that returns records does not hand on the cursor it was given. -/
theorem next_cursor_ne {source next : Export} {schedule : Schedule} {records : List Record}
    {cursor : RecordCursor} (stepped : source.next schedule = .ok (some records, next))
    (given : next.request.query.cursor = some cursor) :
    source.request.query.cursor ≠ some cursor := by
  unfold Export.next at stepped
  split at stepped
  · cases stepped
  · obtain ⟨page, _, rest⟩ := Except.bind_ok stepped
    obtain ⟨read, _, rest⟩ := Except.bind_ok rest
    split at rest
    · cases rest
    · rename_i different
      obtain ⟨-, rfl⟩ := Prod.mk.inj (Except.ok.inj rest)
      obtain rfl : read = some cursor := given
      intro same
      simp [same] at different

/-- A call that returns records ends the export or leaves it under way. Read
forward, the boundaries are carried on. -/
theorem next_underway {source next : Export} {schedule : Schedule} {records : List Record}
    (stepped : source.next schedule = .ok (some records, next)) :
    next.span = source.span ∧ (next.done = true ∨ ∃ cursor, next.Underway cursor ∧
      (source.request.query.direction = .forward →
        source.request.Continues source.span
          (source.request.origin source.span source.request.query.cursor) cursor)) := by
  obtain ⟨page, read, fetched, parsed, rfl, moved⟩ := next_eq_some stepped
  refine ⟨by rw [moved], ?_⟩
  cases read with
  | none => exact .inl (by rw [moved]; rfl)
  | some cursor =>
    right
    refine ⟨cursor, ?_⟩
    cases direction : source.request.query.direction with
    | forward =>
      obtain ⟨left, shown, continues⟩ := PageRequest.fetch_continues fetched
      rw [direction] at shown
      have on := continues cursor (nextCursor_display shown parsed).symm
      refine ⟨⟨by rw [moved]; rfl, ?_, fun partition known => ?_⟩, fun _ => on⟩
      · have order : source.request.query.walk =
            (source.request.origin source.span source.request.query.cursor).order := by
          unfold RecordQuery.direction at direction
          unfold RecordQuery.walk PageRequest.origin
          cases given : source.request.query.cursor with
          | none => rfl
          | some opened => simpa [given, RecordCursor.direction] using direction
        simp [RecordCursor.direction, on.order, on.walk, order]
      · rw [moved]
        exact ((on.carried.keys partition).mp known).2
    | backward =>
      obtain ⟨opened, _, against, turned⟩ := turned_of_backward direction fetched parsed
      obtain ⟨_, _, lookup, _⟩ := LogSpan.rewind_eq_some turned
      refine ⟨⟨by rw [moved]; rfl, ?_, fun partition known => ?_⟩, by simp⟩
      · exact LogSpan.direction_of_rewind turned against
      · obtain ⟨boundary, found⟩ := Option.isSome_iff_exists.mp known
        obtain ⟨_, marks, known, _⟩ := (lookup partition boundary).mp found
        simp [moved, known]

/-- Once under way, a call that returns records ends the export or carries its
boundaries on, not all of which stay. -/
theorem Underway.next {source next : Export} {cursor : RecordCursor} {schedule : Schedule}
    {records : List Record} (underway : source.Underway cursor)
    (stepped : source.next schedule = .ok (some records, next)) :
    next.done = true ∨ ∃ later, next.Underway later ∧ later.walk = cursor.walk ∧
      Carried source.span cursor.walk cursor.remaining.offsets later.remaining.offsets ∧
      later.remaining.offsets ≠ cursor.remaining.offsets := by
  have given := underway.given
  obtain ⟨_, done | ⟨later, going, on⟩⟩ := next_underway stepped
  · exact .inl done
  · right
    have forward : source.request.query.direction = .forward := by
      simpa [RecordQuery.direction, given] using underway.forward
    obtain ⟨order, walk, _, carried⟩ := on forward
    have walks : source.request.query.walk = cursor.walk := by simp [RecordQuery.walk, given]
    rw [walks] at walk carried
    simp only [PageRequest.origin, given, Option.getD_some] at order carried
    refine ⟨later, going, walk, carried, fun same => ?_⟩
    refine next_cursor_ne stepped going.given (given.trans (congrArg some ?_))
    obtain ⟨firstOrder, first⟩ := cursor
    obtain ⟨secondOrder, second⟩ := later
    obtain rfl : secondOrder = firstOrder := order
    simp only [RecordCursor.walk] at walk same
    rw [← Remaining.walking_self first, ← Remaining.walking_self second, walk, same]

theorem pages_of_done {source : Export} (done : source.done = true) (schedules : List Schedule) :
    source.pages schedules = 0 := by
  induction schedules with
  | nil => rfl
  | cons schedule rest ih =>
    have stays : source.next schedule = .ok (none, source) := by simp [Export.next, done]
    rw [pages, stays]
    exact ih

/-- What a call leaves of the bound, whichever way it ends. -/
theorem pages_cons {source : Export} {schedule : Schedule} {rest : List Schedule} {bound : Nat}
    (stays : source.pages rest ≤ bound) (goes : ∀ records next,
      source.next schedule = .ok (some records, next) → next.pages rest + 1 ≤ bound) :
    source.pages (schedule :: rest) ≤ bound := by
  unfold pages
  split
  · rename_i stepped
    exact goes _ _ stepped
  · rename_i stepped
    rw [(next_eq_none stepped).2]
    exact stays
  · exact stays

/-- Settled boundaries bound the pages by what lies ahead of them. -/
theorem Underway.pages_le {source : Export} {cursor : RecordCursor} (schedules : List Schedule)
    (underway : source.Underway cursor)
    (settled : source.span.Settled cursor.walk cursor.remaining.offsets) :
    source.pages schedules ≤ source.span.left cursor.walk cursor.remaining.offsets + 1 := by
  induction schedules generalizing source cursor with
  | nil => exact Nat.zero_le _
  | cons schedule rest ih =>
    refine pages_cons (ih underway settled) fun records next stepped => ?_
    rcases underway.next stepped with done | ⟨later, going, walk, carried, different⟩
    · rw [pages_of_done done]
      omega
    · have span := (next_underway stepped).1
      have fewer := carried.left_lt settled underway.marked different
      have onward := ih going (by rw [span, walk]; exact carried.settled)
      rw [span, walk] at onward
      omega

theorem Underway.pages_le_size {source : Export} {cursor : RecordCursor} (schedules : List Schedule)
    (underway : source.Underway cursor) : source.pages schedules ≤ source.span.size + 2 := by
  induction schedules with
  | nil => exact Nat.zero_le _
  | cons schedule rest ih =>
    refine pages_cons ih fun records next stepped => ?_
    rcases underway.next stepped with done | ⟨later, going, walk, carried, _⟩
    · rw [pages_of_done done]
      omega
    · have span := (next_underway stepped).1
      have onward := going.pages_le rest (by rw [span, walk]; exact carried.settled)
      have all := next.span.left_le_size later.walk later.remaining.offsets
      rw [span] at all onward
      omega

theorem pages_le (source : Export) (schedules : List Schedule) :
    source.pages schedules ≤ source.span.size + 3 := by
  induction schedules with
  | nil => exact Nat.zero_le _
  | cons schedule rest ih =>
    refine pages_cons ih fun records next stepped => ?_
    obtain ⟨span, done | ⟨later, going, _⟩⟩ := next_underway stepped
    · rw [pages_of_done done]
      omega
    · have onward := going.pages_le_size rest
      rw [span] at onward
      omega

theorem after_started {source : Export} (schedules : List Schedule)
    (started : source.done = true ∨ ∃ cursor, source.Underway cursor) :
    (source.after schedules).done = true ∨ ∃ cursor, (source.after schedules).Underway cursor := by
  induction schedules generalizing source with
  | nil => exact started
  | cons schedule rest ih =>
    unfold after
    split
    · rename_i result next stepped
      cases result with
      | none =>
        rw [(next_eq_none stepped).2]
        exact ih started
      | some records =>
        refine ih ((next_underway stepped).2.imp_right ?_)
        rintro ⟨cursor, going, _⟩
        exact ⟨cursor, going⟩
    · exact ih started

theorem started_of_pages {source : Export} {schedules : List Schedule}
    (some : source.pages schedules ≠ 0) :
    (source.after schedules).done = true ∨ ∃ cursor, (source.after schedules).Underway cursor := by
  induction schedules generalizing source with
  | nil => contradiction
  | cons schedule rest ih =>
    unfold pages at some
    unfold after
    split at some
    · rename_i stepped
      rw [stepped]
      refine after_started rest ((next_underway stepped).2.imp_right ?_)
      rintro ⟨cursor, going, _⟩
      exact ⟨cursor, going⟩
    · rename_i stepped
      rw [stepped]
      exact ih some
    · rename_i failed
      rw [failed]
      exact ih some

/-- No pass takes a boundary back behind where its marks put it, a call after
the first page that neither fails nor finishes takes one further along the
walk, and so the calls that return records are at most three more than the
offsets of the span. -/
theorem next_terminates (source : Export) (schedules : List Schedule) :
    (∀ schedule, ∀ visit ∈ source.request.fetchVisits source.session source.span schedule,
      ∀ after stop, source.request.scanPass source.session source.span visit.1 visit.2 =
          .ok (after, stop) →
        ∀ cursor, after.cursor = some cursor → ∀ partition marks first second,
          source.span.watermarks partition = some marks →
          (source.request.origin source.span visit.2.cursor).remaining.offsets[partition]? =
            some first →
          cursor.remaining.offsets[partition]? = some second →
          second = first ∨ Forth source.request.query.walk
            (clamped source.request.query.walk marks first) second) ∧
    (source.pages schedules ≠ 0 → ∀ schedule records next,
      (source.after schedules).next schedule = .ok (some records, next) →
      next.done = true ∨ ∃ before later, ∃ partition first second : Int,
        (source.after schedules).request.query.cursor = some before ∧
        next.request.query.cursor = some later ∧
        before.remaining.offsets[partition]? = some first ∧
        later.remaining.offsets[partition]? = some second ∧
        Forth later.walk first second ∧ second ≠ first) ∧
    source.pages schedules ≤ source.span.size + 3 := by
  refine ⟨?_, ?_, source.pages_le schedules⟩
  · intro schedule visit member after stop scanned cursor given partition marks first second known
      here there
    have poised := PageRequest.fetchVisits_poised visit member
    have carried := ((poised.scanPass scanned).2 cursor given).carried
    rcases carried.moved partition first second here there with
      ⟨same, _⟩ | ⟨others, again, _, _, forth, _⟩
    · exact .inl same
    · obtain rfl := Option.some.inj (known.symm.trans again)
      exact .inr forth
  · intro some schedule records next stepped
    rcases started_of_pages some with done | ⟨before, underway⟩
    · simp [Export.next, done] at stepped
    · refine (underway.next stepped).imp_right ?_
      rintro ⟨later, going, walk, carried, different⟩
      obtain ⟨partition, first, second, here, there, other, moved⟩ :=
        carried.moves underway.marked different
      refine ⟨before, later, partition, first, second, underway.given, going.given, here, there, ?_,
        other⟩
      rw [walk]
      exact moved.forth_of_ne other

end Export

end Klens.Scan
