import Klens.Scan.Boundaries
import Klens.Scan.ReadProofs

/-! The cursors on a page: the one that goes on from its boundaries and the one
that turns back at the cursor it was opened with. Both are written as text, and
the text reads back. -/
namespace Klens.Scan
open Klens.Lib

namespace RecordCursor

theorem readable_at {order : RecordOrder} {partition offset : Int}
    (inRange : InRange (partition, offset)) : (RecordCursor.at order partition offset).Readable := by
  intro other boundary found
  obtain ⟨rfl, rfl⟩ := (offsets_at order partition offset other boundary).mp found
  obtain ⟨first, last, least, most⟩ := inRange
  cases order with
  | oldest => exact ⟨first, last, least, most⟩
  | newest =>
    refine ⟨first, last, ?_⟩
    simp only [saturatingAdd, i64Min, i64Max] at least most ⊢
    omega

end RecordCursor

/-- The partitions of the span and its marks are values of their types, and no
mark is negative. -/
structure LogSpan.Ranged (span : LogSpan) : Prop where
  partitions : ∀ partition ∈ span.partitions, i32Min ≤ partition ∧ partition ≤ i32Max
  marks : ∀ partition marks, span.watermarks partition = some marks →
    (0 ≤ marks.low ∧ marks.low ≤ i64Max) ∧ (0 ≤ marks.high ∧ marks.high ≤ i64Max)

/-- The cursors a page is asked for with: none, one whose text was parsed and
checked, one put at an offset from zero on, or the one a lookup puts at any
offset of its only partition. -/
inductive Asked (order : RecordOrder) (span : LogSpan) : Option RecordCursor → Prop where
  | unpaged : Asked order span none
  | parsed {text : String} {cursor : RecordCursor} (parsed : RecordCursor.parse text = .ok cursor)
      (validated : cursor.validateFor order = .ok ()) : Asked order span (some cursor)
  | from {partition offset : Int} (inRange : RecordCursor.InRange (partition, offset)) :
      Asked order span (some (.at order partition offset))
  | lookup {partition offset : Int} (oldest : order = .oldest)
      (single : span.partitions = [partition]) (most : offset ≤ i64Max) :
      Asked order span (some (.at .oldest partition offset))

section Readable
variable {span : LogSpan} {cursor : RecordCursor}

theorem LogSpan.Ranged.rewind (ranged : span.Ranged) {opened : RecordCursor}
    (readable : opened.Readable) (turned : span.rewind opened = some cursor) : cursor.Readable := by
  obtain ⟨_, _, lookup, _⟩ := LogSpan.rewind_eq_some turned
  intro partition boundary found
  obtain ⟨listed, marks, known, rfl⟩ := (lookup partition boundary).mp found
  obtain ⟨first, last⟩ := ranged.partitions partition listed
  obtain ⟨low, high⟩ := ranged.marks partition marks known
  cases given : opened.remaining.offsets[partition]? with
  | some offset => exact readable partition offset given
  | none =>
    refine ⟨first, last, ?_⟩
    rw [Option.getD_none]
    generalize opened.walk = walk
    cases walk
    · exact low
    · exact high

theorem LogSpan.Ranged.rewind_lookup (ranged : span.Ranged) {partition offset : Int}
    (single : span.partitions = [partition]) (most : offset ≤ i64Max)
    (turned : span.rewind (.at .oldest partition offset) = some cursor) : cursor.Readable := by
  obtain ⟨_, _, lookup, other, boundary, found, unread⟩ := LogSpan.rewind_eq_some turned
  obtain ⟨listed, marks, known, value⟩ := (lookup other boundary).mp found
  obtain rfl : other = partition := by simpa [single] using listed
  have only := (RecordCursor.offsets_at .oldest other offset other offset).mpr ⟨rfl, rfl⟩
  obtain rfl : boundary = offset := by rwa [only, Option.getD_some] at value
  -- There is nothing to turn back to below the first offset of all.
  have positive : 0 ≤ boundary := by
    obtain ⟨low, _⟩ := ranged.marks other marks known
    have ahead : min boundary marks.high > marks.low := by
      simpa [LogSpan.unread, known, RecordCursor.walk, RecordCursor.at, RecordOrder.flipped]
        using unread
    omega
  obtain ⟨first, last⟩ := ranged.partitions other listed
  exact ranged.rewind (RecordCursor.readable_at ⟨first, last, positive, most⟩) turned

namespace PageRequest
variable {request : PageRequest} {origin : RecordCursor}

theorem readable_fresh (ranged : span.Ranged) : (request.fresh span).Readable := by
  intro partition offset found
  obtain ⟨listed, marks, known, rfl⟩ := (span.start_offsets _).mp found
  obtain ⟨first, last⟩ := ranged.partitions partition listed
  obtain ⟨low, high⟩ := ranged.marks partition marks known
  refine ⟨first, last, ?_⟩
  generalize request.query.walk = walk
  cases walk
  · exact high
  · exact low

theorem Continues.readable (continues : request.Continues span origin cursor)
    (ranged : span.Ranged) (readable : origin.Readable) : cursor.Readable := by
  intro partition boundary found
  obtain ⟨before, here⟩ :=
    Option.isSome_iff_exists.mp ((continues.carried.keys partition).mp (by simp [found])).1
  obtain ⟨first, last, inRange⟩ := readable partition before here
  rcases continues.carried.moved partition before boundary here found with
    ⟨rfl, _⟩ | ⟨marks, known, _, _, _, least, most⟩
  · exact ⟨first, last, inRange⟩
  · obtain ⟨low, high⟩ := ranged.marks partition marks known
    exact ⟨first, last, by simp only; omega, by simp only; omega⟩

/-- Going on from the cursor of a lookup: it has one boundary, with something
to read ahead of it, so it has moved between the marks. -/
theorem Continues.readable_lookup {partition offset : Int}
    (continues : request.Continues span (.at .oldest partition offset) cursor)
    (ranged : span.Ranged) (single : span.partitions = [partition]) : cursor.Readable := by
  have only : ∀ other boundary, cursor.remaining.offsets[other]? = some boundary →
      other = partition := by
    intro other boundary found
    obtain ⟨before, here⟩ :=
      Option.isSome_iff_exists.mp ((continues.carried.keys other).mp (by simp [found])).1
    exact ((RecordCursor.offsets_at .oldest partition offset other before).mp here).1
  obtain ⟨other, left, held, unread⟩ := continues.more
  obtain rfl := only other left held
  intro another boundary found
  obtain rfl := only another boundary found
  obtain rfl := Option.some.inj (found.symm.trans held)
  have here := (RecordCursor.offsets_at .oldest another offset another offset).mpr ⟨rfl, rfl⟩
  obtain ⟨first, last⟩ := ranged.partitions another (by simp [single])
  rcases continues.carried.moved another offset boundary here found with
    ⟨rfl, still⟩ | ⟨marks, known, _, _, _, least, most⟩
  · exact absurd ⟨by simp [single], unread⟩ still
  · obtain ⟨low, high⟩ := ranged.marks another marks known
    exact ⟨first, last, by simp only; omega, by simp only; omega⟩

variable [Crates] {session : ClusterSession}

/-- The texts on a page are those of the cursor that goes on and of the one that
turns back. -/
theorem fetch_cursors {schedule : Schedule} {page : RecordPage}
    (fetched : request.fetch session span schedule = .ok page) {text : String}
    (shown : page.nextCursor = some text ∨ page.prevCursor = some text) :
    ∃ cursor : RecordCursor, text = cursor.display ∧
      (request.Continues span (request.origin span request.query.cursor) cursor ∨
        request.query.cursor.bind span.rewind = some cursor) := by
  obtain ⟨left, onward, continues⟩ := fetch_continues fetched
  have back : page.back request.query.direction = none ∨ page.back request.query.direction =
      (request.query.cursor.bind span.rewind).map RecordCursor.display := by
    rcases fetch_cases fetched with ⟨_, rfl⟩ | ⟨_, _, _, _, assembled⟩
    · left
      cases request.query.direction <;> rfl
    · exact .inr assembled.back
  have sides : page.onward request.query.direction = some text ∨
      page.back request.query.direction = some text := by
    cases request.query.direction
    · exact shown
    · exact shown.symm
  rcases sides with goesOn | turns
  · rw [onward] at goesOn
    obtain ⟨cursor, given, rfl⟩ := Option.map_eq_some_iff.mp goesOn
    exact ⟨cursor, rfl, .inl (continues cursor given)⟩
  · rcases back with none | found
    · rw [none] at turns
      contradiction
    · rw [found] at turns
      obtain ⟨cursor, given, rfl⟩ := Option.map_eq_some_iff.mp turns
      exact ⟨cursor, rfl, .inr given⟩

theorem cursor_of_fetch {schedule : Schedule} {page : RecordPage} (ranged : span.Ranged)
    (asked : Asked request.query.order span request.query.cursor)
    (fetched : request.fetch session span schedule = .ok page) {text : String}
    (shown : page.nextCursor = some text ∨ page.prevCursor = some text) :
    ∃ cursor, RecordCursor.parse text = .ok cursor ∧
      cursor.validateFor request.query.order = .ok () := by
  obtain ⟨cursor, rfl, continues | turned⟩ := fetch_cursors fetched shown
  · suffices facts : cursor.Readable ∧
        (request.origin span request.query.cursor).order = request.query.order from
      ⟨cursor, RecordCursor.parse_display_of_readable facts.1,
        if_pos (continues.order.trans facts.2)⟩
    generalize given : request.query.cursor = opened at asked continues
    cases asked with
    | unpaged => exact ⟨continues.readable ranged (readable_fresh ranged), rfl⟩
    | parsed parsed validated =>
      exact ⟨continues.readable ranged (RecordCursor.readable_of_parse parsed),
        RecordCursor.order_of_validateFor validated⟩
    | «from» inRange =>
      exact ⟨continues.readable ranged (RecordCursor.readable_at inRange), rfl⟩
    | lookup oldest single most => exact ⟨continues.readable_lookup ranged single, oldest.symm⟩
  · generalize request.query.cursor = opened at asked turned
    obtain ⟨opened, rfl, back⟩ := Option.bind_eq_some_iff.mp turned
    have order := (LogSpan.rewind_eq_some back).1
    suffices facts : cursor.Readable ∧ opened.order = request.query.order from
      ⟨cursor, RecordCursor.parse_display_of_readable facts.1, if_pos (order.trans facts.2)⟩
    cases asked with
    | parsed parsed validated =>
      exact ⟨ranged.rewind (RecordCursor.readable_of_parse parsed) back,
        RecordCursor.order_of_validateFor validated⟩
    | «from» inRange => exact ⟨ranged.rewind (RecordCursor.readable_at inRange) back, rfl⟩
    | lookup oldest single most =>
      exact ⟨ranged.rewind_lookup single most back, oldest.symm⟩

/-- A cursor reads back from its text, an accepted text from the cursor it
gave, and the cursors on a page are accepted for its query. -/
theorem cursor_codec_round_trips :
    (∀ cursor : RecordCursor, cursor.Readable → RecordCursor.parse cursor.display = .ok cursor) ∧
    (∀ text cursor, RecordCursor.parse text = .ok cursor →
      RecordCursor.parse cursor.display = RecordCursor.parse text) ∧
    ∀ (request : PageRequest) (session : ClusterSession) (span : LogSpan) (schedule : Schedule) page,
      span.Ranged → Asked request.query.order span request.query.cursor →
      request.fetch session span schedule = .ok page →
      ∀ text, page.nextCursor = some text ∨ page.prevCursor = some text →
        ∃ cursor, RecordCursor.parse text = .ok cursor ∧
          cursor.validateFor request.query.order = .ok () := by
  refine ⟨fun _ readable => RecordCursor.parse_display_of_readable readable, ?_, ?_⟩
  · intro text cursor parsed
    rw [parsed, RecordCursor.parse_display_of_readable (RecordCursor.readable_of_parse parsed)]
  · exact fun _ _ _ _ _ ranged asked fetched _ shown => cursor_of_fetch ranged asked fetched shown

/-- The way back is on the page as long as there is something to read on the
walk's side of the cursor; otherwise the page is the empty one, which has no
cursors. -/
theorem page_keeps_way_back_iff {opened back : RecordCursor} {schedule : Schedule}
    {page : RecordPage} (given : request.query.cursor = some opened)
    (turned : span.rewind opened = some back)
    (fetched : request.fetch session span schedule = .ok page) :
    (match opened.direction with
      | .forward => page.prevCursor
      | .backward => page.nextCursor) = some back.display ↔
    1 ≤ request.take ∧ ∃ partition ∈ span.partitions, ∃ boundary,
      opened.remaining.offsets[partition]? = some boundary ∧
        span.unread opened.walk partition boundary := by
  have direction : request.query.direction = opened.direction := by
    simp [RecordQuery.direction, given]
  have walk : request.query.walk = opened.walk := by simp [RecordQuery.walk, given]
  have windows : (request.initial span).windows =
      span.windows opened.walk request.take (some opened) := by
    simp only [initial, given, walk]
  rcases fetch_cases fetched with ⟨empty, rfl⟩ | ⟨some, _, _, _, assembled⟩
  · refine iff_of_false ?_ ?_
    · cases opened.direction <;> simp [RecordPage.empty]
    · rintro ⟨positive, partition, listed, unread⟩
      obtain ⟨window, planned⟩ :=
        Option.isSome_iff_exists.mp ((LogSpan.window_isSome_iff rfl positive).mpr unread)
      rw [windows] at empty
      exact List.ne_nil_of_mem (LogSpan.mem_windows.mpr ⟨partition, listed, planned⟩) empty
  · refine iff_of_true ?_ ?_
    · have carried := assembled.back
      rw [direction, given, Option.bind_some, turned] at carried
      exact carried
    · have positive : 1 ≤ request.take := by
        by_contra none
        exact some (windows_of_take span none)
      rw [windows] at some
      obtain ⟨window, listed⟩ := List.exists_mem_of_ne_nil _ some
      obtain ⟨partition, member, planned⟩ := LogSpan.mem_windows.mp listed
      exact ⟨positive, partition, member, (LogSpan.window_isSome_iff rfl positive).mp
        (Option.isSome_of_eq_some planned)⟩

end PageRequest
end Readable

namespace Sample

/-- The request for the page at a cursor of one boundary. -/
def requestAt (walk : RecordOrder) (boundary : Int) : PageRequest :=
  (request walk 3).setCursor (some (cursor walk walk [(0, boundary)]))

end Sample

theorem cursor_codec_round_trips_at_two :
    ∃ page text cursor, @PageRequest.fetch Crates.plain (Sample.requestAt .oldest 2) Sample.session
        (Sample.span [0] 0 4) (polling [[Sample.record 0 2 2, Sample.record 0 3 3]]) = .ok page ∧
      page.prevCursor = some text ∧ RecordCursor.parse text = .ok cursor ∧
      cursor.validateFor .oldest = .ok () := by
  let asked := @PageRequest.fetch Crates.plain (Sample.requestAt .oldest 2) Sample.session
    (Sample.span [0] 0 4) (polling [[Sample.record 0 2 2, Sample.record 0 3 3]])
  have shown : asked.toOption.bind RecordPage.prevCursor = some "v2:o:b:0:2" := by decide
  obtain ⟨page, fetches, back⟩ := Option.bind_eq_some_iff.mp shown
  have fetched : asked = .ok page := by
    cases found : asked <;> simp_all [Except.toOption]
  have ranged : (Sample.span [0] 0 4).Ranged := by
    constructor
    · decide
    · intro partition marks known
      obtain ⟨-, same⟩ := Option.ite_none_right_eq_some.mp known
      obtain rfl := Option.some.inj same
      decide
  have opened : RecordCursor.parse "v2:o:f:0:2" = .ok (Sample.cursor .oldest .oldest [(0, 2)]) := by
    decide
  obtain ⟨cursor, reads, accepted⟩ := (@PageRequest.cursor_codec_round_trips Crates.plain).2.2 _ _ _
    _ page ranged (.parsed opened (by decide)) fetched _ (.inr back)
  exact ⟨page, _, cursor, fetched, back, reads, accepted⟩

theorem page_keeps_way_back_at_two :
    ∃ page, @PageRequest.fetch Crates.plain (Sample.requestAt .oldest 2) Sample.session
        (Sample.span [0] 0 4) (polling [[Sample.record 0 2 2, Sample.record 0 3 3]]) = .ok page ∧
      page.prevCursor = some "v2:o:b:0:2" := by
  have outcome : (@PageRequest.fetch Crates.plain (Sample.requestAt .oldest 2) Sample.session
      (Sample.span [0] 0 4) (polling [[Sample.record 0 2 2, Sample.record 0 3 3]])).isOk := by
    decide
  cases fetched : @PageRequest.fetch Crates.plain (Sample.requestAt .oldest 2) Sample.session
      (Sample.span [0] 0 4) (polling [[Sample.record 0 2 2, Sample.record 0 3 3]]) with
  | error error => simp [fetched, Except.isOk, Except.toBool] at outcome
  | ok page =>
    refine ⟨page, rfl, ?_⟩
    have turned : (Sample.span [0] 0 4).rewind (Sample.cursor .oldest .oldest [(0, 2)]) =
        some (Sample.cursor .oldest .newest [(0, 2)]) := by decide
    have back := (@PageRequest.page_keeps_way_back_iff _ _ Crates.plain _ _ _ _ _ rfl turned
      fetched).mpr ⟨by decide, 0, by decide, 2, by decide, by decide⟩
    refine Eq.trans back ?_
    decide

/-- A reader going back in time stands before offset 2 when retention has
removed everything below 5. The records from 5 on lie behind it, and the page
has no cursor to them. -/
theorem page_loses_way_back :
    ∃ page back, @PageRequest.fetch Crates.plain (Sample.requestAt .newest 2) Sample.session
        (Sample.span [0] 5 9) (polling []) = .ok page ∧
      (Sample.span [0] 5 9).rewind (Sample.cursor .newest .newest [(0, 2)]) = some back ∧
      (Sample.cursor .newest .newest [(0, 2)]).direction = .forward ∧
      page.prevCursor ≠ some back.display := by
  refine ⟨RecordPage.empty, Sample.cursor .newest .oldest [(0, 2)], by decide,
    by decide, by decide, by decide⟩

end Klens.Scan
