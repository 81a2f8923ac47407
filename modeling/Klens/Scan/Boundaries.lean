import Klens.Scan.FetchProofs

/-! What a fetch does to the boundaries of its cursor under any schedule at all:
nothing is asked of the consumer here, as a record only counts once it lies in
an open window. -/
namespace Klens.Scan
open Klens.Lib

/-- The place lies in one of the windows. -/
def Inside (windows : List PartitionWindow) (place : Int × Int) : Prop :=
  ∃ window ∈ windows, window.partition = place.1 ∧ window.start ≤ place.2 ∧ place.2 < window.stop

def WindowScan.Reading (windows : List PartitionWindow) (scan : WindowScan) : Prop :=
  ∀ partition range, scan.remaining[partition]? = some range →
    (⟨partition, range.1, range.2⟩ : PartitionWindow) ∈ windows

section Scanning
variable {windows : List PartitionWindow} {scan : WindowScan}

theorem WindowScan.reading_new (planned : Planned windows) :
    (WindowScan.new windows).Reading windows :=
  fun _ _ found => (remaining_new planned _ _).mp found

theorem WindowScan.Reading.finish (reading : scan.Reading windows) (partition : Int) :
    (scan.finish partition).Reading windows := by
  by_cases member : partition ∈ scan.remaining
  · rw [WindowScan.finish_of_mem member]
    intro other range found
    rw [Std.ExtTreeMap.getElem?_erase] at found
    split at found
    · contradiction
    · exact reading other range found
  · rwa [WindowScan.finish_of_not_mem member]

theorem WindowScan.Reading.foldl_finish (partitions : List Int) (reading : scan.Reading windows) :
    (partitions.foldl WindowScan.finish scan).Reading windows := by
  induction partitions generalizing scan with
  | nil => exact reading
  | cons partition partitions ih => exact ih (reading.finish partition)

/-- One record of a poll: whatever is accepted lies in a window. -/
theorem ingestStep_inside {ranked : List (Ranked RawRecord)} (reading : scan.Reading windows)
    (inside : ∀ entry ∈ ranked, Inside windows entry.2.place) (raw : RawRecord) :
    (ingestStep (scan, ranked) raw).1.Reading windows ∧
      ∀ entry ∈ (ingestStep (scan, ranked) raw).2, Inside windows entry.2.place := by
  cases found : scan.remaining[raw.partition]? with
  | none =>
    have absent : raw.partition ∉ scan.remaining := Maps.not_mem_of_getElem? found
    have skipped : ingestStep (scan, ranked) raw = (scan, ranked) := by simp [ingestStep, absent]
    rw [skipped]
    exact ⟨reading, inside⟩
  | some range =>
    obtain ⟨start, stop⟩ := range
    have next : (if raw.offset ≥ stop - 1 then scan.finish raw.partition else scan).Reading windows := by
      split
      · exact reading.finish raw.partition
      · exact reading
    rw [ingestStep_open found]
    dsimp only
    split
    · rename_i within
      refine ⟨next, fun entry member => ?_⟩
      rcases List.mem_append.mp member with member | member
      · exact inside entry member
      · obtain rfl := List.mem_singleton.mp member
        exact ⟨_, reading raw.partition (start, stop) found, rfl, within⟩
    · exact ⟨next, inside⟩

theorem foldl_ingestStep_inside (polled : List RawRecord) {ranked : List (Ranked RawRecord)}
    (reading : scan.Reading windows) (inside : ∀ entry ∈ ranked, Inside windows entry.2.place) :
    (polled.foldl ingestStep (scan, ranked)).1.Reading windows ∧
      ∀ entry ∈ (polled.foldl ingestStep (scan, ranked)).2, Inside windows entry.2.place := by
  induction polled generalizing scan ranked with
  | nil => exact ⟨reading, inside⟩
  | cons raw polled ih =>
    have step := ingestStep_inside reading inside raw
    exact ih step.1 step.2

end Scanning

section Run
variable [Crates] {pipeline : RecordPipeline} {windows : List PartitionWindow}

/-- Every record of the batch was read in a window. -/
abbrev KeptInside (pipeline : RecordPipeline) (windows : List PartitionWindow)
    (batch : RecordBatch Kept) : Prop :=
  pipeline.DrawnFrom batch fun raw => Inside windows raw.place

theorem runTurns_inside {turns : List Turn} {scan last : WindowScan} {batch found : RecordBatch Kept}
    {cut : Bool} (reading : scan.Reading windows) (inside : KeptInside pipeline windows batch)
    (ran : runTurns pipeline turns scan batch = .ok (last, found, cut)) :
    KeptInside pipeline windows found := by
  induction turns generalizing scan batch with
  | nil =>
    unfold runTurns at ran
    split at ran <;> cases ran <;> exact inside
  | cons turn turns ih =>
    unfold runTurns at ran
    split at ran
    · cases ran
      exact inside
    · dsimp only at ran
      cases answer : turn.polled with
      | error error =>
        rw [answer] at ran
        contradiction
      | ok records =>
        rw [answer] at ran
        cases records with
        | nil => exact ih (reading.foldl_finish _) inside ran
        | cons raw polled =>
          have step := @foldl_ingestStep_inside windows scan (raw :: polled) [] reading (by simp)
          exact ih step.1 (inside.admitRecords pipeline step.2) ran

theorem run_inside {walk : RecordOrder} {assigned after : List PartitionWindow}
    {batch found : RecordBatch Kept} {schedule : PassSchedule} {outcome : ScanOutcome} {cut : Bool}
    (planned : Planned windows) (inside : KeptInside pipeline windows batch)
    (ran : run pipeline walk assigned windows batch schedule = .ok (outcome, found, after, cut)) :
    (∃ scan : WindowScan, outcome = scan.outcome windows walk) ∧
      KeptInside pipeline windows found := by
  unfold run at ran
  dsimp only at ran
  split at ran
  · cases ran
    exact ⟨⟨_, rfl⟩, inside⟩
  · split at ran
    · contradiction
    · cases ran
      exact ⟨⟨_, rfl⟩, inside⟩
    · obtain ⟨⟨last, kept, wasCut⟩, turned, rest⟩ := Except.bind_ok ran
      cases rest
      exact ⟨⟨_, rfl⟩, runTurns_inside (WindowScan.reading_new planned) inside turned⟩

theorem KeptInside.edges {batch : RecordBatch Kept} (inside : KeptInside pipeline windows batch) :
    ∀ place ∈ edges (batch.intoSorted.map Kept.raw), Inside windows place := by
  intro place member
  simp only [Scan.edges, RecordBatch.intoSorted, List.map_map, List.mem_map,
    Function.comp_apply] at member
  obtain ⟨entry, held, rfl⟩ := member
  obtain ⟨raw, within, keeps⟩ := inside entry held
  have placed : (entry.value.raw.partition, entry.value.raw.offset) = raw.place :=
    RecordPipeline.place_of_keeps keeps
  rw [placed]
  exact within

end Run

/-- Going `walk`, the one boundary is met no later than the other. -/
def Forth (walk : RecordOrder) (first second : Int) : Prop :=
  match walk with
  | .oldest => first ≤ second
  | .newest => second ≤ first

/-- Where the boundary of a partition may go: it moves along the walk and ends
up between the marks, or it stays because there is nothing to read. -/
def Moved (span : LogSpan) (walk : RecordOrder) (partition before after : Int) : Prop :=
  (after = before ∧ ¬ (partition ∈ span.partitions ∧ span.unread walk partition before)) ∨
    ∃ marks, span.watermarks partition = some marks ∧ partition ∈ span.partitions ∧
      span.unread walk partition before ∧ Forth walk (clamped walk marks before) after ∧
      marks.low ≤ after ∧ after ≤ marks.high

theorem Moved.trans {span : LogSpan} {walk : RecordOrder} {partition first second third : Int}
    (one : Moved span walk partition first second) (two : Moved span walk partition second third) :
    Moved span walk partition first third := by
  rcases one with ⟨rfl, still⟩ | ⟨marks, known, listed, unread, forth, low, high⟩
  · exact two
  · rcases two with ⟨rfl, _⟩ | ⟨others, again, _, _, further, within⟩
    · exact .inr ⟨marks, known, listed, unread, forth, low, high⟩
    · obtain rfl := Option.some.inj (known.symm.trans again)
      refine .inr ⟨marks, known, listed, unread, ?_, within⟩
      cases walk <;> simp only [Forth, clamped] at forth further ⊢ <;> omega

/-- The boundaries of a page after some passes, next to those before them: each
is kept for the partitions with marks, and moved. -/
structure Carried (span : LogSpan) (walk : RecordOrder) (before after : Offsets) : Prop where
  keys : ∀ partition : Int, after[partition]?.isSome ↔
    before[partition]?.isSome ∧ (span.watermarks partition).isSome
  moved : ∀ partition first second, before[partition]? = some first →
    after[partition]? = some second → Moved span walk partition first second

theorem Carried.trans {span : LogSpan} {walk : RecordOrder} {first second third : Offsets}
    (one : Carried span walk first second) (two : Carried span walk second third) :
    Carried span walk first third where
  keys partition := by
    rw [two.keys, one.keys]
    tauto
  moved partition before after here there := by
    have middle := ((two.keys partition).mp (by simp [there])).1
    obtain ⟨between, found⟩ := Option.isSome_iff_exists.mp middle
    exact (one.moved partition _ _ here found).trans (two.moved partition _ _ found there)

/-- Something is left to read ahead of the boundaries. -/
def LogSpan.Open (span : LogSpan) (walk : RecordOrder) (offsets : Offsets) : Prop :=
  ∃ partition boundary, offsets[partition]? = some boundary ∧ span.unread walk partition boundary

section Windows
variable {span : LogSpan} {walk : RecordOrder} {take : Int} {origin : RecordCursor} {limit : Nat}
  {kept : List (Int × Int)}

/-- The boundary a pass leaves in a window lies between its edges. -/
theorem movedTo_between (walks : origin.walk = walk)
    (inside : ∀ place ∈ kept, Inside (span.windows walk take (some origin)) place)
    (scan : WindowScan) {window : PartitionWindow}
    (listed : window ∈ span.windows walk take (some origin)) {boundary : Int}
    (found : (movedTo span walk take origin scan limit kept)[window.partition]? = some boundary) :
    window.start ≤ boundary ∧ boundary ≤ window.stop := by
  rw [movedTo_window scan limit kept walks listed] at found
  obtain rfl := Option.some.inj found
  have planned := span.planned_windows take walks
  have nonempty := planned.nonempty window listed
  split
  · have furthest := pastFurthest_spec walk kept window.partition
    generalize (pastFurthest walk kept)[window.partition]? = edge at furthest
    cases furthest with
    | nowhere => cases walk <;> simp only [PartitionWindow.near, Option.getD_none] <;> omega
    | «at» last member behind =>
      obtain ⟨other, otherListed, same, start, stop⟩ := inside _ member
      obtain rfl := planned.single window listed other otherListed same.symm
      cases walk <;> simp only [past, Option.getD_some] <;> omega
  · split <;> cases walk <;> simp only [PartitionWindow.near, PartitionWindow.far] <;> omega

theorem movedTo_moved (walks : origin.walk = walk) (positive : 1 ≤ take)
    (inside : ∀ place ∈ kept, Inside (span.windows walk take (some origin)) place)
    (scan : WindowScan) {partition before after : Int}
    (here : origin.remaining.offsets[partition]? = some before)
    (there : (movedTo span walk take origin scan limit kept)[partition]? = some after) :
    Moved span walk partition before after := by
  by_cases cut : ∃ window ∈ span.windows walk take (some origin), window.partition = partition
  · obtain ⟨window, listed, rfl⟩ := cut
    have between := movedTo_between walks inside scan listed there
    obtain ⟨member, marks, boundary, known, found, low, nonempty, high, near⟩ :=
      window_facts walks listed
    obtain rfl := Option.some.inj (here.symm.trans found)
    refine .inr ⟨marks, known, member, ?_, ?_, by omega, by omega⟩
    · obtain ⟨other, _, planned⟩ := LogSpan.mem_windows.mp listed
      obtain ⟨_, _, _, _, rfl, _⟩ := (LogSpan.window_eq_some_iff walks).mp planned
      obtain ⟨first, held, unread⟩ :=
        (LogSpan.window_isSome_iff walks positive).mp (Option.isSome_of_eq_some planned)
      obtain rfl := Option.some.inj (found.symm.trans held)
      exact unread
    · rw [← near]
      cases walk <;> simp only [Forth, PartitionWindow.near] <;> omega
  · rw [movedTo_of_no_window fun window listed same => cut ⟨window, listed, same⟩, here] at there
    obtain rfl := Option.some.inj there
    refine .inl ⟨rfl, ?_⟩
    rintro ⟨member, unread⟩
    obtain ⟨window, planned⟩ := Option.isSome_iff_exists.mp
      ((LogSpan.window_isSome_iff walks positive).mpr ⟨_, here, unread⟩)
    obtain ⟨_, _, _, _, same, _⟩ := (LogSpan.window_eq_some_iff walks).mp planned
    exact cut ⟨window, LogSpan.mem_windows.mpr ⟨partition, member, planned⟩, same⟩

theorem movedTo_isSome (walks : origin.walk = walk) (scan : WindowScan) (partition : Int) :
    (movedTo span walk take origin scan limit kept)[partition]?.isSome ↔
      origin.remaining.offsets[partition]?.isSome := by
  by_cases cut : ∃ window ∈ span.windows walk take (some origin), window.partition = partition
  · obtain ⟨window, listed, rfl⟩ := cut
    obtain ⟨_, _, _, _, found, _⟩ := window_facts walks listed
    rw [movedTo_window scan limit kept walks listed, found]
    simp
  · rw [movedTo_of_no_window fun window listed same => cut ⟨window, listed, same⟩]

/-- The cursor made of the boundaries a pass leaves carries those it started from. -/
theorem carried_cursor (walks : origin.walk = walk) (positive : 1 ≤ take)
    (inside : ∀ place ∈ kept, Inside (span.windows walk take (some origin)) place)
    (scan : WindowScan) {order : RecordOrder} {cursor : RecordCursor}
    (given : span.cursor order walk (movedTo span walk take origin scan limit kept).toList =
      some cursor) :
    cursor.order = order ∧ cursor.walk = walk ∧ span.Open walk cursor.remaining.offsets ∧
      Carried span walk origin.remaining.offsets cursor.remaining.offsets := by
  have spec := span.cursor_spec order walk
    (Maps.functional_toList (movedTo span walk take origin scan limit kept))
  rw [given] at spec
  obtain ⟨sameOrder, sameWalk, offsets, ⟨left, boundary⟩, listed, unread⟩ := spec
  have more : span.Open walk cursor.remaining.offsets := by
    obtain ⟨marks, known, _⟩ := LogSpan.unread_iff.mp unread
    exact ⟨left, boundary, (offsets left boundary).mpr ⟨listed, by simp [known]⟩, unread⟩
  simp only [Std.ExtTreeMap.mem_toList_iff_getElem?_eq_some] at offsets
  refine ⟨sameOrder, sameWalk, more, fun partition => ?_, fun partition before after here there => ?_⟩
  · have keys : (movedTo span walk take origin scan limit kept)[partition]?.isSome ↔ _ :=
      movedTo_isSome walks scan partition
    rw [← keys, Option.isSome_iff_exists, Option.isSome_iff_exists]
    simp only [offsets, exists_and_right]
  · exact movedTo_moved walks positive inside scan here ((offsets partition after).mp there).1

end Windows

namespace PageRequest

/-- The state of the loop as a pass begins: its windows are cut at the
boundaries of its cursor. -/
structure Poised (request : PageRequest) (span : LogSpan) (state : Progress) : Prop where
  take : 1 ≤ request.take
  walks : (request.origin span state.cursor).walk = request.query.walk
  windows : state.windows = span.windows request.query.walk request.take
    (some (request.origin span state.cursor))

theorem poised_initial {request : PageRequest} {span : LogSpan}
    (some : (request.initial span).windows ≠ []) : request.Poised span (request.initial span) where
  take := by
    by_contra empty
    exact some (windows_of_take span empty)
  walks := origin_walk request span
  windows := windows_origin request span request.query.cursor

/-- The cursor goes on from the boundaries of `origin`. -/
structure Continues (request : PageRequest) (span : LogSpan) (origin cursor : RecordCursor) :
    Prop where
  order : cursor.order = origin.order
  walk : cursor.walk = request.query.walk
  more : span.Open request.query.walk cursor.remaining.offsets
  carried : Carried span request.query.walk origin.remaining.offsets cursor.remaining.offsets

theorem Continues.trans {request : PageRequest} {span : LogSpan} {first second third : RecordCursor}
    (one : request.Continues span first second) (two : request.Continues span second third) :
    request.Continues span first third :=
  ⟨two.order.trans one.order, two.walk, two.more, one.carried.trans two.carried⟩

variable [Crates] {request : PageRequest} {session : ClusterSession} {span : LogSpan}

theorem Poised.scanPass {schedule : PassSchedule} {state after : Progress} {stop : Bool}
    (poised : request.Poised span state)
    (scanned : request.scanPass session span schedule state = .ok (after, stop)) :
    (stop = false → after.cursor.isSome) ∧ ∀ cursor, after.cursor = some cursor →
      request.Continues span (request.origin span state.cursor) cursor := by
  obtain ⟨⟨outcome, found, assigned, cut⟩, ran, rest⟩ := Except.bind_ok scanned
  have planned : Planned state.windows :=
    poised.windows ▸ span.planned_windows request.take poised.walks
  obtain ⟨⟨scan, rfl⟩, inside⟩ := run_inside planned
    (by simp [KeptInside, RecordPipeline.DrawnFrom, RecordBatch.new]) ran
  simp only [Except.ok.injEq, Prod.mk.injEq] at rest
  obtain ⟨rfl, rfl⟩ := rest
  have places := inside.edges
  rw [poised.windows] at places
  refine ⟨fun goes => ?_, fun cursor given => ?_⟩
  · simp only [Bool.or_eq_false_iff] at goes
    simpa [Option.isSome_iff_ne_none] using goes.1.1.2
  · have moved : span.cursor (request.origin span state.cursor).order request.query.walk
        (movedTo span request.query.walk request.take (request.origin span state.cursor) scan
          (request.limit - state.kept.length) (edges (found.intoSorted.map Kept.raw))).toList =
        some cursor := by
      rw [← given]
      unfold LogSpan.advance movedTo
      rw [← poised.windows]
      exact congrArg (span.cursor _ · _) poised.walks.symm
    obtain ⟨order, walk, more, carried⟩ :=
      carried_cursor poised.walks poised.take places scan moved
    exact ⟨order, walk, more, carried⟩

theorem Poised.replan {schedule : PassSchedule} {state after : Progress}
    (poised : request.Poised span state)
    (scanned : request.scanPass session span schedule state = .ok (after, false)) (pass : Nat) :
    request.Poised span (request.replan span (pass + 1) after) := by
  obtain ⟨more, continues⟩ := poised.scanPass scanned
  obtain ⟨cursor, given⟩ := Option.isSome_iff_exists.mp (more rfl)
  refine ⟨poised.take, ?_, ?_⟩
  · simpa [PageRequest.replan, origin, given] using (continues cursor given).walk
  · simpa [PageRequest.replan] using windows_origin request span after.cursor

omit [Crates] in
theorem replan_cursor (pass : Nat) (state : Progress) :
    (request.replan span pass state).cursor = state.cursor := by
  unfold PageRequest.replan
  split <;> rfl

theorem visits_poised {schedule : Nat → PassSchedule} {fuel pass : Nat} {state : Progress}
    (poised : request.Poised span (request.replan span pass state)) :
    ∀ visit ∈ request.visits session span schedule fuel pass state, request.Poised span visit.2 := by
  induction fuel generalizing pass state with
  | zero => simp [visits]
  | succ fuel ih =>
    intro visit member
    rw [visits] at member
    split at member
    · contradiction
    · rcases List.mem_cons.mp member with rfl | member
      · exact poised
      · split at member
        · rename_i after scanned
          exact ih (poised.replan scanned pass) visit member
        · contradiction

/-- The cursor the loop leaves goes on from the one it was started with. -/
theorem passes_continues {schedule : Nat → PassSchedule} {fuel pass : Nat} {state last : Progress}
    (poised : request.Poised span (request.replan span pass state))
    (ran : request.passes session span schedule (fuel + 1) pass state = .ok last) :
    ∀ cursor, last.cursor = some cursor →
      request.Continues span (request.origin span state.cursor) cursor := by
  induction fuel generalizing pass state with
  | zero =>
    rw [passes] at ran
    dsimp only at ran
    split at ran
    · obtain rfl := Except.ok.inj ran
      simp
    · obtain ⟨⟨after, stop⟩, scanned, rest⟩ := Except.bind_ok ran
      have step := (poised.scanPass scanned).2
      rw [replan_cursor] at step
      have same : last = after := by
        cases stop <;> exact (Except.ok.inj rest).symm
      exact same ▸ step
  | succ fuel ih =>
    rw [passes] at ran
    dsimp only at ran
    split at ran
    · obtain rfl := Except.ok.inj ran
      simp
    · obtain ⟨⟨after, stop⟩, scanned, rest⟩ := Except.bind_ok ran
      obtain ⟨more, step⟩ := poised.scanPass scanned
      rw [replan_cursor] at step
      cases stop with
      | true =>
        obtain rfl := Except.ok.inj rest
        exact step
      | false =>
        intro cursor given
        obtain ⟨middle, between⟩ := Option.isSome_iff_exists.mp (more rfl)
        have later := ih (poised.replan scanned pass) rest cursor given
        rw [between] at later
        exact (step middle between).trans later

theorem fetchVisits_poised {schedule : Schedule} :
    ∀ visit ∈ request.fetchVisits session span schedule, request.Poised span visit.2 := by
  unfold fetchVisits
  split
  · simp
  · rename_i some
    exact visits_poised (by simpa [PageRequest.replan] using poised_initial some)

/-- The cursor a page hands out for its own direction. -/
theorem fetch_continues {schedule : Schedule} {page : RecordPage}
    (fetched : request.fetch session span schedule = .ok page) :
    ∃ cursor : Option RecordCursor,
      page.onward request.query.direction = cursor.map RecordCursor.display ∧
      ∀ onward, cursor = some onward →
        request.Continues span (request.origin span request.query.cursor) onward := by
  rcases fetch_cases fetched with ⟨_, rfl⟩ | ⟨some, last, ran, _, assembled⟩
  · refine ⟨none, ?_, by simp⟩
    cases request.query.direction <;> rfl
  · obtain ⟨fuel, passes⟩ := request.maxPasses_pos
    rw [passes] at ran
    have poised := poised_initial some
    exact ⟨last.cursor, assembled.onward,
      passes_continues (by simpa [PageRequest.replan] using poised) ran⟩

end PageRequest

end Klens.Scan
