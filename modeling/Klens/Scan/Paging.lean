import Klens.Scan.FetchProofs

/-! Following the cursors of pages. A cursor travels as text and the log may
grow and be truncated between two fetches; each fetch reads its windows to
their ends. -/
namespace Klens.Scan

/-- One fetch of a page: the log and span it met, its schedule, and the page. -/
structure PageFetch where
  log : Log
  span : LogSpan
  schedule : Schedule
  page : RecordPage

/-- The span's marks enclose what each partition retains. -/
structure Retained (log : Log) (span : LogSpan) (partitions : List Int) : Prop where
  covers : span.partitions = partitions
  marks : ∀ partition ∈ partitions, ∃ marks, span.watermarks partition = some marks ∧
    marks.low ≤ marks.high ∧
    ∀ raw ∈ log.records partition, marks.low ≤ raw.offset ∧ raw.offset < marks.high

/-- What may happen to a log between two fetches: each partition gains records
at its end and loses a stretch at its start. -/
structure Evolves (old new : PageFetch) : Prop where
  partition : ∀ partition before after, old.span.watermarks partition = some before →
    new.span.watermarks partition = some after → before.low ≤ after.low ∧
      before.high ≤ after.high ∧
      (new.log.records partition).filter (fun raw => raw.offset < before.high) =
        (old.log.records partition).filter (fun raw => after.low ≤ raw.offset)

def directionOf (order walk : RecordOrder) : CursorDirection :=
  if walk = order then .forward else .backward

namespace PageRequest
variable [Crates]

/-- The page was fetched at `cursor`, with every window read to its end. -/
structure Made (request : PageRequest) (session : ClusterSession) (cursor : Option RecordCursor)
    (fetch : PageFetch) : Prop where
  delivered : (request.setCursor cursor).Delivered session fetch.span fetch.schedule fetch.log
  fetched : (request.setCursor cursor).fetch session fetch.span fetch.schedule = .ok fetch.page
  complete : fetch.page.complete = true

/-- Pages fetched one after the other, each at the cursor that `link` reads off
the page before, until there is none. -/
def Follows (request : PageRequest) (session : ClusterSession) (link : RecordPage → Option String) :
    Option RecordCursor → List PageFetch → Prop
  | _, [] => False
  | cursor, [fetch] => request.Made session cursor fetch ∧ link fetch.page = none
  | cursor, fetch :: next :: rest => request.Made session cursor fetch ∧
      ∃ text again, link fetch.page = some text ∧ RecordCursor.parse text = .ok again ∧
        request.Follows session link (some again) (next :: rest)

/-- A place to go on from: the cursor of a page walking `walk`. -/
structure Heading (request : PageRequest) (walk : RecordOrder) (cursor : Option RecordCursor) :
    Prop where
  valid : (request.setCursor cursor).Valid
  walks : (request.setCursor cursor).query.walk = walk

omit [Crates] in
theorem direction_of_valid {request : PageRequest} (valid : request.Valid) :
    request.query.direction = directionOf request.query.order request.query.walk := by
  unfold RecordQuery.direction RecordQuery.walk directionOf
  cases given : request.query.cursor with
  | none => simp
  | some cursor => simp [RecordCursor.direction, valid.order cursor given]

/-- A cursor left at `boundaries`: it has those of the partitions with marks,
and something is ahead of one of them. -/
structure LeftAt (span : LogSpan) (walk : RecordOrder) (boundaries : Offsets) (cursor : RecordCursor) :
    Prop where
  offsets : ∀ partition, cursor.remaining.offsets[partition]? =
    if (span.watermarks partition).isSome then boundaries[partition]? else none
  unread : ∃ partition boundary, boundaries[partition]? = some boundary ∧
    span.unread walk partition boundary

omit [Crates] in
theorem LeftAt.within {span : LogSpan} {walk : RecordOrder} {boundaries : Offsets}
    {cursor : RecordCursor} (left : LeftAt span walk boundaries cursor)
    (within : ∀ partition : Int, boundaries[partition]?.isSome → partition ∈ span.partitions)
    (partition : Int) (known : cursor.remaining.offsets[partition]?.isSome) :
    partition ∈ span.partitions := by
  rw [left.offsets] at known
  split at known
  · exact within partition known
  · contradiction

omit [Crates] in
theorem LeftAt.unread_again {span : LogSpan} {walk : RecordOrder} {boundaries : Offsets}
    {cursor : RecordCursor} (left : LeftAt span walk boundaries cursor) :
    ∃ partition boundary, cursor.remaining.offsets[partition]? = some boundary ∧
      span.unread walk partition boundary := by
  obtain ⟨partition, boundary, found, unread⟩ := left.unread
  refine ⟨partition, boundary, ?_, unread⟩
  obtain ⟨marks, known, _⟩ := LogSpan.unread_iff.mp unread
  rw [left.offsets, if_pos (by simp [known])]
  exact found

theorem Made.sweeps {request : PageRequest} {session : ClusterSession} {walk : RecordOrder}
    {cursor : Option RecordCursor} {fetch : PageFetch} (heading : request.Heading walk cursor)
    (made : request.Made session cursor fetch) :
    ∃ boundaries,
      Sweeps (request.pipeline session) fetch.log fetch.span walk
        ((request.setCursor cursor).origin fetch.span cursor).remaining.offsets boundaries
        fetch.page.places ∧
      (fetch.page.onward (directionOf request.query.order walk) = none →
        ∀ raw, fetch.log.Holds fetch.span raw → ¬ Unread walk boundaries raw) ∧
      ∀ text again, fetch.page.onward (directionOf request.query.order walk) = some text →
        RecordCursor.parse text = .ok again →
        request.Heading walk (some again) ∧ LeftAt fetch.span walk boundaries again := by
  obtain ⟨boundaries, next, sweeps, stands, onward⟩ :=
    fetch_complete heading.valid made.delivered made.fetched made.complete
  rw [direction_of_valid heading.valid, heading.walks] at onward
  change fetch.page.onward (directionOf request.query.order walk) = _ at onward
  rw [heading.walks] at sweeps
  refine ⟨boundaries, sweeps, ?_, ?_⟩
  · intro ended
    rw [ended] at onward
    obtain rfl : next = none := by simpa using onward.symm
    rw [← heading.walks]
    exact stands
  · intro text again linked parsed
    rw [linked] at onward
    obtain ⟨following, rfl, rfl⟩ := Option.map_eq_some_iff.mp onward.symm
    obtain rfl := RecordCursor.parse_display parsed
    refine ⟨⟨⟨heading.valid.limit, heading.valid.take, ?_⟩, ?_⟩, ?_⟩
    · intro cursor same
      obtain rfl := Option.some.inj same
      exact stands.1
    · rw [← heading.walks]
      exact stands.2.1
    · rw [← heading.walks]
      exact ⟨stands.2.2.1, stands.2.2.2⟩

omit [Crates] in
theorem unread_of_place {walk : RecordOrder} {boundaries : Offsets} {first second : RawRecord}
    (same : first.place = second.place) (unread : Unread walk boundaries first) :
    Unread walk boundaries second := by
  obtain ⟨partition, offset⟩ := Prod.mk.inj same
  unfold Unread
  rw [← partition, ← offset]
  exact unread

def returned (fetches : List PageFetch) : List (Int × Int) :=
  fetches.flatMap fun fetch => fetch.page.places

theorem Follows.distinct {request : PageRequest} {session : ClusterSession} {walk : RecordOrder}
    {cursor : Option RecordCursor} {first : PageFetch} {rest : List PageFetch}
    (heading : request.Heading walk cursor)
    (followed : request.Follows session (·.onward (directionOf request.query.order walk)) cursor
      (first :: rest)) :
    (returned (first :: rest)).Nodup ∧ ∀ place ∈ returned (first :: rest), ∃ raw, raw.place = place ∧
      Unread walk ((request.setCursor cursor).origin first.span cursor).remaining.offsets raw := by
  induction rest generalizing cursor first with
  | nil =>
    obtain ⟨boundaries, sweeps, _⟩ := followed.1.sweeps heading
    simp only [returned, List.flatMap_cons, List.flatMap_nil, List.append_nil]
    refine ⟨sweeps.distinct, fun place member => ?_⟩
    obtain ⟨raw, placed, _, _, unread, _⟩ := sweeps.swept place member
    exact ⟨raw, placed, unread⟩
  | cons next rest ih =>
    obtain ⟨made, text, again, linked, parsed, later⟩ := followed
    obtain ⟨boundaries, sweeps, _, goes⟩ := made.sweeps heading
    obtain ⟨onwards, left⟩ := goes text again linked parsed
    obtain ⟨distinct, ahead⟩ := ih onwards later
    have beyond : ∀ place ∈ returned (next :: rest), ∃ raw, raw.place = place ∧
        Unread walk boundaries raw := by
      intro place member
      obtain ⟨raw, placed, unread⟩ := ahead place member
      exact ⟨raw, placed, ((unread_restrict left.offsets raw).mp unread).1⟩
    rw [returned, List.flatMap_cons]
    refine ⟨List.nodup_append.mpr ⟨sweeps.distinct, distinct, ?_⟩, ?_⟩
    · intro place early other late equal
      subst equal
      obtain ⟨raw, placed, _, _, _, behind⟩ := sweeps.swept place early
      obtain ⟨again, againPlaced, unread⟩ := beyond place late
      exact behind (unread_of_place (againPlaced.trans placed.symm) unread)
    · intro place member
      rcases List.mem_append.mp member with early | late
      · obtain ⟨raw, placed, _, _, unread, _⟩ := sweeps.swept place early
        exact ⟨raw, placed, unread⟩
      · obtain ⟨raw, placed, unread⟩ := beyond place late
        exact ⟨raw, placed, sweeps.onward raw unread⟩

/-- A matching record that is ahead comes up, provided each fetch still has it
or does not reach it yet, and the last one has it. -/
theorem Follows.returns {request : PageRequest} {session : ClusterSession} {walk : RecordOrder}
    {cursor : Option RecordCursor} {first : PageFetch} {rest : List PageFetch}
    (heading : request.Heading walk cursor)
    (followed : request.Follows session (·.onward (directionOf request.query.order walk)) cursor
      (first :: rest)) {raw : RawRecord} (passes : (request.pipeline session).passes raw)
    (present : ∀ fetch ∈ first :: rest, fetch.log.Holds fetch.span raw ∨
      ∃ marks, fetch.span.watermarks raw.partition = some marks ∧ Beyond walk marks raw.offset)
    (final : ∀ last ∈ (first :: rest).getLast?, last.log.Holds last.span raw)
    (unread : Unread walk ((request.setCursor cursor).origin first.span cursor).remaining.offsets
      raw) : raw.place ∈ returned (first :: rest) := by
  induction rest generalizing cursor first with
  | nil =>
    obtain ⟨boundaries, sweeps, ended, _⟩ := followed.1.sweeps heading
    have holds := final first rfl
    simp only [returned, List.flatMap_cons, List.flatMap_nil, List.append_nil]
    exact sweeps.all raw holds passes unread (ended followed.2 raw holds)
  | cons next rest ih =>
    obtain ⟨made, text, again, linked, parsed, later⟩ := followed
    obtain ⟨boundaries, sweeps, _, goes⟩ := made.sweeps heading
    obtain ⟨onwards, left⟩ := goes text again linked parsed
    rw [returned, List.flatMap_cons]
    by_cases early : raw.place ∈ first.page.places
    · exact List.mem_append_left _ early
    · have still : Unread walk boundaries raw ∧ (first.span.watermarks raw.partition).isSome := by
        rcases present first List.mem_cons_self with holds | ⟨marks, known, beyond⟩
        · refine ⟨?_, ?_⟩
          · by_contra behind
            exact early (sweeps.all raw holds passes unread behind)
          · obtain ⟨_, _, marks, known, _⟩ := holds
            simp [known]
        · exact ⟨sweeps.beyond raw marks known beyond unread, by simp [known]⟩
      refine List.mem_append_right _ (ih onwards later ?_ ?_
        ((unread_restrict left.offsets raw).mpr still))
      · exact fun fetch member => present fetch (List.mem_cons_of_mem _ member)
      · intro last member
        exact final last (by rw [List.getLast?_cons_cons]; exact member)

theorem Follows.held {request : PageRequest} {session : ClusterSession} {walk : RecordOrder}
    {cursor : Option RecordCursor} {fetches : List PageFetch} (heading : request.Heading walk cursor)
    (followed : request.Follows session (·.onward (directionOf request.query.order walk)) cursor
      fetches) {fetch : PageFetch} (member : fetch ∈ fetches) {place : Int × Int}
    (listed : place ∈ fetch.page.places) :
    ∃ raw, raw.place = place ∧ fetch.log.Holds fetch.span raw ∧
      (request.pipeline session).passes raw := by
  have here : ∀ {cursor}, request.Heading walk cursor → request.Made session cursor fetch →
      ∃ raw, raw.place = place ∧ fetch.log.Holds fetch.span raw ∧
        (request.pipeline session).passes raw := by
    intro cursor heading made
    obtain ⟨boundaries, sweeps, _⟩ := made.sweeps heading
    obtain ⟨raw, placed, holds, passes, _⟩ := sweeps.swept place listed
    exact ⟨raw, placed, holds, passes⟩
  induction fetches generalizing cursor with
  | nil => contradiction
  | cons first rest ih =>
    cases rest with
    | nil =>
      obtain rfl := List.mem_singleton.mp member
      exact here heading followed.1
    | cons next rest =>
      obtain ⟨made, text, again, linked, parsed, later⟩ := followed
      rcases List.mem_cons.mp member with rfl | member
      · exact here heading made
      · obtain ⟨_, _, _, goes⟩ := made.sweeps heading
        exact ih (goes text again linked parsed).1 later member

theorem Follows.returned_iff {request : PageRequest} {session : ClusterSession} {walk : RecordOrder}
    {cursor : Option RecordCursor} {first : PageFetch} {rest : List PageFetch} {log : Log}
    {span : LogSpan} (heading : request.Heading walk cursor)
    (fixed : ∀ fetch ∈ first :: rest, fetch.log = log ∧ fetch.span = span)
    (followed : request.Follows session (·.onward (directionOf request.query.order walk)) cursor
      (first :: rest)) {place : Int × Int} :
    place ∈ returned (first :: rest) ↔ ∃ raw, raw.place = place ∧ log.Holds span raw ∧
      (request.pipeline session).passes raw ∧
      Unread walk ((request.setCursor cursor).origin span cursor).remaining.offsets raw := by
  have start := (fixed first List.mem_cons_self).2
  constructor
  · intro listed
    obtain ⟨fetch, inList, inPage⟩ := List.mem_flatMap.mp listed
    obtain ⟨raw, placed, holds, passes⟩ := followed.held heading inList inPage
    obtain ⟨fetchLog, fetchSpan⟩ := fixed fetch inList
    rw [fetchLog, fetchSpan] at holds
    obtain ⟨other, otherPlaced, unread⟩ := (followed.distinct heading).2 place listed
    rw [start] at unread
    exact ⟨raw, placed, holds, passes, unread_of_place (otherPlaced.trans placed.symm) unread⟩
  · rintro ⟨raw, rfl, holds, passes, unread⟩
    have here : ∀ fetch ∈ first :: rest, fetch.log.Holds fetch.span raw := by
      intro fetch inList
      obtain ⟨fetchLog, fetchSpan⟩ := fixed fetch inList
      rwa [fetchLog, fetchSpan]
    refine followed.returns heading passes (fun fetch inList => .inl (here fetch inList))
      (fun fetch inList => here fetch (List.mem_of_getLast? inList)) ?_
    rwa [start]

omit [Crates] in
theorem unread_rewind {log : Log} {span : LogSpan} (opened : RecordCursor) {raw : RawRecord}
    (holds : log.Holds span raw) :
    match span.rewind opened with
    | none => Unread opened.walk opened.remaining.offsets raw
    | some back => Unread opened.walk.flipped back.remaining.offsets raw ↔
        ¬ Unread opened.walk opened.remaining.offsets raw := by
  obtain ⟨_, member, marks, known, low, high⟩ := holds
  have turned : Ahead opened.walk.flipped
      ((opened.remaining.offsets[raw.partition]?).getD (LogSpan.farEnd opened.walk marks))
      raw.offset ↔ ¬ Unread opened.walk opened.remaining.offsets raw := by
    unfold Unread
    rw [ahead_flipped]
    cases opened.remaining.offsets[raw.partition]? with
    | none =>
      generalize opened.walk = walk
      cases walk <;> simp only [Option.getD_none, LogSpan.farEnd, Ahead] <;> simp <;> omega
    | some boundary => simp
  have spec := span.rewind_spec opened
  generalize span.rewind opened = result at spec
  cases result with
  | none =>
    by_contra behind
    refine spec raw.partition member marks known (LogSpan.unread_iff.mpr
      ⟨marks, known, raw.offset, low, high, turned.mpr behind⟩)
  | some back =>
    obtain ⟨_, _, offsets, _⟩ := spec
    have found := (offsets raw.partition _).mpr ⟨member, marks, known, rfl⟩
    constructor
    · rintro ⟨boundary, same, ahead⟩
      obtain rfl := Option.some.inj (found.symm.trans same)
      exact turned.mp ahead
    · intro behind
      exact ⟨_, found, turned.mpr behind⟩

theorem Follows.last {request : PageRequest} {session : ClusterSession} {walk : RecordOrder}
    {cursor : Option RecordCursor} {first next : PageFetch} {rest : List PageFetch} {log : Log}
    {span : LogSpan} (heading : request.Heading walk cursor)
    (fixed : ∀ fetch ∈ first :: next :: rest, fetch.log = log ∧ fetch.span = span)
    (within : ∀ partition : Int, (((request.setCursor cursor).origin span
      cursor).remaining.offsets[partition]?).isSome → partition ∈ span.partitions)
    (followed : request.Follows session (·.onward (directionOf request.query.order walk)) cursor
      (first :: next :: rest)) {last : PageFetch}
    (final : (first :: next :: rest).getLast? = some last) :
    ∃ reached, request.Heading walk (some reached) ∧ request.Made session (some reached) last ∧
      last.page.onward (directionOf request.query.order walk) = none ∧
      (∀ partition : Int, reached.remaining.offsets[partition]?.isSome →
        partition ∈ span.partitions) ∧
      ∃ partition boundary, reached.remaining.offsets[partition]? = some boundary ∧
        span.unread walk partition boundary := by
  induction rest generalizing cursor first next with
  | nil =>
    obtain ⟨made, text, again, linked, parsed, later⟩ := followed
    obtain ⟨boundaries, sweeps, _, goes⟩ := made.sweeps heading
    obtain ⟨onwards, left⟩ := goes text again linked parsed
    obtain rfl : next = last := by simpa using final
    rw [(fixed first List.mem_cons_self).2] at left sweeps
    refine ⟨again, onwards, later.1, later.2, ?_, ?_⟩
    · exact left.within (fun partition known => within partition (sweeps.domain partition known))
    · exact left.unread_again
  | cons third rest ih =>
    obtain ⟨made, text, again, linked, parsed, later⟩ := followed
    obtain ⟨boundaries, sweeps, _, goes⟩ := made.sweeps heading
    obtain ⟨onwards, left⟩ := goes text again linked parsed
    rw [(fixed first List.mem_cons_self).2] at left sweeps
    refine ih onwards (fun fetch listed => fixed fetch (List.mem_cons_of_mem _ listed)) ?_ later
      (by rwa [List.getLast?_cons_cons] at final)
    exact left.within (fun partition known => within partition (sweeps.domain partition known))

/-- A page fetched at a cursor with something ahead of it carries the cursor
that turns round there. -/
theorem Made.back {request : PageRequest} {session : ClusterSession} {walk : RecordOrder}
    {cursor : RecordCursor} {fetch : PageFetch} (heading : request.Heading walk (some cursor))
    (made : request.Made session (some cursor) fetch)
    (within : ∀ partition : Int, cursor.remaining.offsets[partition]?.isSome →
      partition ∈ fetch.span.partitions)
    (unread : ∃ partition boundary, cursor.remaining.offsets[partition]? = some boundary ∧
      fetch.span.unread walk partition boundary) :
    fetch.page.back (directionOf request.query.order walk) =
      (fetch.span.rewind cursor).map RecordCursor.display := by
  rcases fetch_cases made.fetched with ⟨empty, _⟩ | ⟨_, last, _, _, assembled⟩
  · obtain ⟨partition, boundary, found, unread⟩ := unread
    obtain ⟨marks, known, offset, low, high, ahead⟩ := LogSpan.unread_iff.mp unread
    have planned : fetch.span.window walk request.take (some cursor) partition = none := by
      cases cut : fetch.span.window walk request.take (some cursor) partition with
      | none => rfl
      | some window =>
        have listed : window ∈ ((request.setCursor (some cursor)).initial fetch.span).windows := by
          change window ∈ fetch.span.windows (request.setCursor (some cursor)).query.walk
            request.take (some cursor)
          rw [heading.walks]
          exact LogSpan.mem_windows.mpr ⟨partition, within partition (by simp [found]), cut⟩
        rw [empty] at listed
        contradiction
    exact absurd ahead (LogSpan.not_ahead_of_window_none heading.walks heading.valid.take planned
      known found low high)
  · have back := assembled.back
    rw [direction_of_valid heading.valid, heading.walks] at back
    exact back

end PageRequest
namespace Sample
variable {asked : PageRequest} {given : Option RecordCursor} {records : List RawRecord}
  {rising : records.Pairwise fun first second =>
    first.partition = second.partition → first.offset < second.offset} {polled : List RawRecord}
  {met : LogSpan}

def fetch (asked : PageRequest) (given : Option RecordCursor) (records : List RawRecord)
    (rising : records.Pairwise fun first second =>
      first.partition = second.partition → first.offset < second.offset)
    (polled : List RawRecord) (met : LogSpan) : PageFetch where
  log := .ofRecords records rising
  span := met
  schedule := polling [polled]
  page := match @PageRequest.fetch Crates.plain (asked.setCursor given) session met
      (polling [polled]) with
    | .ok page => page
    | .error _ => .empty

theorem made (inOrder : ∀ window ∈ ((asked.setCursor given).initial met).windows,
      ofPartition window.partition [polled].flatten <+:
        (Log.ofRecords records rising).startingFrom window)
    (complete : asked.query.filter = none ∧
      ((@PageRequest.fetch Crates.plain (asked.setCursor given) session met
        (polling [polled])).toOption.map RecordPage.complete) = some true) :
    @PageRequest.Made Crates.plain asked session given (fetch asked given records rising polled met) := by
  obtain ⟨unfiltered, complete⟩ := complete
  cases fetched : @PageRequest.fetch Crates.plain (asked.setCursor given) session met
      (polling [polled]) with
  | error error => simp [fetched, Except.toOption] at complete
  | ok page =>
    rw [fetched] at complete
    have same : (fetch asked given records rising polled met).page = page := by simp [fetch, fetched]
    refine @PageRequest.Made.mk Crates.plain _ _ _ _ ?_ (same ▸ fetched) (same ▸ ?_)
    · exact @PageRequest.delivered_polling Crates.plain (asked.setCursor given) unfiltered _ _ _ _
        inOrder
    · simpa [Except.toOption] using complete

theorem retained {low high : Int} (ordered : low ≤ high)
    (within : ∀ raw ∈ ofPartition 0 records, low ≤ raw.offset ∧ raw.offset < high) :
    Retained (fetch asked given records rising polled (span [0] low high)).log (span [0] low high) [0] where
  covers := rfl
  marks partition member := by
    obtain rfl := List.mem_singleton.mp member
    exact ⟨⟨low, high⟩, rfl, ordered, within⟩

end Sample
end Klens.Scan
