import Klens.Scan.Paging

/-! Paging forward over a moving log, and back over a fixed one, returns every
matching record exactly once. -/
namespace Klens.Scan
open PageRequest

section Evolution
variable {partitions : List Int} {fetches : List PageFetch} {raw : RawRecord}

theorem Retained.holds_iff {log : Log} {span : LogSpan} (retained : Retained log span partitions) :
    log.Holds span raw ↔ raw ∈ log.records raw.partition ∧ raw.partition ∈ partitions := by
  constructor
  · rintro ⟨inLog, member, _⟩
    exact ⟨inLog, retained.covers ▸ member⟩
  · rintro ⟨inLog, member⟩
    obtain ⟨marks, known, _, within⟩ := retained.marks _ member
    exact ⟨inLog, retained.covers.symm ▸ member, marks, known, within raw inLog⟩

/-- What the last fetch holds, every earlier fetch held once it was written. -/
theorem held_before (retained : ∀ fetch ∈ fetches, Retained fetch.log fetch.span partitions)
    (evolves : fetches.IsChain Evolves)
    (final : ∀ last ∈ fetches.getLast?, last.log.Holds last.span raw) :
    ∀ fetch ∈ fetches, ∃ marks, fetch.span.watermarks raw.partition = some marks ∧
      marks.low ≤ marks.high ∧ (raw.offset < marks.high → fetch.log.Holds fetch.span raw) := by
  have listed : fetches ≠ [] → raw.partition ∈ partitions := by
    intro nonempty
    have last := List.getLast?_eq_some_getLast nonempty
    have holds := final _ last
    exact ((retained _ (List.getLast_mem nonempty)).holds_iff.mp holds).2
  induction fetches with
  | nil => simp
  | cons first rest ih =>
    have member := listed (by simp)
    obtain ⟨marks, known, ordered, within⟩ :=
      (retained first List.mem_cons_self).marks _ member
    cases rest with
    | nil =>
      intro fetch only
      obtain rfl := List.mem_singleton.mp only
      exact ⟨marks, known, ordered, fun _ => final fetch rfl⟩
    | cons next rest =>
      obtain ⟨step, later⟩ := List.isChain_cons_cons.mp evolves
      have tail := ih (fun fetch inTail => retained fetch (List.mem_cons_of_mem _ inTail)) later
        (fun last inTail => final last (by rw [List.getLast?_cons_cons]; exact inTail))
        (fun _ => member)
      intro fetch inList
      rcases List.mem_cons.mp inList with rfl | inTail
      · refine ⟨marks, known, ordered, fun below => ?_⟩
        obtain ⟨after, afterKnown, _, holds⟩ := tail next List.mem_cons_self
        obtain ⟨_, high, same⟩ := step.partition _ _ _ known afterKnown
        have nextHolds := holds (by omega)
        have filtered : raw ∈ (next.log.records raw.partition).filter
            fun raw => raw.offset < marks.high := List.mem_filter.mpr ⟨nextHolds.1, by simpa using below⟩
        rw [same] at filtered
        exact (retained fetch List.mem_cons_self).holds_iff.mpr
          ⟨(List.mem_filter.mp filtered).1, member⟩
      · exact tail fetch inTail

theorem low_high_le (retained : ∀ fetch ∈ fetches, Retained fetch.log fetch.span partitions)
    (evolves : fetches.IsChain Evolves) {partition : Int} (member : partition ∈ partitions)
    {first : PageFetch} (head : fetches.head? = some first) {marks : Watermarks}
    (known : first.span.watermarks partition = some marks) :
    ∀ fetch ∈ fetches, ∀ after, fetch.span.watermarks partition = some after →
      marks.low ≤ after.low ∧ marks.high ≤ after.high := by
  induction fetches generalizing first marks with
  | nil => simp
  | cons start rest ih =>
    obtain rfl := Option.some.inj head
    intro fetch inList after afterKnown
    rcases List.mem_cons.mp inList with rfl | inTail
    · obtain rfl := Option.some.inj (known.symm.trans afterKnown)
      exact ⟨le_refl _, le_refl _⟩
    · cases rest with
      | nil => contradiction
      | cons next rest =>
        obtain ⟨step, later⟩ := List.isChain_cons_cons.mp evolves
        have tail := fun fetch inTail => retained fetch (List.mem_cons_of_mem start inTail)
        obtain ⟨between, betweenKnown, _, _⟩ := (tail next List.mem_cons_self).marks _ member
        obtain ⟨low, high, _⟩ := step.partition _ _ _ known betweenKnown
        obtain ⟨lowAfter, highAfter⟩ := ih tail later rfl betweenKnown fetch inTail after afterKnown
        omega

end Evolution

section Forward

theorem heading_fresh {request : PageRequest} (limit : 1 ≤ request.limit) (take : 1 ≤ request.take) :
    request.Heading request.query.order none :=
  ⟨⟨limit, take, by simp [setCursor]⟩, rfl⟩

theorem onward_forward (order : RecordOrder) :
    (fun page : RecordPage => page.onward (directionOf order order)) = RecordPage.nextCursor := by
  funext page
  simp [directionOf, RecordPage.onward]

theorem unread_fresh {request : PageRequest} {span : LogSpan} {raw : RawRecord} {marks : Watermarks}
    (member : raw.partition ∈ span.partitions) (known : span.watermarks raw.partition = some marks)
    (ahead : Ahead request.query.order (LogSpan.nearEnd request.query.order marks) raw.offset) :
    Unread request.query.order
      ((request.setCursor none).origin span none).remaining.offsets raw :=
  ⟨_, (span.start_offsets request.query.order).mpr ⟨member, marks, known, rfl⟩, ahead⟩

variable [Crates]

/-- Following the next cursors from a fetch without one, over a log that grows
and is truncated between the fetches, no record comes up twice. Newest first,
what was there at the first fetch and is still there at the last comes up, and
nothing written later; oldest first, everything the last fetch retains does. -/
theorem forward_paging_exactly_once (request : PageRequest) (session : ClusterSession)
    (partitions : List Int) (fetches : List PageFetch) (limit : 1 ≤ request.limit)
    (take : 1 ≤ request.take)
    (retained : ∀ fetch ∈ fetches, Retained fetch.log fetch.span partitions)
    (evolves : fetches.IsChain Evolves)
    (followed : request.Follows session RecordPage.nextCursor none fetches) :
    (returned fetches).Nodup ∧
    (∀ fetch ∈ fetches, ∀ place ∈ fetch.page.places, ∃ raw, raw.place = place ∧
      fetch.log.Holds fetch.span raw ∧ (request.pipeline session).passes raw) ∧
    ∀ first last, fetches.head? = some first → fetches.getLast? = some last →
      match request.query.order with
      | .newest =>
        (∀ raw, first.log.Holds first.span raw → last.log.Holds last.span raw →
          (request.pipeline session).passes raw → raw.place ∈ returned fetches) ∧
        ∀ place ∈ returned fetches, ∃ marks, first.span.watermarks place.1 = some marks ∧
          place.2 < marks.high
      | .oldest =>
        ∀ raw, last.log.Holds last.span raw → (request.pipeline session).passes raw →
          raw.place ∈ returned fetches := by
  have heading := heading_fresh limit take
  rw [← onward_forward request.query.order] at followed
  refine ⟨?_, fun fetch member place listed => followed.held heading member listed, ?_⟩
  · cases fetches with
    | nil => exact .nil
    | cons first rest => exact (followed.distinct heading).1
  intro first last head final
  obtain ⟨rest, rfl⟩ : ∃ rest, fetches = first :: rest := by
    cases fetches with
    | nil => contradiction
    | cons start rest => exact ⟨rest, by rw [Option.some.inj head]⟩
  have start := retained first List.mem_cons_self
  have lastHolds {raw : RawRecord} (holds : last.log.Holds last.span raw) :
      ∀ fetch ∈ (first :: rest).getLast?, fetch.log.Holds fetch.span raw := by
    intro fetch same
    rw [final] at same
    obtain rfl := Option.some.inj same
    exact holds
  cases order : request.query.order with
  | newest =>
    refine ⟨?_, ?_⟩
    · intro raw firstHas lastHas passes
      have before := held_before retained evolves (lastHolds lastHas)
      obtain ⟨_, member, marks, known, _, high⟩ := firstHas
      have inPartitions : raw.partition ∈ partitions := start.covers ▸ member
      refine followed.returns heading passes ?_ (lastHolds lastHas) (unread_fresh member known ?_)
      · intro fetch listed
        obtain ⟨after, afterKnown, _, holds⟩ := before fetch listed
        have grown := low_high_le retained evolves inPartitions rfl known fetch listed after afterKnown
        exact .inl (holds (by omega))
      · rw [order]
        exact high
    · intro place listed
      obtain ⟨raw, rfl, boundary, found, ahead⟩ := (followed.distinct heading).2 place listed
      obtain ⟨_, marks, known, rfl⟩ := (first.span.start_offsets request.query.order).mp found
      rw [order] at ahead
      exact ⟨marks, known, ahead⟩
  | oldest =>
    intro raw lastHas passes
    have before := held_before retained evolves (lastHolds lastHas)
    obtain ⟨marks, known, ordered, holds⟩ := before first List.mem_cons_self
    have inPartitions : raw.partition ∈ partitions := by
      have listed : last ∈ first :: rest := List.mem_of_getLast? final
      exact ((retained last listed).holds_iff.mp lastHas).2
    refine followed.returns heading passes ?_ (lastHolds lastHas)
      (unread_fresh (start.covers.symm ▸ inPartitions) known ?_)
    · intro fetch listed
      obtain ⟨after, afterKnown, _, held⟩ := before fetch listed
      by_cases written : raw.offset < after.high
      · exact .inl (held written)
      · refine .inr ⟨after, afterKnown, ?_⟩
        rw [order]
        exact not_lt.mp written
    · rw [order]
      by_cases written : raw.offset < marks.high
      · obtain ⟨_, _, others, othersKnown, low, _⟩ := holds written
        obtain rfl := Option.some.inj (known.symm.trans othersKnown)
        exact low
      · exact ordered.trans (not_lt.mp written)

end Forward

namespace Sample

def early : List RawRecord := [record 0 0 10, record 0 2 5]

def late : List RawRecord := [record 0 2 5, record 0 3 7]

/-- Offset 0 is read and truncated, then offset 3 is written. -/
def moving : List PageFetch :=
  [fetch (request .oldest 1) none early (by decide) early (span [0] 0 3),
    fetch (request .oldest 1) (some (cursor .oldest .oldest [(0, 1)])) late (by decide) late
      (span [0] 1 4),
    fetch (request .oldest 1) (some (cursor .oldest .oldest [(0, 3)])) late (by decide)
      [record 0 3 7] (span [0] 1 4)]

theorem evolves_moving : moving.IsChain Evolves := by
  refine .cons_cons ⟨?_⟩ (.cons_cons ⟨?_⟩ (.singleton _))
  · intro partition before after one two
    simp only [fetch, span, Option.ite_none_right_eq_some, Option.some.injEq] at one two
    obtain ⟨member, rfl⟩ := one
    obtain rfl := List.mem_singleton.mp member
    obtain ⟨_, rfl⟩ := two
    decide
  · intro partition before after one two
    simp only [fetch, span, Option.ite_none_right_eq_some, Option.some.injEq] at one two
    obtain ⟨member, rfl⟩ := one
    obtain rfl := List.mem_singleton.mp member
    obtain ⟨_, rfl⟩ := two
    decide

end Sample

theorem forward_paging_moving :
    (returned Sample.moving).Nodup ∧ (0, 3) ∈ returned Sample.moving := by
  have paged := @forward_paging_exactly_once Crates.plain (Sample.request .oldest 1) Sample.session
    [0] Sample.moving (by decide) (by decide)
    (by
      simp only [Sample.moving, List.mem_cons, List.not_mem_nil, or_false, forall_eq_or_imp, forall_eq]
      exact ⟨Sample.retained (by decide) (by decide), Sample.retained (by decide) (by decide),
        Sample.retained (by decide) (by decide)⟩)
    Sample.evolves_moving
    ⟨Sample.made (by decide) (by decide), "v2:o:f:0:1", _, by decide,
      by decide,
      Sample.made (by decide) (by decide), "v2:o:f:0:3", _, by decide,
      by decide,
      Sample.made (by decide) (by decide), by decide⟩
  refine ⟨paged.1, ?_⟩
  exact paged.2.2 _ _ rfl rfl (Sample.record 0 3 7)
    ⟨by decide, by decide, ⟨1, 4⟩, by decide, by decide, by decide⟩ (by decide)

section Backward

theorem onward_backward (order : RecordOrder) :
    (fun page : RecordPage => page.onward (directionOf order order.flipped)) =
      RecordPage.prevCursor := by
  funext page
  cases order <;> rfl

variable [Crates]

/-- The pages on the way back from `last`, none when it has no previous cursor. -/
def Retraces (request : PageRequest) (session : ClusterSession) (last : PageFetch)
    (backward : List PageFetch) : Prop :=
  match last.page.prevCursor with
  | none => backward = []
  | some text => ∃ again, RecordCursor.parse text = .ok again ∧
      request.Follows session RecordPage.prevCursor (some again) backward

/-- Over a fixed log, the pages on the way back from the last page together
hold every matching record that is not on it, once. -/
theorem backward_paging_exactly_once (request : PageRequest) (session : ClusterSession) (log : Log)
    (span : LogSpan) (forward backward : List PageFetch) (last : PageFetch)
    (limit : 1 ≤ request.limit) (take : 1 ≤ request.take)
    (fixed : ∀ fetch ∈ forward ++ backward, fetch.log = log ∧ fetch.span = span)
    (followed : request.Follows session RecordPage.nextCursor none forward)
    (final : forward.getLast? = some last) (reachedByCursor : 2 ≤ forward.length)
    (retraced : Retraces request session last backward) :
    (returned backward).Nodup ∧ ∀ place, place ∈ returned backward ↔
      place ∉ last.page.places ∧ ∃ raw, raw.place = place ∧ log.Holds span raw ∧
        (request.pipeline session).passes raw := by
  obtain ⟨first, next, rest, rfl⟩ : ∃ first next rest, forward = first :: next :: rest := by
    match forward, reachedByCursor with
    | first :: next :: rest, _ => exact ⟨first, next, rest, rfl⟩
  have fixedForward : ∀ fetch ∈ first :: next :: rest, fetch.log = log ∧ fetch.span = span :=
    fun fetch listed => fixed fetch (List.mem_append_left _ listed)
  obtain ⟨lastLog, lastSpan⟩ := fixedForward last (List.mem_of_getLast? final)
  rw [← onward_forward request.query.order] at followed
  obtain ⟨reached, heading, made, ended, within, unread⟩ :=
    followed.last (heading_fresh limit take) fixedForward (by
      intro partition known
      obtain ⟨boundary, found⟩ := Option.isSome_iff_exists.mp known
      exact ((span.start_offsets _).mp found).1) final
  obtain ⟨boundaries, sweeps, stopped, _⟩ := made.sweeps heading
  have back := made.back heading (lastSpan.symm ▸ within) (lastSpan.symm ▸ unread)
  have prev : last.page.prevCursor = (span.rewind reached).map RecordCursor.display := by
    rw [lastSpan] at back
    simpa [directionOf, RecordPage.back] using back
  rw [lastLog, lastSpan] at sweeps stopped
  have walks : reached.walk = request.query.order := heading.walks
  have onLast : ∀ raw, log.Holds span raw → (request.pipeline session).passes raw →
      (raw.place ∈ last.page.places ↔ Unread request.query.order reached.remaining.offsets raw) := by
    intro raw holds passes
    constructor
    · intro listed
      obtain ⟨other, placed, _, _, ahead, _⟩ := sweeps.swept _ listed
      exact unread_of_place placed ahead
    · intro ahead
      exact sweeps.all raw holds passes ahead (stopped ended raw holds)
  unfold Retraces at retraced
  rw [prev] at retraced
  cases turned : span.rewind reached with
  | none =>
    rw [turned] at retraced
    obtain rfl : backward = [] := retraced
    refine ⟨.nil, fun place => ⟨fun absent => by contradiction, ?_⟩⟩
    rintro ⟨notLast, raw, rfl, holds, passes⟩
    have behind := unread_rewind reached holds
    rw [turned] at behind
    exact absurd ((onLast raw holds passes).mpr (walks ▸ behind)) notLast
  | some back =>
    rw [turned] at retraced
    obtain ⟨again, parsed, followedBack⟩ := retraced
    obtain rfl := RecordCursor.parse_display parsed
    obtain ⟨order, turnedWalk, _, _⟩ := LogSpan.rewind_eq_some turned
    have headingBack : request.Heading request.query.order.flipped (some again) := by
      refine ⟨⟨limit, take, ?_⟩, ?_⟩
      · intro cursor same
        obtain rfl := Option.some.inj same
        exact order.trans (heading.valid.order reached rfl)
      · exact turnedWalk.trans (congrArg _ walks)
    have behind : ∀ raw, log.Holds span raw →
        (Unread request.query.order.flipped again.remaining.offsets raw ↔
          ¬ Unread request.query.order reached.remaining.offsets raw) := by
      intro raw holds
      have iff := unread_rewind reached holds
      rw [turned, walks] at iff
      exact iff
    rw [← onward_backward request.query.order] at followedBack
    obtain ⟨start, others, rfl⟩ : ∃ start others, backward = start :: others := by
      cases backward with
      | nil => contradiction
      | cons start others => exact ⟨start, others, rfl⟩
    refine ⟨(followedBack.distinct headingBack).1, fun place => ?_⟩
    rw [followedBack.returned_iff headingBack
      fun fetch inList => fixed fetch (List.mem_append_right _ inList)]
    constructor
    · rintro ⟨raw, rfl, holds, passes, unread⟩
      refine ⟨?_, raw, rfl, holds, passes⟩
      rw [onLast raw holds passes]
      exact (behind raw holds).mp unread
    · rintro ⟨notLast, raw, rfl, holds, passes⟩
      rw [onLast raw holds passes] at notLast
      exact ⟨raw, rfl, holds, passes, (behind raw holds).mpr notLast⟩

end Backward

namespace Sample

def three : List RawRecord := [record 0 0 8, record 0 1 4, record 0 2 6]

def ending : PageFetch :=
  fetch (request .oldest 2) (some (cursor .oldest .oldest [(0, 2)])) three (by decide)
    [record 0 2 6] (span [0] 0 3)

def onward : List PageFetch :=
  [fetch (request .oldest 2) none three (by decide) three (span [0] 0 3), ending]

def turnedBack : List PageFetch :=
  [fetch (request .oldest 2) (some (cursor .oldest .newest [(0, 2)])) three (by decide)
    [record 0 0 8, record 0 1 4] (span [0] 0 3)]

end Sample

theorem backward_paging_three :
    (0, 0) ∈ returned Sample.turnedBack ∧ (0, 2) ∉ returned Sample.turnedBack := by
  have paged := @backward_paging_exactly_once Crates.plain (Sample.request .oldest 2) Sample.session
    (.ofRecords Sample.three (by decide)) (Sample.span [0] 0 3) Sample.onward Sample.turnedBack
    Sample.ending (by decide) (by decide)
    (by
      simp only [Sample.onward, Sample.turnedBack, List.cons_append, List.nil_append, List.mem_cons,
        List.not_mem_nil, or_false, forall_eq_or_imp, forall_eq]
      exact ⟨⟨rfl, rfl⟩, ⟨rfl, rfl⟩, rfl, rfl⟩)
    ⟨Sample.made (by decide) (by decide), "v2:o:f:0:2", _, by decide,
      by decide, Sample.made (by decide) (by decide), by decide⟩
    rfl (by decide) (by
      have prev : Sample.ending.page.prevCursor = some "v2:o:b:0:2" := by decide
      unfold Retraces
      rw [prev]
      exact ⟨_, by decide, Sample.made (by decide) (by decide),
        by decide⟩)
  constructor
  · rw [paged.2]
    refine ⟨by decide, Sample.record 0 0 8, rfl, ?_, by decide⟩
    exact ⟨by decide, by decide, ⟨0, 3⟩, by decide, by decide, by decide⟩
  · rw [paged.2]
    intro behind
    exact behind.1 (by decide)

end Klens.Scan
