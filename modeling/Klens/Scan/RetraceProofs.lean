import Klens.Scan.ExactlyOnce
import Klens.Scan.OrderedPage

/-! Paging over a fixed orderly log. Every page is a stretch of the sorted log
with the cursors that stand at its two ends, so a page met on the way back is
the one met on the way there. -/
namespace Klens.Scan
open Klens.Lib

namespace PageRequest

/-- Where a page is opened: at the start of the order, or at a cursor with
something ahead. -/
def Opens (request : PageRequest) (log : Log) (span : LogSpan) (walk : RecordOrder)
    (ahead : List RawRecord) : Option RecordCursor → Prop
  | none => walk = request.query.order ∧ ∀ raw, raw ∈ ahead ↔ log.Holds span raw
  | some cursor => ahead ≠ [] ∧ Stood log span request.query.order walk cursor ahead

section Open
variable {request : PageRequest} {log : Log} {span : LogSpan} {walk : RecordOrder}
  {cursor : Option RecordCursor} {ahead : List RawRecord}

theorem Opens.heading (opens : request.Opens log span walk ahead cursor) (limit : 1 ≤ request.limit)
    (take : 1 ≤ request.take) : request.Heading walk cursor := by
  cases cursor with
  | none =>
    obtain ⟨rfl, _⟩ := opens
    exact heading_fresh limit take
  | some cursor =>
    refine ⟨⟨limit, take, fun given same => ?_⟩, opens.2.walks⟩
    obtain rfl := Option.some.inj same
    exact opens.2.order

theorem Opens.stood (opens : request.Opens log span walk ahead cursor) (orderly : Orderly log span) :
    Stood log span request.query.order walk ((request.setCursor cursor).origin span cursor) ahead := by
  cases cursor with
  | none =>
    obtain ⟨rfl, all⟩ := opens
    exact .start orderly all
  | some cursor => exact opens.2

/-- The text of a cursor leads to a page opened there. -/
theorem Opens.of_handed {text : String} {again : RecordCursor}
    (handed : Handed log span request.query.order walk ahead (some text))
    (parsed : RecordCursor.parse text = .ok again) :
    request.Opens log span walk ahead (some again) := by
  obtain ⟨more, cursor, rfl, stood⟩ := handed
  obtain rfl := RecordCursor.parse_display parsed
  exact ⟨more, stood⟩

end Open

variable [Crates]

/-- A page opened at `ahead`: its records, and the cursors it hands out. -/
theorem Made.ordered {request : PageRequest} {session : ClusterSession} {log : Log} {span : LogSpan}
    {walk : RecordOrder} {cursor : Option RecordCursor} {ahead behind : List RawRecord}
    {fetch : PageFetch} (limit : 1 ≤ request.limit) (wide : (request.limit : Int) ≤ request.take)
    (unfiltered : request.query.filter = none) (orderly : Orderly log span)
    (fixed : fetch.log = log ∧ fetch.span = span) (made : request.Made session cursor fetch)
    (opens : request.Opens log span walk ahead cursor)
    (ascending : ahead.Pairwise
      (RawRecord.Precedes request.query.order (directionOf request.query.order walk)))
    (rest : ∀ raw, raw ∈ behind ↔ log.Holds span raw ∧ raw ∉ ahead) :
    fetch.page.records = ((directionOf request.query.order walk).along
        (ahead.take request.limit)).map (request.shown session) ∧
      Handed log span request.query.order walk (ahead.drop request.limit)
        (fetch.page.onward (directionOf request.query.order walk)) ∧
      Handed log span request.query.order walk.flipped behind
        (fetch.page.back (directionOf request.query.order walk)) ∧
      fetch.page.obfuscated = (topicObfuscator session request.query.topic).isSome := by
  obtain ⟨rfl, rfl⟩ := fixed
  have heading := opens.heading limit (by omega)
  have stood := opens.stood orderly
  have direction := direction_of_valid heading.valid
  rw [heading.walks] at direction
  change (request.setCursor cursor).query.direction = directionOf request.query.order walk at direction
  have here : Stood fetch.log fetch.span request.query.order (request.setCursor cursor).query.walk
      ((request.setCursor cursor).origin fetch.span cursor) ahead := by
    rw [heading.walks]
    exact stood
  have page := fetch_ordered heading.valid unfiltered wide orderly made.delivered made.fetched
    made.complete here (by rw [direction]; exact ascending)
  rw [direction, heading.walks] at page
  refine ⟨page.1, page.2, ?_, ?_⟩
  · cases cursor with
    | none =>
      obtain ⟨rfl, all⟩ := opens
      obtain rfl : behind = [] := List.eq_nil_iff_forall_not_mem.mpr fun raw member =>
        ((rest raw).mp member).2 ((all raw).mpr ((rest raw).mp member).1)
      have none : fetch.page.back (directionOf request.query.order request.query.order) = none := by
        rcases fetch_cases made.fetched with ⟨_, empty⟩ | ⟨_, last, _, _, assembled⟩
        · rw [empty]
          cases directionOf request.query.order request.query.order <;> rfl
        · rw [← direction]
          exact assembled.back
      rw [none]
      rfl
    | some cursor =>
      rw [made.back heading (fun partition known => ((stood.placed.domain partition).mp known).1) ?_]
      · exact Stood.handed_back orderly stood rest
      · obtain ⟨raw, member⟩ := List.exists_mem_of_ne_nil _ opens.1
        obtain ⟨⟨_, _, marks, known, low, high⟩, boundary, found, unread⟩ := (stood.ahead raw).mp member
        exact ⟨raw.partition, boundary, found,
          LogSpan.unread_iff.mpr ⟨marks, known, raw.offset, low, high, unread⟩⟩
  · rcases fetch_cases made.fetched with ⟨_, empty⟩ | ⟨_, last, _, _, assembled⟩
    · rw [empty]
      rfl
    · exact assembled.obfuscated

/-- The page of the sorted log that begins at `index`. -/
structure PageAt (request : PageRequest) (session : ClusterSession) (log : Log) (span : LogSpan)
    (index : Nat) (page : RecordPage) : Prop where
  begins : index = 0 ∨ index < (log.sorted span request.query.order).length
  records : page.records = (((log.sorted span request.query.order).drop index).take
    request.limit).map (request.shown session)
  complete : page.complete = true
  obfuscated : page.obfuscated = (topicObfuscator session request.query.topic).isSome
  next : Handed log span request.query.order request.query.order
    ((log.sorted span request.query.order).drop (index + request.limit)) page.nextCursor
  prev : Handed log span request.query.order request.query.order.flipped
    ((log.sorted span request.query.order).take index).reverse page.prevCursor

section Fixed
variable {request : PageRequest} {session : ClusterSession} {log : Log} {span : LogSpan}
  {index : Nat}

theorem PageAt.unique (orderly : Orderly log span) {first second : RecordPage}
    (one : request.PageAt session log span index first)
    (two : request.PageAt session log span index second) : first = second := by
  obtain ⟨firstRecords, firstComplete, firstObfuscated, firstNext, firstPrev⟩ := first
  obtain ⟨secondRecords, secondComplete, secondObfuscated, secondNext, secondPrev⟩ := second
  obtain rfl : firstRecords = secondRecords := one.records.trans two.records.symm
  obtain rfl : firstComplete = secondComplete := one.complete.trans two.complete.symm
  obtain rfl : firstObfuscated = secondObfuscated := one.obfuscated.trans two.obfuscated.symm
  obtain rfl : firstNext = secondNext := one.next.unique orderly two.next
  obtain rfl : firstPrev = secondPrev := one.prev.unique orderly two.prev
  rfl

/-- A page with more to come is full. -/
theorem PageAt.length_eq {page : RecordPage} (placed : request.PageAt session log span index page)
    (more : page.nextCursor ≠ none) : page.records.length = request.limit := by
  have next := placed.next
  rw [placed.records, List.length_map, List.length_take, List.length_drop, min_eq_left]
  cases linked : page.nextCursor with
  | none => exact absurd linked more
  | some text =>
    rw [linked] at next
    have room := mt List.drop_eq_nil_iff.mpr next.1
    omega

/-- Only the first page has no previous cursor. -/
theorem PageAt.eq_zero {count : Nat} {page : RecordPage} (limit : 1 ≤ request.limit)
    (placed : request.PageAt session log span (count * request.limit) page)
    (ended : page.prevCursor = none) : count = 0 := by
  have prev := placed.prev
  rw [ended] at prev
  have start : count * request.limit = 0 := by
    rcases placed.begins with start | room
    · exact start
    · have empty := List.take_eq_nil_iff.mp (List.reverse_eq_nil_iff.mp prev)
      rcases empty with start | nothing
      · exact start
      · simp [nothing] at room
  rcases Nat.mul_eq_zero.mp start with zero | zero
  · exact zero
  · omega

omit [Crates] in
theorem mem_take_sorted {order : RecordOrder} {raw : RawRecord} :
    raw ∈ ((log.sorted span order).take index).reverse ↔
      log.Holds span raw ∧ raw ∉ (log.sorted span order).drop index := by
  have distinct : (log.sorted span order).Nodup := (log.pairwise_sorted span order).nodup
  have member : raw ∈ log.sorted span order ↔ log.Holds span raw := Log.mem_sorted
  rw [List.mem_reverse, ← member]
  constructor
  · intro early
    exact ⟨List.mem_of_mem_take early, fun late =>
      List.disjoint_take_drop distinct (le_refl index) early late⟩
  · rintro ⟨listed, notLate⟩
    rw [← List.take_append_drop index (log.sorted span order)] at listed
    exact (List.mem_append.mp listed).resolve_right notLate

omit [Crates] in
theorem mem_drop_sorted {order : RecordOrder} {raw : RawRecord} :
    raw ∈ (log.sorted span order).drop index ↔
      log.Holds span raw ∧ raw ∉ ((log.sorted span order).take index).reverse := by
  rw [mem_take_sorted]
  constructor
  · intro late
    exact ⟨Log.mem_sorted.mp (List.mem_of_mem_drop late), fun early => early.2 late⟩
  · rintro ⟨holds, notEarly⟩
    by_contra notLate
    exact notEarly ⟨holds, notLate⟩

variable {cursor : Option RecordCursor} {fetch : PageFetch} (limit : 1 ≤ request.limit)
  (wide : (request.limit : Int) ≤ request.take) (unfiltered : request.query.filter = none)
  (orderly : Orderly log span) (fixed : fetch.log = log ∧ fetch.span = span)
  (made : request.Made session cursor fetch)
include limit wide unfiltered orderly fixed made

/-- A page opened with the sorted log from `index` on ahead. -/
theorem Made.forward (begins : index = 0 ∨ index < (log.sorted span request.query.order).length)
    (opens : request.Opens log span request.query.order
      ((log.sorted span request.query.order).drop index) cursor) :
    request.PageAt session log span index fetch.page := by
  have ascending := log.pairwise_sorted span request.query.order
  have same : directionOf request.query.order request.query.order = .forward := by simp [directionOf]
  obtain ⟨records, next, prev, obfuscated⟩ := made.ordered limit wide unfiltered orderly fixed opens
    (same ▸ ascending.sublist (List.drop_sublist _ _)) fun raw => mem_take_sorted
  rw [same] at records next prev
  refine ⟨begins, records, made.complete, obfuscated, ?_, prev⟩
  rw [← List.drop_drop]
  exact next

/-- A page opened with the sorted log up to `index + limit` behind. -/
theorem Made.backward
    (within : index + request.limit ≤ (log.sorted span request.query.order).length)
    (opens : request.Opens log span request.query.order.flipped
      ((log.sorted span request.query.order).take (index + request.limit)).reverse cursor) :
    request.PageAt session log span index fetch.page := by
  have ascending := log.pairwise_sorted span request.query.order
  have other : directionOf request.query.order request.query.order.flipped = .backward := by
    cases request.query.order <;> rfl
  obtain ⟨records, prev, next, obfuscated⟩ := made.ordered limit wide unfiltered orderly fixed opens
    (other ▸ List.pairwise_reverse.mpr (ascending.sublist (List.take_sublist _ _)))
    fun raw => mem_drop_sorted
  rw [other] at records next prev
  rw [RecordOrder.flipped_flipped] at next
  have length : ((log.sorted span request.query.order).take (index + request.limit)).length =
      index + request.limit := by
    rw [List.length_take, min_eq_left within]
  refine ⟨.inr (by omega), ?_, made.complete, obfuscated, next, ?_⟩
  · rw [records, CursorDirection.along, List.take_reverse, List.reverse_reverse, length,
      Nat.add_sub_cancel, ← List.take_drop]
  · rw [List.drop_reverse, length, Nat.add_sub_cancel, List.take_take,
      min_eq_left (Nat.le_add_right _ _)] at prev
    exact prev

end Fixed

/-- Pages fetched one after the other, each at the cursor that `link` reads off
the page before. The last one may have a cursor too. -/
def Chain (request : PageRequest) (session : ClusterSession) (link : RecordPage → Option String) :
    Option RecordCursor → List PageFetch → Prop
  | _, [] => True
  | cursor, [fetch] => request.Made session cursor fetch
  | cursor, fetch :: next :: rest => request.Made session cursor fetch ∧
      ∃ text again, link fetch.page = some text ∧ RecordCursor.parse text = .ok again ∧
        request.Chain session link (some again) (next :: rest)

/-- Pages of the sorted log from the one before `count` on down. -/
def Descends (request : PageRequest) (session : ClusterSession) (log : Log) (span : LogSpan) :
    Nat → List RecordPage → Prop
  | _, [] => True
  | 0, _ :: _ => False
  | count + 1, page :: rest => request.PageAt session log span (count * request.limit) page ∧
      request.Descends session log span count rest

section Chains
variable {request : PageRequest} {session : ClusterSession} {log : Log} {span : LogSpan}
  {count : Nat} {pages others : List RecordPage}

theorem Descends.nil (count : Nat) : request.Descends session log span count [] := by
  cases count <;> trivial

theorem Descends.length_le (descends : request.Descends session log span count pages) :
    pages.length ≤ count := by
  induction pages generalizing count with
  | nil => exact Nat.zero_le _
  | cons page pages ih =>
    cases count with
    | zero => exact descends.elim
    | succ count => exact Nat.succ_le_succ (ih descends.2)

theorem Descends.prefix_of_length_le (orderly : Orderly log span)
    (one : request.Descends session log span count pages)
    (two : request.Descends session log span count others) (shorter : pages.length ≤ others.length) :
    pages <+: others := by
  induction pages generalizing count others with
  | nil => exact List.nil_prefix
  | cons page pages ih =>
    cases count with
    | zero => exact one.elim
    | succ count =>
      cases others with
      | nil => simp at shorter
      | cons other others =>
        rw [one.1.unique orderly two.1]
        refine (List.prefix_cons_inj _).mpr (ih one.2 two.2 ?_)
        simpa using shorter

theorem Descends.placed (descends : request.Descends session log span count pages)
    {page : RecordPage} (member : page ∈ pages) :
    ∃ index, request.PageAt session log span index page := by
  induction pages generalizing count with
  | nil => contradiction
  | cons first rest ih =>
    cases count with
    | zero => exact descends.elim
    | succ count =>
      rcases List.mem_cons.mp member with rfl | member
      · exact ⟨_, descends.1⟩
      · exact ih descends.2 member

/-- The last of the pages, that of the lowest index. -/
theorem Descends.last (descends : request.Descends session log span count pages) {page : RecordPage}
    (final : pages.getLast? = some page) :
    request.PageAt session log span ((count - pages.length) * request.limit) page := by
  induction pages generalizing count with
  | nil => contradiction
  | cons first rest ih =>
    cases count with
    | zero => exact descends.elim
    | succ count =>
      cases rest with
      | nil =>
        obtain rfl : first = page := by simpa using final
        simpa using descends.1
      | cons next rest =>
        rw [List.getLast?_cons_cons] at final
        simpa using ih descends.2 final

/-- Pages from some index down to the first show the sorted log up to there. -/
theorem Descends.records (descends : request.Descends session log span pages.length pages) :
    pages.reverse.flatMap RecordPage.records =
      ((log.sorted span request.query.order).take (pages.length * request.limit)).map
        (request.shown session) := by
  induction pages with
  | nil => simp
  | cons page pages ih =>
    rw [List.reverse_cons, List.flatMap_append, ih descends.2, List.flatMap_singleton,
      descends.1.records, ← List.map_append, ← List.take_add, List.length_cons, Nat.add_one_mul]

theorem Chain.linked {link : RecordPage → Option String} {cursor : Option RecordCursor}
    {fetches : List PageFetch} (chain : request.Chain session link cursor fetches)
    {fetch : PageFetch} (member : fetch ∈ fetches.dropLast) : link fetch.page ≠ none := by
  induction fetches generalizing cursor with
  | nil => contradiction
  | cons first rest ih =>
    cases rest with
    | nil => contradiction
    | cons next rest =>
      obtain ⟨_, text, again, linked, _, later⟩ := chain
      rw [List.dropLast_cons_cons] at member
      rcases List.mem_cons.mp member with rfl | member
      · simp [linked]
      · exact ih later member

variable (limit : 1 ≤ request.limit) (wide : (request.limit : Int) ≤ request.take)
  (unfiltered : request.query.filter = none) (orderly : Orderly log span)
include limit wide unfiltered orderly

/-- Following the next cursors, each page is the one after those before it. -/
theorem Chain.forward {cursor : Option RecordCursor} {fetches : List PageFetch}
    (fixed : ∀ fetch ∈ fetches, fetch.log = log ∧ fetch.span = span)
    (chain : request.Chain session RecordPage.nextCursor cursor fetches)
    (begins : count * request.limit = 0 ∨
      count * request.limit < (log.sorted span request.query.order).length)
    (opens : request.Opens log span request.query.order
      ((log.sorted span request.query.order).drop (count * request.limit)) cursor)
    (before : request.Descends session log span count pages) :
    request.Descends session log span (count + fetches.length)
      ((fetches.map PageFetch.page).reverse ++ pages) := by
  -- `pages` accumulates the pages already passed, the latest first
  induction fetches generalizing cursor count pages with
  | nil => exact before
  | cons first rest ih =>
    have made : request.Made session cursor first := by
      cases rest with
      | nil => exact chain
      | cons next rest => exact chain.1
    have here := made.forward limit wide unfiltered orderly (fixed first List.mem_cons_self) begins opens
    have passed : request.Descends session log span (count + 1) (first.page :: pages) := ⟨here, before⟩
    rw [List.map_cons, List.reverse_cons, List.append_assoc, List.singleton_append, List.length_cons,
      Nat.add_comm rest.length, ← Nat.add_assoc]
    cases rest with
    | nil => exact passed
    | cons next rest =>
      obtain ⟨_, text, again, linked, parsed, later⟩ := chain
      have handed := here.next
      rw [linked, ← Nat.add_one_mul] at handed
      refine ih (fun fetch member => fixed fetch (List.mem_cons_of_mem _ member)) later (.inr ?_)
        (Opens.of_handed handed parsed) passed
      have room := mt List.drop_eq_nil_iff.mpr handed.1
      omega

/-- Following the previous cursors, each page is the one before the last. -/
theorem Chain.backward {cursor : RecordCursor} {fetches : List PageFetch}
    (fixed : ∀ fetch ∈ fetches, fetch.log = log ∧ fetch.span = span)
    (chain : request.Chain session RecordPage.prevCursor (some cursor) fetches)
    (within : count * request.limit ≤ (log.sorted span request.query.order).length)
    (opens : request.Opens log span request.query.order.flipped
      ((log.sorted span request.query.order).take (count * request.limit)).reverse (some cursor)) :
    request.Descends session log span count (fetches.map PageFetch.page) := by
  induction fetches generalizing cursor count with
  | nil => exact .nil count
  | cons first rest ih =>
    have made : request.Made session (some cursor) first := by
      cases rest with
      | nil => exact chain
      | cons next rest => exact chain.1
    cases count with
    | zero => simp [Opens] at opens
    | succ count =>
      rw [Nat.add_one_mul] at within opens
      have here := made.backward limit wide unfiltered orderly (fixed first List.mem_cons_self) within
        opens
      refine ⟨here, ?_⟩
      cases rest with
      | nil => exact .nil count
      | cons next rest =>
        obtain ⟨_, text, again, linked, parsed, later⟩ := chain
        have handed := here.prev
        rw [linked] at handed
        exact ih (fun fetch member => fixed fetch (List.mem_cons_of_mem _ member)) later (by omega)
          (Opens.of_handed handed parsed)

end Chains
end PageRequest

open PageRequest

/-- Over a fixed orderly log, the pages that the next cursors lead to show the
sorted log from its start on, each page with a cursor full, and all of it once
there is no next cursor. From the last of them the previous cursors lead back
through the same pages, and no further. -/
theorem pages_ordered_and_retraced [Crates] (request : PageRequest) (session : ClusterSession)
    (log : Log) (span : LogSpan) (fetches : List PageFetch) (limit : 1 ≤ request.limit)
    (wide : (request.limit : Int) ≤ request.take) (unfiltered : request.query.filter = none)
    (orderly : Orderly log span) (fixed : ∀ fetch ∈ fetches, fetch.log = log ∧ fetch.span = span)
    (chain : request.Chain session RecordPage.nextCursor none fetches) :
    fetches.flatMap (·.page.records) <+:
        (log.sorted span request.query.order).map (request.shown session) ∧
      (∀ fetch ∈ fetches.dropLast, fetch.page.records.length = request.limit) ∧
      ∀ last, fetches.getLast? = some last →
        (last.page.nextCursor = none → fetches.flatMap (·.page.records) =
          (log.sorted span request.query.order).map (request.shown session)) ∧
        match last.page.prevCursor with
        | none => fetches.dropLast = []
        | some text => ∀ again backs, RecordCursor.parse text = .ok again →
            (∀ fetch ∈ backs, fetch.log = log ∧ fetch.span = span) →
            request.Chain session RecordPage.prevCursor (some again) backs →
            backs.map (·.page) <+: (fetches.dropLast.map (·.page)).reverse ∧
            ∀ final, backs.getLast? = some final → final.page.prevCursor = none →
              backs.map (·.page) = (fetches.dropLast.map (·.page)).reverse := by
  have opens : request.Opens log span request.query.order
      ((log.sorted span request.query.order).drop (0 * request.limit)) none := by
    refine ⟨rfl, fun raw => ?_⟩
    rw [Nat.zero_mul, List.drop_zero]
    exact Log.mem_sorted
  have passed := Chain.forward limit wide unfiltered orderly fixed chain (.inl (Nat.zero_mul _)) opens
    (.nil 0)
  rw [Nat.zero_add, List.append_nil] at passed
  have upTo : fetches.flatMap (·.page.records) =
      ((log.sorted span request.query.order).take (fetches.length * request.limit)).map
        (request.shown session) := by
    have whole : request.Descends session log span (fetches.map PageFetch.page).reverse.length
        (fetches.map PageFetch.page).reverse := by
      simpa using passed
    simpa [List.flatMap_map] using whole.records
  refine ⟨?_, ?_, ?_⟩
  · rw [upTo]
    exact (List.take_prefix _ _).map _
  · intro fetch member
    have listed : fetch.page ∈ (fetches.map PageFetch.page).reverse :=
      List.mem_reverse.mpr (List.mem_map_of_mem (List.dropLast_subset _ member))
    obtain ⟨index, placed⟩ := passed.placed listed
    exact placed.length_eq (chain.linked member)
  · intro last final
    obtain ⟨front, rfl⟩ := List.getLast?_eq_some_iff.mp final
    simp only [List.map_append, List.map_cons, List.map_nil, List.reverse_append, List.reverse_cons,
      List.reverse_nil, List.nil_append, List.singleton_append, List.length_append, List.length_cons,
      List.length_nil, Nat.zero_add] at passed
    obtain ⟨atLast, earlier⟩ := passed
    rw [List.dropLast_concat]
    constructor
    · intro ended
      have next := atLast.next
      rw [ended, ← Nat.add_one_mul] at next
      rw [upTo, List.length_append, List.length_singleton, List.take_of_length_le]
      exact List.drop_eq_nil_iff.mp next
    · cases linked : last.page.prevCursor with
      | none => exact List.length_eq_zero_iff.mp (atLast.eq_zero limit linked)
      | some text =>
        intro again backs parsed fixedBack back
        have within : front.length * request.limit ≤ (log.sorted span request.query.order).length := by
          have begins := atLast.begins
          omega
        have prev := atLast.prev
        rw [linked] at prev
        have retraced := Chain.backward limit wide unfiltered orderly fixedBack back within
          (Opens.of_handed prev parsed)
        have fewer := retraced.length_le
        have same := retraced.prefix_of_length_le orderly earlier (by simpa using fewer)
        refine ⟨same, fun final lastBack ended => same.eq_of_length ?_⟩
        have atFinal : request.PageAt session log span _ final.page :=
          retraced.last (by simp [List.getLast?_map, lastBack])
        have all := atFinal.eq_zero limit ended
        simp only [List.length_map, List.length_reverse] at fewer all ⊢
        omega

namespace Sample

/-- Two partitions whose first records share a timestamp. -/
def tied : List RawRecord := [record 0 0 10, record 0 1 20, record 1 0 10, record 1 1 15]

def tiedLog : Log := .ofRecords tied (by decide)

theorem orderly_tied : Orderly tiedLog (span [0, 1] 0 2) where
  marks partition listed marks known := by
    obtain ⟨_, same⟩ := Option.ite_none_right_eq_some.mp known
    obtain rfl := Option.some.inj same
    decide
  dense partition listed marks known offset low high := by
    obtain ⟨_, same⟩ := Option.ite_none_right_eq_some.mp known
    obtain rfl := Option.some.inj same
    obtain rfl | rfl : offset = 0 ∨ offset = 1 := by simp only at low high; omega
    · revert partition
      decide
    · revert partition
      decide
  timely := by decide

def tiedFirst : PageFetch := fetch (request .oldest 3) none tied (by decide) tied (span [0, 1] 0 2)

def tiedLast : PageFetch :=
  fetch (request .oldest 3) (some (cursor .oldest .oldest [(0, 1), (1, 2)])) tied (by decide)
    [record 0 1 20] (span [0, 1] 0 2)

def tiedBack : PageFetch :=
  fetch (request .oldest 3) (some (cursor .oldest .newest [(0, 1), (1, 2)])) tied (by decide)
    [record 0 0 10, record 1 0 10, record 1 1 15] (span [0, 1] 0 2)

end Sample

theorem pages_ordered_and_retraced_tied :
    [Sample.tiedFirst, Sample.tiedLast].flatMap (·.page.records) =
      (Sample.tiedLog.sorted (Sample.span [0, 1] 0 2) .oldest).map
        (@PageRequest.shown Crates.plain (Sample.request .oldest 3) Sample.session) ∧
      Sample.tiedBack.page = Sample.tiedFirst.page := by
  have paged := @pages_ordered_and_retraced Crates.plain (Sample.request .oldest 3) Sample.session
    Sample.tiedLog (Sample.span [0, 1] 0 2) [Sample.tiedFirst, Sample.tiedLast] (by decide)
    (by decide) rfl Sample.orderly_tied
    (by
      simp only [List.mem_cons, List.not_mem_nil, or_false, forall_eq_or_imp, forall_eq]
      exact ⟨⟨rfl, rfl⟩, rfl, rfl⟩)
    ⟨Sample.made (by decide) (by decide), "v2:o:f:0:1,1:2", _, by decide,
      by decide, Sample.made (by decide) (by decide)⟩
  obtain ⟨ended, back⟩ := paged.2.2 Sample.tiedLast rfl
  have prev : Sample.tiedLast.page.prevCursor = some "v2:o:b:0:1,1:2" := by decide
  rw [prev] at back
  refine ⟨ended (by decide), ?_⟩
  have retraced := (back (Sample.cursor .oldest .newest [(0, 1), (1, 2)]) [Sample.tiedBack]
    (by decide) (by simp only [List.mem_singleton, forall_eq]; exact ⟨rfl, rfl⟩)
    (Sample.made (by decide) (by decide))).2 Sample.tiedBack rfl (by decide)
  simpa using retraced

end Klens.Scan
