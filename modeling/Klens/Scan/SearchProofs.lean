import Klens.Scan.Boundaries
import Klens.Scan.ReadProofs

/-! When a search stops. Each pass ends the loop for a reason of its own, and
passes that read all their windows leave out no record that matches. -/
namespace Klens.Scan
open Klens.Lib

/-- The deadline passed while windows of the pass were open, or by its end. -/
def PassSchedule.Overran (schedule : PassSchedule) (state : Progress) : Prop :=
  schedule.late = true ∨ (schedule.reading state).1.remaining.isEmpty = false

def PassSchedule.Finished (schedule : PassSchedule) (state : Progress) : Prop :=
  (schedule.reading state).1.remaining.isEmpty = true

/-- The record is not ahead of the cursor; nothing is ahead of none. -/
def Behind (walk : RecordOrder) (cursor : Option RecordCursor) (raw : RawRecord) : Prop :=
  ∀ standing, cursor = some standing → ¬ Unread walk standing.remaining.offsets raw

namespace PageRequest
variable [Crates] {request : PageRequest} {session : ClusterSession} {span : LogSpan} {log : Log}

theorem scanPass_stops {schedule : PassSchedule} {state after : Progress}
    (planned : Planned state.windows) (delivers : Delivers log state.windows schedule.turns)
    (scanned : request.scanPass session span schedule state = .ok (after, true)) :
    request.limit ≤ after.kept.length ∨ after.cursor = none ∨ schedule.Overran state := by
  obtain ⟨⟨outcome, found, assigned, cut⟩, ran, rest⟩ := Except.bind_ok scanned
  obtain ⟨_, _, _, _, cutIff⟩ := run_spec planned delivers (RecordBatch.collects_new ..) ran
  simp only [Except.ok.injEq, Prod.mk.injEq] at rest
  obtain ⟨rfl, stopped⟩ := rest
  simp only [Bool.or_eq_true, decide_eq_true_eq, Option.isNone_iff_eq_none] at stopped
  rcases stopped with ((full | none) | wasCut) | late
  · left
    simp only [List.length_append]
    omega
  · exact .inr (.inl none)
  · refine .inr (.inr (.inr ?_))
    rw [wasCut] at cutIff
    simpa using cutIff
  · exact .inr (.inr (.inl late))

/-- Why the loop ends: nothing is left, the passes are used up, or its last pass
stopped it. -/
theorem passes_end {schedule : Nat → PassSchedule} {fuel pass : Nat} {state last : Progress}
    (ran : request.passes session span schedule (fuel + 1) pass state = .ok last) :
    last.cursor = none ∨
      (request.visits session span schedule (fuel + 1) pass state).length = fuel + 1 ∨
      ∃ visit ∈ request.visits session span schedule (fuel + 1) pass state,
        request.scanPass session span visit.1 visit.2 = .ok (last, true) := by
  induction fuel generalizing pass state with
  | zero =>
    rw [passes] at ran
    rw [visits]
    dsimp only at ran ⊢
    split at ran
    · obtain rfl := Except.ok.inj ran
      exact .inl rfl
    · rename_i makes
      rw [if_neg makes]
      obtain ⟨⟨after, stop⟩, scanned, _⟩ := Except.bind_ok ran
      rw [scanned]
      refine .inr (.inl ?_)
      cases stop <;> rfl
  | succ fuel ih =>
    rw [passes] at ran
    rw [visits]
    dsimp only at ran ⊢
    split at ran
    · obtain rfl := Except.ok.inj ran
      exact .inl rfl
    · rename_i makes
      rw [if_neg makes]
      obtain ⟨⟨after, stop⟩, scanned, rest⟩ := Except.bind_ok ran
      rw [scanned]
      cases stop with
      | true =>
        obtain rfl := Except.ok.inj rest
        exact .inr (.inr ⟨_, List.mem_cons_self, scanned⟩)
      | false =>
        refine (ih rest).imp_right (Or.imp (fun all => ?_) ?_)
        · exact congrArg (· + 1) all
        · rintro ⟨visit, member, stopped⟩
          exact ⟨visit, List.mem_cons_of_mem _ member, stopped⟩

/-- A page with room left on it goes no further because nothing is left ahead,
the deadline passed, or the passes are used up. -/
theorem fetch_short {schedule : Schedule} {page : RecordPage}
    (delivered : request.Delivered session span schedule log)
    (fetched : request.fetch session span schedule = .ok page)
    (short : page.records.length < request.limit) :
    page.onward request.query.direction = none ∨
      (∃ visit ∈ request.fetchVisits session span schedule, visit.1.Overran visit.2) ∨
      (request.fetchVisits session span schedule).length = request.maxPasses := by
  rcases fetch_cases fetched with ⟨_, rfl⟩ | ⟨some, last, ran, _, assembled⟩
  · left
    cases request.query.direction <;> rfl
  obtain ⟨fuel, passes⟩ := request.maxPasses_pos
  have visited : request.fetchVisits session span schedule =
      request.visits session span schedule.pass (fuel + 1) 0 (request.initial span) := by
    rw [fetchVisits, if_neg some, passes]
  have room : last.kept.length < request.limit := by
    have sameLength := assembled.places.length_eq
    simp only [RecordPage.places, Scan.edges, List.length_map] at sameLength
    omega
  rw [passes] at ran ⊢
  rw [assembled.onward]
  rcases passes_end ran with none | all | ⟨visit, member, stopped⟩
  · simp [none]
  · exact .inr (.inr (visited ▸ all))
  · rw [← visited] at member
    have poised := fetchVisits_poised visit member
    have planned : Planned visit.2.windows :=
      poised.windows ▸ span.planned_windows request.take poised.walks
    rcases scanPass_stops planned (delivered visit member) stopped with full | none | overran
    · omega
    · simp [none]
    · exact .inr (.inl ⟨visit, member, overran⟩)

theorem length_fetch {schedule : Schedule} {page : RecordPage} (valid : request.Valid)
    (delivered : request.Delivered session span schedule log)
    (fetched : request.fetch session span schedule = .ok page) :
    page.records.length ≤ request.limit := by
  rcases fetch_spec valid delivered fetched with
    ⟨_, rfl⟩ | ⟨earlier, used, mid, last, found, kept, opened⟩
  · exact Nat.zero_le _
  · obtain ⟨after, stop, lastPass⟩ := opened.pass
    have sameLength := opened.places.length_eq
    have before := congrArg List.length lastPass.edges
    have room := lastPass.ready.room
    have bound := lastPass.done.made.holding.bound
    simp only [RecordPage.places, Scan.edges, List.length_map, List.length_append, initial,
      List.length_nil] at sameLength before
    omega

theorem complete_of_finished {schedule : Schedule} {page : RecordPage} (valid : request.Valid)
    (delivered : request.Delivered session span schedule log)
    (fetched : request.fetch session span schedule = .ok page)
    (finished : ∀ visit ∈ request.fetchVisits session span schedule, visit.1.Finished visit.2) :
    page.complete = true := by
  rcases fetch_spec valid delivered fetched with
    ⟨_, rfl⟩ | ⟨earlier, used, mid, last, found, kept, opened⟩
  · rfl
  · rw [opened.complete]
    exact finished (used, mid) (by simp [opened.visits])

/-- A page whose windows were all read holds the matching records from where it
was opened to its cursor. -/
theorem mem_places_of_finished {schedule : Schedule} {page : RecordPage} (valid : request.Valid)
    (delivered : request.Delivered session span schedule log)
    (fetched : request.fetch session span schedule = .ok page)
    (finished : ∀ visit ∈ request.fetchVisits session span schedule, visit.1.Finished visit.2) :
    page.places.Nodup ∧ ∃ cursor : Option RecordCursor,
      page.onward request.query.direction = cursor.map RecordCursor.display ∧
      ∀ place, place ∈ page.places ↔ ∃ raw, raw.place = place ∧ log.Holds span raw ∧
        (request.pipeline session).passes raw ∧
        Unread request.query.walk
          (request.origin span request.query.cursor).remaining.offsets raw ∧
        Behind request.query.walk cursor raw := by
  have complete := complete_of_finished valid delivered fetched finished
  obtain ⟨boundaries, cursor, sweeps, stands, onward⟩ := fetch_complete valid delivered fetched complete
  have behind : ∀ raw, log.Holds span raw →
      (Behind request.query.walk cursor raw ↔ ¬ Unread request.query.walk boundaries raw) := by
    intro raw holds
    cases cursor with
    | none => exact iff_of_true (by simp [Behind]) (stands raw holds)
    | some standing =>
      obtain ⟨_, _, marks, known, _⟩ := holds
      have same : Unread request.query.walk standing.remaining.offsets raw ↔ _ :=
        unread_restrict stands.2.2.1 raw
      simp only [known, Option.isSome_some, and_true] at same
      simp [Behind, same]
  refine ⟨sweeps.distinct, cursor, onward, fun place => ⟨fun member => ?_, ?_⟩⟩
  · obtain ⟨raw, placed, holds, passes, unread, gone⟩ := sweeps.swept place member
    exact ⟨raw, placed, holds, passes, unread, (behind raw holds).mpr gone⟩
  · rintro ⟨raw, rfl, holds, passes, unread, gone⟩
    exact sweeps.all raw holds passes unread ((behind raw holds).mp gone)

/-- A search goes on until its page is full, nothing is left, the deadline has
passed or 64 passes were made, and returns every match it went over. -/
theorem search_fills_page {schedule : Schedule} {page : RecordPage} (valid : request.Valid)
    (searching : request.query.filter.isSome)
    (delivered : request.Delivered session span schedule log)
    (fetched : request.fetch session span schedule = .ok page) :
    page.records.length ≤ request.limit ∧
    (page.records.length < request.limit →
      page.onward request.query.direction = none ∨
      (∃ visit ∈ request.fetchVisits session span schedule, visit.1.Overran visit.2) ∨
      (request.fetchVisits session span schedule).length = 64) ∧
    ((∀ visit ∈ request.fetchVisits session span schedule, visit.1.Finished visit.2) →
      page.places.Nodup ∧ ∃ cursor : Option RecordCursor,
        page.onward request.query.direction = cursor.map RecordCursor.display ∧
        ∀ place, place ∈ page.places ↔ ∃ raw, raw.place = place ∧ log.Holds span raw ∧
          (request.pipeline session).passes raw ∧
          Unread request.query.walk
            (request.origin span request.query.cursor).remaining.offsets raw ∧
          Behind request.query.walk cursor raw) := by
  refine ⟨length_fetch valid delivered fetched, fun short => ?_,
    mem_places_of_finished valid delivered fetched⟩
  have most : request.maxPasses = 64 := by simp [maxPasses, RecordQuery.searching, searching,
    maxFilterPasses]
  rw [← most]
  exact fetch_short delivered fetched short

theorem pass_of_mem_visits {schedule : Nat → PassSchedule} {fuel pass : Nat} {state : Progress}
    {visit : PassSchedule × Progress}
    (member : visit ∈ request.visits session span schedule fuel pass state) :
    ∃ pass, visit.1 = schedule pass := by
  induction fuel generalizing pass state with
  | zero => simp [visits] at member
  | succ fuel ih =>
    rw [visits] at member
    split at member
    · contradiction
    · rcases List.mem_cons.mp member with rfl | member
      · exact ⟨pass, rfl⟩
      · split at member
        · exact ih member
        · contradiction

/-- A consumer with one answer for every pass delivers, when that answer is in
order for the windows of each. -/
theorem delivered_search {polls : List (List RawRecord)}
    (inOrder : ∀ visit ∈ request.fetchVisits session span (polling polls),
      ∀ window ∈ visit.2.windows,
        ofPartition window.partition polls.flatten <+: log.startingFrom window) :
    request.Delivered session span (polling polls) log := by
  intro visit member
  have ordered := inOrder visit member
  unfold fetchVisits at member
  split at member
  · contradiction
  · obtain ⟨pass, same⟩ := pass_of_mem_visits member
    rw [same]
    exact delivers_polling ordered pass

end PageRequest

namespace Sample

def valued (offset : Int) (value : String) : RawRecord :=
  { record 0 offset offset with value := some (asBytes value) }

def mixed : List RawRecord := [valued 0 "paid", valued 1 "void", valued 2 "Paid"]

def mixedLog : Log := .ofRecords mixed (by decide)

def search : PageRequest :=
  let request := request .oldest 3
  { request with query := { request.query with filter := some ⟨"paid"⟩ } }

end Sample

/-- A search that reads to the end finds two of three records. -/
theorem search_fills_page_paid :
    ∃ page, @PageRequest.fetch Crates.plain Sample.search Sample.session (Sample.span [0] 0 3)
        (polling [Sample.mixed]) = .ok page ∧
      page.records.length < Sample.search.limit ∧
      (page.onward Sample.search.query.direction = none ∨
        (∃ visit ∈ @PageRequest.fetchVisits Crates.plain Sample.search Sample.session
          (Sample.span [0] 0 3) (polling [Sample.mixed]), visit.1.Overran visit.2) ∨
        (@PageRequest.fetchVisits Crates.plain Sample.search Sample.session
          (Sample.span [0] 0 3) (polling [Sample.mixed])).length = 64) := by
  have outcome : ((@PageRequest.fetch Crates.plain Sample.search Sample.session
      (Sample.span [0] 0 3) (polling [Sample.mixed])).toOption.map RecordPage.places) =
        some [(0, 0), (0, 2)] := by
    decide
  cases fetched : @PageRequest.fetch Crates.plain Sample.search Sample.session
      (Sample.span [0] 0 3) (polling [Sample.mixed]) with
  | error error => simp [fetched, Except.toOption] at outcome
  | ok page =>
    simp only [fetched, Except.toOption, Option.map_some, Option.some.injEq] at outcome
    have short : page.records.length < Sample.search.limit := by
      have sameLength := congrArg List.length outcome
      rw [RecordPage.places, List.length_map] at sameLength
      rw [sameLength]
      decide
    refine ⟨page, rfl, short, ?_⟩
    exact (@PageRequest.search_fills_page Crates.plain Sample.search Sample.session _ Sample.mixedLog
      _ page ⟨by decide, by decide, by intro cursor given; cases given⟩ rfl
      (@PageRequest.delivered_search Crates.plain _ _ _ _ _ (by decide)) fetched).2.1 short

end Klens.Scan
