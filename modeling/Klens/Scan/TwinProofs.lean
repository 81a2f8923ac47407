import Klens.Scan.PipelineProofs
import Klens.Scan.Session
import Mathlib.Data.List.Forall2

/-! Two scans that meet records their readers cannot tell apart. A batch looks
at sort keys only, so both take the same turns and build the same page. -/
namespace Klens.Scan
open Klens.Lib List

/-- A record without what it may reveal of a hidden payload. -/
def Record.shown (record : Record) : Record := { record with sizeBytes := 0, schemaId := none }

def RecordPage.shown (page : RecordPage) : RecordPage :=
  { page with records := page.records.map Record.shown }

section Batches
variable {T U : Type} (f : T → U)

def Entry.map (entry : Entry T) : Entry U :=
  ⟨entry.key, f entry.value, entry.order, entry.direction, entry.sequence⟩

namespace RecordBatch

def map (batch : RecordBatch T) : RecordBatch U :=
  ⟨batch.entries.map (Entry.map f), batch.limit, batch.order, batch.direction, batch.seen⟩

theorem map_push (batch : RecordBatch T) (key : SortKey) (value : T) :
    (batch.push key value).map f = (batch.map f).push key (f value) := by
  by_cases zero : batch.limit = 0
  · simp [push, map, zero]
  · have same : (batch.map f).limit ≠ 0 := zero
    rw [push_of_limit zero, push_of_limit same]
    simp only [map, mk.injEq, and_self, and_true]
    exact offer_map Entry.Before (Entry.map f) _ _ _ fun _ _ => Iff.rfl

theorem admits_map (batch : RecordBatch T) (key : SortKey) :
    (batch.map f).admits key = batch.admits key := by
  unfold admits isFull
  simp only [map, List.length_map, List.getLast?_map]
  cases batch.entries.getLast? <;> rfl

theorem map_intoSorted (batch : RecordBatch T) :
    (batch.map f).intoSorted = batch.intoSorted.map f := by
  simp only [intoSorted, map, List.map_map]
  rfl

end RecordBatch
end Batches

namespace RecordPipeline
variable [Crates] (pipeline : RecordPipeline) (topic : String)

/-- Where a kept record stands, and what a page shows of it. -/
def view (kept : Kept) : SortKey × Record :=
  (kept.raw.sortKey, ((pipeline.finished kept).intoRecord topic).shown)

/-- Two records at one place that the pipeline tells nothing apart of. -/
structure Twins (first second : RawRecord) : Prop where
  place : first.sortKey = second.sortKey
  screen : (pipeline.stages.screenRecord first).2 = (pipeline.stages.screenRecord second).2
  pending : pipeline.view topic (.pending (pipeline.hidden first)) =
    pipeline.view topic (.pending (pipeline.hidden second))
  decoded : (pipeline.keepsDecoded (pipeline.hidden first)).map (pipeline.view topic) =
    (pipeline.keepsDecoded (pipeline.hidden second)).map (pipeline.view topic)

/-- Twins ranked alike. -/
def RankedTwins (first second : Ranked RawRecord) : Prop :=
  first.1 = second.1 ∧ pipeline.Twins topic first.2 second.2

/-- Candidates whose decode ends alike. -/
def SameDecoded (first second : Ranked RawRecord) : Prop :=
  first.1 = second.1 ∧ (pipeline.keepsDecoded first.2).map (pipeline.view topic) =
    (pipeline.keepsDecoded second.2).map (pipeline.view topic)

/-- The states of two screenings that have met twins only. -/
structure SameScreen (first second : RecordBatch Kept × List (Ranked RawRecord) × Nat) : Prop where
  batch : first.1.map (pipeline.view topic) = second.1.map (pipeline.view topic)
  candidates : Forall₂ (pipeline.SameDecoded topic) first.2.1 second.2.1
  rejected : first.2.2 = second.2.2

variable {pipeline topic}

theorem SameScreen.step {first second : RecordBatch Kept × List (Ranked RawRecord) × Nat}
    (same : pipeline.SameScreen topic first second) {left right : Ranked RawRecord}
    (twins : pipeline.RankedTwins topic left right) :
    pipeline.SameScreen topic (pipeline.stages.screenStep first left)
      (pipeline.stages.screenStep second right) := by
  obtain ⟨batch, candidates, rejected⟩ := first
  obtain ⟨batch', candidates', rejected'⟩ := second
  obtain ⟨key, raw⟩ := left
  obtain ⟨_, raw'⟩ := right
  obtain ⟨batches, listed, counted⟩ := same
  obtain ⟨rfl, twins⟩ := twins
  simp only at batches listed counted twins
  have admits : batch.admits key = batch'.admits key := by
    rw [← RecordBatch.admits_map (pipeline.view topic), batches, RecordBatch.admits_map]
  rw [screenStep_eq, screenStep_eq, admits, twins.screen]
  cases batch'.admits key with
  | false => exact ⟨batches, listed, congrArg (· + 1) counted⟩
  | true =>
    rw [if_pos rfl, if_pos rfl]
    cases (pipeline.stages.screenRecord raw').2 with
    | none => exact ⟨batches, listed, counted⟩
    | some screen =>
      cases screen with
      | deferred =>
        refine ⟨?_, listed, counted⟩
        rw [RecordBatch.map_push, RecordBatch.map_push, batches]
        exact congrArg _ twins.pending
      | needsPayload =>
        exact ⟨batches, List.rel_append listed (.cons ⟨rfl, twins.decoded⟩ .nil), counted⟩

theorem sameScreen_screen {first second : List (Ranked RawRecord)} {batch batch' : RecordBatch Kept}
    (twins : Forall₂ (pipeline.RankedTwins topic) first second)
    (batches : batch.map (pipeline.view topic) = batch'.map (pipeline.view topic)) :
    pipeline.SameScreen topic (pipeline.stages.screen batch first)
      (pipeline.stages.screen batch' second) :=
  List.rel_foldl (fun _ _ same _ _ twins => same.step twins) ⟨batches, .nil, rfl⟩ twins

theorem map_foldl_push (offers : List (Ranked Kept)) (batch : RecordBatch Kept) :
    (offers.foldl (fun batch (sort, kept) => batch.push sort kept) batch).map (pipeline.view topic) =
      (offers.map fun offer => (offer.1, pipeline.view topic offer.2)).foldl
        (fun batch (sort, view) => batch.push sort view) (batch.map (pipeline.view topic)) := by
  induction offers generalizing batch with
  | nil => rfl
  | cons offer offers ih => rw [List.foldl_cons, ih, RecordBatch.map_push]; rfl

theorem map_offersDecoded {first second : List (Ranked RawRecord)}
    (same : Forall₂ (pipeline.SameDecoded topic) first second) :
    (pipeline.decodeAndFilter first).map (fun offer => (offer.1, pipeline.view topic offer.2)) =
      (pipeline.decodeAndFilter second).map fun offer => (offer.1, pipeline.view topic offer.2) := by
  have each (record : Ranked RawRecord) :
      ((pipeline.keepsDecoded record.2).map (record.1, ·)).map
          (fun offer => (offer.1, pipeline.view topic offer.2)) =
        ((pipeline.keepsDecoded record.2).map (pipeline.view topic)).map (record.1, ·) := by
    rw [Option.map_map, Option.map_map]
    rfl
  rw [decodeAndFilter_eq, decodeAndFilter_eq, List.map_filterMap, List.map_filterMap]
  simp only [each]
  induction same with
  | nil => rfl
  | cons head _ ih =>
    obtain ⟨keys, decoded⟩ := head
    simp only [List.filterMap_cons, keys, decoded, ih]

theorem map_admitRecords {first second : List (Ranked RawRecord)} {batch batch' : RecordBatch Kept}
    (twins : Forall₂ (pipeline.RankedTwins topic) first second)
    (batches : batch.map (pipeline.view topic) = batch'.map (pipeline.view topic)) :
    (pipeline.admitRecords batch first).1.map (pipeline.view topic) =
      (pipeline.admitRecords batch' second).1.map (pipeline.view topic) := by
  have screened := sameScreen_screen twins batches
  cases twins with
  | nil => exact batches
  | cons head rest =>
    simp only [admitRecords, List.isEmpty_cons, Bool.false_eq_true, if_false, RecordBatch.take]
    rw [map_foldl_push, map_foldl_push, screened.batch, map_offersDecoded screened.candidates]

end RecordPipeline

/-- Computations that agree up to `f`, carried on alike up to `k`. -/
theorem map_bind_congr {ε α β γ δ : Type} {first second : Except ε α} {f : α → β}
    {g h : α → Except ε γ} {k : γ → δ} (same : first.map f = second.map f)
    (later : ∀ x y, f x = f y → (g x).map k = (h y).map k) :
    (first >>= g).map k = (second >>= h).map k := by
  cases first with
  | error error =>
    cases second with
    | error other =>
      obtain rfl := Except.error.inj same
      rfl
    | ok value => contradiction
  | ok value =>
    cases second with
    | error other => contradiction
    | ok other => exact later value other (Except.ok.inj same)

section Turns
variable [Crates] (pipeline : RecordPipeline) (topic : String)

/-- Polls that failed alike, or brought twins. -/
inductive TwinPolls : Except KafkaError (List RawRecord) → Except KafkaError (List RawRecord) → Prop
  | error (error : KafkaError) : TwinPolls (.error error) (.error error)
  | ok {first second : List RawRecord} (twins : Forall₂ (pipeline.Twins topic) first second) :
      TwinPolls (.ok first) (.ok second)

structure TwinTurns (first second : Turn) : Prop where
  polled : TwinPolls pipeline topic first.polled second.polled
  position : first.position = second.position
  lags : first.lags = second.lags

structure TwinPasses (first second : PassSchedule) : Prop where
  reassignment : first.reassignment = second.reassignment
  turns : Forall₂ (TwinTurns pipeline topic) first.turns second.turns
  late : first.late = second.late

structure TwinSchedules (first second : Schedule) : Prop where
  opened : first.opened = second.opened
  pass : ∀ pass, TwinPasses pipeline topic (first.pass pass) (second.pass pass)

variable {pipeline topic}

variable (pipeline topic) in
/-- Two scans in the same state, with twins ranked so far. -/
def SameRanked (first second : WindowScan × List (Ranked RawRecord)) : Prop :=
  first.1 = second.1 ∧ Forall₂ (pipeline.RankedTwins topic) first.2 second.2

/-- A scan looks at where a record stands and when it was written. -/
theorem SameRanked.step {first second : WindowScan × List (Ranked RawRecord)}
    (same : SameRanked pipeline topic first second) {left right : RawRecord}
    (twins : pipeline.Twins topic left right) :
    SameRanked pipeline topic (ingestStep first left) (ingestStep second right) := by
  obtain ⟨scan, ranked⟩ := first
  obtain ⟨_, ranked'⟩ := second
  obtain ⟨rfl, listed⟩ := same
  have place := twins.place
  simp only [RawRecord.sortKey, SortKey.mk.injEq] at place
  obtain ⟨timestamp, partition, offset⟩ := place
  have ranks (scan : WindowScan) : scan.rank left = scan.rank right := by
    simp only [WindowScan.rank, partition, offset, timestamp]
  simp only [ingestStep, partition, offset, ranks]
  by_cases closed : right.partition ∉ scan.remaining
  · rw [if_pos closed, if_pos closed]
    exact ⟨rfl, listed⟩
  · rw [if_neg closed, if_neg closed]
    obtain ⟨accepted, next⟩ := scan.accept right.partition right.offset
    cases accepted with
    | false => exact ⟨rfl, listed⟩
    | true => exact ⟨rfl, List.rel_append listed (.cons ⟨rfl, twins⟩ .nil)⟩

theorem sameRanked_ingest (scan : WindowScan) {first second : List RawRecord}
    (twins : Forall₂ (pipeline.Twins topic) first second) :
    SameRanked pipeline topic (ingestRanked scan first) (ingestRanked scan second) :=
  List.rel_foldl (fun _ _ same _ _ twins => same.step twins) ⟨rfl, .nil⟩ twins

theorem runTurns_twins {first second : List Turn}
    (twins : Forall₂ (TwinTurns pipeline topic) first second) (scan : WindowScan)
    {batch batch' : RecordBatch Kept}
    (batches : batch.map (pipeline.view topic) = batch'.map (pipeline.view topic)) :
    (runTurns pipeline first scan batch).map
        (fun (scan, batch, cut) => (scan, batch.map (pipeline.view topic), cut)) =
      (runTurns pipeline second scan batch').map
        fun (scan, batch, cut) => (scan, batch.map (pipeline.view topic), cut) := by
  induction twins generalizing scan batch batch' with
  | nil =>
    unfold runTurns
    split <;> simp [Except.map, batches]
  | cons head rest ih =>
    rename_i left right lefts rights
    unfold runTurns
    by_cases done : scan.remaining.isEmpty = true
    · rw [if_pos done, if_pos done]
      simp [Except.map, batches]
    · rw [if_neg done, if_neg done]
      dsimp only
      have polled := head.polled
      have idle : settleIdle scan left = settleIdle scan right := by
        unfold settleIdle settled
        rw [head.position, head.lags]
      generalize left.polled = one at polled
      generalize right.polled = two at polled
      cases polled with
      | error error => rfl
      | ok twins =>
        cases twins with
        | nil =>
          simp only [idle]
          exact ih _ batches
        | cons here there =>
          obtain ⟨scans, ranked⟩ := sameRanked_ingest scan (.cons here there)
          simp only [scans]
          exact ih _ (RecordPipeline.map_admitRecords ranked batches)

theorem run_twins {first second : PassSchedule} (twins : TwinPasses pipeline topic first second)
    (walk : RecordOrder) (assigned windows : List PartitionWindow) {batch batch' : RecordBatch Kept}
    (batches : batch.map (pipeline.view topic) = batch'.map (pipeline.view topic)) :
    (run pipeline walk assigned windows batch first).map
        (fun (outcome, batch, rest) => (outcome, batch.map (pipeline.view topic), rest)) =
      (run pipeline walk assigned windows batch' second).map
        fun (outcome, batch, rest) => (outcome, batch.map (pipeline.view topic), rest) := by
  unfold run
  dsimp only
  rw [twins.reassignment]
  split
  · simp [Except.map, batches]
  · split
    · rfl
    · simp [Except.map, batches]
    · refine map_bind_congr (runTurns_twins twins.turns _ batches) ?_
      rintro ⟨scan, batch, cut⟩ ⟨scan', batch', cut'⟩ same
      simp only [Prod.mk.injEq] at same
      obtain ⟨rfl, batches, rfl⟩ := same
      simp [Except.map, batches]

end Turns

section Passes
variable [Crates] (pipeline : RecordPipeline) (topic : String)

/-- The progress of a fetch as its page will show it. -/
def Progress.view (state : Progress) :=
  (state.cursor, state.windows, state.assigned, state.kept.map (pipeline.view topic),
    state.complete, state.scanned)

theorem edges_eq (kept : List Kept) : edges (kept.map Kept.raw) =
    (kept.map (pipeline.view topic)).map fun shown => (shown.1.partition, shown.1.offset) := by
  simp only [edges, List.map_map]
  rfl

variable {pipeline topic}

namespace PageRequest
variable (request : PageRequest) (session : ClusterSession) (span : LogSpan)

theorem scanPass_twins {first second : PassSchedule}
    (twins : TwinPasses (request.pipeline session) topic first second) {state state' : Progress}
    (same : state.view (request.pipeline session) topic =
      state'.view (request.pipeline session) topic) :
    (request.scanPass session span first state).map
        (fun (state, stop) => (state.view (request.pipeline session) topic, stop)) =
      (request.scanPass session span second state').map
        fun (state, stop) => (state.view (request.pipeline session) topic, stop) := by
  obtain ⟨cursor, windows, assigned, kept, complete, scanned⟩ := state
  obtain ⟨cursor', windows', assigned', kept', complete', scanned'⟩ := state'
  simp only [Progress.view, Prod.mk.injEq] at same
  obtain ⟨rfl, rfl, rfl, views, rfl, rfl⟩ := same
  have lengths : kept.length = kept'.length := by
    simpa using congrArg List.length views
  unfold scanPass
  dsimp only
  rw [lengths]
  refine map_bind_congr (run_twins twins _ _ _ rfl) ?_
  rintro ⟨outcome, batch, assigned, cut⟩ ⟨outcome', batch', assigned', cut'⟩ agree
  simp only [Prod.mk.injEq] at agree
  obtain ⟨rfl, batches, rfl, rfl⟩ := agree
  have found : batch.intoSorted.map ((request.pipeline session).view topic) =
      batch'.intoSorted.map ((request.pipeline session).view topic) := by
    rw [← RecordBatch.map_intoSorted, batches, RecordBatch.map_intoSorted]
  have counts : batch.intoSorted.length = batch'.intoSorted.length := by
    simpa using congrArg List.length found
  have reached : edges (batch.intoSorted.map Kept.raw) = edges (batch'.intoSorted.map Kept.raw) := by
    rw [edges_eq (request.pipeline session) topic, found, ← edges_eq]
  simp only [Except.map, Progress.view, List.map_append, views, found, reached, counts, twins.late]

theorem passes_twins {first second : Nat → PassSchedule}
    (twins : ∀ pass, TwinPasses (request.pipeline session) topic (first pass) (second pass))
    (fuel pass : Nat) {state state' : Progress}
    (same : state.view (request.pipeline session) topic =
      state'.view (request.pipeline session) topic) :
    (request.passes session span first fuel pass state).map
        (Progress.view (request.pipeline session) topic) =
      (request.passes session span second fuel pass state').map
        (Progress.view (request.pipeline session) topic) := by
  induction fuel generalizing pass state state' with
  | zero => simp [passes, Except.map, same]
  | succ fuel ih =>
    have planned : (request.replan span pass state).view (request.pipeline session) topic =
        (request.replan span pass state').view (request.pipeline session) topic := by
      unfold replan
      split
      · exact same
      · simp only [Progress.view, Prod.mk.injEq] at same ⊢
        obtain ⟨cursor, _, assigned, kept, complete, scanned⟩ := same
        rw [cursor]
        exact ⟨rfl, rfl, assigned, kept, complete, scanned⟩
    have windows : (request.replan span pass state).windows =
        (request.replan span pass state').windows := congrArg (·.2.1) planned
    simp only [passes, windows]
    split
    · simp only [Except.map, Progress.view, Prod.mk.injEq, Except.ok.injEq, true_and] at planned ⊢
      exact planned.2.2
    · refine map_bind_congr (request.scanPass_twins session span (twins pass) planned) ?_
      rintro ⟨next, stop⟩ ⟨next', stop'⟩ agree
      obtain ⟨views, rfl⟩ := Prod.mk.inj agree
      cases stop with
      | true => simp [Except.map, views]
      | false => exact ih _ views

theorem map_sortKept (order : RecordOrder) (kept : List Kept) :
    (sortKept order kept).map (pipeline.view topic) =
      (kept.map (pipeline.view topic)).insertionSort fun left right =>
        (left.1.cmpForOrder right.1 order).isLE = true :=
  List.map_insertionSort _ _ _ _ fun _ _ _ _ => Iff.rfl

/-- Two fetches that meet twins answer alike. -/
theorem fetch_twins {first second : Schedule}
    (twins : TwinSchedules (request.pipeline session) request.query.topic first second) :
    (request.fetch session span first).map RecordPage.shown =
      (request.fetch session span second).map RecordPage.shown := by
  unfold fetch
  dsimp only
  split
  · rfl
  · rw [twins.opened]
    refine map_bind_congr (f := id) rfl fun _ _ _ => ?_
    refine map_bind_congr (request.passes_twins session span twins.pass _ 0 rfl) ?_
    intro last last' same
    simp only [Progress.view, Prod.mk.injEq] at same
    obtain ⟨cursor, _, _, kept, complete, scanned⟩ := same
    have empty : last.kept.isEmpty = last'.kept.isEmpty := by
      simpa using congrArg List.isEmpty kept
    have records : ((request.pipeline session).render (sortKept request.query.order last.kept)
        request.query.topic).map Record.shown =
        ((request.pipeline session).render (sortKept request.query.order last'.kept)
          request.query.topic).map Record.shown := by
      have sorted := congrArg (List.map Prod.snd)
        (((map_sortKept request.query.order last.kept).trans (by rw [kept])).trans
          (map_sortKept request.query.order last'.kept).symm)
      rw [List.map_map, List.map_map] at sorted
      rw [RecordPipeline.render_eq, RecordPipeline.render_eq, List.map_map, List.map_map]
      exact sorted
    rw [scanned, empty]
    split
    · rfl
    · simp only [Except.map, RecordPage.shown, records, complete, cursor]

end PageRequest
end Passes
end Klens.Scan
