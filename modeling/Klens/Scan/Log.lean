import Klens.Scan.Session

/-! The log a scan reads and what its consumer promises about it. Nothing here
is code of the scan: a log is a list of records for each partition, and a
consumer delivers each assigned partition from its window's start on, in
order, however the polls are cut and interleaved. -/
namespace Klens.Scan

/-- Each partition's records, by rising offset. Offsets may have gaps and
timestamps are arbitrary. -/
structure Log where
  records : Int → List RawRecord
  rising : ∀ partition, (records partition).Pairwise (·.offset < ·.offset)
  placed : ∀ partition, ∀ raw ∈ records partition, raw.partition = partition

def ofPartition (partition : Int) (records : List RawRecord) : List RawRecord :=
  records.filter fun raw => raw.partition = partition

namespace Log

/-- The log of records listed by rising offset in each partition. -/
def ofRecords (records : List RawRecord) (rising : records.Pairwise fun first second =>
    first.partition = second.partition → first.offset < second.offset) : Log where
  records partition := ofPartition partition records
  rising partition := by
    refine (rising.filter _).imp_of_mem ?_
    intro first second one two further
    have left := (List.mem_filter.mp one).2
    have right := (List.mem_filter.mp two).2
    simp only [decide_eq_true_eq] at left right
    exact further (left.trans right.symm)
  placed partition raw member := by
    simpa using (List.mem_filter.mp member).2

/-- What a consumer assigned `window` goes on to deliver. -/
def startingFrom (log : Log) (window : PartitionWindow) : List RawRecord :=
  (log.records window.partition).filter fun raw => window.start ≤ raw.offset

def inWindow (log : Log) (window : PartitionWindow) : List RawRecord :=
  (log.startingFrom window).filter fun raw => raw.offset < window.stop

/-- The record is in the log, within the offsets the span holds. -/
def Holds (log : Log) (span : LogSpan) (raw : RawRecord) : Prop :=
  raw ∈ log.records raw.partition ∧ raw.partition ∈ span.partitions ∧
    ∃ marks, span.watermarks raw.partition = some marks ∧
      marks.low ≤ raw.offset ∧ raw.offset < marks.high

end Log

def Turn.records (turn : Turn) : List RawRecord :=
  match turn.polled with
  | .ok records => records
  | .error _ => []

def delivered (turns : List Turn) : List RawRecord := turns.flatMap Turn.records

/-- What the positions and lags of an idle turn say about a window: the records
below the position, or all of them at no lag, were delivered before. -/
def Turn.Truthful (turn : Turn) (log : Log) (window : PartitionWindow) (before : List RawRecord) :
    Prop :=
  (∀ position, turn.position window.partition = some position →
    ∀ raw ∈ log.startingFrom window, raw.offset < position → raw ∈ before) ∧
  (turn.lags window.partition = some 0 → ∀ raw ∈ log.startingFrom window, raw ∈ before)

/-- Every empty poll after `before` reports positions and lags truthfully. -/
def IdleTruthful (log : Log) (windows : List PartitionWindow) :
    List RawRecord → List Turn → Prop
  | _, [] => True
  | before, turn :: turns =>
    (turn.records = [] → ∀ window ∈ windows, turn.Truthful log window before) ∧
      IdleTruthful log windows (before ++ turn.records) turns

/-- The consumer's side of one pass. How much of a partition it gets to deliver
is left open: that is up to the deadline. -/
structure Delivers (log : Log) (windows : List PartitionWindow) (turns : List Turn) : Prop where
  inOrder : ∀ window ∈ windows,
    ofPartition window.partition (delivered turns) <+: log.startingFrom window
  idle : IdleTruthful log windows [] turns

/-- `runTurns` without its batch: the scan as the turns leave it, and every
record it accepted with the key it was ranked by. -/
def accepting : List Turn → WindowScan × List (SortKey × RawRecord) →
    WindowScan × List (SortKey × RawRecord)
  | turns, state =>
    if state.1.remaining.isEmpty then state
    else match turns with
      | [] => state
      | turn :: turns => match turn.polled with
        | .error _ => state
        | .ok [] => accepting turns (settleIdle state.1 turn, state.2)
        | .ok (raw :: polled) => accepting turns ((raw :: polled).foldl ingestStep state)

/-- What one pass reads: the scan as it ends, and the records it accepted,
ranked. A consumer that was not moved to the windows in time reads nothing. -/
def PassSchedule.reading (schedule : PassSchedule) (state : Progress) :
    WindowScan × List (SortKey × RawRecord) :=
  match if state.assigned = state.windows then .assigned else schedule.reassignment with
  | .assigned => accepting schedule.turns (WindowScan.new state.windows, [])
  | _ => (WindowScan.new state.windows, [])

def PassSchedule.Polled (schedule : PassSchedule) (state : Progress) (raw : RawRecord) : Prop :=
  raw ∈ (schedule.reading state).2.map Prod.snd

namespace PageRequest
variable [Crates]

/-- The passes a fetch makes: each one's schedule with the state it starts from. -/
def visits (request : PageRequest) (session : ClusterSession) (span : LogSpan)
    (schedule : Nat → PassSchedule) : Nat → Nat → Progress → List (PassSchedule × Progress)
  | 0, _, _ => []
  | fuel + 1, pass, state =>
    let state := request.replan span pass state
    if pass ≠ 0 ∧ state.windows = [] then []
    else
      (schedule pass, state) :: match request.scanPass session span (schedule pass) state with
        | .ok (state, false) => request.visits session span schedule fuel (pass + 1) state
        | _ => []

/-- The passes of `fetch`, which makes none without windows. -/
def fetchVisits (request : PageRequest) (session : ClusterSession) (span : LogSpan)
    (schedule : Schedule) : List (PassSchedule × Progress) :=
  if (request.initial span).windows = [] then []
  else request.visits session span schedule.pass request.maxPasses 0 (request.initial span)

/-- In every pass the fetch makes, the consumer delivers the log. -/
def Delivered (request : PageRequest) (session : ClusterSession) (span : LogSpan)
    (schedule : Schedule) (log : Log) : Prop :=
  ∀ visit ∈ request.fetchVisits session span schedule,
    Delivers log visit.2.windows visit.1.turns

theorem fetchVisits_unfiltered {request : PageRequest} (unfiltered : request.query.filter = none)
    (session : ClusterSession) (span : LogSpan) (schedule : Schedule) :
    request.fetchVisits session span schedule =
      if (request.initial span).windows = [] then [] else [(schedule.pass 0, request.initial span)] := by
  have once : request.maxPasses = 1 := by
    simp [maxPasses, RecordQuery.searching, unfiltered]
  unfold fetchVisits
  rw [once, visits]
  simp only [replan, ↓reduceIte, not_true_eq_false, ne_eq, false_and, visits]
  congr 1
  split <;> rfl

end PageRequest

/-- A consumer that answers every pass with the same polls and never says where
it stands. -/
def polling (polls : List (List RawRecord)) : Schedule where
  opened := .ok ()
  pass _ := {
    reassignment := .assigned
    turns := polls.map fun records =>
      { polled := .ok records, position := fun _ => none, lags := fun _ => none }
    late := false }

theorem idleTruthful_silent {log : Log} {windows : List PartitionWindow} {turns : List Turn}
    (silent : ∀ turn ∈ turns, ∀ partition,
      turn.position partition = none ∧ turn.lags partition = none) (before : List RawRecord) :
    IdleTruthful log windows before turns := by
  induction turns generalizing before with
  | nil => trivial
  | cons turn turns ih =>
    refine ⟨fun _ window _ => ?_, ih (fun other member => silent other (.tail _ member)) _⟩
    have here := silent turn List.mem_cons_self window.partition
    simp [Turn.Truthful, here]

theorem delivers_polling {log : Log} {windows : List PartitionWindow} {polls : List (List RawRecord)}
    (inOrder : ∀ window ∈ windows,
      ofPartition window.partition polls.flatten <+: log.startingFrom window) (pass : Nat) :
    Delivers log windows ((polling polls).pass pass).turns := by
  constructor
  · have all : delivered ((polling polls).pass pass).turns = polls.flatten := by
      simp only [delivered, polling, List.flatMap_map]
      exact List.flatMap_id
    rwa [all]
  · refine idleTruthful_silent (fun turn member partition => ?_) []
    obtain ⟨records, _, rfl⟩ := List.mem_map.mp member
    exact ⟨rfl, rfl⟩

theorem PageRequest.delivered_polling [Crates] {request : PageRequest}
    (unfiltered : request.query.filter = none) (session : ClusterSession) {span : LogSpan} {log : Log}
    {polls : List (List RawRecord)} (inOrder : ∀ window ∈ (request.initial span).windows,
      ofPartition window.partition polls.flatten <+: log.startingFrom window) :
    request.Delivered session span (polling polls) log := by
  unfold Delivered
  rw [fetchVisits_unfiltered unfiltered]
  intro visit member
  split at member
  · contradiction
  · obtain rfl := List.mem_singleton.mp member
    exact delivers_polling inOrder 0

namespace Sample

def record (partition offset timestamp : Int) : RawRecord :=
  { partition, offset, timestamp, key := none, value := none, headers := [] }

def request (order : RecordOrder) (limit : Nat) : PageRequest where
  query :=
    { topic := "orders", partitions := [], filter := none, timestamps := .unbounded, limit := limit,
      order, cursor := none, schemaId := none }
  limit := limit
  take := 10

def session : ClusterSession := { payloadCodec := none, obfuscation := none }

def span (partitions : List Int) (low high : Int) : LogSpan where
  partitions := partitions
  watermarks partition := if partition ∈ partitions then some ⟨low, high⟩ else none

def cursor (order walk : RecordOrder) (offsets : List (Int × Int)) : RecordCursor :=
  ⟨order, .walking walk (.ofList offsets)⟩

end Sample
end Klens.Scan
