import Klens.Scan.Pipeline
import Klens.Scan.Plan
import Klens.Scan.Query
import Std.Data.ExtTreeSet

/-! Scanning the windows of a page. Kafka and the clock enter as a schedule:
what each turn of the poll loop was answered, and whether the deadline had
passed. A schedule that ends while windows are open is the deadline cutting
the scan. -/
namespace Klens.Scan

def maxFilterPasses : Nat := 64

inductive KafkaError where
  | timeout
  | query (error : QueryError)
  | unknownPartition (cluster topic : String) (partition : Int)
  | unknownOffset (cluster topic : String) (partition offset : Int)
  | broker (message : String)
  deriving DecidableEq, Repr

structure ScanOutcome where
  covered : List PartitionWindow
  complete : Bool
  scanned : Bool
  deriving DecidableEq, Repr

/-- Kafka can jump over offsets in compacted logs. A window's range is its
start and its end. -/
structure WindowScan where
  remaining : Std.ExtTreeMap Int (Int × Int)
  completed : Std.ExtTreeSet Int
  newest : Offsets
  planned : Nat

def abandoned (window : PartitionWindow) (walk : RecordOrder) : PartitionWindow :=
  let boundary := match walk with
    | .newest => window.stop
    | .oldest => window.start
  { partition := window.partition, start := boundary, stop := boundary }

namespace WindowScan

def new (windows : List PartitionWindow) : WindowScan :=
  let remaining : Std.ExtTreeMap Int (Int × Int) := .ofList
    ((windows.filter fun window => !window.isEmpty).map fun window =>
      (window.partition, window.start, window.stop))
  { remaining, completed := ∅, newest := ∅, planned := remaining.size }

def finish (scan : WindowScan) (partition : Int) : WindowScan :=
  if partition ∈ scan.remaining then
    { scan with
      remaining := scan.remaining.erase partition
      completed := scan.completed.insert partition }
  else scan

def accept (scan : WindowScan) (partition offset : Int) : Bool × WindowScan :=
  match scan.remaining[partition]? with
  | none => (false, scan)
  | some (start, stop) =>
    let accepted := decide (start ≤ offset) && decide (offset < stop)
    (accepted, if offset ≥ stop - 1 then scan.finish partition else scan)

/-- CreateTime need not rise with offset. Ranking a record as no older than the
records before it in its window keeps each partition's share of a page to
consecutive offsets. -/
def rank (scan : WindowScan) (raw : RawRecord) : SortKey × WindowScan :=
  let newest := max ((scan.newest[raw.partition]?).getD raw.timestamp) raw.timestamp
  ({ timestamp := newest, partition := raw.partition, offset := raw.offset },
    { scan with newest := scan.newest.insert raw.partition newest })

def outcome (scan : WindowScan) (windows : List PartitionWindow) (walk : RecordOrder) :
    ScanOutcome :=
  { covered := windows.map fun window =>
      if window.partition ∈ scan.completed then window else abandoned window walk
    complete := scan.completed.size == scan.planned
    scanned := !scan.completed.isEmpty }

end WindowScan

/-- One turn of the poll loop: what the poll answered, and the positions and
lags an empty poll goes on to read. A reading that timed out is missing. -/
structure Turn where
  polled : Except KafkaError (List RawRecord)
  position : Int → Option Int
  lags : Int → Option Nat

/-- How the call that moves the consumer to a pass's windows ended. -/
inductive Reassignment where
  | assigned
  | timedOut
  | failed (error : KafkaError)

/-- One pass: the reassignment, should the pass need one, the turns before the
deadline, and whether the deadline has passed when the pass is over. -/
structure PassSchedule where
  reassignment : Reassignment
  turns : List Turn
  late : Bool

/-- What one fetch meets: whether its consumer opened, and its passes. -/
structure Schedule where
  opened : Except KafkaError Unit
  pass : Nat → PassSchedule

/-- One record of `ingest`. Pausing a finished partition only concerns the consumer. -/
def ingestStep (state : WindowScan × List (SortKey × RawRecord)) (raw : RawRecord) :
    WindowScan × List (SortKey × RawRecord) :=
  let (scan, ranked) := state
  if raw.partition ∉ scan.remaining then (scan, ranked)
  else match scan.accept raw.partition raw.offset with
    | (false, scan) => (scan, ranked)
    | (true, scan) =>
      let (key, scan) := scan.rank raw
      (scan, ranked ++ [(key, raw)])

def ingestRanked (scan : WindowScan) (polled : List RawRecord) :
    WindowScan × List (SortKey × RawRecord) :=
  polled.foldl ingestStep (scan, [])

/-- An empty poll alone is not EOF: it can also follow a retriable broker
error. A partition is only finished once its position or lag says so. -/
def settled (turn : Turn) (partition : Int) (window : Int × Int) : Bool :=
  match turn.position partition with
  | none => false
  | some position =>
    if position ≥ window.2 then true else decide (turn.lags partition = some 0)

def settleIdle (scan : WindowScan) (turn : Turn) : WindowScan :=
  let done := scan.remaining.toList.filterMap fun (partition, window) =>
    if settled turn partition window then some partition else none
  done.foldl .finish scan

section
variable [Crates]

/-- `ScanSession::run` after the reassignment: the scan and batch as the loop
leaves them, and whether the deadline cut it. -/
def runTurns (pipeline : RecordPipeline) :
    List Turn → WindowScan → RecordBatch Kept →
      Except KafkaError (WindowScan × RecordBatch Kept × Bool)
  | turns, scan, batch =>
    if scan.remaining.isEmpty then .ok (scan, batch, false)
    else match turns with
      | [] => .ok (scan, batch, true)
      | turn :: turns => match turn.polled with
        | .error error => .error error
        | .ok [] => runTurns pipeline turns (settleIdle scan turn) batch
        | .ok (raw :: polled) =>
          let (scan, ranked) := ingestRanked scan (raw :: polled)
          runTurns pipeline turns scan (pipeline.admitRecords batch ranked).1

/-- `ScanSession::run`, with the windows the consumer is assigned afterwards
and whether the deadline cut the run. -/
def run (pipeline : RecordPipeline) (walk : RecordOrder) (assigned windows : List PartitionWindow)
    (batch : RecordBatch Kept) (schedule : PassSchedule) :
    Except KafkaError (ScanOutcome × RecordBatch Kept × List PartitionWindow × Bool) :=
  let scan := WindowScan.new windows
  if scan.planned = 0 then .ok (scan.outcome windows walk, batch, assigned, false)
  else
    let reassignment := if assigned = windows then Reassignment.assigned else schedule.reassignment
    match reassignment with
    | .failed error => .error error
    | .timedOut => .ok (scan.outcome windows walk, batch, assigned, true)
    | .assigned => do
      let (scan, batch, cut) ← runTurns pipeline schedule.turns scan batch
      .ok (scan.outcome windows walk, batch, windows, cut)

end

structure RecordPage where
  records : List Record
  complete : Bool
  obfuscated : Bool
  nextCursor : Option String
  prevCursor : Option String
  deriving DecidableEq, Repr

def RecordPage.empty : RecordPage :=
  { records := [], complete := true, obfuscated := false, nextCursor := none, prevCursor := none }

/-- What a scan asks of the cluster session besides its consumer. -/
structure ClusterSession where
  payloadCodec : Option PayloadCodec
  obfuscation : Option ObfuscationPolicy

def topicObfuscator (session : ClusterSession) (topic : String) : Option TopicObfuscator :=
  session.obfuscation.bind (·.forTopic topic)

def edges (records : List RawRecord) : List (Int × Int) :=
  records.map fun raw => (raw.partition, raw.offset)

/-- A record query with its page size settled against the configured limits. -/
structure PageRequest where
  query : RecordQuery
  limit : Nat
  take : Int
  deriving DecidableEq

/-- The locals of `fetch` that its pass loop changes. -/
structure Progress where
  cursor : Option RecordCursor
  windows : List PartitionWindow
  assigned : List PartitionWindow
  kept : List Kept
  complete : Bool
  scanned : Bool

namespace PageRequest

def new (query : RecordQuery) (limits : RecordLimits) : Except QueryError PageRequest := do
  let limit ← limits.clampLimit query.limit
  .ok { query, limit, take := limits.windowTake limit query.searching }

def setCursor (request : PageRequest) (cursor : Option RecordCursor) : PageRequest :=
  { request with query := { request.query with cursor } }

def maxPasses (request : PageRequest) : Nat := if request.query.searching then maxFilterPasses else 1

def fresh (request : PageRequest) (span : LogSpan) : RecordCursor :=
  { order := request.query.order, remaining := span.start request.query.walk }

def pipeline (request : PageRequest) (session : ClusterSession) : RecordPipeline :=
  .new session.payloadCodec request.query.filter (topicObfuscator session request.query.topic)
    request.query.schemaId

/-- The state in which the loop starts its first pass. -/
def initial (request : PageRequest) (span : LogSpan) : Progress :=
  let windows := span.windows request.query.walk request.take request.query.cursor
  { cursor := request.query.cursor, windows, assigned := windows, kept := [],
    complete := true, scanned := false }

variable [Crates]

/-- A pass after its windows are planned: the state it leaves and whether the
loop stops there. -/
def scanPass (request : PageRequest) (session : ClusterSession) (span : LogSpan)
    (schedule : PassSchedule) (state : Progress) : Except KafkaError (Progress × Bool) := do
  let origin := state.cursor.getD (request.fresh span)
  let remaining := request.limit - state.kept.length
  let batch := RecordBatch.new remaining request.query.order request.query.direction
  let (outcome, batch, assigned, cut) ←
    run (request.pipeline session) request.query.walk state.assigned state.windows batch schedule
  let found := batch.intoSorted
  let next := span.advance origin outcome.covered (edges (found.map Kept.raw)) remaining
  let state : Progress :=
    { cursor := next, windows := state.windows, assigned, kept := state.kept ++ found,
      complete := state.complete && outcome.complete,
      scanned := state.scanned || outcome.scanned }
  .ok (state, decide (found.length ≥ remaining) || next.isNone || cut || schedule.late)

/-- Windows are planned again from the second pass on. -/
def replan (request : PageRequest) (span : LogSpan) (pass : Nat) (state : Progress) : Progress :=
  if pass = 0 then state
  else { state with windows := span.windows request.query.walk request.take state.cursor }

def passes (request : PageRequest) (session : ClusterSession) (span : LogSpan)
    (schedule : Nat → PassSchedule) : Nat → Nat → Progress → Except KafkaError Progress
  | 0, _, state => .ok state
  | fuel + 1, pass, state =>
    let state := request.replan span pass state
    if pass ≠ 0 ∧ state.windows = [] then .ok { state with cursor := none }
    else do
      let (state, stop) ← request.scanPass session span (schedule pass) state
      if stop then .ok state else request.passes session span schedule fuel (pass + 1) state

/-- `sort_unstable_by` on keys no two records share. -/
def sortKept (order : RecordOrder) (kept : List Kept) : List Kept :=
  kept.insertionSort fun left right =>
    (left.raw.sortKey.cmpForOrder right.raw.sortKey order).isLE = true

def fetch (request : PageRequest) (session : ClusterSession) (span : LogSpan)
    (schedule : Schedule) : Except KafkaError RecordPage :=
  let query := request.query
  let start := request.initial span
  if start.windows = [] then
    .ok { RecordPage.empty with obfuscated := (topicObfuscator session query.topic).isSome }
  else do
    schedule.opened
    let last ← request.passes session span schedule.pass request.maxPasses 0 start
    if !last.scanned && last.kept.isEmpty then .error .timeout
    else
      let kept := sortKept query.order last.kept
      let pipeline := request.pipeline session
      let near := query.cursor.bind span.rewind
      let (nextCursor, prevCursor) := match query.direction with
        | .forward => (last.cursor, near)
        | .backward => (near, last.cursor)
      .ok {
        records := pipeline.render kept query.topic
        complete := last.complete
        obfuscated := pipeline.obfuscated
        nextCursor := nextCursor.map RecordCursor.display
        prevCursor := prevCursor.map RecordCursor.display }

end PageRequest
end Klens.Scan
