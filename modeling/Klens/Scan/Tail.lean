import Klens.Scan.Read
import Mathlib.Algebra.Ring.Nat

/-! Following the end of a topic. One call of `next` meets a list of turns:
what each poll was answered, and the lags and positions read after it. A list
that ends while nothing was found is the heartbeat coming first. Pauses between
polls and frames are left out. -/
namespace Klens.Scan

structure TailPosition where
  partition : Int
  offset : Int
  deriving DecidableEq, Repr

structure TailQuery where
  topic : String
  partitions : List Int
  filter : Option CompiledFilter
  schemaId : Option Int
  deriving DecidableEq

def TailQuery.searching (query : TailQuery) : Bool := query.filter.isSome

structure TailBatch where
  records : List Record
  skipped : Nat
  deriving DecidableEq, Repr

def TailBatch.isEmpty (batch : TailBatch) : Bool := batch.records.isEmpty && batch.skipped == 0

structure TailLimits where
  batch : Nat
  records : RecordLimits

/-- `as u64` of an `i64`. -/
def asU64 (value : Int) : Nat := (BitVec.ofInt 64 value).toNat

def TailLimits.backlog (limits : TailLimits) (searching : Bool) : Nat :=
  asU64 (limits.records.windowTake limits.batch searching)

structure Tail where
  pipeline : RecordPipeline
  topic : String
  start : List TailPosition
  backlog : Nat
  limits : TailLimits

/-- One turn of the loop in `next`. -/
structure TailTurn where
  polled : Except KafkaError (List RawRecord)
  lags : Int → Option Nat
  position : Int → Option Int
  seek : List TailPosition → Except KafkaError Unit

namespace Tail

/-- A table of offsets lists its partitions in rising order. `opened` is how
opening the consumer ended. -/
def «open» (session : ClusterSession) (broker : Broker) (query : TailQuery) (limits : TailLimits)
    (opened : List TailPosition → Except KafkaError Unit) : Except KafkaError Tail := do
  let partitions ← resolvePartitions broker query.topic query.partitions
  let highs ← broker.highWatermarks query.topic partitions
  let start := (highs.found query.topic).toList.map fun (partition, offset) =>
    { partition, offset : TailPosition }
  opened start
  .ok {
    pipeline := .new session.payloadCodec query.filter (topicObfuscator session query.topic)
      query.schemaId
    topic := query.topic
    start
    backlog := limits.backlog query.searching
    limits }

def obfuscated (tail : Tail) : Bool := tail.pipeline.obfuscated

/-- Where each partition too far behind is sent, and the offsets it jumps over. -/
def jumps (tail : Tail) (turn : TailTurn) : List (TailPosition × Nat) :=
  tail.start.filterMap fun start => do
    let lag ← turn.lags start.partition
    if lag ≤ tail.backlog then none
    else do
      let position ← turn.position start.partition
      let jump := lag - tail.backlog
      some ({ partition := start.partition, offset := saturatingAdd position (asI64 jump) }, jump)

def skipAhead (tail : Tail) (turn : TailTurn) : Except KafkaError Nat :=
  let jumps := tail.jumps turn
  if jumps.isEmpty then .ok 0
  else do
    turn.seek (jumps.map Prod.fst)
    .ok (jumps.map Prod.snd).sum

variable [Crates]

def ingest (tail : Tail) (polled : List RawRecord) (batch : RecordBatch Kept) :
    RecordBatch Kept × Nat :=
  tail.pipeline.admitRecords batch (polled.map fun raw => (raw.sortKey, raw))

/-- The loop of `next`: the batch and the count of skipped records it ends with. -/
def collect (tail : Tail) : List TailTurn → RecordBatch Kept → Nat →
    Except KafkaError (RecordBatch Kept × Nat)
  | turns, batch, skipped =>
    if !batch.isEmpty then .ok (batch, skipped)
    else match turns with
      | [] => .ok (batch, skipped)
      | turn :: turns => do
        let polled ← turn.polled
        let (batch, rejected) := tail.ingest polled batch
        let jumped ← tail.skipAhead turn
        tail.collect turns batch (skipped + rejected + jumped)

def next (tail : Tail) (turns : List TailTurn) : Except KafkaError TailBatch := do
  let (batch, skipped) ←
    tail.collect turns (RecordBatch.new tail.limits.batch .newest .forward) 0
  if batch.isEmpty then .ok { records := [], skipped }
  else
    .ok {
      records := tail.pipeline.render (PageRequest.sortKept .oldest batch.intoSorted) tail.topic
      skipped := skipped + batch.displaced }

/-- Successive calls, all of which succeed. -/
def run (tail : Tail) : List (List TailTurn) → Except KafkaError (List TailBatch)
  | [] => .ok []
  | turns :: calls => do
    let batch ← tail.next turns
    let batches ← tail.run calls
    .ok (batch :: batches)

end Tail
end Klens.Scan
