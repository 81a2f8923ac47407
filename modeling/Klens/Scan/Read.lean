import Klens.Scan.Session
import Mathlib.Data.List.Destutter

/-! Opening a read: which partitions it covers, the watermarks Kafka answers
for them, and the page. Kafka's answers are parameters. A topic without an
entry in a table and a topic with an empty entry read the same. -/
namespace Klens.Scan

/-- The offsets one lookup found. Kafka answers each partition on its own, so a
partition it failed to answer for must not read as one it does not have. -/
structure OffsetLookup where
  offsets : String → Offsets
  failure : Option KafkaError

namespace OffsetLookup

def insert (lookup : OffsetLookup) (topic : String) (partition offset : Int) : OffsetLookup :=
  { lookup with
    offsets := fun other =>
      if other = topic then (lookup.offsets topic).insert partition offset
      else lookup.offsets other }

def fail (lookup : OffsetLookup) (error : KafkaError) : OffsetLookup :=
  { lookup with failure := some (lookup.failure.getD error) }

def found (lookup : OffsetLookup) : String → Offsets := lookup.offsets

def complete (lookup : OffsetLookup) : Except KafkaError (String → Offsets) :=
  match lookup.failure with
  | some error => .error error
  | none => .ok lookup.offsets

end OffsetLookup

/-- A partition without a low mark is read as empty. -/
def mergeWatermarks (lows highs : String → Offsets) : String → Int → Option Watermarks :=
  fun topic partition => ((highs topic)[partition]?).bind fun high =>
    let low := ((lows topic)[partition]?).getD high
    if low ≤ high then some { low, high } else none

/-- What Kafka and the topology store answer one read. The store may not know
the topic yet. -/
structure Broker where
  cluster : String
  topology : String → Option (List Int)
  topicMetadata : String → Except KafkaError (List Int)
  lowWatermarks : String → List Int → Except KafkaError OffsetLookup
  highWatermarks : String → List Int → Except KafkaError OffsetLookup
  offsetsForTimes : String → List Int → Int → Except KafkaError (Int → Option (Option Int))

namespace Broker

/-- Leaves out a partition Kafka failed to answer for. -/
def watermarks (broker : Broker) (topic : String) (partitions : List Int) :
    Except KafkaError (String → Int → Option Watermarks) := do
  let lows ← broker.lowWatermarks topic partitions
  let highs ← broker.highWatermarks topic partitions
  .ok (mergeWatermarks lows.found highs.found)

/-- Fails when Kafka fails to answer for any partition. -/
def completeWatermarks (broker : Broker) (topic : String) (partitions : List Int) :
    Except KafkaError (String → Int → Option Watermarks) := do
  let lows ← broker.lowWatermarks topic partitions
  let highs ← broker.highWatermarks topic partitions
  let lows ← lows.complete
  let highs ← highs.complete
  .ok (mergeWatermarks lows highs)

end Broker

def selectPartitions (cluster topic : String) (wanted partitions : List Int) :
    Except KafkaError (List Int) :=
  if wanted.isEmpty then .ok partitions
  else match wanted.find? fun id => decide (id ∉ partitions) with
    | some id => .error (.unknownPartition cluster topic id)
    | none => .ok ((wanted.insertionSort (· ≤ ·)).destutter (· ≠ ·))

def resolvePartitions (broker : Broker) (topic : String) (partitions : List Int) :
    Except KafkaError (List Int) :=
  match broker.topology topic with
  | some known => selectPartitions broker.cluster topic partitions known
  | none => do
    let known ← broker.topicMetadata topic
    selectPartitions broker.cluster topic partitions known

def seek (broker : Broker) (topic : String) (partitions : List Int) (timestamp : Option Int) :
    Except KafkaError (Option (Int → Option (Option Int))) :=
  match timestamp with
  | some timestamp => (broker.offsetsForTimes topic partitions timestamp).map some
  | none => .ok none

/-- The lookups run at once in the source; which of two errors is reported is
the only thing their order decides. -/
def windowWatermarks (broker : Broker) (query : RecordQuery) (partitions : List Int) :
    Except KafkaError (Int → Option Watermarks) := do
  let start := query.timestamps.startSeek
  let stop := query.timestamps.endSeek
  let byTopic ← broker.watermarks query.topic partitions
  let fromOffsets ← seek broker query.topic partitions start
  let toOffsets ← seek broker query.topic partitions stop
  if start.isNone && stop.isNone then .ok (byTopic query.topic)
  else .ok (applyTimestampBounds (byTopic query.topic) fromOffsets toOffsets)

def resolveSpan (broker : Broker) (query : RecordQuery) : Except KafkaError LogSpan := do
  let partitions ← resolvePartitions broker query.topic query.partitions
  let watermarks ← windowWatermarks broker query partitions
  .ok { partitions, watermarks }

def openRequest (query : RecordQuery) (limits : RecordLimits) : Except KafkaError PageRequest :=
  (PageRequest.new query limits).mapError KafkaError.query

structure FoundRecord where
  record : Record
  obfuscated : Bool
  deriving DecidableEq, Repr

section
variable [Crates]

def readPage (session : ClusterSession) (broker : Broker) (query : RecordQuery)
    (limits : RecordLimits) (schedule : Schedule) : Except KafkaError RecordPage := do
  let request ← openRequest query limits
  let span ← resolveSpan broker request.query
  request.fetch session span schedule

def readRecord (session : ClusterSession) (broker : Broker) (wanted : RecordAt)
    (limits : RecordLimits) (schedule : Schedule) : Except KafkaError FoundRecord := do
  let page ← readPage session broker wanted.query limits schedule
  match page.records.find? fun record => record.offset == wanted.offset with
  | some record => .ok { record, obfuscated := page.obfuscated }
  | none =>
    .error (.unknownOffset broker.cluster wanted.topic wanted.partition wanted.offset)

end
end Klens.Scan
