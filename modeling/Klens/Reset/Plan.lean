import Klens.Client.Listing
import Mathlib.Data.List.Sort

/-! Planning where a group's offsets are reset to. Each partition takes its own
marks and its own commit, and one that lacks either stops the plan. -/
namespace Klens.Reset
open Klens.Store Klens.Client

/-- The variants of the source that a reset meets. -/
inductive KafkaError where
  | krafka (error : KrafkaError)
  | unknownPartition (cluster topic : String) (partition : Int)
  | unknownTopic (cluster topic : String)
  | unknownGroup (cluster group : String)
  | internalTopic (topic : String)
  | activeGroup (group : String)
  | noCommittedOffset (group topic : String) (partition : Int)
  deriving DecidableEq, Repr

/-- Why there is no plan: an error to report, or a panic. -/
inductive Stop where
  | failed (error : KafkaError)
  | panicked
  deriving DecidableEq, Repr

def noRecord : String := "the broker reported no offset for this spec"

/-- Per partition: the offset found, or that there is no record that late. -/
abbrev TimeOffsets := Std.ExtTreeMap Int (Option Int)

def timeOffset (offsets : TimeOffsets) (listed : Listed) : Except KafkaError TimeOffsets :=
  match listed.2 with
  | .ok offset => .ok (offsets.insert listed.1.2 (some offset.1))
  | .error (.broker .offsetNotAvailable message) =>
    if message = noRecord then .ok (offsets.insert listed.1.2 none)
    else .error (.krafka (.broker .offsetNotAvailable message))
  | .error (.broker .unknownTopicOrPartition _) => .ok offsets
  | .error error => .error (.krafka error)

def timeOffsets (listed : List Listed) : Except KafkaError TimeOffsets :=
  listed.foldlM timeOffset ∅

/-- `entry(topic).or_default().push(partition)`. -/
def Wanted.push (topic : String) (partition : Int) : Wanted → Wanted
  | [] => [(topic, [partition])]
  | (other, partitions) :: wanted =>
    if other = topic then (other, partitions ++ [partition]) :: wanted
    else (other, partitions) :: push topic partition wanted

/-- The order in which a hash map is walked, whatever it is. -/
structure MapOrder where
  walk : Wanted → Wanted
  perm : ∀ wanted, (walk wanted).Perm wanted

def key (committed : CommittedOffset) : TopicPartition := (committed.topic, committed.partition)

/-- What a group has committed: one offset on a partition. -/
structure Commits where
  offsets : List CommittedOffset
  distinct : (offsets.map key).Nodup

def Commits.ofKrafka (answers : Answers) : Commits where
  offsets := committedFromKrafka answers
  distinct := committedFromKrafka_nodup answers

/-- How Kafka answers a session. -/
structure Session where
  cluster : String
  committedOffsets : String → Except KafkaError Commits
  listed : List TopicPartition → OffsetSpec → Except KafkaError (List Listed)

namespace Session

def lowWatermarks (session : Session) (wanted : Wanted) : Except KafkaError OffsetLookup :=
  listOffsets session.listed wanted .earliest

def highWatermarks (session : Session) (wanted : Wanted) : Except KafkaError OffsetLookup :=
  listOffsets session.listed wanted .latest

def offsetsForTimes (session : Session) (topic : String) (partitions : List Int)
    (timestamp : Int) : Except KafkaError TimeOffsets :=
  if partitions.isEmpty || !(validateTopicName topic).isOk then .ok ∅
  else do
    let listed ← session.listed (partitions.map fun partition => (topic, partition))
      (.timestamp timestamp)
    timeOffsets listed

/-- Fails when Kafka fails to answer for any partition. Of two failures the
source reports the one that comes first. -/
def completeWatermarks (session : Session) (wanted : Wanted) :
    Except KafkaError (String → Int → Option Scan.Watermarks) := do
  let lows ← session.lowWatermarks wanted
  let highs ← session.highWatermarks wanted
  let lows ← lows.complete.mapError KafkaError.krafka
  let highs ← highs.complete.mapError KafkaError.krafka
  .ok (Scan.mergeWatermarks lows.offsets highs.offsets)

def offsetsAt (session : Session) (wanted : Wanted) (timestamp : Int) :
    Except KafkaError (List (String × TimeOffsets)) :=
  wanted.mapM fun entry => do
    let offsets ← session.offsetsForTimes entry.1 entry.2 timestamp
    .ok (entry.1, offsets)

end Session

inductive ResetTarget where
  | earliest
  | latest
  | offset (offset : Int)
  | shift (delta : Int)
  | timestamp (timestamp : Int)
  deriving DecidableEq, Repr

/-- The times are looked up for a target that is one. -/
def Session.atTimes (session : Session) (wanted : Wanted) :
    ResetTarget → Except KafkaError (List (String × TimeOffsets))
  | .timestamp timestamp => session.offsetsAt wanted timestamp
  | _ => .ok []

/-- `Ord::clamp`, which asserts that its bounds are in order. -/
def clamp (offset low high : Int) : Except Stop Int :=
  if low ≤ high then .ok (if offset < low then low else if high < offset then high else offset)
  else .error .panicked

def ResetTarget.place (target : ResetTarget) (source : Option Int) (marks : Scan.Watermarks)
    (atTime : Option Int) : Except Stop (Option Int) :=
  let offset := match target with
    | .earliest => some marks.low
    | .latest => some marks.high
    | .offset wanted => some wanted
    | .shift delta => source.map fun source => Scan.saturatingAdd source delta
    | .timestamp _ => some (atTime.getD marks.high)
  match offset with
  | some offset => (clamp offset marks.low marks.high).map some
  | none => .ok none

/-- From `source` to `target`, in a log that ends at `stop`. -/
structure OffsetMove where
  topic : String
  partition : Int
  source : Option Int
  target : Int
  stop : Int
  deriving DecidableEq, Repr

namespace OffsetMove

def committed (move : OffsetMove) : CommittedOffset where
  topic := move.topic
  partition := move.partition
  offset := move.target

def key (move : OffsetMove) : TopicPartition := (move.topic, move.partition)

/-- Not after, by topic and then by partition. -/
def NotAfter (left right : OffsetMove) : Prop := (tupleOrder left.key right.key).isLE = true

instance : DecidableRel NotAfter := fun left right =>
  inferInstanceAs (Decidable ((tupleOrder left.key right.key).isLE = true))

end OffsetMove

/-- The offset that the map of commits holds for a partition. -/
def Commits.current (commits : Commits) (wanted : TopicPartition) : Option Int :=
  (commits.offsets.find? fun committed => key committed = wanted).map CommittedOffset.offset

def wantedPartitions (partitions : Option (String × List Int)) (commits : Commits) : Wanted :=
  match partitions with
  | some (topic, partitions) => [(topic, partitions)]
  | none => commits.offsets.foldl
      (fun wanted committed => Wanted.push committed.topic committed.partition wanted) []

/-- One round of the loop over the wanted partitions. -/
def moveOf (session : Session) (group : String) (target : ResetTarget) (commits : Commits)
    (marks : String → Int → Option Scan.Watermarks) (atTimes : List (String × TimeOffsets))
    (wanted : TopicPartition) : Except Stop OffsetMove :=
  match marks wanted.1 wanted.2 with
  | none => .error (.failed (.unknownPartition session.cluster wanted.1 wanted.2))
  | some mark => do
    let source := commits.current wanted
    let atTime := ((atTimes.lookup wanted.1).bind fun offsets => offsets[wanted.2]?).join
    let placed ← target.place source mark atTime
    match placed with
    | some target =>
      .ok { topic := wanted.1, partition := wanted.2, source, target, stop := mark.high }
    | none => .error (.failed (.noCommittedOffset group wanted.1 wanted.2))

def planReset (session : Session) (order : MapOrder) (group : String)
    (partitions : Option (String × List Int)) (target : ResetTarget) :
    Except Stop (List OffsetMove) := do
  let commits ← (session.committedOffsets group).mapError Stop.failed
  let wanted := order.walk (wantedPartitions partitions commits)
  let marks ← (session.completeWatermarks wanted).mapError Stop.failed
  let atTimes ← (session.atTimes wanted target).mapError Stop.failed
  let moves ← wanted.partitions.mapM (moveOf session group target commits marks atTimes)
  .ok (moves.insertionSort OffsetMove.NotAfter)

end Klens.Reset
