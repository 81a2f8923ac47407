import Klens.Client.OffsetsProofs
import Klens.Scan.Read

/-! Looking up where logs start and end. Kafka answers each partition on its
own, and what it answers is a parameter. -/
namespace Klens.Client
open Klens.Store Std

/-- A machine integer of 64 bits. -/
abbrev I64 := { value : Int // Scan.i64Min ≤ value ∧ value ≤ Scan.i64Max }

inductive ErrorCode where
  | unknownTopicOrPartition
  | offsetNotAvailable
  | other (code : Int)
  deriving DecidableEq, Repr

inductive KrafkaError where
  | broker (code : ErrorCode) (message : String)
  | other (message : String)
  deriving DecidableEq, Repr

inductive OffsetSpec where
  | earliest
  | latest
  | timestamp (timestamp : Int)
  deriving DecidableEq, Repr

/-- What Kafka lists for one partition. -/
abbrev Listed := TopicPartition × Except KrafkaError I64

/-- `OffsetLookup` as the maps of the source: topics with an entry can be told
from topics without one. -/
structure OffsetLookup where
  found : ExtTreeMap String Scan.Offsets
  failure : Option KrafkaError

namespace OffsetLookup

def default : OffsetLookup := { found := ∅, failure := none }

/-- What is found on the partitions of a topic. -/
def offsets (lookup : OffsetLookup) (topic : String) : Scan.Offsets :=
  lookup.found[topic]?.getD ∅

def insert (lookup : OffsetLookup) (topic : String) (partition offset : Int) : OffsetLookup :=
  { lookup with found := lookup.found.insert topic ((lookup.offsets topic).insert partition offset) }

def fail (lookup : OffsetLookup) (error : KrafkaError) : OffsetLookup :=
  { lookup with failure := some (lookup.failure.getD error) }

def complete (lookup : OffsetLookup) : Except KrafkaError OffsetLookup :=
  match lookup.failure with
  | some error => .error error
  | none => .ok lookup

end OffsetLookup

def logOffset (lookup : OffsetLookup) (listed : Listed) : OffsetLookup :=
  match listed.2 with
  | .ok offset => lookup.insert listed.1.1 listed.1.2 offset
  | .error (.broker .unknownTopicOrPartition _) => lookup
  | .error error => lookup.fail error

def logOffsets (listed : List Listed) : OffsetLookup := listed.foldl logOffset .default

/-- Partitions by topic, in the order in which the hash map is walked. -/
abbrev Wanted := List (String × List Int)

def Wanted.partitions (wanted : Wanted) : List TopicPartition :=
  wanted.flatMap fun entry => entry.2.map fun partition => (entry.1, partition)

def offsetSpecs (wanted : Wanted) : List TopicPartition :=
  Wanted.partitions (wanted.filter fun entry => (validateTopicName entry.1).isOk)

def listOffsets {E : Type} (list : List TopicPartition → OffsetSpec → Except E (List Listed))
    (wanted : Wanted) (spec : OffsetSpec) : Except E OffsetLookup :=
  let specs := offsetSpecs wanted
  if specs.isEmpty then .ok .default else (list specs spec).map logOffsets

/-- Kafka failed to answer for the partition. It does not when it says that it
does not have it. -/
def Listed.failed (listed : Listed) : Bool :=
  match listed.2 with
  | .ok _ => false
  | .error (.broker .unknownTopicOrPartition _) => false
  | .error _ => true

theorem logOffset_failure (lookup : OffsetLookup) (listed : Listed) :
    (logOffset lookup listed).failure = none ↔ lookup.failure = none ∧ listed.failed = false := by
  obtain ⟨partition, answer⟩ := listed
  cases answer with
  | ok offset => simp [logOffset, Listed.failed, OffsetLookup.insert]
  | error error =>
    cases error with
    | other message => simp [logOffset, Listed.failed, OffsetLookup.fail]
    | broker code message => cases code <;> simp [logOffset, Listed.failed, OffsetLookup.fail]

/-- One failed partition fails the whole lookup. -/
theorem logOffsets_failure (listed : List Listed) :
    (logOffsets listed).failure = none ↔ ∀ entry ∈ listed, entry.failed = false := by
  have run (lookup : OffsetLookup) : (listed.foldl logOffset lookup).failure = none ↔
      lookup.failure = none ∧ ∀ entry ∈ listed, entry.failed = false := by
    induction listed generalizing lookup with
    | nil => simp
    | cons entry listed ih =>
      rw [List.foldl_cons, ih, logOffset_failure, List.forall_mem_cons, and_assoc]
  exact (run .default).trans (and_iff_right rfl)

theorem OffsetLookup.offsets_insert (lookup : OffsetLookup) (topic other : String)
    (partition offset : Int) : (lookup.insert topic partition offset).offsets other =
      if topic = other then (lookup.offsets topic).insert partition offset
      else lookup.offsets other := by
  unfold insert offsets
  rw [ExtTreeMap.getElem?_insert]
  by_cases same : topic = other
  · subst same
    simp
  · simp [same]

theorem logOffset_offsets {lookup : OffsetLookup} {listed : Listed} {topic : String}
    {partition offset : Int}
    (found : ((logOffset lookup listed).offsets topic)[partition]? = some offset) :
    (lookup.offsets topic)[partition]? = some offset ∨
      ∃ value : I64, value.1 = offset ∧ listed = ((topic, partition), .ok value) := by
  obtain ⟨⟨name, number⟩, answer⟩ := listed
  unfold logOffset at found
  split at found
  · rename_i value answered
    dsimp only at answered found
    subst answered
    rw [OffsetLookup.offsets_insert] at found
    split at found
    · rename_i same
      subst same
      rw [ExtTreeMap.getElem?_insert] at found
      split at found
      · rename_i here
        rw [Std.compare_eq_iff_eq.mp here]
        exact .inr ⟨value, Option.some.inj found, rfl⟩
      · exact .inl found
    · exact .inl found
  · exact .inl found
  · exact .inl found

/-- What a lookup has found was listed. -/
theorem mem_of_logOffsets {listed : List Listed} {topic : String} {partition offset : Int}
    (found : ((logOffsets listed).offsets topic)[partition]? = some offset) :
    ∃ value : I64, value.1 = offset ∧ ((topic, partition), .ok value) ∈ listed := by
  have run : ∀ lookup : OffsetLookup,
      ((listed.foldl logOffset lookup).offsets topic)[partition]? = some offset →
      (lookup.offsets topic)[partition]? = some offset ∨
        ∃ value : I64, value.1 = offset ∧ ((topic, partition), .ok value) ∈ listed := by
    clear found
    induction listed with
    | nil => exact fun _ found => .inl found
    | cons entry listed ih =>
      intro lookup found
      rcases ih _ found with before | ⟨value, same, later⟩
      · rcases logOffset_offsets before with before | ⟨value, same, rfl⟩
        · exact .inl before
        · exact .inr ⟨value, same, List.mem_cons_self⟩
      · exact .inr ⟨value, same, List.mem_cons_of_mem entry later⟩
  rcases run .default found with before | held
  · simp [OffsetLookup.offsets, OffsetLookup.default] at before
  · exact held

end Klens.Client
