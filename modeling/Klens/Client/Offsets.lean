import Klens.Store.Tables

/-! The committed offsets of a group as the client reads them. How Kafka lists
them is a parameter. -/
namespace Klens.Client
open Klens.Store Std

def maxTopicNameLen : Nat := 249

inductive InvalidTopicName where
  | empty
  | tooLong (length : Nat)
  | illegalCharacter (illegal : Char)
  deriving DecidableEq, Repr

def isAsciiAlphanumeric (c : Char) : Bool :=
  ('a' ≤ c && c ≤ 'z') || ('A' ≤ c && c ≤ 'Z') || ('0' ≤ c && c ≤ '9')

def validateTopicName (name : String) : Except InvalidTopicName Unit :=
  if name.isEmpty then .error .empty
  else if name.utf8ByteSize > maxTopicNameLen then .error (.tooLong name.utf8ByteSize)
  else
    match name.toList.find? fun c =>
      !(isAsciiAlphanumeric c || c == '.' || c == '_' || c == '-') with
    | some illegal => .error (.illegalCharacter illegal)
    | none => .ok ()

/-- Each partition Kafka answered for: the offset committed on it, if any, or
why this one was not read. -/
abbrev Answers := ExtTreeMap TopicPartition (Except String (Option Int)) tupleOrder

/-- `CommittedOffset::from_krafka`. -/
def ofKrafka (partition : TopicPartition) (offset : Option Int) : Option CommittedOffset := do
  let offset ← offset
  let _ ← (validateTopicName partition.1).toOption
  some { topic := partition.1, partition := partition.2, offset }

/-- A partition that was not read is skipped. -/
def committedFromKrafka (offsets : Answers) : List CommittedOffset :=
  offsets.toList.filterMap fun entry =>
    match entry.2 with
    | .ok offset => ofKrafka entry.1 offset
    | .error _ => none

/-- The partitions a read asks for, all of the group's when none are given. -/
def askedFor (partitions : List TopicPartition) : List TopicPartition :=
  partitions.filter fun key => (validateTopicName key.1).isOk

def committedOffsets (list : Option (List TopicPartition) → Except String Answers)
    (partitions : Option (List TopicPartition)) : Except String (List CommittedOffset) :=
  match partitions with
  | some partitions =>
    let asked := askedFor partitions
    if asked.isEmpty then .ok []
    else (list (some asked)).map committedFromKrafka
  | none => (list none).map committedFromKrafka

end Klens.Client
