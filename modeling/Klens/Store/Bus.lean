import Klens.Store.Tables

/-! What a lane publishes: the keys two tables differ at. -/
namespace Klens.Store
open Klens.Lib Std

structure KeyDiff where
  added : List String
  removed : List String
  changed : List String
  deriving DecidableEq, Repr

namespace KeyDiff

def none : KeyDiff := { added := [], removed := [], changed := [] }

def add (key : String) (diff : KeyDiff) : KeyDiff := { diff with added := key :: diff.added }

def remove (key : String) (diff : KeyDiff) : KeyDiff := { diff with removed := key :: diff.removed }

def change (key : String) (diff : KeyDiff) : KeyDiff := { diff with changed := key :: diff.changed }

def isEmpty (diff : KeyDiff) : Bool :=
  diff.added.isEmpty && diff.removed.isEmpty && diff.changed.isEmpty

end KeyDiff

section Diff
variable {V : Type} [DecidableEq V]

/-- One entry of `previous` against what is left of `next`. -/
def diffEntry (key : String) (old : V) (rest : List (String × V) → KeyDiff) :
    List (String × V) → KeyDiff
  | [] => .remove key (rest [])
  | (other, new) :: next =>
    match compare key other with
    | .lt => .remove key (rest ((other, new) :: next))
    | .gt => .add other (diffEntry key old rest next)
    | .eq => if old ≠ new then .change key (rest next) else rest next

/-- `merge_join_by` on the keys of two sorted lists. -/
def diffEntries : List (String × V) → List (String × V) → KeyDiff
  | [], next => { KeyDiff.none with added := next.map Prod.fst }
  | (key, old) :: previous, next => diffEntry key old (diffEntries previous) next

def diffMaps (previous next : ExtTreeMap String V) : KeyDiff :=
  diffEntries previous.toList next.toList

end Diff

structure TopologyDelta where
  addedTopics : List String
  removedTopics : List String
  changedTopics : List String
  addedGroups : List String
  removedGroups : List String
  changedGroups : List String
  brokersChanged : Bool
  deriving DecidableEq, Repr

namespace TopologyDelta

def isEmpty (delta : TopologyDelta) : Bool :=
  !delta.brokersChanged && delta.addedTopics.isEmpty && delta.removedTopics.isEmpty &&
    delta.changedTopics.isEmpty && delta.addedGroups.isEmpty && delta.removedGroups.isEmpty &&
    delta.changedGroups.isEmpty

def between (previous : Option Topology) (next : Topology) : Option TopologyDelta :=
  let previous := previous.getD .empty
  let topics := diffMaps previous.topics next.topics
  let groups := diffMaps previous.groups next.groups
  let delta : TopologyDelta :=
    { addedTopics := topics.added
      removedTopics := topics.removed
      changedTopics := topics.changed
      addedGroups := groups.added
      removedGroups := groups.removed
      changedGroups := groups.changed
      brokersChanged := decide (previous.brokers ≠ next.brokers) ||
        decide (previous.controller ≠ next.controller) }
  if delta.isEmpty then none else some delta

def touchesTopic (delta : TopologyDelta) (topic : String) : Bool :=
  delta.addedTopics.contains topic || delta.removedTopics.contains topic ||
    delta.changedTopics.contains topic

def touchesGroup (delta : TopologyDelta) (group : String) : Bool :=
  delta.addedGroups.contains group || delta.removedGroups.contains group ||
    delta.changedGroups.contains group

end TopologyDelta

structure ConfigsDelta where
  topics : List String
  deriving DecidableEq, Repr

def ConfigsDelta.between (previous : Option ConfigTable) (next : ConfigTable) :
    Option ConfigsDelta :=
  let topics := match previous with
    | some previous =>
      (next.topics.toList.filter fun entry =>
        decide (previous.topics[entry.1]? ≠ some entry.2)).map Prod.fst ++
      previous.topics.keys.filter fun topic => !next.topics.contains topic
    | none => next.topics.keys
  let topics := sortDedup topics
  if topics.isEmpty then none else some { topics }

structure LogDirsDelta where
  topics : List String
  brokersChanged : Bool
  deriving DecidableEq, Repr

namespace LogDirsDelta

def between (previous : Option LogDirTable) (next : LogDirTable) : Option LogDirsDelta :=
  let previous := previous.getD .empty
  let topics :=
    (next.partitions.toList.filter fun entry =>
      decide (previous.partitions[entry.1]? ≠ some entry.2)).map Prod.fst ++
    previous.partitions.keys.filter fun topic => !next.partitions.contains topic
  let topics := topics.insertionSort (· ≤ ·)
  let brokersChanged := decide (previous.brokers ≠ next.brokers)
  if brokersChanged || !topics.isEmpty then some { topics, brokersChanged } else none

def touchesTopic (delta : LogDirsDelta) (topic : String) : Bool := delta.topics.contains topic

end LogDirsDelta

structure SubjectsDelta where
  added : List String
  removed : List String
  changed : List String
  deriving DecidableEq, Repr

namespace SubjectsDelta

def of {V : Type} [DecidableEq V] (previous : Option (ExtTreeMap String V))
    (next : ExtTreeMap String V) : Option SubjectsDelta :=
  let diff := diffMaps (previous.getD ∅) next
  if diff.isEmpty then none
  else some { added := diff.added, removed := diff.removed, changed := diff.changed }

def between (previous : Option SubjectTable) (next : SubjectTable) : Option SubjectsDelta :=
  of (previous.map SubjectTable.subjects) next.subjects

def ofIds (previous : Option SchemaIdTable) (next : SchemaIdTable) : Option SubjectsDelta :=
  of (previous.map SchemaIdTable.subjects) next.subjects

end SubjectsDelta
end Klens.Store
