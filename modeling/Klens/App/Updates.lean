import Klens.Store.Change

/-! The updates a stream sends for a change, narrowed to the topic or the group
it was opened for. -/
namespace Klens.App
open Klens.Store

inductive Update (Rate : Type) where
  | watermarks (topics : List (TopicRate Rate))
  | groupLag (group : String) (lag : Int) (lagComplete : Bool) (offsets : List GroupOffset)
  | topology (addedTopics removedTopics changedTopics : List String)
      (addedGroups removedGroups changedGroups : List String) (brokersChanged : Bool)
  | configs (topics : List String)
  | subjects (removed changed : List String)
  | logDirs (topics : List String) (brokersChanged : Bool)
  | acls
  | quotas
  | scramUsers
  | resync
  deriving DecidableEq, Repr

variable {Rate : Type}

def Update.ofGroupLag (update : GroupLagUpdate) (withOffsets : Bool) : Update Rate :=
  .groupLag update.group update.totalLag update.lagComplete
    (if withOffsets then update.offsets else [])

structure Scope where
  topic : Option String
  group : Option String
  deriving DecidableEq, Repr

namespace Scope

/-- The scope of a query: names are trimmed and blank ones dropped. -/
def ofQuery (topic group : Option String) : Scope :=
  let named (value : Option String) : Option String :=
    (value.map fun value => String.ofList (Scan.trim value.toList)).filter (· ≠ "")
  { topic := named topic, group := named group }

/-- Whether a change of the topology is sent at all. -/
def relevant (scope : Scope) (delta : TopologyDelta) : Bool :=
  match scope.topic, scope.group with
  | none, none => true
  | topic, group => topic.any delta.touchesTopic || group.any delta.touchesGroup

def updates (scope : Scope) : Change Rate → List (Update Rate)
  | .watermarks tick =>
    match scope.topic with
    | none => [.watermarks tick.rates]
    | some topic =>
      match tick.rate topic with
      | none => []
      | some rate => [.watermarks [{ topic, rate }]]
  | .groupOffsets wave =>
    match scope.group with
    | some group => ((wave.group group).map fun update => Update.ofGroupLag update true).toList
    | none => wave.groups.map fun update => .ofGroupLag update false
  | .topology delta =>
    if scope.relevant delta then
      [.topology delta.addedTopics delta.removedTopics delta.changedTopics delta.addedGroups
        delta.removedGroups delta.changedGroups delta.brokersChanged]
    else []
  | .configs delta =>
    match scope.topic with
    | none => [.configs delta.topics]
    | some topic => if delta.topics.contains topic then [.configs [topic]] else []
  | .subjects delta => [.subjects delta.removed delta.changed]
  | .logDirs delta =>
    match scope.topic with
    | none => [.logDirs delta.topics delta.brokersChanged]
    | some topic => if delta.touchesTopic topic then [.logDirs [topic] false] else []
  | .acls => [.acls]
  | .quotas => [.quotas]
  | .scramUsers => [.scramUsers]

end Scope
end Klens.App
