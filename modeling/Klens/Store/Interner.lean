import Klens.Lib.Relabel
import Klens.Store.TablesProofs

/-! Interned names: one allocation for each text, shared by all that hold it.
Names compare as their texts do, so a topology of shared names reads as the
topology of their texts. -/
namespace Klens.Store
open Klens.Lib Std

/-- `Arc<str>`: a text and where it stands. -/
structure ArcStr where
  text : String
  address : Nat
  deriving DecidableEq, Repr

/-- Names compare by text. -/
abbrev byText : ArcStr → ArcStr → Ordering := Relabel.byLabel ArcStr.text

/-- The names handed out, and the next free address. -/
structure Interner where
  names : ExtTreeSet ArcStr byText
  next : Nat

namespace Interner

def empty : Interner := { names := ∅, next := 0 }

def seeded (names : List ArcStr) : Interner :=
  { names := .ofList names byText
    next := (names.map fun name => name.address + 1).foldl max 0 }

def intern (interner : Interner) (name : String) : ArcStr × Interner :=
  match interner.names.get? { text := name, address := interner.next } with
  | some existing => (existing, interner)
  | none =>
    let interned : ArcStr := { text := name, address := interner.next }
    (interned, { names := interner.names.insert interned, next := interner.next + 1 })

end Interner

structure InternedTopology where
  controller : Option Int
  brokers : ExtTreeMap Int BrokerInfo
  topics : ExtTreeMap ArcStr TopicInfo byText
  groups : ExtTreeMap ArcStr GroupInfo byText
  topicGroups : ExtTreeMap ArcStr (List ArcStr) byText

namespace InternedTopology

def assembleTopic (state : ExtTreeMap ArcStr TopicInfo byText × Interner) (topic : TopicMetadata) :
    ExtTreeMap ArcStr TopicInfo byText × Interner :=
  let (name, interner) := state.2.intern topic.name
  (state.1.insert name { internal := topic.internal, partitions := topic.partitions }, interner)

/-- `topic_groups.entry(interner.intern(topic)).or_default().push(Arc::clone(&id))`. -/
def indexTopic (id : ArcStr) (state : ExtTreeMap ArcStr (List ArcStr) byText × Interner)
    (topic : String) : ExtTreeMap ArcStr (List ArcStr) byText × Interner :=
  let (name, interner) := state.2.intern topic
  (state.1.alter name fun held => some (held.getD [] ++ [id]), interner)

/-- The reverse index, the groups and the names so far. -/
structure Assembly where
  topicGroups : ExtTreeMap ArcStr (List ArcStr) byText
  groups : ExtTreeMap ArcStr GroupInfo byText
  interner : Interner

def assembleGroup (state : Assembly) (group : GroupSnapshot) : Assembly :=
  let (id, interner) := state.interner.intern group.id
  let (topicGroups, interner) :=
    (sortDedup group.consumedTopics).foldl (indexTopic id) (state.topicGroups, interner)
  { topicGroups
    groups := state.groups.insert id
      { state := group.state, protocol := group.protocol, members := group.members }
    interner }

def assemble (snapshot : MetadataSnapshot) (groups : List GroupSnapshot) (interner : Interner) :
    InternedTopology × Interner :=
  let (topics, interner) := snapshot.topics.foldl assembleTopic (∅, interner)
  let assembled := groups.foldl assembleGroup { topicGroups := ∅, groups := ∅, interner }
  ({ controller := none
     brokers := .ofList (snapshot.brokers.map fun broker =>
       (broker.id, BrokerInfo.mk broker.host broker.port broker.rack))
     topics
     groups := assembled.groups
     topicGroups := assembled.topicGroups.map fun _ ids =>
       ids.insertionSort fun one two => one.text ≤ two.text },
    assembled.interner)

/-- A lookup by text, whatever the address. -/
def groupsForTopic (topology : InternedTopology) (topic : String) : List ArcStr :=
  topology.topicGroups[({ text := topic, address := 0 } : ArcStr)]?.getD []

/-- The topology of the texts. -/
def texts (topology : InternedTopology) : Topology :=
  { controller := topology.controller
    brokers := topology.brokers
    topics := Relabel.relabel id topology.topics
    groups := Relabel.relabel id topology.groups
    topicGroups := Relabel.relabel (List.map ArcStr.text) topology.topicGroups }

end InternedTopology
end Klens.Store
