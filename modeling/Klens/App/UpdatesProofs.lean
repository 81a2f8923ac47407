import Klens.App.Updates
import Klens.Store.BusProofs
import Klens.Store.Cluster
import Klens.Store.TablesProofs

/-! A stream opened for one topic, against the pages of that topic. -/
namespace Klens.App
open Klens.Store Std

section Topics
variable {Rate : Type}

/-- The scope of a page that shows one topic. -/
def topicScope (topic : String) : Scope := { topic := some topic, group := none }

/-- What the stream of a topic sends when `next` follows `previous`. -/
def topologyUpdates (previous : Option Topology) (next : Topology) (topic : String) :
    List (Update Rate) :=
  match TopologyDelta.between previous next with
  | none => []
  | some delta => (topicScope topic).updates (.topology delta)

private theorem touchesTopic_iff {previous : Option Topology} {next : Topology}
    {delta : TopologyDelta} (moved : TopologyDelta.between previous next = some delta)
    (topic : String) : delta.touchesTopic topic = true ↔
      (previous.getD .empty).topics[topic]? ≠ next.topics[topic]? := by
  have listed : TopologyDelta.touchesTopic delta topic = true ↔
      topic ∈ (diffMaps (previous.getD .empty).topics next.topics).added ∨
        topic ∈ (diffMaps (previous.getD .empty).topics next.topics).removed ∨
        topic ∈ (diffMaps (previous.getD .empty).topics next.topics).changed := by
    unfold TopologyDelta.between at moved
    dsimp only at moved
    split at moved
    · contradiction
    · obtain rfl := Option.some.inj moved
      simp [TopologyDelta.touchesTopic, or_assoc]
  rw [listed, mem_diffMaps]

/-- Only a change of the topic's own entry is sent. -/
theorem topologyUpdates_ne_nil {previous : Option Topology} {next : Topology} {topic : String} :
    (topologyUpdates previous next topic : List (Update Rate)) ≠ [] ↔
      (previous.getD .empty).topics[topic]? ≠ next.topics[topic]? := by
  unfold topologyUpdates
  cases moved : TopologyDelta.between previous next with
  | none =>
    obtain ⟨-, -, topics, -⟩ := TopologyDelta.between_eq_none.mp moved
    simp [topics]
  | some delta =>
    rw [← touchesTopic_iff moved]
    simp [Scope.updates, Scope.relevant, topicScope]

/-- Committing `next` changes a page of the topic only if the stream says so. -/
def Noticed [Zero Rate] (store : ClusterStore Rate) (topic : String) (now : Int)
    (next : Topology) : Prop :=
  (store.topicDetail topic ≠ (store.commitTopology now next).topicDetail topic ∨
    store.topicGroups topic ≠ (store.commitTopology now next).topicGroups topic) →
  (topologyUpdates store.topology.load next topic : List (Update Rate)) ≠ []

/-- What a group lags on a topic, over the offsets and marks the store holds. -/
def lagOnTopic (store : ClusterStore Rate) (topic id : String) (group : GroupInfo) : Option Int :=
  let offsets := offsetsFor store.offsets.load id
  (positionsLag (positions group offsets (some topic)) offsets.isSome store.watermarks.load).1

/-- Two topologies show the consumers of a topic alike: the same groups, each in
the same state, with as many members and the same lag on the topic. -/
def SameConsumers (store : ClusterStore Rate) (previous next : Topology) (topic : String) : Prop :=
  previous.groupsForTopic topic = next.groupsForTopic topic ∧
  ∀ id ∈ next.groupsForTopic topic, ∀ before after,
    previous.groups[id]? = some before → next.groups[id]? = some after →
      before.state = after.state ∧ before.members.length = after.members.length ∧
        lagOnTopic store topic id before = lagOnTopic store topic id after

private theorem topicGroup_eq_iff (store : ClusterStore Rate) (topic id : String)
    (before after : GroupInfo) :
    store.topicGroup topic id before = store.topicGroup topic id after ↔
      before.state = after.state ∧ before.members.length = after.members.length ∧
        lagOnTopic store topic id before = lagOnTopic store topic id after := by
  simp [ClusterStore.topicGroup, TopicGroupRow.project, lagOnTopic]

section Rows
variable {α β : Type} {label : β → α}

private theorem map_filterMap_label {row : α → Option β} {ids : List α}
    (labelled : ∀ id ∈ ids, ∃ shown, row id = some shown ∧ label shown = id) :
    (ids.filterMap row).map label = ids := by
  induction ids with
  | nil => rfl
  | cons id ids ih =>
    obtain ⟨shown, here, same⟩ := labelled id (by simp)
    rw [List.filterMap_cons_some here, List.map_cons, same,
      ih fun other listed => labelled other (.tail _ listed)]

private theorem filterMap_label_eq_iff {first second : α → Option β} {left right : List α}
    (one : ∀ id ∈ left, ∃ shown, first id = some shown ∧ label shown = id)
    (two : ∀ id ∈ right, ∃ shown, second id = some shown ∧ label shown = id) :
    left.filterMap first = right.filterMap second ↔
      left = right ∧ ∀ id ∈ right, first id = second id := by
  constructor
  · intro same
    obtain rfl : left = right := by
      rw [← map_filterMap_label one, same, map_filterMap_label two]
    refine ⟨rfl, fun id listed => ?_⟩
    induction left with
    | nil => contradiction
    | cons head left ih =>
      obtain ⟨shown, here, -⟩ := one head (by simp)
      obtain ⟨other, there, -⟩ := two head (by simp)
      rw [List.filterMap_cons_some here, List.filterMap_cons_some there] at same
      obtain ⟨rfl, rest⟩ := List.cons.inj same
      rcases List.mem_cons.mp listed with rfl | later
      · rw [here, there]
      · exact ih (fun id member => one id (.tail _ member))
          (fun id member => two id (.tail _ member)) rest later
  · rintro ⟨rfl, same⟩
    exact List.filterMap_congr same

end Rows

/-- The rows a topology gives the page of a topic. -/
private def topicRowsOf (store : ClusterStore Rate) (topic : String) (topology : Topology) :
    List TopicGroupRow :=
  (topology.groupsForTopic topic).filterMap fun id =>
    topology.groups[id]?.map (store.topicGroup topic id)

private theorem topicRowsOf_eq_iff (store : ClusterStore Rate) {topic : String}
    {previous next : Topology}
    (left : ∀ id ∈ previous.groupsForTopic topic, id ∈ previous.groups)
    (right : ∀ id ∈ next.groupsForTopic topic, id ∈ next.groups) :
    topicRowsOf store topic previous = topicRowsOf store topic next ↔
      SameConsumers store previous next topic := by
  have labelled {topology : Topology} {id : String} (known : id ∈ topology.groups) :
      ∃ shown, topology.groups[id]?.map (store.topicGroup topic id) = some shown ∧
        TopicGroupRow.id shown = id := by
    rw [Lib.Maps.mem_iff_exists] at known
    obtain ⟨info, held⟩ := known
    exact ⟨_, by rw [held, Option.map_some], rfl⟩
  have rows := filterMap_label_eq_iff (fun id listed => labelled (left id listed))
    (fun id listed => labelled (right id listed))
  rw [topicRowsOf, topicRowsOf, rows, SameConsumers]
  refine and_congr_right fun same => forall₂_congr fun id listed => ?_
  have before := left id (same ▸ listed)
  have after := right id listed
  rw [Lib.Maps.mem_iff_exists] at before after
  obtain ⟨one, held⟩ := before
  obtain ⟨two, there⟩ := after
  simp only [held, there, Option.map_some, Option.some.injEq, topicGroup_eq_iff]
  exact ⟨by rintro alike _ _ rfl rfl; exact alike, fun alike => alike one two rfl rfl⟩

/-- The page of a topic reads its entry and counts its consumers. -/
private theorem topicDetail_eq [Zero Rate] (store : ClusterStore Rate) {topic : String}
    {previous next : Topology} (first second : Int)
    (entry : previous.topics[topic]? = next.topics[topic]?)
    (consumers : previous.groupsForTopic topic = next.groupsForTopic topic) :
    (store.commitTopology first previous).topicDetail topic =
      ((store.commitTopology first previous).commitTopology second next).topicDetail topic := by
  change previous.topics[topic]?.bind _ = next.topics[topic]?.bind _
  rw [entry]
  cases next.topics[topic]? with
  | none => rfl
  | some info =>
    simp only [Option.bind_some, TopicDetail.project, ClusterStore.topicLanes, consumers]
    rfl

/-- A stream opened for a topic misses no change of its pages exactly when the
topic's own entry moved, or its consumers did not. -/
theorem topic_stream_notices_iff [Zero Rate] (store : ClusterStore Rate) (topic : String)
    (first second : Int) (metadata metadata' : MetadataSnapshot)
    (groups groups' : List GroupSnapshot) :
    Noticed (store.commitTopology first (.assemble metadata groups)) topic second
        (.assemble metadata' groups') ↔
      (Topology.assemble metadata groups).topics[topic]? ≠
          (Topology.assemble metadata' groups').topics[topic]? ∨
        SameConsumers store (.assemble metadata groups) (.assemble metadata' groups') topic := by
  have left : ∀ id ∈ (Topology.assemble metadata groups).groupsForTopic topic,
      id ∈ (Topology.assemble metadata groups).groups :=
    fun _ => Topology.mem_groups_of_indexed
  have right : ∀ id ∈ (Topology.assemble metadata' groups').groupsForTopic topic,
      id ∈ (Topology.assemble metadata' groups').groups :=
    fun _ => Topology.mem_groups_of_indexed
  have rows := topicRowsOf_eq_iff store left right
  rw [Noticed, topologyUpdates_ne_nil]
  constructor
  · intro noticed
    by_cases entry : (Topology.assemble metadata groups).topics[topic]? =
        (Topology.assemble metadata' groups').topics[topic]?
    · -- Nothing is sent, so the rows must not have moved.
      refine .inr (rows.mp ?_)
      by_contra moved
      exact noticed (.inr moved) entry
    · exact .inl entry
  · rintro (moved | alike) changed
    · exact moved
    · intro entry
      rcases changed with detail | shown
      · exact detail (topicDetail_eq store first second entry alike.1)
      · exact shown (rows.mpr alike)

section Examples

private def orders : MetadataSnapshot :=
  { brokers := []
    topics := [{ name := "orders", internal := false,
                 partitions := [{ id := 0, leader := 1, replicas := [1], isr := [1] }] }] }

private def billing : GroupSnapshot :=
  { id := "billing"
    state := .stable
    protocol := "range"
    members := [{ id := "m1", clientId := "c1", host := "h1",
                  assignments := [{ topic := "orders", partitions := [0] }] }]
    committed := [] }

/-- A group starts consuming the topic, and the stream stays silent. -/
theorem topic_stream_misses_new_consumer :
    ¬ Noticed ((ClusterStore.new : ClusterStore Int).commitTopology 0 (.assemble orders []))
      "orders" 1 (.assemble orders [billing]) := by
  intro noticed
  refine noticed (.inr ?_) (by decide)
  decide

end Examples

end Topics
end Klens.App
