import Klens.Lib.Maps
import Klens.Store.Tables

/-! The reverse index of a topology says what its groups say. -/
namespace Klens.Store
open Klens.Lib Std

namespace Topology
variable {snapshot : MetadataSnapshot} {groups : List GroupSnapshot}

/-- The groups that consume a topic, in the order they were listed. -/
def consumers (groups : List GroupSnapshot) (topic : String) : List String :=
  (groups.filter fun group => decide (topic ∈ group.consumedTopics)).map GroupSnapshot.id

/-- A topic nobody consumes is not in the index. -/
def entryOf (ids : List String) : Option (List String) := if ids = [] then none else some ids

private theorem foldl_indexTopic (id : String) (topics : List String) (distinct : topics.Nodup)
    (index : ExtTreeMap String (List String)) (topic : String) :
    (topics.foldl (indexTopic id) index)[topic]? =
      if topic ∈ topics then some (index[topic]?.getD [] ++ [id]) else index[topic]? := by
  induction topics generalizing index with
  | nil => simp
  | cons first topics ih =>
    obtain ⟨fresh, later⟩ := List.nodup_cons.mp distinct
    rw [List.foldl_cons, ih later, indexTopic, ExtTreeMap.getElem?_alter]
    by_cases same : first = topic
    · subst same
      simp [fresh]
    · have apart : compare first topic ≠ .eq := mt LawfulEqCmp.eq_of_compare same
      simp [apart, Ne.symm same]

private theorem assembleGroup_fst (groups before : List GroupSnapshot)
    (index : ExtTreeMap String (List String)) (assembled : ExtTreeMap String GroupInfo)
    (held : ∀ topic : String, index[topic]? = entryOf (consumers before topic)) (topic : String) :
    (groups.foldl assembleGroup (index, assembled)).1[topic]? =
      entryOf (consumers (before ++ groups) topic) := by
  induction groups generalizing before index assembled with
  | nil => simpa using held topic
  | cons group groups ih =>
    rw [List.foldl_cons, List.append_cons]
    refine ih (before ++ [group]) _ _ fun other => ?_
    dsimp only
    rw [foldl_indexTopic _ _ (sortDedup_nodup _), held other]
    simp only [mem_sortDedup, consumers, List.filter_append, List.map_append]
    by_cases consumes : other ∈ group.consumedTopics
    · simp only [consumes, if_true, decide_true, List.filter_cons_of_pos, List.filter_nil,
        List.map_singleton, entryOf]
      split <;> simp_all
    · simp [consumes]

/-- What the index holds for a topic: its consumers, sorted, or no entry. -/
theorem topicGroups_assemble (topic : String) :
    (assemble snapshot groups).topicGroups[topic]? =
      entryOf ((consumers groups topic).insertionSort (· ≤ ·)) := by
  have index := assembleGroup_fst groups [] ∅ ∅ (by simp [consumers, entryOf]) topic
  rw [List.nil_append] at index
  have sorted : entryOf ((consumers groups topic).insertionSort (· ≤ ·)) =
      (entryOf (consumers groups topic)).map fun ids => ids.insertionSort (· ≤ ·) := by
    simp only [entryOf, insertionSort_eq_nil]
    split <;> rfl
  rw [sorted, ← index]
  exact ExtTreeMap.getElem?_map

theorem groupsForTopic_assemble (topic : String) :
    (assemble snapshot groups).groupsForTopic topic =
      (consumers groups topic).insertionSort (· ≤ ·) := by
  rw [groupsForTopic, topicGroups_assemble, entryOf]
  split
  · next none => rw [none, Option.getD_none]
  · rfl

private theorem assembleGroup_snd (groups : List GroupSnapshot)
    (state : ExtTreeMap String (List String) × ExtTreeMap String GroupInfo) :
    (groups.foldl assembleGroup state).2 =
      state.2.insertMany (groups.map fun group =>
        (group.id, GroupInfo.mk group.state group.protocol group.members)) := by
  rw [← Maps.foldl_insert_eq groups GroupSnapshot.id
    (fun group => GroupInfo.mk group.state group.protocol group.members)]
  induction groups generalizing state with
  | nil => rfl
  | cons group groups ih => exact ih _

private theorem groups_eq_ofList : (assemble snapshot groups).groups =
    .ofList (groups.map fun group =>
      (group.id, GroupInfo.mk group.state group.protocol group.members)) := by
  rw [ExtTreeMap.ofList_eq_insertMany_empty]
  exact assembleGroup_snd groups (∅, ∅)

/-- Whoever the index names is a group. -/
theorem mem_groups_of_indexed {topic id : String}
    (indexed : id ∈ (assemble snapshot groups).groupsForTopic topic) :
    id ∈ (assemble snapshot groups).groups := by
  have consumer : id ∈ consumers groups topic := by
    rwa [groupsForTopic_assemble, (List.perm_insertionSort _ _).mem_iff] at indexed
  obtain ⟨group, listed, rfl⟩ := List.mem_map.mp consumer
  rw [groups_eq_ofList, ExtTreeMap.mem_ofList, List.contains_iff_mem, List.map_map]
  exact List.mem_map.mpr ⟨group, List.mem_of_mem_filter listed, rfl⟩

/-- With distinct ids, the groups are what was listed under each. -/
theorem groups_assemble (distinct : (groups.map GroupSnapshot.id).Nodup) {id : String}
    {info : GroupInfo} : (assemble snapshot groups).groups[id]? = some info ↔
      ∃ group ∈ groups, group.id = id ∧
        GroupInfo.mk group.state group.protocol group.members = info := by
  have functional := Maps.functional_of_nodup distinct fun group =>
    GroupInfo.mk group.state group.protocol group.members
  rw [groups_eq_ofList, Maps.getElem?_ofList functional, List.mem_map]
  simp only [Prod.mk.injEq]

/-- A topology as the client builds it: one snapshot per group, without
committed offsets. -/
def Assembled (topology : Topology) : Prop :=
  ∃ snapshot groups, (groups.map GroupSnapshot.id).Nodup ∧
    (∀ group ∈ groups, group.committed = []) ∧ topology = assemble snapshot groups

theorem assembled_empty : empty.Assembled :=
  ⟨⟨[], []⟩, [], by simp, by simp, by simp [assemble, empty]⟩

/-- Who consumes a topic can be read off the groups. -/
theorem Assembled.mem_consumers {topology : Topology} (assembled : topology.Assembled)
    (topic : String) : ∃ ids, topology.topicGroups[topic]? = entryOf ids ∧
      ids.Pairwise (· < ·) ∧ ∀ id, id ∈ ids ↔
        ∃ info, topology.groups[id]? = some info ∧ topic ∈ assignedTopics info.members := by
  obtain ⟨snapshot, groups, distinct, uncommitted, rfl⟩ := assembled
  refine ⟨(consumers groups topic).insertionSort (· ≤ ·), topicGroups_assemble topic, ?_,
    fun id => ?_⟩
  · exact insertionSort_pairwise_lt (distinct.sublist (List.filter_sublist.map _))
  · rw [(List.perm_insertionSort _ _).mem_iff, consumers, List.mem_map]
    simp only [groups_assemble distinct, List.mem_filter, decide_eq_true_eq]
    constructor
    · rintro ⟨group, ⟨listed, consumes⟩, rfl⟩
      refine ⟨_, ⟨group, listed, rfl, rfl⟩, ?_⟩
      simpa [GroupSnapshot.consumedTopics, uncommitted group listed] using consumes
    · rintro ⟨_, ⟨group, listed, rfl, rfl⟩, consumes⟩
      exact ⟨group, ⟨listed, List.mem_append_left _ consumes⟩, rfl⟩

/-- The groups decide the index. -/
theorem Assembled.topicGroups_eq {first second : Topology} (left : first.Assembled)
    (right : second.Assembled) (same : first.groups = second.groups) :
    first.topicGroups = second.topicGroups := by
  refine ExtTreeMap.ext_getElem? fun topic => ?_
  obtain ⟨ids, held, ascending, members⟩ := left.mem_consumers topic
  obtain ⟨others, there, rising, listed⟩ := right.mem_consumers topic
  rw [held, there, eq_of_ascending ascending rising fun id => by rw [members, listed, same]]

end Topology
end Klens.Store
