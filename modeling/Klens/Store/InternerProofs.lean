import Klens.Store.Interner

/-! A topology of interned names is the topology of their texts, and its reverse
index is exact. -/
namespace Klens.Store
open Klens.Lib Std

theorem text_surjective : Function.Surjective ArcStr.text := fun text => ⟨⟨text, 0⟩, rfl⟩

namespace Interner
variable (interner : Interner) (name : String)

theorem intern_text : (interner.intern name).1.text = name := by
  rw [intern]
  split
  · next existing held =>
    have same := ExtTreeSet.compare_get?_self (t := interner.names)
      (k := { text := name, address := interner.next })
    rw [held] at same
    exact Relabel.byLabel_eq.mp (by simpa using same)
  · rfl

/-- One allocation for each text. -/
theorem intern_again : (interner.intern name).2.intern name = interner.intern name := by
  have found : ((interner.intern name).2.names.get?
      { text := name, address := (interner.intern name).2.next }) =
      some (interner.intern name).1 := by
    have here : ∀ address, byText ⟨name, interner.next⟩ ⟨name, address⟩ = .eq := fun _ =>
      Relabel.byLabel_eq.mpr rfl
    unfold intern
    split
    · next existing held => exact (ExtTreeSet.get?_congr (here _)).symm.trans held
    · next missing =>
      have fresh : (⟨name, interner.next⟩ : ArcStr) ∉ interner.names := fun held =>
        Option.isSome_iff_ne_none.mp (ExtTreeSet.mem_iff_isSome_get?.mp held) missing
      rw [ExtTreeSet.get?_insert, if_pos ⟨here _, fresh⟩]
  rw [intern, found]

/-- A name of the seed keeps its allocation. -/
theorem seeded_intern {names : List ArcStr} (distinct : (names.map ArcStr.text).Nodup)
    {name : ArcStr} (listed : name ∈ names) :
    (seeded names).intern name.text = (name, seeded names) := by
  have apart : names.Pairwise fun one two => ¬byText one two = .eq :=
    (List.pairwise_map.mp distinct).imp fun different same => different (Relabel.byLabel_eq.mp same)
  have held : (seeded names).names.get? { text := name.text, address := (seeded names).next } =
      some name := ExtTreeSet.get?_ofList_of_mem (Relabel.byLabel_eq.mpr rfl) apart listed
  rw [intern, held]

end Interner

namespace InternedTopology
open Relabel

private theorem relabel_assembleTopic (state : ExtTreeMap ArcStr TopicInfo byText × Interner)
    (topic : TopicMetadata) : relabel id (assembleTopic state topic).1 =
      (relabel id state.1).insert topic.name
        { internal := topic.internal, partitions := topic.partitions } := by
  rw [assembleTopic, relabel_insert text_surjective, Interner.intern_text]
  rfl

private theorem relabel_indexTopic (id : ArcStr)
    (state : ExtTreeMap ArcStr (List ArcStr) byText × Interner) (topic : String) :
    relabel (List.map ArcStr.text) (indexTopic id state topic).1 =
      Topology.indexTopic id.text (relabel (List.map ArcStr.text) state.1) topic := by
  rw [indexTopic, Topology.indexTopic, relabel_alter text_surjective _ _ _
    fun held => some (held.getD [] ++ [id.text]), Interner.intern_text]
  rintro (_ | ids) <;> simp

private theorem relabel_indexTopics (id : ArcStr) (topics : List String)
    (state : ExtTreeMap ArcStr (List ArcStr) byText × Interner) :
    relabel (List.map ArcStr.text) (topics.foldl (indexTopic id) state).1 =
      topics.foldl (Topology.indexTopic id.text) (relabel (List.map ArcStr.text) state.1) := by
  induction topics generalizing state with
  | nil => rfl
  | cons topic topics ih => rw [List.foldl_cons, ih, relabel_indexTopic, List.foldl_cons]

/-- The reverse index and the groups of an assembly, as texts. -/
def Assembly.texts (state : Assembly) :
    ExtTreeMap String (List String) × ExtTreeMap String GroupInfo :=
  (relabel (List.map ArcStr.text) state.topicGroups, relabel id state.groups)

private theorem texts_assembleGroup (state : Assembly) (group : GroupSnapshot) :
    (assembleGroup state group).texts = Topology.assembleGroup state.texts group := by
  have name := state.interner.intern_text group.id
  refine Prod.ext ?_ ?_
  · simp only [assembleGroup, Assembly.texts, Topology.assembleGroup, relabel_indexTopics, name]
  · simp only [assembleGroup, Assembly.texts, Topology.assembleGroup,
      relabel_insert text_surjective, name, id]

private theorem texts_assembleGroups (groups : List GroupSnapshot) (state : Assembly) :
    (groups.foldl assembleGroup state).texts = groups.foldl Topology.assembleGroup state.texts := by
  induction groups generalizing state with
  | nil => rfl
  | cons group groups ih => rw [List.foldl_cons, ih, texts_assembleGroup, List.foldl_cons]

private theorem relabel_assembleTopics (topics : List TopicMetadata)
    (state : ExtTreeMap ArcStr TopicInfo byText × Interner) :
    relabel id (topics.foldl assembleTopic state).1 =
      (relabel id state.1).insertMany (topics.map fun topic =>
        (topic.name, TopicInfo.mk topic.internal topic.partitions)) := by
  induction topics generalizing state with
  | nil => rw [List.foldl_nil, List.map_nil, ExtTreeMap.insertMany_nil]
  | cons topic topics ih =>
    rw [List.foldl_cons, ih, relabel_assembleTopic, List.map_cons, ExtTreeMap.insertMany_cons]

/-- Whatever the interner held, the texts are those of the plain assembly. -/
theorem texts_assemble (snapshot : MetadataSnapshot) (groups : List GroupSnapshot)
    (interner : Interner) :
    (assemble snapshot groups interner).1.texts = Topology.assemble snapshot groups := by
  have named := relabel_assembleTopics snapshot.topics (∅, interner)
  have grouped := texts_assembleGroups groups
    { topicGroups := ∅, groups := ∅, interner := (snapshot.topics.foldl assembleTopic (∅, interner)).2 }
  have sorted : ∀ ids : List ArcStr,
      (ids.insertionSort fun one two => one.text ≤ two.text).map ArcStr.text =
        (ids.map ArcStr.text).insertionSort (· ≤ ·) := fun ids =>
    List.map_insertionSort _ _ _ _ fun _ _ _ _ => Iff.rfl
  simp only [Assembly.texts, relabel_empty] at named grouped
  obtain ⟨index, held⟩ := Prod.mk.inj grouped
  simp only [texts, assemble, Topology.assemble, named, ← index, ← held,
    relabel_map text_surjective _ _ sorted, ExtTreeMap.ofList_eq_insertMany_empty]

end InternedTopology

namespace Topology
variable {snapshot : MetadataSnapshot} {groups : List GroupSnapshot}

theorem mem_consumers {topic id : String} : id ∈ consumers groups topic ↔
    ∃ group ∈ groups, group.id = id ∧ topic ∈ group.consumedTopics := by
  simp only [consumers, List.mem_map, List.mem_filter, decide_eq_true_eq]
  exact exists_congr fun group => by tauto

/-- The order the groups are listed in does not show. -/
theorem assemble_perm {others : List GroupSnapshot} (distinct : (groups.map GroupSnapshot.id).Nodup)
    (same : others.Perm groups) : assemble snapshot others = assemble snapshot groups := by
  have distinct' : (others.map GroupSnapshot.id).Nodup := (same.map _).nodup_iff.mpr distinct
  have held : (assemble snapshot others).groups = (assemble snapshot groups).groups := by
    refine ExtTreeMap.ext_getElem? fun id => Option.ext fun info => ?_
    simp only [groups_assemble distinct, groups_assemble distinct', same.mem_iff]
  have index : (assemble snapshot others).topicGroups = (assemble snapshot groups).topicGroups := by
    refine ExtTreeMap.ext_getElem? fun topic => ?_
    have listed : (consumers others topic).Perm (consumers groups topic) := (same.filter _).map _
    have sorted := List.Perm.eq_of_pairwise (fun _ _ _ _ before after => before.antisymm after)
      (List.pairwise_insertionSort (· ≤ ·) _) (List.pairwise_insertionSort (· ≤ ·) _)
      (((List.perm_insertionSort (· ≤ ·) _).trans listed).trans
        (List.perm_insertionSort (· ≤ ·) _).symm)
    rw [topicGroups_assemble, topicGroups_assemble, sorted]
  exact congrArg₂ (Topology.mk none _ _) held index

end Topology

/-- Of the groups it was given, in whatever order, and whatever names the
interner held, a topology lists for each topic exactly those that consume it,
in strict order, each one of its groups. -/
theorem topic_groups_exact (snapshot : MetadataSnapshot) {groups : List GroupSnapshot}
    (distinct : (groups.map GroupSnapshot.id).Nodup) (interner : Interner) :
    let topology := (InternedTopology.assemble snapshot groups interner).1
    (∀ topic, ((topology.groupsForTopic topic).map ArcStr.text).Pairwise (· < ·) ∧
      (∀ id, id ∈ (topology.groupsForTopic topic).map ArcStr.text ↔
        ∃ group ∈ groups, group.id = id ∧ topic ∈ group.consumedTopics) ∧
      ∀ id ∈ topology.groupsForTopic topic, id ∈ topology.groups) ∧
    ∀ others held, others.Perm groups →
      (InternedTopology.assemble snapshot others held).1.texts = topology.texts := by
  intro topology
  have read : topology.texts = Topology.assemble snapshot groups :=
    InternedTopology.texts_assemble snapshot groups interner
  have listed : ∀ topic, (topology.groupsForTopic topic).map ArcStr.text =
      (Topology.assemble snapshot groups).groupsForTopic topic := by
    intro topic
    have here := Relabel.getElem?_relabel (List.map ArcStr.text) topology.topicGroups ⟨topic, 0⟩
    rw [← read, Topology.groupsForTopic, InternedTopology.groupsForTopic]
    rw [InternedTopology.texts, here]
    cases topology.topicGroups[(⟨topic, 0⟩ : ArcStr)]? <;> rfl
  refine ⟨fun topic => ⟨?_, fun id => ?_, fun id member => ?_⟩, fun others held same => ?_⟩
  · rw [listed, Topology.groupsForTopic_assemble]
    exact insertionSort_pairwise_lt (distinct.sublist (List.filter_sublist.map _))
  · rw [listed, Topology.groupsForTopic_assemble, (List.perm_insertionSort _ _).mem_iff,
      Topology.mem_consumers]
  · have indexed : id.text ∈ (Topology.assemble snapshot groups).groupsForTopic topic :=
      listed topic ▸ List.mem_map_of_mem member
    have known := Topology.mem_groups_of_indexed indexed
    rw [← read] at known
    exact Relabel.mem_relabel.mp known
  · rw [InternedTopology.texts_assemble, Topology.assemble_perm distinct same, read]

private def reader (id : String) (topics : List String) : GroupSnapshot :=
  { id, state := .stable, protocol := "range", committed := []
    members := [⟨"one", id, "host", topics.map fun topic => ⟨topic, [0]⟩⟩,
      ⟨"two", id, "host", topics.map fun topic => ⟨topic, [1]⟩⟩] }

private def readers : List GroupSnapshot :=
  [reader "billing" ["orders", "payments"], reader "audit" ["orders"]]

theorem topic_groups_exact_readers :
    let topology := (InternedTopology.assemble ⟨[], []⟩ readers (.seeded [⟨"orders", 5⟩])).1
    topology.groupsForTopic "orders" = [⟨"audit", 8⟩, ⟨"billing", 6⟩] ∧
    (InternedTopology.assemble ⟨[], []⟩ readers.reverse .empty).1.texts = topology.texts :=
  ⟨by decide, (topic_groups_exact ⟨[], []⟩ (by decide) (.seeded [⟨"orders", 5⟩])).2 _ .empty
    (List.reverse_perm readers)⟩

end Klens.Store
