import Klens.App.Mcp.Findings
import Mathlib.Algebra.BigOperators.Group.Finset.Sigma
import Mathlib.Algebra.Order.BigOperators.Group.Finset

/-! Each finding about a group is told just where it holds of the group. -/
namespace Klens.App.Mcp
open Klens.Lib Klens.Store Std

/-- The member is assigned the partition. -/
def Holds (member : GroupMember) (topic : String) (id : Int) : Prop :=
  ∃ assignment ∈ member.assignments, assignment.topic = topic ∧ id ∈ assignment.partitions

instance (member : GroupMember) (topic : String) (id : Int) : Decidable (Holds member topic id) :=
  inferInstanceAs (Decidable (∃ assignment ∈ member.assignments, _))

/-- Some member is assigned the topic. -/
def Assigned (members : List GroupMember) (topic : String) : Prop :=
  ∃ member ∈ members, ∃ assignment ∈ member.assignments, assignment.topic = topic

namespace Finding
variable {members : List GroupMember} {topic : String} {topology : Topology}

theorem holdPartitions_touches : ByKey.Touches
    (fun assignment : MemberAssignment => some assignment.topic)
    (fun assignment held => some (held.getD [] ++ assignment.partitions)) holdPartitions := by
  intro assigned assignment name
  simp only [holdPartitions, Option.some.injEq, ExtTreeMap.getElem?_insert]
  by_cases same : assignment.topic = name
  · subst same
    simp
  · have apart : compare assignment.topic name ≠ .eq := mt LawfulEqCmp.eq_of_compare same
    simp [same, apart]

theorem foldl_partitions (assignments : List MemberAssignment) (held : Option (List Int)) :
    assignments.foldl (fun held assignment => some (held.getD [] ++ assignment.partitions)) held =
      if assignments = [] then held
      else some (held.getD [] ++ assignments.flatMap MemberAssignment.partitions) := by
  induction assignments generalizing held with
  | nil => rfl
  | cons assignment assignments ih =>
    rw [List.foldl_cons, ih]
    by_cases last : assignments = []
    · simp [last]
    · simp [last]

theorem getElem?_assigned_iff {held : List Int} : (assigned members)[topic]? = some held ↔
    Assigned members topic ∧ held = ((members.flatMap GroupMember.assignments).filter
      fun assignment => decide (assignment.topic = topic)).flatMap MemberAssignment.partitions := by
  have known : ((members.flatMap GroupMember.assignments).filter
      fun assignment => decide (assignment.topic = topic)) ≠ [] ↔ Assigned members topic := by
    rw [← List.length_pos_iff, List.length_pos_iff_exists_mem]
    simp only [List.mem_filter, List.mem_flatMap, decide_eq_true_eq]
    constructor
    · rintro ⟨assignment, ⟨member, one, here⟩, same⟩
      exact ⟨member, one, assignment, here, same⟩
    · rintro ⟨member, one, assignment, here, same⟩
      exact ⟨assignment, ⟨member, one, here⟩, same⟩
  rw [← known, assigned, holdPartitions_touches.getElem?_foldl, foldl_partitions]
  simp only [Option.some.injEq, ExtTreeMap.getElem?_empty, Option.getD_none, List.nil_append]
  split
  · rename_i none
    constructor
    · intro same
      contradiction
    · rintro ⟨some, _⟩
      contradiction
  · rename_i some
    rw [Option.some.injEq, eq_comm]
    exact ⟨fun same => ⟨some, same⟩, And.right⟩

/-- What is held of an assigned topic is what its members hold. -/
theorem mem_assigned {held : List Int} (found : (assigned members)[topic]? = some held) (id : Int) :
    id ∈ held ↔ ∃ member ∈ members, Holds member topic id := by
  rw [(getElem?_assigned_iff.mp found).2]
  simp only [Holds, List.mem_flatMap, List.mem_filter, decide_eq_true_eq]
  constructor
  · rintro ⟨assignment, ⟨⟨member, one, here⟩, same⟩, holds⟩
    exact ⟨member, one, assignment, here, same, holds⟩
  · rintro ⟨member, one, assignment, here, same, holds⟩
    exact ⟨assignment, ⟨⟨member, one, here⟩, same⟩, holds⟩

theorem mem_toList_assigned {held : List Int} : (topic, held) ∈ (assigned members).toList ↔
    (assigned members)[topic]? = some held :=
  ExtTreeMap.mem_toList_iff_getElem?_eq_some

theorem mem_keys_assigned :
    topic ∈ (assigned members).toList.map Prod.fst ↔ Assigned members topic := by
  rw [List.mem_map]
  constructor
  · rintro ⟨⟨_, held⟩, listed, rfl⟩
    exact (getElem?_assigned_iff.mp (mem_toList_assigned.mp listed)).1
  · intro known
    exact ⟨(topic, _), mem_toList_assigned.mpr (getElem?_assigned_iff.mpr ⟨known, rfl⟩), rfl⟩

/-- The partitions of a topic that nobody holds. -/
def unassignedOf (topology : Topology) (entry : String × List Int) : Option Finding := do
  let info ← topology.topics[entry.1]?
  let ids := info.partitionIds.filter fun id => !entry.2.contains id
  if ids.isEmpty then none else some (unassignedPartitions entry.1 ids none)

def partitionCount (topology : Topology) (topic : String) : Nat :=
  (topology.topics[topic]?.map fun info => info.partitions.length).getD 0

/-- A survey gathers what each topic gives. -/
theorem foldl_surveyTopic (entries : List (String × List Int)) (start : Survey) :
    entries.foldl (surveyTopic topology) start =
      { unassigned := start.unassigned ++ entries.filterMap (unassignedOf topology)
        partitions := start.partitions + (entries.map fun entry =>
          partitionCount topology entry.1).sum
        everyTopicKnown := start.everyTopicKnown &&
          entries.all fun entry => topology.topics[entry.1]?.isSome } := by
  induction entries generalizing start with
  | nil => simp
  | cons entry entries ih =>
    rw [List.foldl_cons, ih]
    cases found : topology.topics[entry.1]? with
    | none =>
      simp only [surveyTopic, found, List.filterMap_cons, unassignedOf, List.map_cons,
        List.sum_cons, List.all_cons, partitionCount, Option.bind_eq_bind, Option.bind_none,
        Option.map_none, Option.getD_none, Option.isSome_none, Bool.false_and, Bool.and_false,
        Nat.zero_add]
    | some info =>
      simp only [surveyTopic, found, List.filterMap_cons, unassignedOf, List.map_cons,
        List.sum_cons, List.all_cons, partitionCount, Option.bind_eq_bind, Option.bind_some,
        Option.map_some, Option.getD_some, Option.isSome_some, Bool.true_and, Survey.mk.injEq,
        Nat.add_assoc, and_true]
      split <;> simp

theorem survey_eq (topology : Topology) (members : List GroupMember) :
    survey topology members =
      { unassigned := (assigned members).toList.filterMap (unassignedOf topology)
        partitions := ((assigned members).toList.map fun entry =>
          partitionCount topology entry.1).sum
        everyTopicKnown := (assigned members).toList.all fun entry =>
          topology.topics[entry.1]?.isSome } := by
  rw [survey, foldl_surveyTopic]
  simp

/-- The topics that some member is assigned. -/
def topicsOf (members : List GroupMember) : Finset String :=
  ((members.flatMap GroupMember.assignments).map MemberAssignment.topic).toFinset

theorem mem_topicsOf : topic ∈ topicsOf members ↔ Assigned members topic := by
  simp only [topicsOf, List.mem_toFinset, List.mem_map, List.mem_flatMap, Assigned]
  constructor
  · rintro ⟨assignment, ⟨member, one, here⟩, same⟩
    exact ⟨member, one, assignment, here, same⟩
  · rintro ⟨member, one, assignment, here, same⟩
    exact ⟨assignment, ⟨member, one, here⟩, same⟩

theorem nodup_assigned (members : List GroupMember) :
    ((assigned members).toList.map Prod.fst).Nodup := by
  rw [ExtTreeMap.map_fst_toList_eq_keys]
  exact ExtTreeMap.nodup_keys

theorem partitions_survey (topology : Topology) (members : List GroupMember) :
    (survey topology members).partitions =
      ∑ topic ∈ topicsOf members, partitionCount topology topic := by
  have keys : ((assigned members).toList.map Prod.fst).toFinset = topicsOf members := by
    ext topic
    rw [List.mem_toFinset, mem_keys_assigned, mem_topicsOf]
  rw [survey_eq, ← keys, List.sum_toFinset _ (nodup_assigned members), List.map_map]
  rfl

theorem everyTopicKnown_survey : (survey topology members).everyTopicKnown = true ↔
    ∀ topic, Assigned members topic → topology.topics[topic]?.isSome = true := by
  rw [survey_eq]
  simp only [List.all_eq_true]
  constructor
  · intro all topic known
    obtain ⟨entry, listed, rfl⟩ := List.mem_map.mp (mem_keys_assigned.mpr known)
    exact all entry listed
  · exact fun all entry listed => all entry.1 (mem_keys_assigned.mp (List.mem_map_of_mem listed))

theorem assigned_isEmpty : (assigned members).isEmpty = false ↔ ∃ topic, Assigned members topic := by
  rw [← ExtTreeMap.isEmpty_toList, List.isEmpty_eq_false_iff_exists_mem]
  constructor
  · rintro ⟨entry, listed⟩
    exact ⟨entry.1, mem_keys_assigned.mp (List.mem_map_of_mem listed)⟩
  · rintro ⟨topic, known⟩
    obtain ⟨entry, listed, _⟩ := List.mem_map.mp (mem_keys_assigned.mpr known)
    exact ⟨entry, listed⟩

/-- A finding about what nobody holds names it all. -/
theorem mem_unassigned {finding : Finding} :
    finding ∈ (survey topology members).unassigned ↔
      ∃ topic info ids, finding = unassignedPartitions topic ids none ∧ Assigned members topic ∧
        topology.topics[topic]? = some info ∧ ids ≠ [] ∧ ids = info.partitionIds.filter fun id =>
          decide (∀ member ∈ members, ¬ Holds member topic id) := by
  have free {topic : String} {held : List Int} (found : (assigned members)[topic]? = some held)
      (info : TopicInfo) : (info.partitionIds.filter fun id => !held.contains id) =
        info.partitionIds.filter fun id =>
          decide (∀ member ∈ members, ¬ Holds member topic id) := by
    refine List.filter_congr fun id _ => ?_
    have mine := mem_assigned found id
    rw [Bool.eq_iff_iff, decide_eq_true_eq, Bool.not_eq_true', ← Bool.not_eq_true,
      List.contains_iff_mem, mine]
    push Not
    rfl
  rw [survey_eq, List.mem_filterMap]
  constructor
  · rintro ⟨⟨topic, held⟩, listed, given⟩
    have found := mem_toList_assigned.mp listed
    obtain ⟨info, known, given⟩ := Option.bind_eq_some_iff.mp given
    obtain ⟨some, given⟩ := Option.ite_none_left_eq_some.mp given
    rw [free found] at some given
    exact ⟨topic, info, _, (Option.some.inj given).symm, (getElem?_assigned_iff.mp found).1, known,
      by simpa using some, rfl⟩
  · rintro ⟨topic, info, ids, rfl, reads, known, some, rfl⟩
    have found := getElem?_assigned_iff.mpr ⟨reads, rfl⟩
    refine ⟨(topic, _), mem_toList_assigned.mpr found, ?_⟩
    rw [unassignedOf, known]
    dsimp only [Option.bind_eq_bind, Option.bind_some]
    rw [free found, if_neg (by simpa using some)]

variable {group : GroupDetail}

theorem lag_of_found {finding : Finding} (found : findLagOnOneMember group = some finding) :
    ∃ memberId clientId host lag total,
      finding = lagOnOneMember memberId clientId host lag total := by
  obtain ⟨total, _, rest⟩ := Option.bind_eq_some_iff.mp found
  obtain ⟨_, rest⟩ := Option.ite_none_left_eq_some.mp rest
  obtain ⟨⟨member, lag⟩, _, rest⟩ := Option.bind_eq_some_iff.mp rest
  obtain ⟨_, rest⟩ := Option.ite_none_right_eq_some.mp rest
  exact ⟨_, _, _, _, _, (Option.some.inj rest).symm⟩

/-- What is found beside the count of members is about lag or about free partitions. -/
theorem lag_or_free {finding : Finding} (found : findLagOnOneMember group = some finding ∨
    finding ∈ (survey topology members).unassigned) :
    (∃ memberId clientId host lag total,
      finding = lagOnOneMember memberId clientId host lag total) ∨
        ∃ topic ids, finding = unassignedPartitions topic ids none := by
  obtain lag | free := found
  · exact .inl (lag_of_found lag)
  · obtain ⟨topic, _, ids, same, _⟩ := mem_unassigned.mp free
    exact .inr ⟨topic, ids, same⟩

/-- More members than the partitions of the topics they are assigned, all of them known. -/
def Crowded (topology : Topology) (members : List GroupMember) : Prop :=
  (∃ topic, Assigned members topic) ∧
    (∀ topic, Assigned members topic → topology.topics[topic]?.isSome = true) ∧
    ∑ topic ∈ topicsOf members, partitionCount topology topic < members.length

/-- What is found of a settled group. -/
theorem mem_all_stable (some : group.members ≠ []) (stable : group.state = .stable)
    (topology : Topology) {finding : Finding} : finding ∈ all group topology ↔
      Crowded topology group.members ∧ finding = moreMembersThanPartitions group.members.length
          (∑ topic ∈ topicsOf group.members, partitionCount topology topic) ∨
        findLagOnOneMember group = .some finding ∨
        finding ∈ (survey topology group.members).unassigned := by
  have crowded : ((survey topology group.members).everyTopicKnown &&
      !(assigned group.members).isEmpty &&
      decide ((survey topology group.members).partitions < group.members.length)) = true ↔
      Crowded topology group.members := by
    rw [Bool.and_eq_true, Bool.and_eq_true, everyTopicKnown_survey, Bool.not_eq_true',
      assigned_isEmpty, decide_eq_true_eq, partitions_survey, Crowded]
    tauto
  rw [all, if_neg (by simpa using some), stable]
  dsimp only
  rw [List.mem_append, List.mem_append, Option.mem_toList, or_assoc,
    partitions_survey, ← crowded, ← partitions_survey]
  apply or_congr_left
  split
  · rename_i holds
    rw [List.mem_singleton]
    exact ⟨fun same => ⟨holds, same⟩, And.right⟩
  · rename_i fails
    exact ⟨fun member => absurd member List.not_mem_nil, fun both => absurd both.1 fails⟩

/-- The states of a group that is moving its partitions. -/
def rebalances : List GroupState :=
  [.preparingRebalance, .completingRebalance, .assigning, .reconciling]

theorem all_unstable (some : group.members ≠ []) (unstable : group.state ≠ .stable)
    (topology : Topology) :
    all group topology = if group.state ∈ rebalances then [rebalancing] else [] := by
  rw [all, if_neg (by simpa using some)]
  cases state : group.state with
  | stable => exact absurd state unstable
  | _ => rfl

theorem members_ne_nil (known : Assigned members topic) : members ≠ [] := by
  rintro rfl
  obtain ⟨member, none, _⟩ := known
  contradiction

theorem nodup_unassigned (topology : Topology) (members : List GroupMember) :
    (survey topology members).unassigned.Nodup := by
  rw [survey_eq]
  apply List.pairwise_filterMap.mpr
  have keys := List.pairwise_map.mp (nodup_assigned members)
  refine keys.imp fun {one two} apart first found second found' same => ?_
  obtain ⟨_, _, found⟩ := Option.bind_eq_some_iff.mp found
  obtain ⟨_, _, found'⟩ := Option.bind_eq_some_iff.mp found'
  have first := Option.some.inj (Option.ite_none_left_eq_some.mp found).2
  have second := Option.some.inj (Option.ite_none_left_eq_some.mp found').2
  rw [← first, ← second] at same
  exact apart (unassignedPartitions.inj same).1

theorem nodup_all (group : GroupDetail) (topology : Topology) : (all group topology).Nodup := by
  by_cases none : group.members = []
  · rw [all, if_pos (by simpa using none)]
    exact List.nodup_singleton noMembers
  by_cases stable : group.state = .stable
  · rw [all, if_neg (by simpa using none), stable]
    dsimp only
    rw [List.append_assoc]
    refine List.nodup_append'.mpr ⟨?_, List.nodup_append'.mpr ⟨?_, nodup_unassigned .., ?_⟩, ?_⟩
    · split
      · exact List.nodup_singleton _
      · exact List.nodup_nil
    · cases findLagOnOneMember group with
      | none => exact List.nodup_nil
      | some finding => exact List.nodup_singleton finding
    · intro finding lag free
      obtain ⟨_, _, _, _, _, rfl⟩ := lag_of_found (Option.mem_toList.mp lag)
      obtain ⟨_, _, _, same, _⟩ := mem_unassigned.mp free
      contradiction
    · intro finding crowded other
      split at crowded
      · obtain rfl := List.mem_singleton.mp crowded
        rw [List.mem_append, Option.mem_toList] at other
        obtain ⟨_, _, _, _, _, same⟩ | ⟨_, _, same⟩ := lag_or_free other
        · contradiction
        · contradiction
      · contradiction
  · rw [all_unstable none stable]
    split
    · exact List.nodup_singleton rebalancing
    · exact List.nodup_nil

/-- A group is empty, moving its partitions, settled, or nothing is found of it. -/
theorem told_iff {finding : Finding} : finding ∈ all group topology ↔
    group.members = [] ∧ finding = noMembers ∨
      (group.members ≠ [] ∧ group.state ∈ rebalances) ∧ finding = rebalancing ∨
      (group.members ≠ [] ∧ group.state = .stable) ∧
        (Crowded topology group.members ∧ finding = moreMembersThanPartitions group.members.length
            (∑ topic ∈ topicsOf group.members, partitionCount topology topic) ∨
          findLagOnOneMember group = some finding ∨
          finding ∈ (survey topology group.members).unassigned) := by
  by_cases some : group.members = []
  · rw [all, if_pos (by simpa using some), List.mem_singleton]
    simp [some]
  by_cases stable : group.state = .stable
  · rw [mem_all_stable some stable]
    simp [some, stable, rebalances]
  · rw [all_unstable some stable]
    by_cases moves : group.state ∈ rebalances
    · simp [some, stable, moves]
    · simp [some, stable, moves]

theorem more_told_iff {count partitions : Nat} :
    moreMembersThanPartitions count partitions ∈ all group topology ↔
      group.state = .stable ∧ Crowded topology group.members ∧ count = group.members.length ∧
        partitions = ∑ topic ∈ topicsOf group.members, partitionCount topology topic := by
  rw [told_iff]
  constructor
  · rintro (⟨_, same⟩ | ⟨_, same⟩ | ⟨⟨_, stable⟩, ⟨crowded, same⟩ | found⟩)
    · contradiction
    · contradiction
    · obtain ⟨rfl, rfl⟩ := moreMembersThanPartitions.inj same
      exact ⟨stable, crowded, rfl, rfl⟩
    · obtain ⟨_, _, _, _, _, same⟩ | ⟨_, _, same⟩ := lag_or_free found
      · contradiction
      · contradiction
  · rintro ⟨stable, crowded, rfl, rfl⟩
    obtain ⟨topic, known⟩ := crowded.1
    exact .inr (.inr ⟨⟨members_ne_nil known, stable⟩, .inl ⟨crowded, rfl⟩⟩)

theorem unassigned_told_iff {ids : List Int} {leftOut : Option Nat} :
    unassignedPartitions topic ids leftOut ∈ all group topology ↔
      group.state = .stable ∧ leftOut = none ∧ Assigned group.members topic ∧
        ∃ info, topology.topics[topic]? = some info ∧ ids ≠ [] ∧
          ids = info.partitionIds.filter fun id =>
            decide (∀ member ∈ group.members, ¬ Holds member topic id) := by
  rw [told_iff]
  constructor
  · rintro (⟨_, same⟩ | ⟨_, same⟩ | ⟨⟨_, stable⟩, ⟨_, same⟩ | lag | free⟩)
    · contradiction
    · contradiction
    · contradiction
    · obtain ⟨_, _, _, _, _, same⟩ := lag_of_found lag
      contradiction
    · obtain ⟨_, info, _, same, known, listed, some, all⟩ := mem_unassigned.mp free
      obtain ⟨rfl, rfl, rfl⟩ := unassignedPartitions.inj same
      exact ⟨stable, rfl, known, info, listed, some, all⟩
  · rintro ⟨stable, rfl, known, info, listed, some, all⟩
    have free := mem_unassigned.mpr ⟨topic, info, ids, rfl, known, listed, some, all⟩
    exact .inr (.inr ⟨⟨members_ne_nil known, stable⟩, .inr (.inr free)⟩)

/-- What is found of a group's members and partitions is told once, and just where it holds:
no members, a rebalance, each topic with all its partitions that nobody holds, and more
members than partitions. -/
theorem findings_told (group : GroupDetail) (topology : Topology) :
    let findings := all group topology
    findings.Nodup ∧
    (noMembers ∈ findings ↔ group.members = []) ∧
    (rebalancing ∈ findings ↔ group.members ≠ [] ∧ group.state ∈ rebalances) ∧
    (∀ topic ids leftOut, unassignedPartitions topic ids leftOut ∈ findings ↔
      group.state = .stable ∧ leftOut = none ∧ Assigned group.members topic ∧
        ∃ info, topology.topics[topic]? = some info ∧ ids ≠ [] ∧
          ids = info.partitionIds.filter fun id =>
            decide (∀ member ∈ group.members, ¬ Holds member topic id)) ∧
    (∀ members partitions, moreMembersThanPartitions members partitions ∈ findings ↔
      group.state = .stable ∧ Crowded topology group.members ∧ members = group.members.length ∧
        partitions = ∑ topic ∈ topicsOf group.members, partitionCount topology topic) := by
  refine ⟨nodup_all group topology, ?_, ?_, fun _ _ _ => unassigned_told_iff,
    fun _ _ => more_told_iff⟩
  · refine ⟨fun told => ?_, fun none => told_iff.mpr (.inl ⟨none, rfl⟩)⟩
    obtain ⟨none, _⟩ | ⟨_, same⟩ | ⟨_, ⟨_, same⟩ | found⟩ := told_iff.mp told
    · exact none
    · contradiction
    · contradiction
    · obtain ⟨_, _, _, _, _, same⟩ | ⟨_, _, same⟩ := lag_or_free found
      · contradiction
      · contradiction
  · refine ⟨fun told => ?_, fun moves => told_iff.mpr (.inr (.inl ⟨moves, rfl⟩))⟩
    obtain ⟨_, same⟩ | ⟨moves, _⟩ | ⟨_, ⟨_, same⟩ | found⟩ := told_iff.mp told
    · contradiction
    · exact moves
    · contradiction
    · obtain ⟨_, _, _, _, _, same⟩ | ⟨_, _, same⟩ := lag_or_free found
      · contradiction
      · contradiction

/-- The member holds no partition. -/
def idle (member : GroupMember) : Bool :=
  member.assignments.all fun assignment => assignment.partitions.isEmpty

theorem idle_eq_false {member : GroupMember} :
    idle member = false ↔ ∃ place : (_ : String) × Int, Holds member place.1 place.2 := by
  rw [idle, List.all_eq_false]
  constructor
  · rintro ⟨assignment, here, some⟩
    rw [Bool.not_eq_true, List.isEmpty_eq_false_iff_exists_mem] at some
    obtain ⟨id, listed⟩ := some
    exact ⟨⟨assignment.topic, id⟩, assignment, here, rfl, listed⟩
  · rintro ⟨⟨_, id⟩, assignment, here, rfl, listed⟩
    refine ⟨assignment, here, ?_⟩
    rw [Bool.not_eq_true, List.isEmpty_eq_false_iff_exists_mem]
    exact ⟨id, listed⟩

/-- Where no partition is held twice, no more members hold one than there are partitions. -/
theorem busy_le (known : ∀ topic, Assigned members topic → topology.topics[topic]?.isSome = true)
    (once : members.Pairwise fun one two => ∀ topic id, Holds one topic id → ¬ Holds two topic id)
    (exist : ∀ member ∈ members, ∀ topic id, Holds member topic id →
      ∀ info, topology.topics[topic]? = some info → id ∈ info.partitionIds) :
    (members.filter fun member => !idle member).length ≤
      ∑ topic ∈ topicsOf members, partitionCount topology topic := by
  let ids (topic : String) : List Int := (topology.topics[topic]?.map TopicInfo.partitionIds).getD []
  let places := (topicsOf members).sigma fun topic => (ids topic).toFinset
  have holds (member : GroupMember) (busy : idle member = false) := idle_eq_false.mp busy
  choose! pick held using holds
  have busy {member : GroupMember} (listed : member ∈ members.filter fun member => !idle member) :
      member ∈ members ∧ Holds member (pick member).1 (pick member).2 := by
    obtain ⟨here, busy⟩ := List.mem_filter.mp listed
    exact ⟨here, held member (by simpa using busy)⟩
  have distinct : ((members.filter fun member => !idle member).map pick).Nodup := by
    refine List.pairwise_map.mpr ((once.sublist List.filter_sublist).imp_of_mem ?_)
    intro one two first second apart same
    have twice := (busy second).2
    rw [← same] at twice
    exact apart _ _ (busy first).2 twice
  have inside : ((members.filter fun member => !idle member).map pick).toFinset ⊆ places := by
    intro place picked
    obtain ⟨member, listed, rfl⟩ := List.mem_map.mp (List.mem_toFinset.mp picked)
    obtain ⟨here, assignment, one, same, within⟩ := busy listed
    have reads : Assigned members (pick member).1 := ⟨member, here, assignment, one, same⟩
    obtain ⟨info, found⟩ := Option.isSome_iff_exists.mp (known _ reads)
    have place := exist member here _ _ ⟨assignment, one, same, within⟩ info found
    refine Finset.mem_sigma.mpr ⟨mem_topicsOf.mpr reads, ?_⟩
    rw [List.mem_toFinset]
    simpa [ids, found] using place
  calc (members.filter fun member => !idle member).length
      = ((members.filter fun member => !idle member).map pick).toFinset.card := by
        rw [List.toFinset_card_of_nodup distinct, List.length_map]
    _ ≤ places.card := Finset.card_le_card inside
    _ = ∑ topic ∈ topicsOf members, (ids topic).toFinset.card := Finset.card_sigma ..
    _ ≤ ∑ topic ∈ topicsOf members, partitionCount topology topic := by
        refine Finset.sum_le_sum fun topic _ => (List.toFinset_card_le _).trans_eq ?_
        cases found : topology.topics[topic]? <;>
          simp [ids, partitionCount, TopicInfo.partitionIds, found]

/-- A group that is told to have more members than partitions has that many members with
nothing to read, as Kafka assigns partitions: each that a topic has, to one member at most. -/
theorem crowded_leaves_idle {group : GroupDetail} {topology : Topology} {count partitions : Nat}
    (told : moreMembersThanPartitions count partitions ∈ all group topology)
    (once : group.members.Pairwise fun one two =>
      ∀ topic id, Holds one topic id → ¬ Holds two topic id)
    (exist : ∀ member ∈ group.members, ∀ topic id, Holds member topic id →
      ∀ info, topology.topics[topic]? = some info → id ∈ info.partitionIds) :
    partitions < count ∧ count = group.members.length ∧
      count - partitions ≤ (group.members.filter idle).length := by
  obtain ⟨_, ⟨_, known, crowded⟩, rfl, rfl⟩ := more_told_iff.mp told
  have split := List.length_eq_length_filter_add idle (l := group.members)
  have busy := busy_le known once exist
  exact ⟨crowded, rfl, by omega⟩

namespace Sample

def reader (id : String) (partitions : List Int) : GroupMember :=
  ⟨id, "billing", "host", [⟨"orders", partitions⟩]⟩

/-- Three members of a group that reads a topic of one partition. -/
def crowd : GroupDetail where
  id := "billing"
  state := .stable
  protocol := "range"
  members := [reader "a" [0], reader "b" [], reader "c" []]
  offsets := []
  totalLag := none
  lagComplete := false

def orders : TopicInfo := ⟨false, [⟨0, 1, [1], [1]⟩]⟩

def onePartition : Topology := { Topology.empty with topics := .ofList [("orders", orders)] }

end Sample

theorem crowded_leaves_idle_billing : 2 ≤ (Sample.crowd.members.filter idle).length := by
  have told : moreMembersThanPartitions 3 1 ∈ all Sample.crowd Sample.onePartition := by decide
  have once : Sample.crowd.members.Pairwise fun one two =>
      ∀ topic id, Holds one topic id → ¬ Holds two topic id := by
    simp [Sample.crowd, Sample.reader, Holds]
  have exist : ∀ member ∈ Sample.crowd.members, ∀ topic id, Holds member topic id →
      ∀ info, Sample.onePartition.topics[topic]? = some info → id ∈ info.partitionIds := by
    rintro member listed topic id ⟨assignment, here, rfl, within⟩ info found
    simp only [Sample.crowd, Sample.reader, List.mem_cons, List.not_mem_nil, or_false] at listed
    obtain rfl | rfl | rfl := listed
    · obtain rfl := List.mem_singleton.mp here
      obtain rfl := List.mem_singleton.mp within
      obtain rfl : Sample.orders = info := by simpa [Sample.onePartition] using found
      decide
    · obtain rfl := List.mem_singleton.mp here
      contradiction
    · obtain rfl := List.mem_singleton.mp here
      contradiction
  exact (crowded_leaves_idle told once exist).2.2

def heldRows (rows : List GroupOffset) (member : GroupMember) : List GroupOffset :=
  rows.filter fun row => decide (row.memberId = some member.id)

/-- The lag of the rows that a member holds. -/
def heldLag (rows : List GroupOffset) (member : GroupMember) : Int :=
  knownLag (heldRows rows member)

theorem knownLag_nonneg {rows : List GroupOffset} (nonneg : ∀ row ∈ rows, 0 ≤ row.lag.getD 0) :
    0 ≤ knownLag rows :=
  List.sum_nonneg (List.forall_mem_map.mpr nonneg)

theorem heldLag_cons (row : GroupOffset) (rows : List GroupOffset) (member : GroupMember) :
    heldLag (row :: rows) member =
      (if row.memberId = some member.id then row.lag.getD 0 else 0) + heldLag rows member := by
  unfold heldLag heldRows knownLag
  by_cases here : row.memberId = some member.id
  · rw [List.filter_cons_of_pos (by simpa using here), if_pos here, List.map_cons, List.sum_cons]
  · rw [List.filter_cons_of_neg (by simpa using here), if_neg here, zero_add]

/-- Two members hold different rows. -/
theorem heldLag_add_le {rows : List GroupOffset} (nonneg : ∀ row ∈ rows, 0 ≤ row.lag.getD 0)
    {one two : GroupMember} (apart : one.id ≠ two.id) :
    heldLag rows one + heldLag rows two ≤ knownLag rows := by
  induction rows with
  | nil => exact Int.le_refl 0
  | cons row rows ih =>
    have rest := ih fun other listed => nonneg other (.tail _ listed)
    have here := nonneg row List.mem_cons_self
    have once : ¬ (row.memberId = some one.id ∧ row.memberId = some two.id) := fun both =>
      apart (Option.some.inj (both.1.symm.trans both.2))
    have total : knownLag (row :: rows) = row.lag.getD 0 + knownLag rows := by
      rw [knownLag, List.map_cons, List.sum_cons, knownLag]
    rw [heldLag_cons, heldLag_cons, total]
    split_ifs with first second
    · exact absurd ⟨first, second⟩ once
    all_goals omega

/-- Where one member has most of the lag, no other one has more than a fifth. -/
theorem fifth_of_most {rows : List GroupOffset} (nonneg : ∀ row ∈ rows, 0 ≤ row.lag.getD 0)
    {member other : GroupMember} (apart : other.id ≠ member.id)
    (most : knownLag rows * oneMemberSharePercent ≤ heldLag rows member * 100) :
    5 * heldLag rows other ≤ knownLag rows := by
  have both := heldLag_add_le nonneg apart
  rw [oneMemberSharePercent] at most
  omega

/-- The lags of the rows, and what they add up to, fit an `i64`. -/
def LagsFit (rows : List GroupOffset) : Prop :=
  (∀ row ∈ rows, ∀ stop ∈ row.endOffset, ∀ current ∈ row.currentOffset,
    Scan.i64Min ≤ stop - current ∧ stop - current ≤ Scan.i64Max) ∧ knownLag rows ≤ Scan.i64Max

instance (rows : List GroupOffset) : Decidable (LagsFit rows) :=
  inferInstanceAs (Decidable (_ ∧ _))

/-- The lag of a row in `i64`s. -/
def wrappingLag (row : GroupOffset) : Option Int := do
  let stop ← row.endOffset
  let current ← row.currentOffset
  some (max (wrapped 64 (stop - current)) 0)

/-- What the lags of rows come to in `i64`s. -/
def addedUp (rows : List GroupOffset) : Int :=
  wrappingSum 64 (rows.map fun row => (wrappingLag row).getD 0)

theorem heldLag_le {rows : List GroupOffset} (nonneg : ∀ row ∈ rows, 0 ≤ row.lag.getD 0)
    (member : GroupMember) : heldLag rows member ≤ knownLag rows := by
  induction rows with
  | nil => exact Int.le_refl 0
  | cons row rows ih =>
    have rest := ih fun other listed => nonneg other (.tail _ listed)
    have here := nonneg row List.mem_cons_self
    have total : knownLag (row :: rows) = row.lag.getD 0 + knownLag rows := by
      rw [knownLag, List.map_cons, List.sum_cons, knownLag]
    rw [heldLag_cons, total]
    split_ifs
    all_goals omega

/-- Lags that fit come to the same in `i64`s, some of them as well as all. -/
theorem addedUp_eq {group : GroupInfo} {offsets : Option GroupOffsets}
    {watermarks : Option WatermarkTable} (fits : LagsFit (lagRows group offsets watermarks))
    {rows : List GroupOffset} (part : rows ⊆ lagRows group offsets watermarks)
    (least : 0 ≤ knownLag rows) (most : knownLag rows ≤ knownLag (lagRows group offsets watermarks)) :
    addedUp rows = knownLag rows := by
  have lags : (rows.map fun row => (wrappingLag row).getD 0) =
      rows.map fun row => row.lag.getD 0 := by
    refine List.map_congr_left fun row listed => ?_
    have small := fits.1 row (part listed)
    obtain ⟨entry, _, rfl⟩ := List.mem_map.mp (part listed)
    simp only [wrappingLag, offsetRow, lagOf] at small ⊢
    cases stop : highWatermark watermarks entry.1.1 entry.1.2 with
    | none => rfl
    | some stop =>
      cases current : entry.2 with
      | none => rfl
      | some current =>
        obtain ⟨lower, upper⟩ := small _ stop _ current
        simp only [Scan.i64Min, Scan.i64Max] at lower upper
        simp only [Option.bind_eq_bind, Option.bind_some]
        rw [wrapped_eq_self (by omega) (by omega)]
  have upper := fits.2
  rw [Scan.i64Max] at upper
  rw [addedUp, lags, wrappingSum_eq, ← knownLag, wrapped_eq_self (by omega) (by omega)]

theorem exists_largest (lag : GroupMember → Int) {member : GroupMember} (here : member ∈ members) :
    ∃ top ∈ members, lag member ≤ lag top ∧
      (members.map fun member => (member, lag member)).reverse.maxOn? Prod.snd =
        some (top, lag top) := by
  have listed : (member, lag member) ∈
      (members.map fun member => (member, lag member)).reverse :=
    List.mem_reverse.mpr (List.mem_map_of_mem here)
  obtain ⟨held, largest⟩ :=
    Option.isSome_iff_exists.mp (List.isSome_maxOn?_of_mem (f := Prod.snd) listed)
  have atMost := List.le_apply_get_maxOn?_of_mem (f := Prod.snd) listed
  simp only [largest, Option.get_some] at atMost
  obtain ⟨top, there, rfl⟩ := List.mem_map.mp (List.mem_reverse.mp (List.maxOn?_mem largest))
  exact ⟨top, there, atMost, largest⟩

theorem lag_nonneg {group : GroupInfo} {offsets : Option GroupOffsets}
    {watermarks : Option WatermarkTable} :
    ∀ row ∈ lagRows group offsets watermarks, 0 ≤ row.lag.getD 0 := by
  intro row listed
  obtain ⟨entry, _, rfl⟩ := List.mem_map.mp listed
  dsimp only [offsetRow, lagOf]
  cases highWatermark watermarks entry.1.1 entry.1.2 <;> cases entry.2 <;> simp

theorem known_of_lags {members : List GroupMember} (lag : GroupMember → Int) :
    ((members.zip ((members.map lag).map some)).filterMap fun (member, lag) =>
      lag.map fun lag => (member, lag)) = members.map fun member => (member, lag member) := by
  induction members with
  | nil => rfl
  | cons member members ih => simpa using ih

/-- What is named of a member, with its lag. -/
def named (total : Int) (held : GroupMember × Int) : Finding :=
  lagOnOneMember (shorten held.1.id) (shorten held.1.clientId) (shorten held.1.host) held.2 total

theorem found_lag_iff {total : Int} (read : group.totalLag = some total)
    (complete : group.lagComplete = true) {lag : GroupMember → Int}
    (lags : memberLags group = (group.members.map lag).map some) {finding : Finding} :
    findLagOnOneMember group = some finding ↔
      2 ≤ group.members.length ∧ lagWorthNaming ≤ total ∧ ∃ held,
        (group.members.map fun member => (member, lag member)).reverse.maxOn? Prod.snd =
          some held ∧ total * oneMemberSharePercent ≤ held.2 * 100 ∧ finding = named total held := by
  have kept : group.totalLag.filter (fun _ => group.lagComplete) = some total := by
    rw [read, complete]
    rfl
  rw [findLagOnOneMember, kept, lags, known_of_lags]
  dsimp only [Option.bind_eq_bind, Option.bind_some]
  rw [Option.ite_none_left_eq_some, not_or, Option.bind_eq_some_iff, and_assoc, Nat.not_lt,
    Int.not_lt]
  refine and_congr_right fun _ => and_congr_right fun _ => exists_congr fun held =>
    and_congr_right fun _ => ?_
  rw [Option.ite_none_right_eq_some, Option.some.injEq]
  exact and_congr_right fun _ => eq_comm

theorem not_found_lag {finding : Finding}
    (unknown : group.totalLag = none ∨ group.lagComplete = false) :
    findLagOnOneMember group ≠ some finding := by
  have none : group.totalLag.filter (fun _ => group.lagComplete) = none := by
    obtain unread | partly := unknown
    · rw [unread]
      rfl
    · rw [partly]
      cases group.totalLag <;> rfl
  rw [findLagOnOneMember, none]
  exact (Option.some_ne_none finding).symm

theorem lag_told_found {memberId clientId host : String} {lag total : Int} :
    lagOnOneMember memberId clientId host lag total ∈ all group topology ↔
      group.members ≠ [] ∧ group.state = .stable ∧
        findLagOnOneMember group = some (lagOnOneMember memberId clientId host lag total) := by
  rw [told_iff]
  constructor
  · rintro (⟨_, same⟩ | ⟨_, same⟩ | ⟨⟨some, stable⟩, ⟨_, same⟩ | found | free⟩)
    · contradiction
    · contradiction
    · contradiction
    · exact ⟨some, stable, found⟩
    · obtain ⟨_, _, _, same, _⟩ := mem_unassigned.mp free
      contradiction
  · rintro ⟨some, stable, found⟩
    exact .inr (.inr ⟨⟨some, stable⟩, .inr (.inl found)⟩)

/-- Where the lags fit, a member is named for its lag just where the lag of the group is
known, is worth naming and sits with that member for the most part. There is one such member
at most: no other one has more than a fifth. -/
theorem lag_told_iff (id : String) (group : GroupInfo) (offsets : Option GroupOffsets)
    (watermarks : Option WatermarkTable) (topology : Topology)
    (distinct : (group.members.map GroupMember.id).Nodup)
    (fits : LagsFit (lagRows group offsets watermarks)) (memberId clientId host : String)
    (lag total : Int) :
    let detail := GroupDetail.project id group offsets watermarks
    addedUp detail.offsets = knownLag detail.offsets ∧
      (∀ member, addedUp (heldRows detail.offsets member) = heldLag detail.offsets member) ∧
      (lagOnOneMember memberId clientId host lag total ∈ all detail topology ↔
        detail.state = .stable ∧ 2 ≤ detail.members.length ∧ offsets.isSome = true ∧
          (∀ row ∈ detail.offsets, row.lag.isSome = true) ∧ total = knownLag detail.offsets ∧
          lagWorthNaming ≤ total ∧ ∃ member ∈ detail.members, memberId = shorten member.id ∧
            clientId = shorten member.clientId ∧ host = shorten member.host ∧
            lag = heldLag detail.offsets member ∧ total * oneMemberSharePercent ≤ lag * 100 ∧
            ∀ other ∈ detail.members, other ≠ member →
              5 * heldLag detail.offsets other ≤ total) := by
  intro detail
  have whole := addedUp_eq fits (List.Subset.refl _) (knownLag_nonneg lag_nonneg) (Int.le_refl _)
  have held (member : GroupMember) : addedUp (heldRows detail.offsets member) =
      heldLag detail.offsets member :=
    addedUp_eq fits (List.filter_subset_self _)
      (knownLag_nonneg fun row listed => lag_nonneg row (List.mem_of_mem_filter listed))
      (heldLag_le lag_nonneg member)
  refine ⟨whole, held, ?_⟩
  have read : detail.totalLag = if offsets.isSome then some (knownLag detail.offsets) else none :=
    GroupLag.total_eq group offsets watermarks
  have complete : detail.lagComplete = true ↔ ∀ row ∈ detail.offsets, row.lag.isSome = true :=
    GroupLag.complete_iff group offsets watermarks
  have fifth {member other : GroupMember} (here : member ∈ detail.members)
      (there : other ∈ detail.members) (apart : other ≠ member)
      (most : knownLag detail.offsets * oneMemberSharePercent ≤
        heldLag detail.offsets member * 100) :
      5 * heldLag detail.offsets other ≤ knownLag detail.offsets :=
    fifth_of_most lag_nonneg (fun same => apart (List.inj_on_of_nodup_map distinct there here same))
      most
  rw [lag_told_found]
  by_cases measured : offsets.isSome = true ∧ ∀ row ∈ detail.offsets, row.lag.isSome = true
  · have read : detail.totalLag = some (knownLag detail.offsets) := by
      rw [read, if_pos measured.1]
    have lags : memberLags detail =
        (detail.members.map (heldLag detail.offsets)).map some := memberLags_known read measured.2
    rw [found_lag_iff read (complete.mpr measured.2) lags]
    constructor
    · rintro ⟨_, stable, two, worth, held, largest, most, same⟩
      obtain ⟨rfl, rfl, rfl, rfl, rfl⟩ := lagOnOneMember.inj same
      obtain ⟨member, here, rfl⟩ :=
        List.mem_map.mp (List.mem_reverse.mp (List.maxOn?_mem largest))
      exact ⟨stable, two, measured.1, measured.2, rfl, worth, member, here, rfl, rfl, rfl, rfl, most,
        fun other there apart => fifth here there apart most⟩
    · rintro ⟨stable, two, _, _, rfl, worth, member, here, rfl, rfl, rfl, rfl, most, _⟩
      obtain ⟨top, there, atMost, largest⟩ :=
        exists_largest (heldLag detail.offsets) here
      -- Whoever has the most lag has more than a fifth, so it is the member itself.
      have same : top = member := by
        by_contra apart
        have least := fifth here there apart most
        rw [oneMemberSharePercent] at most
        rw [lagWorthNaming] at worth
        omega
      subst same
      exact ⟨List.ne_nil_of_mem here, stable, two, worth, _, largest, most, rfl⟩
  · constructor
    · rintro ⟨_, _, found⟩
      refine absurd found (not_found_lag ?_)
      by_cases unread : offsets.isSome = true
      · exact .inr (Bool.eq_false_iff.mpr (mt complete.mp fun known => measured ⟨unread, known⟩))
      · exact .inl (by rw [read, if_neg unread])
    · rintro ⟨_, _, isSome, known, _⟩
      exact absurd ⟨isSome, known⟩ measured

namespace Sample

def readers : GroupInfo :=
  { state := .stable, protocol := "range", members := [reader "a" [0], reader "b" [1]] }

def behind : GroupOffsets := { committed := [⟨"orders", 0, 0⟩, ⟨"orders", 1, 990⟩] }

def ends : WatermarkTable :=
  let orders : ExtTreeMap Int Watermarks :=
    .ofList [((0 : Int), Scan.Watermarks.mk 0 5000), (1, Scan.Watermarks.mk 0 1000)]
  { marks := .ofList [("orders", orders)] }

end Sample

theorem lag_told_iff_orders : lagOnOneMember "a" "billing" "host" 5000 5010 ∈
    all (.project "billing" Sample.readers (some Sample.behind) (some Sample.ends)) .empty := by
  refine (lag_told_iff "billing" Sample.readers _ _ _ (by decide) (by decide) _ _ _ _ _).2.2.mpr
    ⟨rfl, by decide, rfl, by decide, by decide, by decide, Sample.reader "a" [0],
      List.mem_cons_self, ?_⟩
  decide

end Finding
end Klens.App.Mcp
