import Klens.Lib.ByKey
import Klens.Lib.Maps
import Klens.Store.Projections

/-! Where a group stands, and what its lags add up to. -/
namespace Klens.Store
open Klens.Lib Std

/-- The lags add up to the known ones, and are complete when all are known. -/
theorem foldl_lagStep (lags : List (Option Int)) (totals : Int × Bool) :
    lags.foldl lagStep totals =
      (totals.1 + (lags.map fun lag => lag.getD 0).sum, totals.2 && lags.all Option.isSome) := by
  induction lags generalizing totals with
  | nil => simp
  | cons lag lags ih =>
    rw [List.foldl_cons, ih, List.map_cons, List.sum_cons, List.all_cons]
    cases lag with
    | none => simp [lagStep]
    | some lag => simp [lagStep, add_assoc]

theorem lagTotals_eq (fetched : Bool) (lags : List (Option Int)) :
    lagTotals fetched lags =
      (if fetched then some (lags.map fun lag => lag.getD 0).sum else none,
        lags.all Option.isSome) := by
  rw [lagTotals, foldl_lagStep]
  simp

section Totals
variable (group : GroupInfo) (offsets : Option GroupOffsets) (watermarks : Option WatermarkTable)

/-- The rows of a group's lag are the lags of its positions. -/
private theorem project_lags :
    (((positions group offsets none).toList.map (offsetRow group watermarks)).map GroupOffset.lag) =
      (positions group offsets none).toList.map fun entry =>
        lagOf entry.2 (highWatermark watermarks entry.1.1 entry.1.2) := by
  rw [List.map_map]
  rfl

theorem GroupLag.project_total : (GroupLag.project group offsets watermarks).total =
    (positionsLag (positions group offsets none) offsets.isSome watermarks).1 := by
  rw [GroupLag.project, positionsLag, project_lags]

theorem GroupLag.project_complete : (GroupLag.project group offsets watermarks).complete =
    (positionsLag (positions group offsets none) offsets.isSome watermarks).2 := by
  rw [GroupLag.project, positionsLag, project_lags]

end Totals

section Positions
variable {group : GroupInfo}

private theorem foldl_insertIfNew {V : Type} (keys : List TopicPartition) (value : V)
    (map : ExtTreeMap TopicPartition V tupleOrder) (key : TopicPartition) :
    (keys.foldl (fun map key => map.insertIfNew key value) map)[key]? =
      map[key]?.or (if key ∈ keys then some value else none) := by
  induction keys generalizing map with
  | nil => simp
  | cons head keys ih =>
    rw [List.foldl_cons, ih, ExtTreeMap.getElem?_insertIfNew]
    by_cases same : head = key
    · subst same
      cases held : map[head]? with
      | none => simp [ExtTreeMap.mem_iff_isSome_getElem?, held]
      | some value => simp [ExtTreeMap.mem_iff_isSome_getElem?, held]
    · have apart : tupleOrder head key ≠ .eq := mt LawfulEqCmp.eq_of_compare same
      simp [apart, Ne.symm same]

private theorem positions_eq (committed : List CommittedOffset) (key : TopicPartition) :
    (positions group (some { committed }) none)[key]? =
      ((∅ : Positions).insertMany (committed.map fun offset =>
        ((offset.topic, offset.partition), some offset.offset)))[key]?.or
        (if key ∈ group.assignedPartitionRefs then some (some 0) else none) := by
  simp only [positions, Option.all_none, Option.map_some, Option.getD_some, List.filter_true,
    Option.isSome_some, if_true, foldl_insertIfNew]
  rw [Maps.foldl_insert_eq committed (fun offset => (offset.topic, offset.partition))
    (fun offset => some offset.offset)]

/-- A group stands where it committed. -/
theorem positions_committed {committed : List CommittedOffset}
    (distinct : (committed.map fun offset => (offset.topic, offset.partition)).Nodup)
    {offset : CommittedOffset} (listed : offset ∈ committed) :
    (positions group (some { committed }) none)[(offset.topic, offset.partition)]? =
      some (some offset.offset) := by
  have functional := Maps.functional_of_nodup distinct fun offset => some offset.offset
  rw [positions_eq, Maps.getElem?_insertMany_of_mem functional _
    (List.mem_map.mpr ⟨offset, listed, rfl⟩), Option.some_or]

/-- It stands at the start of what it is assigned and has no commit for. -/
theorem positions_uncommitted {committed : List CommittedOffset} {key : TopicPartition}
    (absent : ∀ offset ∈ committed, (offset.topic, offset.partition) ≠ key) :
    (positions group (some { committed }) none)[key]? =
      if key ∈ group.assignedPartitionRefs then some (some 0) else none := by
  have missing : ∀ value, (key, value) ∉ committed.map fun offset =>
      ((offset.topic, offset.partition), some offset.offset) := by
    intro value member
    obtain ⟨offset, listed, same⟩ := List.mem_map.mp member
    exact absent offset listed (Prod.mk.inj same).1
  rw [positions_eq, Maps.getElem?_insertMany_of_not_mem _ missing, ExtTreeMap.getElem?_empty,
    Option.none_or]

/-- Where a group stands on one topic is where it stands at all, on that topic. -/
theorem positions_topic (offsets : Option GroupOffsets) (topic : String) :
    positions group offsets (some topic) =
      (positions group offsets none).filter fun key _ => decide (key.1 = topic) := by
  have touches : ByKey.Touches
      (fun offset : CommittedOffset => some (offset.topic, offset.partition))
      (fun offset _ => some (some offset.offset)) fun (positions : Positions) offset =>
        positions.insert (offset.topic, offset.partition) (some offset.offset) :=
    ByKey.touches_insert _ _
  refine ExtTreeMap.ext_getElem? fun key => ?_
  simp only [positions, Option.all_some, Option.all_none, List.filter_true, foldl_insertIfNew,
    ExtTreeMap.getElem?_filter', List.mem_filter]
  rw [touches.getElem?_foldl_filter _ (fun key => decide (topic = key.1))]
  by_cases here : topic = key.1
  · have all : ∀ held : Option (Option Int), held.filter (fun _ => true) = held := by
      rintro (_ | held) <;> rfl
    simp [here, all]
  · simp [here, Ne.symm here]

end Positions

section Owners
variable {group : GroupInfo}

/-- Who holds what: every assigned partition with the member it is assigned to. -/
private theorem owners_eq : group.owners =
    (group.members.flatMap fun member => member.assignments.flatMap fun assignment =>
      assignment.partitions.map fun partition =>
        ((assignment.topic, partition), member.id)).foldl
      (fun owners entry => owners.insertIfNew entry.1 entry.2) ∅ := by
  simp only [GroupInfo.owners, List.foldl_flatMap, List.foldl_map]

private theorem foldl_owners {entries : List (TopicPartition × String)}
    {owners : ExtTreeMap TopicPartition String tupleOrder} {key : TopicPartition} {id : String}
    (held : (entries.foldl (fun owners entry => owners.insertIfNew entry.1 entry.2) owners)[key]? =
      some id) : owners[key]? = some id ∨ (key, id) ∈ entries := by
  induction entries generalizing owners with
  | nil => exact .inl held
  | cons entry entries ih =>
    rcases ih held with before | listed
    · rw [ExtTreeMap.getElem?_insertIfNew] at before
      split at before
      · next fresh =>
        have same : entry.1 = key := LawfulEqCmp.eq_of_compare fresh.1
        obtain rfl : entry.2 = id := Option.some.inj before
        exact .inr (same ▸ .head _)
      · exact .inl before
    · exact .inr (.tail _ listed)

/-- The owner of a partition is one of the members. -/
theorem owner_mem {key : TopicPartition} {id : String} (owned : group.owners[key]? = some id) :
    ∃ member ∈ group.members, member.id = id := by
  rw [owners_eq] at owned
  rcases foldl_owners owned with nobody | listed
  · simp at nobody
  · obtain ⟨member, here, inside⟩ := List.mem_flatMap.mp listed
    obtain ⟨assignment, _, held⟩ := List.mem_flatMap.mp inside
    obtain ⟨partition, _, same⟩ := List.mem_map.mp held
    exact ⟨member, here, (Prod.mk.inj same).2⟩

end Owners

section Views
variable (group : GroupInfo) (offsets : Option GroupOffsets) (watermarks : Option WatermarkTable)

/-- The rows of a group's lag. -/
abbrev lagRows : List GroupOffset := (GroupLag.project group offsets watermarks).offsets

theorem lagRows_eq : lagRows group offsets watermarks =
    (positions group offsets none).toList.map (offsetRow group watermarks) := rfl

/-- The lags of rows that are known, added up. -/
def knownLag (rows : List GroupOffset) : Int := (rows.map fun row => row.lag.getD 0).sum

theorem sum_filterMap_lag (rows : List GroupOffset) :
    (rows.filterMap GroupOffset.lag).sum = knownLag rows := by
  induction rows with
  | nil => rfl
  | cons row rows ih =>
    rw [knownLag, List.map_cons, List.sum_cons, ← knownLag, ← ih]
    cases lag : row.lag <;> simp [lag]

theorem GroupLag.total_eq : (GroupLag.project group offsets watermarks).total =
    if offsets.isSome then some (knownLag (lagRows group offsets watermarks))
    else none := by
  rw [knownLag, lagRows_eq, GroupLag.project, lagTotals_eq, List.map_map]
  rfl

theorem GroupLag.complete_iff : (GroupLag.project group offsets watermarks).complete = true ↔
    ∀ row ∈ lagRows group offsets watermarks, row.lag.isSome := by
  simp only [GroupLag.project, lagTotals_eq, List.all_eq_true, lagRows, List.mem_map]
  exact ⟨fun all row listed => all _ ⟨row, listed, rfl⟩, fun all _ ⟨row, listed, same⟩ =>
    same ▸ all row listed⟩

/-- A row for each position, so none twice. -/
theorem GroupLag.offsets_nodup : ((lagRows group offsets watermarks).map
    fun row => (row.topic, row.partition)).Nodup := by
  have keys : ((lagRows group offsets watermarks).map
      fun row => (row.topic, row.partition)) = (positions group offsets none).keys := by
    rw [← ExtTreeMap.map_fst_toList_eq_keys, lagRows_eq, List.map_map]
    rfl
  rw [keys]
  exact ExtTreeMap.nodup_keys

/-- The lag on a topic is that of the rows on it. -/
theorem lagOnTopic_eq (id topic : String) :
    (TopicGroupRow.project id topic group offsets watermarks).lagOnTopic =
      if offsets.isSome then some (knownLag ((lagRows group offsets watermarks).filter
        fun row => decide (row.topic = topic))) else none := by
  simp only [TopicGroupRow.project, positionsLag, lagTotals_eq, positions_topic,
    ExtTreeMap.toList_filter, List.map_map, knownLag, lagRows_eq, List.filter_map]
  rfl

theorem mem_topicNames (id : String) {topic : String} :
    topic ∈ (GroupRow.project id group offsets watermarks).topicNames ↔
      ∃ row ∈ lagRows group offsets watermarks, row.topic = topic := by
  rw [GroupRow.project, uniqueTopics, mem_sortDedup, lagRows_eq,
    ← ExtTreeMap.map_fst_toList_eq_keys, List.map_map, List.mem_map]
  simp [offsetRow]

/-- The topics of a group split its lag. -/
theorem sum_topics (id : String) :
    ((GroupRow.project id group offsets watermarks).topicNames.map fun topic =>
      knownLag ((lagRows group offsets watermarks).filter
        fun row => decide (row.topic = topic))).sum =
      knownLag (lagRows group offsets watermarks) :=
  ByKey.sum_regroup (sortDedup_nodup _) GroupOffset.topic _ fun row member =>
    (mem_topicNames group offsets watermarks id).mpr ⟨row, member, rfl⟩

/-- The members of a group and the rows nobody holds split its lag. -/
theorem sum_members (distinct : (group.members.map GroupMember.id).Nodup) :
    ((group.members.map fun member =>
      knownLag ((lagRows group offsets watermarks).filter
        fun row => decide (row.memberId = some member.id))).sum) +
      knownLag ((lagRows group offsets watermarks).filter
        fun row => row.memberId.isNone) =
      knownLag (lagRows group offsets watermarks) := by
  have keys : (none :: (group.members.map GroupMember.id).map some).Nodup := by
    simpa using distinct.map (Option.some_injective _)
  have covered : ∀ row ∈ lagRows group offsets watermarks,
      row.memberId ∈ none :: (group.members.map GroupMember.id).map some := by
    intro row member
    obtain ⟨entry, _, rfl⟩ := List.mem_map.mp member
    cases owned : group.owners[entry.1]? with
    | none => simp [offsetRow, owned]
    | some id =>
      obtain ⟨member, listed, rfl⟩ := owner_mem owned
      simpa [offsetRow, owned] using ⟨member, listed, rfl⟩
  have split := ByKey.sum_regroup keys GroupOffset.memberId (fun row => row.lag.getD 0) covered
  rw [List.map_cons, List.sum_cons, List.map_map, List.map_map, add_comm] at split
  have nobody : (fun row : GroupOffset => row.memberId.isNone) =
      fun row => decide (row.memberId = none) := by
    funext row
    cases row.memberId <;> rfl
  rw [nobody]
  exact split

end Views
end Klens.Store
