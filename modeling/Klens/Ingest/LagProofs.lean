import Klens.Client.OffsetsProofs
import Klens.Ingest.OffsetsProofs
import Klens.Store.LagProofs

/-! The lag of a group, against what Kafka answered when the group was read. -/
namespace Klens.Ingest
open Klens.Client Klens.Lib Klens.Store Std

/-- The offset an earlier read left for a partition. -/
def lastKnown (previous : Option GroupOffsets) (key : TopicPartition) : Option Int :=
  (previous.bind fun offsets => offsets.committed.find? fun offset =>
    (offset.topic, offset.partition) = key).map CommittedOffset.offset

section
variable (group : GroupInfo) (answers : Answers) (previous : Option GroupOffsets)
  (watermarks : Option WatermarkTable)

/-- A partition of the group: assigned, committed on, or one that was not read. -/
def Counts (key : TopicPartition) : Prop :=
  key ∈ group.assignedPartitionRefs ∨ (∃ offset, answers[key]? = some (.ok (some offset))) ∨
    ∃ error, answers[key]? = some (.error error)

/-- An offset Kafka answered with, the start where it answered that there is no
commit, or the last known offset where it did not answer. -/
def Explained (key : TopicPartition) (offset : Int) : Prop :=
  answers[key]? = some (.ok (some offset)) ∨ (answers[key]? = some (.ok none) ∧ offset = 0) ∨
    ∃ error, answers[key]? = some (.error error) ∧ lastKnown previous key = some offset

/-- A lag that is reported complete counts every partition of the group from an
offset that can be explained. -/
def Honest (offsets : Option GroupOffsets) (totalLag : Option Int) (lagComplete : Bool) : Prop :=
  lagComplete = true →
    totalLag = some (((positions group offsets none).toList.map fun entry =>
      max ((highWatermark watermarks entry.1.1 entry.1.2).getD 0 - entry.2.getD 0) 0).sum) ∧
    ∀ key, Counts group answers key → ∃ offset,
      (positions group offsets none)[key]? = some (some offset) ∧
        Explained answers previous key offset

/-- A partition whose end is not known, so that the lag is not complete. -/
def Unmeasured : Prop :=
  ∃ key, (key ∈ group.assignedPartitionRefs ∨
      (∃ offset, answers[key]? = some (.ok (some offset))) ∧ Legal key) ∧
    highWatermark watermarks key.1 key.2 = none

/-- Every partition was answered for, but those that are assigned and were last
known at the start; and every topic has a legal name. -/
def Answered : Prop :=
  (∀ key error, answers[key]? = some (.error error) →
    key ∈ group.assignedPartitionRefs ∧ lastKnown previous key = some 0) ∧
  (∀ key ∈ group.assignedPartitionRefs, Legal key) ∧
  ∀ key offset, answers[key]? = some (.ok (some offset)) → Legal key

end

section Positions
variable {group : GroupInfo} {answers : Answers} {watermarks : Option WatermarkTable}

/-- The offsets a sweep stores for these answers. -/
private def stored (answers : Answers) : Option GroupOffsets :=
  some { committed := committedFromKrafka answers }

private theorem positions_answered {key : TopicPartition} {offset : Int}
    (answered : answers[key]? = some (.ok (some offset))) (legal : Legal key) :
    (positions group (stored answers) none)[key]? = some (some offset) := by
  have listed : CommittedOffset.mk key.1 key.2 offset ∈ committedFromKrafka answers :=
    mem_committedFromKrafka.mpr ⟨answered, legal⟩
  exact positions_committed (committedFromKrafka_nodup answers) listed

private theorem positions_unanswered {key : TopicPartition}
    (unanswered : ∀ offset, answers[key]? = some (.ok (some offset)) → ¬ Legal key) :
    (positions group (stored answers) none)[key]? =
      if key ∈ group.assignedPartitionRefs then some (some 0) else none := by
  refine positions_uncommitted ?_
  rintro offset listed rfl
  obtain ⟨answered, legal⟩ := mem_committedFromKrafka.mp listed
  exact unanswered _ answered legal

/-- A position is an answer, or the start of an assigned partition. -/
private theorem positions_cases {key : TopicPartition} {position : Option Int}
    (held : (positions group (stored answers) none)[key]? = some position) :
    (∃ offset, position = some offset ∧ answers[key]? = some (.ok (some offset)) ∧ Legal key) ∨
      position = some 0 ∧ key ∈ group.assignedPartitionRefs := by
  by_cases answered : ∃ offset, answers[key]? = some (.ok (some offset)) ∧ Legal key
  · obtain ⟨offset, answer, legal⟩ := answered
    rw [positions_answered answer legal] at held
    exact .inl ⟨offset, (Option.some.inj held).symm, answer, legal⟩
  · rw [positions_unanswered fun offset answer legal => answered ⟨offset, answer, legal⟩] at held
    split at held
    · next assigned => exact .inr ⟨(Option.some.inj held).symm, assigned⟩
    · contradiction

private theorem lagOf_isSome {offset : Int} {stop : Option Int} :
    (lagOf (some offset) stop).isSome = stop.isSome := by
  cases stop <;> rfl

/-- The lag is complete when no partition is unmeasured. -/
private theorem complete_iff : (positionsLag (positions group (stored answers) none) true
    watermarks).2 = true ↔ ¬ Unmeasured group answers watermarks := by
  have every : (positionsLag (positions group (stored answers) none) true watermarks).2 = true ↔
      ∀ (key : TopicPartition) (position : Option Int),
        (positions group (stored answers) none)[key]? = some position →
          (lagOf position (highWatermark watermarks key.1 key.2)).isSome := by
    rw [positionsLag, lagTotals_eq]
    simp only [List.all_map, List.all_eq_true, ExtTreeMap.mem_toList_iff_getElem?_eq_some,
      Prod.forall, Function.comp_apply]
  rw [every]
  constructor
  · rintro known ⟨key, counted, unknown⟩
    have placed : ∃ position, (positions group (stored answers) none)[key]? = some position := by
      by_cases answered : ∃ offset, answers[key]? = some (.ok (some offset)) ∧ Legal key
      · obtain ⟨offset, answer, legal⟩ := answered
        exact ⟨_, positions_answered answer legal⟩
      · have assigned : key ∈ group.assignedPartitionRefs := by
          refine counted.resolve_right ?_
          rintro ⟨⟨offset, answer⟩, legal⟩
          exact answered ⟨offset, answer, legal⟩
        rw [positions_unanswered fun offset answer legal => answered ⟨offset, answer, legal⟩,
          if_pos assigned]
        exact ⟨_, rfl⟩
    obtain ⟨position, held⟩ := placed
    have lag := known key position held
    rw [unknown] at lag
    cases position <;> simp [lagOf] at lag
  · intro measured key position held
    have measured : (highWatermark watermarks key.1 key.2).isSome := by
      rw [Option.isSome_iff_ne_none]
      refine fun unknown => measured ⟨key, ?_, unknown⟩
      rcases positions_cases held with ⟨offset, -, answer, legal⟩ | ⟨-, assigned⟩
      · exact .inr ⟨⟨offset, answer⟩, legal⟩
      · exact .inl assigned
    rcases positions_cases held with ⟨offset, rfl, -⟩ | ⟨rfl, -⟩
    · rw [lagOf_isSome, measured]
    · rw [lagOf_isSome, measured]

/-- What a complete lag adds up. -/
private theorem total_eq (complete : (positionsLag (positions group (stored answers) none) true
    watermarks).2 = true) : (positionsLag (positions group (stored answers) none) true
      watermarks).1 = some (((positions group (stored answers) none).toList.map fun entry =>
        max ((highWatermark watermarks entry.1.1 entry.1.2).getD 0 - entry.2.getD 0) 0).sum) := by
  rw [positionsLag, lagTotals_eq] at complete ⊢
  simp only [List.all_map, List.all_eq_true, Function.comp_apply] at complete
  rw [if_pos rfl, List.map_map]
  refine congrArg (fun lags => some (List.sum lags)) (List.map_congr_left fun entry listed => ?_)
  have known := complete entry listed
  obtain ⟨key, position⟩ := entry
  simp only [Function.comp_apply]
  cases position with
  | none => cases stop : highWatermark watermarks key.1 key.2 <;> simp [lagOf, stop] at known
  | some offset =>
    cases stop : highWatermark watermarks key.1 key.2 with
    | none => simp [lagOf, stop] at known
    | some high => rfl

/-- An assigned partition is answered for when its topic has a legal name. -/
private theorem assigned_answered {topology : Topology} {previous : Option OffsetTable}
    {id : String} {list : Option (List TopicPartition) → Except String Answers}
    (known : topology.groups[id]? = some group)
    (reads : Reads list (offsetFetchPartitions topology previous id) answers)
    {key : TopicPartition} (assigned : key ∈ group.assignedPartitionRefs) :
    key ∈ answers ↔ Legal key := by
  have some : group.assignedPartitionRefs ≠ [] := List.ne_nil_of_mem assigned
  simp only [offsetFetchPartitions, known, Option.map_some, Option.getD_some, List.isEmpty_iff,
    some, if_false] at reads
  rw [reads.mem_answers, and_iff_right]
  refine List.mem_map.mpr ⟨toLex key, mem_sortDedup.mpr ?_, rfl⟩
  exact List.mem_map.mpr ⟨key, List.mem_append_left _ assigned, rfl⟩

private theorem answered_of_honest {previous : Option GroupOffsets}
    (asked : ∀ key ∈ group.assignedPartitionRefs, key ∈ answers ↔ Legal key)
    (explained : ∀ key, Counts group answers key → ∃ offset,
      (positions group (stored answers) none)[key]? = some (some offset) ∧
        Explained answers previous key offset) : Answered group answers previous := by
  refine ⟨fun key error failed => ?_, fun key assigned => ?_, fun key offset answer => ?_⟩
  · obtain ⟨offset, held, reason⟩ := explained key (.inr (.inr ⟨error, failed⟩))
    rw [positions_unanswered (by simp [failed])] at held
    simp only [Explained, failed, Option.some.injEq, reduceCtorEq, false_and, false_or,
      Except.error.injEq, exists_eq_left'] at reason
    split at held
    · next assigned =>
      obtain rfl : 0 = offset := by simpa using held
      exact ⟨assigned, reason⟩
    · contradiction
  · obtain ⟨offset, -, reason⟩ := explained key (.inl assigned)
    rw [← asked key assigned, ExtTreeMap.mem_iff_isSome_getElem?]
    rcases reason with answer | ⟨answer, -⟩ | ⟨error, answer, -⟩ <;> simp [answer]
  · obtain ⟨other, held, -⟩ := explained key (.inr (.inl ⟨offset, answer⟩))
    by_contra illegal
    rw [positions_unanswered fun _ _ => illegal] at held
    split at held
    · next assigned =>
      refine illegal ((asked key assigned).mp ?_)
      simp [ExtTreeMap.mem_iff_isSome_getElem?, answer]
    · contradiction

private theorem explained_of_answered {previous : Option GroupOffsets}
    (asked : ∀ key ∈ group.assignedPartitionRefs, key ∈ answers ↔ Legal key)
    (answered : Answered group answers previous) {key : TopicPartition}
    (counts : Counts group answers key) : ∃ offset,
      (positions group (stored answers) none)[key]? = some (some offset) ∧
        Explained answers previous key offset := by
  obtain ⟨failed, legal, named⟩ := answered
  have assigned (assigned : key ∈ group.assignedPartitionRefs) : ∃ offset,
      (positions group (stored answers) none)[key]? = some (some offset) ∧
        Explained answers previous key offset := by
    have known := (asked key assigned).mpr (legal key assigned)
    rw [Maps.mem_iff_exists] at known
    obtain ⟨error | none | offset, answer⟩ := known
    · refine ⟨0, ?_, .inr (.inr ⟨error, answer, (failed key error answer).2⟩)⟩
      rw [positions_unanswered (by simp [answer]), if_pos assigned]
    · refine ⟨0, ?_, .inr (.inl ⟨answer, rfl⟩)⟩
      rw [positions_unanswered (by simp [answer]), if_pos assigned]
    · exact ⟨offset, positions_answered answer (legal key assigned), .inl answer⟩
  rcases counts with here | ⟨offset, answer⟩ | ⟨error, answer⟩
  · exact assigned here
  · exact ⟨offset, positions_answered answer (named key offset answer), .inl answer⟩
  · exact assigned (failed key error answer).1

private theorem honest_iff {previous : Option GroupOffsets}
    (asked : ∀ key ∈ group.assignedPartitionRefs, key ∈ answers ↔ Legal key) :
    Honest group answers previous watermarks (stored answers)
        (positionsLag (positions group (stored answers) none) true watermarks).1
        (positionsLag (positions group (stored answers) none) true watermarks).2 ↔
      Unmeasured group answers watermarks ∨ Answered group answers previous := by
  by_cases unmeasured : Unmeasured group answers watermarks
  · refine iff_of_true (fun complete => ?_) (.inl unmeasured)
    exact absurd unmeasured (complete_iff.mp complete)
  · have complete := complete_iff.mpr unmeasured
    rw [or_iff_right unmeasured]
    constructor
    · intro honest
      exact answered_of_honest asked (honest complete).2
    · intro answered _
      exact ⟨total_eq complete, fun key => explained_of_answered asked answered⟩

end Positions

section Lags
variable {F : Type} [DecidableEq F] (fingerprint : GroupLagUpdate → F)

/-- A group that was read shows an honest lag, in its row and on its page,
exactly when the lag is not complete or every partition was answered for. -/
theorem lag_counts_what_was_answered_iff (state : OffsetState F) (sweep : Sweep) (id : String)
    (group : GroupInfo) (list : Option (List TopicPartition) → Except String Answers)
    (answers : Answers) (watermarks : Option WatermarkTable)
    (known : sweep.topology.groups[id]? = some group) (due : id ∈ state.due sweep)
    (client : ∀ partitions, sweep.committedOffsets id partitions =
      committedOffsets list partitions)
    (reads : Reads list (offsetFetchPartitions sweep.topology state.offsets.load id) answers) :
    let offsets := (state.sweep fingerprint sweep).state.held id
    let row := GroupRow.project id group offsets watermarks
    let detail := GroupDetail.project id group offsets watermarks
    (Honest group answers (state.held id) watermarks offsets row.totalLag row.lagComplete ∧
      Honest group answers (state.held id) watermarks offsets detail.totalLag
        detail.lagComplete) ↔
      Unmeasured group answers watermarks ∨ Answered group answers (state.held id) := by
  have read : state.answer sweep id = some (committedFromKrafka answers) := by
    rw [OffsetState.answer, client, reads.committedOffsets_eq]
    rfl
  have held : (state.sweep fingerprint sweep).state.held id = stored answers := by
    obtain ⟨table, performs⟩ := sweep_performs fingerprint state sweep
    rw [OffsetState.held, performs.committed, Option.bind_some, performs.entries,
      OffsetState.holds, if_pos (mem_due due), if_pos due, read]
    rfl
  have asked : ∀ key ∈ group.assignedPartitionRefs, key ∈ answers ↔ Legal key :=
    fun key assigned => assigned_answered known reads assigned
  intro offsets row detail
  have rowIff : Honest group answers (state.held id) watermarks offsets row.totalLag
      row.lagComplete ↔
        Unmeasured group answers watermarks ∨ Answered group answers (state.held id) := by
    simp only [row, offsets, held]
    exact honest_iff asked
  have detailIff : Honest group answers (state.held id) watermarks offsets detail.totalLag
      detail.lagComplete ↔
        Unmeasured group answers watermarks ∨ Answered group answers (state.held id) := by
    simp only [detail, offsets, held, GroupDetail.project, GroupLag.project_total,
      GroupLag.project_complete]
    exact honest_iff asked
  rw [rowIff, detailIff, and_self]

end Lags

section Examples

private def group : GroupSnapshot :=
  { id := "billing"
    state := .stable
    protocol := "range"
    members := [{ id := "m1", clientId := "c1", host := "h1",
                  assignments := [{ topic := "orders", partitions := [0] }] }]
    committed := [] }

private def groupInfo : GroupInfo :=
  { state := group.state, protocol := group.protocol, members := group.members }

private def answersOf (answer : Except String (Option Int)) : Answers :=
  (∅ : Answers).insert ("orders", 0) answer

/-- Kafka answers for the one partition the group is assigned. -/
private def sweepAnswered (answer : Except String (Option Int)) (now : Nat) : Sweep :=
  { topology := .assemble ⟨[], []⟩ [group]
    hot := []
    refresh := false
    pickedAt := now
    markedAt := now
    committedOffsets := fun _ => committedOffsets fun _ => .ok (answersOf answer)
    committedAt := now
    watermarks := none }

private def marks : WatermarkTable :=
  { marks := (∅ : ExtTreeMap String (ExtTreeMap Int Watermarks)).insert "orders"
      ((∅ : ExtTreeMap Int Watermarks).insert 0 ⟨0, 100⟩) }

private def started : OffsetState GroupLagUpdate := .new 2 30

theorem lag_counts_what_was_answered_first :
    let offsets := (started.sweep id (sweepAnswered (.ok (some 90)) 0)).state.held "billing"
    let row := GroupRow.project "billing" groupInfo offsets (some marks)
    Honest groupInfo (answersOf (.ok (some 90))) (started.held "billing") (some marks) offsets
      row.totalLag row.lagComplete := by
  let read := sweepAnswered (.ok (some 90)) 0
  have asked : offsetFetchPartitions read.topology started.offsets.load "billing" =
      some [("orders", 0)] := by decide
  have legal : askedFor [("orders", 0)] = [("orders", 0)] := by decide
  have reads : Reads (fun _ => .ok (answersOf (.ok (some 90))))
      (offsetFetchPartitions read.topology started.offsets.load "billing")
      (answersOf (.ok (some 90))) := by
    rw [asked]
    refine .asked (by simp [legal]) rfl fun key => ?_
    rw [legal, answersOf, ExtTreeMap.mem_insert, LawfulEqCmp.compare_eq_iff_eq]
    simp [eq_comm]
  refine ((lag_counts_what_was_answered_iff id started read "billing" groupInfo _ _ (some marks)
    (by decide) (by decide) (fun _ => rfl) reads).mpr (.inr ⟨?_, ?_, ?_⟩)).1
  · intro key error failed
    simp [answersOf, ExtTreeMap.getElem?_insert] at failed
  · decide
  · intro key offset answer
    rw [answersOf, ExtTreeMap.getElem?_insert] at answer
    split at answer
    · next same =>
      rw [← LawfulEqCmp.eq_of_compare same]
      decide
    · simp at answer

/-- The group stood at 90 of 100, its partition could not be read, and it shows
a complete lag of 100. -/
theorem failed_read_counts_from_start :
    let first := (started.sweep id (sweepAnswered (.ok (some 90)) 0)).state
    let offsets := (first.sweep id (sweepAnswered (.error "unstable") 60)).state.held "billing"
    let row := GroupRow.project "billing" groupInfo offsets (some marks)
    row.totalLag = some 100 ∧
      ¬ Honest groupInfo (answersOf (.error "unstable")) (first.held "billing") (some marks) offsets
        row.totalLag row.lagComplete := by
  intro first offsets row
  refine ⟨by decide +kernel, fun honest => ?_⟩
  obtain ⟨offset, held, reason⟩ := (honest (by decide +kernel)).2 ("orders", 0) (.inl (by decide))
  have start : (positions groupInfo offsets none)[(("orders", 0) : TopicPartition)]? =
      some (some 0) := by decide +kernel
  have known : lastKnown (first.held "billing") ("orders", 0) = some 90 := by decide
  obtain rfl : offset = 0 := by simpa using held.symm.trans start
  simp [Explained, answersOf, known] at reason

end Examples
end Klens.Ingest
