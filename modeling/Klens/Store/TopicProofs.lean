import Klens.Lib.Maps
import Klens.Store.Projections

/-! The row of a topic and its page, over tables that need not agree on which
partitions the topic has. -/
namespace Klens.Store
open Klens.Lib Std

variable {Rate : Type}

/-- The row and the page say the same wherever they say something of the same. -/
structure Agree (row : TopicRow Rate) (detail : TopicDetail Rate) : Prop where
  internal : row.internal = detail.internal
  replicationFactor : row.replicationFactor = detail.replicationFactor
  retainedMessages : row.retainedMessages = detail.retainedMessages
  producedTotal : row.producedTotal = detail.producedTotal
  sizeBytes : row.sizeBytes = detail.sizeBytes
  rate : row.rate = detail.rate
  retentionMs : row.retentionMs = detail.retentionMs
  cleanupPolicy : row.cleanupPolicy = detail.cleanupPolicy
  groupCount : row.groupCount = detail.groupCount
  underReplicated : row.underReplicated = detail.underReplicated

/-- The marks of a topic, as far as the lanes have any. -/
def marksFor (lanes : TopicLanes) (name : String) : ExtTreeMap Int Watermarks :=
  (lanes.watermarks.bind (·.marks[name]?)).getD ∅

/-- The marks of partitions the topic does not have, which the row counts and
the page does not. -/
def strays (lanes : TopicLanes) (name : String) (topic : TopicInfo) : List Watermarks :=
  ((marksFor lanes name).toList.filter fun entry =>
    !decide (entry.1 ∈ topic.partitionIds)).map Prod.snd

def weightProduced (mark : Watermarks) : Int := max mark.high 0

def weightRetained (mark : Watermarks) : Int := max (wrapped 64 (mark.high - mark.low)) 0

private theorem underReplicated_rows (lanes : TopicLanes) (name : String) (topic : TopicInfo) :
    (topic.partitions.map (partitionRow lanes name)).any PartitionRow.underReplicated =
      topic.underReplicated := by
  rw [TopicInfo.underReplicated, List.any_map]
  rfl

/-- What the page takes for the marks of a partition. -/
private theorem marksOf_eq (lanes : TopicLanes) (name : String) (partition : Int) :
    marksOf lanes name partition = (marksFor lanes name)[partition]?.getD ⟨0, 0⟩ := by
  cases watermarks : lanes.watermarks with
  | none => simp [marksOf, marksFor, watermarks]
  | some table =>
    cases held : table.marks[name]? with
    | none => simp [marksOf, marksFor, WatermarkTable.get, watermarks, held]
    | some marks => simp [marksOf, marksFor, WatermarkTable.get, watermarks, held]

/-- The row sums over the marks, the page over its partitions: the sums are the
same exactly when what the strays weigh wraps to nothing. -/
private theorem wrappingSum_marks_iff (weight : Watermarks → Int) (lanes : TopicLanes)
    (name : String) {topic : TopicInfo} (distinct : topic.partitionIds.Nodup)
    (nothing : weight ⟨0, 0⟩ = 0) :
    wrappingSum 64 ((marksFor lanes name).toList.map fun entry => weight entry.2) =
        wrappingSum 64 (topic.partitions.map fun partition =>
          weight (marksOf lanes name partition.id)) ↔
      (2 ^ 64 : Int) ∣ ((strays lanes name topic).map weight).sum := by
  have split := Maps.sum_toList_split (marksFor lanes name) distinct weight nothing
  rw [TopicInfo.partitionIds, List.map_map] at split
  simp only [Function.comp_def] at split
  simp only [marksOf_eq]
  rw [wrappingSum_eq, wrappingSum_eq, split, wrapped_add_eq_left_iff, strays, List.map_map]
  rfl

/-- What a row takes from the table, if it has one with marks of the topic. -/
private theorem wrappingSum_marksFor (weight : Watermarks → Int) (lanes : TopicLanes)
    (name : String) :
    (lanes.watermarks.map fun table => (table.marks[name]?.map fun marks =>
        wrappingSum 64 (marks.toList.map fun entry => weight entry.2)).getD 0).getD 0 =
      wrappingSum 64 ((marksFor lanes name).toList.map fun entry => weight entry.2) := by
  have nothing : wrappingSum 64 ((∅ : ExtTreeMap Int Watermarks).toList.map fun entry =>
      weight entry.2) = 0 := rfl
  cases watermarks : lanes.watermarks with
  | none => simp [marksFor, watermarks, nothing]
  | some table =>
    cases held : table.marks[name]? with
    | none => simp [marksFor, watermarks, held, nothing]
    | some marks => simp [marksFor, watermarks, held]

private theorem row_producedTotal (name : String) (topic : TopicInfo) (lanes : TopicLanes)
    (rate : Rate) : (TopicRow.project name topic lanes rate).producedTotal =
      wrappingSum 64 ((marksFor lanes name).toList.map fun entry => weightProduced entry.2) := by
  rw [← wrappingSum_marksFor]
  rfl

private theorem row_retainedMessages (name : String) (topic : TopicInfo) (lanes : TopicLanes)
    (rate : Rate) : (TopicRow.project name topic lanes rate).retainedMessages =
      wrappingSum 64 ((marksFor lanes name).toList.map fun entry => weightRetained entry.2) := by
  rw [← wrappingSum_marksFor]
  rfl

private theorem detail_producedTotal (name : String) (topic : TopicInfo) (lanes : TopicLanes)
    (rate : Rate) : (TopicDetail.project name topic lanes rate).producedTotal =
      wrappingSum 64 (topic.partitions.map fun partition =>
        weightProduced (marksOf lanes name partition.id)) := by
  change wrappingSum 64 ((topic.partitions.map (partitionRow lanes name)).map _) = _
  rw [List.map_map]
  rfl

private theorem detail_retainedMessages (name : String) (topic : TopicInfo) (lanes : TopicLanes)
    (rate : Rate) : (TopicDetail.project name topic lanes rate).retainedMessages =
      wrappingSum 64 (topic.partitions.map fun partition =>
        weightRetained (marksOf lanes name partition.id)) := by
  change wrappingSum 64 ((topic.partitions.map (partitionRow lanes name)).map _) = _
  rw [List.map_map]
  rfl

/-- Strays whose sums fit weigh nothing only when none of them has messages. -/
theorem weightless_iff {marks : List Watermarks}
    (ranged : ∀ mark ∈ marks, -2 ^ 63 ≤ mark.high - mark.low ∧ mark.high - mark.low < 2 ^ 63)
    (produced : (marks.map weightProduced).sum < 2 ^ 64)
    (retained : (marks.map weightRetained).sum < 2 ^ 64) :
    (2 ^ 64 : Int) ∣ (marks.map weightProduced).sum ∧
        (2 ^ 64 : Int) ∣ (marks.map weightRetained).sum ↔
      ∀ mark ∈ marks, mark.high ≤ 0 ∧ mark.high ≤ mark.low := by
  have exact_ : ∀ mark ∈ marks, weightRetained mark = max (mark.high - mark.low) 0 := by
    intro mark member
    obtain ⟨lower, upper⟩ := ranged mark member
    rw [weightRetained, wrapped_eq_self (by omega) (by omega)]
  rw [dvd_sum_iff (by simp [weightProduced]) produced, dvd_sum_iff (by simp [weightRetained])
    retained]
  simp only [List.forall_mem_map]
  constructor
  · rintro ⟨none, nothing⟩ mark member
    have high := none mark member
    have kept := nothing mark member
    rw [exact_ mark member] at kept
    rw [weightProduced] at high
    omega
  · intro drained
    refine ⟨fun mark member => ?_, fun mark member => ?_⟩
    · have := drained mark member
      rw [weightProduced]
      omega
    · have := drained mark member
      rw [exact_ mark member]
      omega

/-- The row and the page of a topic agree exactly when what the marks outside
the topic weigh comes to whole turns of an `i64`. -/
theorem row_agrees_with_detail_iff (name : String) (topic : TopicInfo) (lanes : TopicLanes)
    (rate : Rate) (distinct : topic.partitionIds.Nodup) :
    Agree (TopicRow.project name topic lanes rate) (TopicDetail.project name topic lanes rate) ↔
      (2 ^ 64 : Int) ∣ ((strays lanes name topic).map weightProduced).sum ∧
        (2 ^ 64 : Int) ∣ ((strays lanes name topic).map weightRetained).sum := by
  have produced := wrappingSum_marks_iff weightProduced lanes name distinct rfl
  have retained := wrappingSum_marks_iff weightRetained lanes name distinct rfl
  rw [← row_producedTotal name topic lanes rate, ← detail_producedTotal name topic lanes rate]
    at produced
  rw [← row_retainedMessages name topic lanes rate, ← detail_retainedMessages name topic lanes rate]
    at retained
  constructor
  · exact fun agree => ⟨produced.mp agree.producedTotal, retained.mp agree.retainedMessages⟩
  · rintro ⟨none, nothing⟩
    exact ⟨rfl, rfl, retained.mpr nothing, produced.mpr none, rfl, rfl, rfl, rfl, rfl,
      (underReplicated_rows lanes name topic).symm⟩

section Examples

private def shrunk : TopicInfo :=
  { internal := false, partitions := [{ id := 0, leader := 1, replicas := [1], isr := [1] }] }

/-- Marks older than the topology: the topic no longer has partition 1. -/
private def outdated (high : Int) : WatermarkTable :=
  { marks := (∅ : ExtTreeMap String (ExtTreeMap Int Watermarks)).insert "orders"
      (((∅ : ExtTreeMap Int Watermarks).insert 0 ⟨0, 3⟩).insert 1 ⟨0, high⟩) }

private def skewed (high : Int) : TopicLanes :=
  { topology := .empty, watermarks := some (outdated high), configs := none, logDirs := none }

theorem row_agrees_with_detail_drained :
    Agree (TopicRow.project "orders" shrunk (skewed 0) ())
      (TopicDetail.project "orders" shrunk (skewed 0) ()) := by
  refine (row_agrees_with_detail_iff _ _ _ _ (by decide)).mpr ?_
  have stray : strays (skewed 0) "orders" shrunk = [⟨0, 0⟩] := by decide +kernel
  rw [stray]
  exact (weightless_iff (by decide) (by decide) (by decide)).mpr (by decide)

theorem row_counts_partition_page_lacks :
    shrunk.partitionIds.Nodup ∧ ¬ Agree (TopicRow.project "orders" shrunk (skewed 10) ())
      (TopicDetail.project "orders" shrunk (skewed 10) ()) := by
  refine ⟨by decide, fun agree => ?_⟩
  exact absurd agree.producedTotal (by decide +kernel)

end Examples

end Klens.Store
