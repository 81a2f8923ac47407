import Klens.Scan.Paging
import Mathlib.Data.List.Dedup

/-! The records of a span in the order they are asked for, and logs whose
partitions are already in that order: no offset is missing between the marks
and timestamps do not fall. -/
namespace Klens.Scan
open Klens.Lib

/-- The comparison a page is sorted by. -/
def RawRecord.notAfter (order : RecordOrder) (left right : RawRecord) : Prop :=
  (left.sortKey.cmpForOrder right.sortKey order).isLE = true

instance (order : RecordOrder) : DecidableRel (RawRecord.notAfter order) :=
  fun left right => inferInstanceAs (Decidable ((left.sortKey.cmpForOrder right.sortKey order).isLE = true))

namespace Log

/-- The records of a partition between its marks. -/
def betweenMarks (log : Log) (span : LogSpan) (partition : Int) : List RawRecord :=
  match span.watermarks partition with
  | none => []
  | some marks => (log.records partition).filter fun raw =>
      marks.low ≤ raw.offset ∧ raw.offset < marks.high

/-- The records of the span, partition by partition. -/
def spanned (log : Log) (span : LogSpan) : List RawRecord :=
  span.partitions.dedup.flatMap (log.betweenMarks span)

/-- The records of the span, sorted by `cmpForOrder`. -/
def sorted (log : Log) (span : LogSpan) (order : RecordOrder) : List RawRecord :=
  (log.spanned span).insertionSort (RawRecord.notAfter order)

end Log

/-- Raw records in the order of their own keys. -/
def RawRecord.Precedes (order : RecordOrder) (direction : CursorDirection)
    (self other : RawRecord) : Prop := self.sortKey.Precedes order direction other.sortKey

instance {order : RecordOrder} {direction : CursorDirection} :
    IsTrans RawRecord (RawRecord.Precedes order direction) where
  trans _ _ _ first second := trans_of (SortKey.Precedes order direction) first second

instance {order : RecordOrder} {direction : CursorDirection} :
    Std.Irrefl (RawRecord.Precedes order direction) where
  irrefl raw := Std.Irrefl.irrefl (r := SortKey.Precedes order direction) raw.sortKey

namespace RawRecord
variable {order : RecordOrder} {left right : RawRecord}

theorem notAfter_iff : left.notAfter order right ↔ ¬ right.Precedes order .forward left := by
  unfold notAfter Precedes SortKey.Precedes
  rw [SortKey.rank_swap left.sortKey right.sortKey]
  change _ ↔ ¬ (left.sortKey.cmpForOrder right.sortKey order).swap = .lt
  cases left.sortKey.cmpForOrder right.sortKey order <;> decide

/-- Records at different places are never tied. -/
theorem apart (direction : CursorDirection) (different : left.place ≠ right.place) :
    left.Precedes order direction right ∨ right.Precedes order direction left :=
  SortKey.apart fun same => different (Prod.ext same.1 same.2)

instance (order : RecordOrder) : IsTrans RawRecord (notAfter order) where
  trans a b c first second := by
    rw [notAfter_iff, Precedes, SortKey.precedes_iff] at first second ⊢
    cases order <;> simp only at first second ⊢ <;> omega

instance (order : RecordOrder) : Std.Total (notAfter order) where
  total a b := by
    rw [notAfter_iff, notAfter_iff, ← not_and_or]
    rintro ⟨before, after⟩
    exact Std.Irrefl.irrefl (r := Precedes order .forward) b
      (trans_of (Precedes order .forward) before after)

/-- What is ascending already comes out of sorting any rearrangement of it. -/
theorem insertionSort_eq {records ordered : List RawRecord} (same : records.Perm ordered)
    (ascending : ordered.Pairwise (Precedes order .forward)) :
    records.insertionSort (notAfter order) = ordered := by
  have weakly : ordered.Pairwise (notAfter order) := ascending.imp fun before =>
    notAfter_iff.mpr fun after => Std.Irrefl.irrefl (r := Precedes order .forward) _
      (trans_of (Precedes order .forward) before after)
  refine List.Perm.eq_of_pairwise ?_ (List.pairwise_insertionSort _ _) weakly
    ((List.perm_insertionSort _ _).trans same)
  intro a b one two
  have here : a ∈ ordered := ((List.perm_insertionSort _ _).trans same).mem_iff.mp one
  refine List.Pairwise.forall_of_forall_of_flip
    (R := fun a b : RawRecord => a.notAfter order b → b.notAfter order a → a = b)
    (fun _ _ _ _ => rfl) ?_ ?_ here two
  · exact ascending.imp fun before _ after => absurd before (notAfter_iff.mp after)
  · exact ascending.imp fun before after _ => absurd before (notAfter_iff.mp after)

end RawRecord

namespace Log
variable {log : Log} {span : LogSpan} {raw : RawRecord}

theorem mem_betweenMarks {partition : Int} : raw ∈ log.betweenMarks span partition ↔
    raw ∈ log.records partition ∧ ∃ marks, span.watermarks partition = some marks ∧
      marks.low ≤ raw.offset ∧ raw.offset < marks.high := by
  unfold betweenMarks
  cases span.watermarks partition with
  | none => simp
  | some marks => simp

theorem mem_spanned : raw ∈ log.spanned span ↔ log.Holds span raw := by
  unfold spanned Holds
  rw [List.mem_flatMap]
  constructor
  · rintro ⟨partition, listed, member⟩
    obtain ⟨inLog, inside⟩ := mem_betweenMarks.mp member
    obtain rfl := log.placed partition raw inLog
    exact ⟨inLog, List.mem_dedup.mp listed, inside⟩
  · rintro ⟨inLog, listed, inside⟩
    exact ⟨raw.partition, List.mem_dedup.mpr listed, mem_betweenMarks.mpr ⟨inLog, inside⟩⟩

theorem nodup_spanned (log : Log) (span : LogSpan) : (log.spanned span).Nodup := by
  refine List.nodup_flatMap.mpr ⟨fun partition _ => ?_, ?_⟩
  · have distinct : (log.records partition).Nodup := (log.rising partition).imp fun less same => by
      subst same
      exact lt_irrefl _ less
    unfold betweenMarks
    cases span.watermarks partition with
    | none => exact .nil
    | some marks => exact distinct.filter _
  · refine (List.nodup_dedup _).imp fun {first second} different raw one two => different ?_
    have here := log.placed first raw (mem_betweenMarks.mp one).1
    have there := log.placed second raw (mem_betweenMarks.mp two).1
    exact here.symm.trans there

theorem mem_sorted {order : RecordOrder} : raw ∈ log.sorted span order ↔ log.Holds span raw :=
  (List.perm_insertionSort _ _).mem_iff.trans mem_spanned

theorem pairwise_sorted (log : Log) (span : LogSpan) (order : RecordOrder) :
    (log.sorted span order).Pairwise (RawRecord.Precedes order .forward) := by
  have distinct : (log.sorted span order).Nodup :=
    (List.perm_insertionSort _ _).nodup_iff.mpr (log.nodup_spanned span)
  refine ((List.pairwise_insertionSort (RawRecord.notAfter order) (log.spanned span)).and
    distinct).imp_of_mem ?_
  rintro a b one two ⟨before, different⟩
  refine (RawRecord.apart .forward fun same => different ?_).resolve_right
    (RawRecord.notAfter_iff.mp before)
  exact eq_of_place (mem_sorted.mp one) (mem_sorted.mp two) same

end Log

/-- Between its marks a partition misses no offset, and its timestamps do not
fall with the offset. -/
structure Orderly (log : Log) (span : LogSpan) : Prop where
  marks : ∀ partition ∈ span.partitions, ∀ marks, span.watermarks partition = some marks →
    marks.low ≤ marks.high
  dense : ∀ partition ∈ span.partitions, ∀ marks, span.watermarks partition = some marks →
    ∀ offset, marks.low ≤ offset → offset < marks.high →
      ∃ raw ∈ log.records partition, raw.offset = offset
  timely : ∀ partition ∈ span.partitions,
    (log.records partition).Pairwise (·.timestamp ≤ ·.timestamp)

namespace Orderly
variable {log : Log} {span : LogSpan}

theorem holds (orderly : Orderly log span) {partition : Int} (listed : partition ∈ span.partitions)
    {marks : Watermarks} (known : span.watermarks partition = some marks) {offset : Int}
    (low : marks.low ≤ offset) (high : offset < marks.high) :
    ∃ raw, log.Holds span raw ∧ raw.partition = partition ∧ raw.offset = offset := by
  obtain ⟨raw, member, rfl⟩ := orderly.dense partition listed marks known offset low high
  obtain rfl := log.placed partition raw member
  exact ⟨raw, ⟨member, listed, marks, known, low, high⟩, rfl, rfl⟩

theorem timestamp_le (orderly : Orderly log span) {first second : RawRecord}
    (one : log.Holds span first) (two : log.Holds span second)
    (same : first.partition = second.partition) (before : first.offset ≤ second.offset) :
    first.timestamp ≤ second.timestamp := by
  have inLog : first ∈ log.records second.partition := same ▸ one.1
  revert before
  refine List.Pairwise.forall_of_forall_of_flip
    (R := fun a b : RawRecord => a.offset ≤ b.offset → a.timestamp ≤ b.timestamp)
    (fun _ _ _ => le_refl _) ?_ ?_ inLog two.1
  · refine (orderly.timely _ two.2.1).imp ?_
    intro first second le _
    exact le
  · exact (log.rising _).imp fun less le => absurd le (not_le.mpr less)

/-- Along a partition, records come up in the order of their keys. -/
theorem precedes (orderly : Orderly log span) {order : RecordOrder} {direction : CursorDirection}
    {first second : RawRecord} (one : log.Holds span first) (two : log.Holds span second)
    (same : first.partition = second.partition)
    (before : match SortKey.walkOf order direction with
      | .oldest => first.offset < second.offset
      | .newest => second.offset < first.offset) : first.Precedes order direction second := by
  refine (SortKey.precedes_same_partition same ?_ ?_).mpr ?_
  · exact fun less => orderly.timestamp_le one two same less.le
  · exact fun less => orderly.timestamp_le two one same.symm less.le
  · cases walk : SortKey.walkOf order direction with
    | oldest => rw [walk] at before; exact .inl before
    | newest => rw [walk] at before; exact .inl before

end Orderly
end Klens.Scan
