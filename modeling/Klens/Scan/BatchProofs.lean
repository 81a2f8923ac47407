import Klens.Scan.Batch
import Mathlib.Tactic.Common

/-! The batch keeps the best of what it was offered. `Collects` forgets the
order of the pushes, so records a full batch turns away can be counted as
offered. -/
namespace Klens.Scan
open Klens.Lib

namespace SortKey
variable {order : RecordOrder} {direction : CursorDirection} {a b c : SortKey}

theorem cmpForOrder_newest : a.cmpForOrder b .newest = .lt ↔
    b.timestamp < a.timestamp ∨ a.timestamp = b.timestamp ∧
      (a.partition < b.partition ∨ a.partition = b.partition ∧ b.offset < a.offset) := by
  simp only [cmpForOrder, Ordering.then_eq_lt, Ordering.swap_eq_lt, Ordering.then_eq_eq,
    Ordering.swap_eq_eq, compare_lt_iff_lt, compare_gt_iff_gt, compare_eq_iff_eq]
  omega

theorem cmpForOrder_oldest : a.cmpForOrder b .oldest = .lt ↔
    a.timestamp < b.timestamp ∨ a.timestamp = b.timestamp ∧
      (a.partition < b.partition ∨ a.partition = b.partition ∧ a.offset < b.offset) := by
  simp only [cmpForOrder, Ordering.then_eq_lt, Ordering.then_eq_eq, compare_lt_iff_lt,
    compare_eq_iff_eq]
  omega

/-- `rank` written out as a comparison of integers. -/
theorem precedes_iff : Precedes order direction a b ↔
    match order, direction with
    | .newest, .forward => b.timestamp < a.timestamp ∨ a.timestamp = b.timestamp ∧
        (a.partition < b.partition ∨ a.partition = b.partition ∧ b.offset < a.offset)
    | .newest, .backward => a.timestamp < b.timestamp ∨ a.timestamp = b.timestamp ∧
        (b.partition < a.partition ∨ a.partition = b.partition ∧ a.offset < b.offset)
    | .oldest, .forward => a.timestamp < b.timestamp ∨ a.timestamp = b.timestamp ∧
        (a.partition < b.partition ∨ a.partition = b.partition ∧ a.offset < b.offset)
    | .oldest, .backward => b.timestamp < a.timestamp ∨ a.timestamp = b.timestamp ∧
        (b.partition < a.partition ∨ a.partition = b.partition ∧ b.offset < a.offset) := by
  unfold Precedes rank
  cases order <;> cases direction <;>
    simp only [cmpForOrder_newest, cmpForOrder_oldest] <;> omega

instance : IsTrans SortKey (Precedes order direction) where
  trans a b c first second := by
    rw [precedes_iff] at first second ⊢
    cases order <;> cases direction <;> simp only at first second ⊢ <;> omega

instance : Std.Irrefl (Precedes order direction) where
  irrefl a self := by
    rw [precedes_iff] at self
    cases order <;> cases direction <;> simp only at self <;> omega

/-- Records in different places are never tied. -/
theorem apart (different : ¬ (a.partition = b.partition ∧ a.offset = b.offset)) :
    Precedes order direction a b ∨ Precedes order direction b a := by
  rw [precedes_iff, precedes_iff]
  cases order <;> cases direction <;> simp only <;> omega

theorem rank_swap (a b : SortKey) (order : RecordOrder) (direction : CursorDirection) :
    b.rank a order direction = (a.rank b order direction).swap := by
  cases order <;> cases direction <;>
    simp only [rank, cmpForOrder, Ordering.swap_then, Int.compare_swap]

/-- The way a page reads its partitions: with the order, or against it. -/
def walkOf (order : RecordOrder) (direction : CursorDirection) : RecordOrder :=
  match direction with
  | .forward => order
  | .backward => order.flipped

/-- Inside a partition whose keys do not fall with the offset, a batch prefers
the records its walk meets first. -/
theorem precedes_same_partition (same : a.partition = b.partition)
    (rising : a.offset < b.offset → a.timestamp ≤ b.timestamp)
    (falling : b.offset < a.offset → b.timestamp ≤ a.timestamp) :
    Precedes order direction a b ↔
      match walkOf order direction with
      | .oldest => a.offset < b.offset ∨ a.offset = b.offset ∧ a.timestamp < b.timestamp
      | .newest => b.offset < a.offset ∨ a.offset = b.offset ∧ b.timestamp < a.timestamp := by
  rw [precedes_iff]
  cases order <;> cases direction <;> simp only [walkOf, RecordOrder.flipped] <;> omega

end SortKey

/-- A key with what it ranks. -/
abbrev Ranked (T : Type) := SortKey × T

/-- Ranked values in the order of their keys. -/
def Ranked.Precedes {T : Type} (order : RecordOrder) (direction : CursorDirection)
    (self other : Ranked T) : Prop := self.1.Precedes order direction other.1

instance {T : Type} (order : RecordOrder) (direction : CursorDirection) :
    DecidableRel (Ranked.Precedes (T := T) order direction) :=
  fun self other => inferInstanceAs (Decidable (self.1.Precedes order direction other.1))

instance {T : Type} {order : RecordOrder} {direction : CursorDirection} :
    IsTrans (Ranked T) (Ranked.Precedes order direction) where
  trans _ _ _ first second := trans_of (SortKey.Precedes order direction) first second

instance {T : Type} {order : RecordOrder} {direction : CursorDirection} :
    Std.Irrefl (Ranked.Precedes (T := T) order direction) where
  irrefl a := Std.Irrefl.irrefl (r := SortKey.Precedes order direction) a.1

namespace Ranked
variable {T : Type} {order : RecordOrder} {direction : CursorDirection}

/-- All of `records`, sorted by rank. -/
def sorted (order : RecordOrder) (direction : CursorDirection) (records : List (Ranked T)) :
    List (Ranked T) :=
  records.mergeSort fun a b => a.1.rank b.1 order direction != .gt

theorem not_precedes_iff (a b : Ranked T) :
    (a.1.rank b.1 order direction != .gt) = true ↔ ¬ b.Precedes order direction a := by
  rw [Ranked.Precedes, SortKey.Precedes, SortKey.rank_swap a.1 b.1]
  cases a.1.rank b.1 order direction <;> decide

theorem sorted_perm (records : List (Ranked T)) :
    (sorted order direction records).Perm records := List.mergeSort_perm ..

/-- Records at different places are strictly ascending once sorted. -/
theorem sorted_pairwise {records : List (Ranked T)}
    (distinct : (records.map fun entry => (entry.1.partition, entry.1.offset)).Nodup) :
    (sorted order direction records).Pairwise (Ranked.Precedes order direction) := by
  have placed : ((sorted order direction records).map fun entry =>
      (entry.1.partition, entry.1.offset)).Nodup :=
    ((sorted_perm records).map _).nodup_iff.mpr distinct
  have ascending : (sorted order direction records).Pairwise fun a b =>
      ¬ b.Precedes order direction a := by
    refine (List.pairwise_mergeSort ?_ ?_ records).imp fun le => (not_precedes_iff _ _).mp le
    · intro a b c first second
      rw [not_precedes_iff, Ranked.Precedes, SortKey.precedes_iff] at first second ⊢
      cases order <;> cases direction <;> simp only at first second ⊢ <;> omega
    · intro a b
      rw [Bool.or_eq_true, not_precedes_iff, not_precedes_iff, ← not_and_or]
      rintro ⟨before, after⟩
      exact Std.Irrefl.irrefl (r := Ranked.Precedes order direction) b
        (trans_of (Ranked.Precedes order direction) before after)
  refine (ascending.and (List.pairwise_map.mp placed)).imp ?_
  rintro a b ⟨after, apart⟩
  refine (SortKey.apart fun same => apart ?_).resolve_right after
  exact Prod.ext same.1 same.2

end Ranked

namespace RecordBatch
variable {T : Type}

/-- The held entries without their sequence numbers. -/
def ranked (batch : RecordBatch T) : List (Ranked T) :=
  batch.entries.map fun entry => (entry.key, entry.value)

theorem push_of_limit {batch : RecordBatch T} (positive : batch.limit ≠ 0) (key : SortKey)
    (value : T) : batch.push key value =
      { batch with
        seen := batch.seen + 1
        entries := offer Entry.Before batch.limit
          ⟨key, value, batch.order, batch.direction, batch.seen⟩ batch.entries } := by
  unfold push offer
  rw [if_neg positive]
  dsimp only
  split
  · rfl
  · cases batch.entries.getLast? with
    | none => rfl
    | some worst =>
      dsimp only
      split
      · rename_i before
        rw [if_pos (show Entry.Before _ _ from before)]
      · rename_i after
        rw [if_neg (show ¬ Entry.Before _ _ from after)]

@[simp] theorem push_limit (batch : RecordBatch T) (key : SortKey) (value : T) :
    (batch.push key value).limit = batch.limit := by
  by_cases zero : batch.limit = 0
  · simp [push, zero]
  · rw [push_of_limit zero]

@[simp] theorem push_order (batch : RecordBatch T) (key : SortKey) (value : T) :
    (batch.push key value).order = batch.order := by
  by_cases zero : batch.limit = 0
  · simp [push, zero]
  · rw [push_of_limit zero]

@[simp] theorem push_direction (batch : RecordBatch T) (key : SortKey) (value : T) :
    (batch.push key value).direction = batch.direction := by
  by_cases zero : batch.limit = 0
  · simp [push, zero]
  · rw [push_of_limit zero]

/-- What pushing never changes. -/
def shape (batch : RecordBatch T) : Nat × RecordOrder × CursorDirection :=
  (batch.limit, batch.order, batch.direction)

@[simp] theorem shape_push (batch : RecordBatch T) (key : SortKey) (value : T) :
    (batch.push key value).shape = batch.shape := by
  simp [shape]

/-- Records at different places are compared by their keys alone. -/
theorem before_iff {batch : RecordBatch T} {entry other : Entry T}
    (order : entry.order = batch.order) (direction : entry.direction = batch.direction)
    (different : ¬ (entry.key.partition = other.key.partition ∧
      entry.key.offset = other.key.offset)) :
    entry.Before other ↔ Ranked.Precedes batch.order batch.direction
      (entry.key, entry.value) (other.key, other.value) := by
  unfold Entry.Before Entry.cmp Ranked.Precedes SortKey.Precedes
  rw [order, direction, Ordering.then_eq_lt]
  refine ⟨?_, Or.inl⟩
  rintro (before | ⟨tied, _⟩)
  · exact before
  · have apart : entry.key.Precedes batch.order batch.direction other.key ∨
        other.key.Precedes batch.order batch.direction entry.key := SortKey.apart different
    rcases apart with before | after
    · exact before
    · have swapped := SortKey.rank_swap entry.key other.key batch.order batch.direction
      rw [tied, show other.key.rank entry.key batch.order batch.direction = .lt from after] at swapped
      contradiction

theorem ranked_push {batch : RecordBatch T} (positive : batch.limit ≠ 0) {key : SortKey} {value : T}
    (fresh : ∀ held ∈ batch.ranked, ¬ (key.partition = held.1.partition ∧
      key.offset = held.1.offset)) :
    (batch.push key value).ranked =
      offer (Ranked.Precedes batch.order batch.direction) batch.limit (key, value) batch.ranked := by
  rw [push_of_limit positive]
  unfold ranked
  apply offer_map
  intro entry member
  refine before_iff rfl rfl ?_
  exact fresh (entry.key, entry.value) (List.mem_map.mpr ⟨entry, member, rfl⟩)

/-- The batch holds the best of `offered`, wherever the offers ended up. -/
structure Collects (batch : RecordBatch T) (offered : List (Ranked T)) : Prop where
  best : Best (Ranked.Precedes batch.order batch.direction) batch.limit offered batch.ranked

/-- `key` names a place none of `offered` is at. -/
def Fresh (key : SortKey) (offered : List (Ranked T)) : Prop :=
  ∀ held ∈ offered, ¬ (key.partition = held.1.partition ∧ key.offset = held.1.offset)

theorem collects_new (limit : Nat) (order : RecordOrder) (direction : CursorDirection) :
    (new limit order direction : RecordBatch T).Collects [] :=
  ⟨Best.nil⟩

theorem Collects.perm {batch : RecordBatch T} {offered others : List (Ranked T)}
    (collects : batch.Collects offered) (same : offered.Perm others) : batch.Collects others :=
  ⟨collects.best.perm same⟩

theorem Collects.push {batch : RecordBatch T} {offered : List (Ranked T)} {key : SortKey} {value : T}
    (collects : batch.Collects offered) (fresh : Fresh key offered) :
    (batch.push key value).Collects ((key, value) :: offered) := by
  have freshHeld : ∀ held ∈ batch.ranked, ¬ (key.partition = held.1.partition ∧
      key.offset = held.1.offset) := fun held member => fresh held (collects.best.subset member)
  by_cases zero : batch.limit = 0
  · have empty : batch.ranked = [] := by
      have bound := collects.best.length_le
      rw [zero] at bound
      exact List.length_eq_zero_iff.mp (by omega)
    have same : batch.push key value = batch := by simp [RecordBatch.push, zero]
    rw [same]
    refine ⟨collects.best.skip (by simp [empty, zero]) (by simp [empty])⟩
  · refine ⟨?_⟩
    rw [push_order, push_direction, push_limit, ranked_push zero freshHeld]
    exact collects.best.offer fun held member => SortKey.apart (fresh held member)

/-- A record the batch turns away would not have been kept, whatever it holds. -/
theorem Collects.turned_away {batch : RecordBatch T} {offered : List (Ranked T)} {key : SortKey}
    {value : T} (collects : batch.Collects offered) (fresh : Fresh key offered)
    (refused : batch.admits key = false) : batch.Collects ((key, value) :: offered) := by
  have bound := collects.best.length_le
  have same : batch.ranked.length = batch.entries.length := by simp [ranked]
  unfold admits at refused
  split at refused
  · rename_i zero
    have empty : batch.ranked = [] := List.length_eq_zero_iff.mp (by omega)
    exact ⟨collects.best.skip (by simp [empty, zero]) (by simp [empty])⟩
  · split at refused
    · contradiction
    · rename_i full
      have full : batch.limit ≤ batch.entries.length := by simpa [isFull] using full
      have filled : batch.ranked.length = batch.limit := by omega
      cases last : batch.entries.getLast? with
      | none => simp [last] at refused
      | some worst =>
        rw [last] at refused
        have lastRanked : batch.ranked.getLast? = some (worst.key, worst.value) := by
          simp [ranked, List.getLast?_map, last]
        obtain ⟨init, split⟩ := List.getLast?_eq_some_iff.mp lastRanked
        have worstHeld : (worst.key, worst.value) ∈ batch.ranked := by rw [split]; simp
        have notBefore : ¬ key.Precedes batch.order batch.direction worst.key := by
          simpa [SortKey.Precedes] using refused
        have after : worst.key.Precedes batch.order batch.direction key :=
          (SortKey.apart (fresh _ (collects.best.subset worstHeld))).resolve_left notBefore
        refine ⟨collects.best.skip filled ?_⟩
        intro held member
        rw [split] at member
        rcases List.mem_append.mp member with earlier | final
        · have ascending := collects.best.sorted
          rw [split] at ascending
          have before := (List.pairwise_append.mp ascending).2.2 held earlier (worst.key, worst.value)
            (by simp)
          exact trans_of (SortKey.Precedes batch.order batch.direction) before after
        · obtain rfl := List.mem_singleton.mp final
          exact after

theorem seen_push {batch : RecordBatch T} (positive : batch.limit ≠ 0) (key : SortKey) (value : T) :
    (batch.push key value).seen = batch.seen + 1 := by
  rw [push_of_limit positive]

theorem length_push_le {batch : RecordBatch T} (counted : batch.entries.length ≤ batch.seen)
    (key : SortKey) (value : T) :
    (batch.push key value).entries.length ≤ (batch.push key value).seen := by
  by_cases zero : batch.limit = 0
  · simpa [push, zero] using counted
  · rw [push_of_limit zero]
    exact (offer_length_le_succ _ _).trans (Nat.succ_le_succ counted)

theorem limit_of_admits {batch : RecordBatch T} {key : SortKey} (admitted : batch.admits key = true) :
    batch.limit ≠ 0 := by
  intro zero
  simp [admits, zero] at admitted

/-- A record the batch admits is held when it is pushed. -/
theorem mem_push {batch : RecordBatch T} {key : SortKey} {value : T}
    (fresh : ∀ held ∈ batch.ranked, ¬ (key.partition = held.1.partition ∧
      key.offset = held.1.offset)) (admitted : batch.admits key = true) :
    (key, value) ∈ (batch.push key value).ranked := by
  have positive := limit_of_admits admitted
  have inserted : ∀ kept : List (Ranked T), (key, value) ∈
      insertAfter (Ranked.Precedes batch.order batch.direction) (key, value) kept := fun kept =>
    (insertAfter_perm _ _ kept).mem_iff.mpr List.mem_cons_self
  rw [ranked_push positive fresh]
  unfold offer
  split
  · exact inserted _
  · rename_i full
    have length : batch.ranked.length = batch.entries.length := by simp [ranked]
    cases last : batch.entries.getLast? with
    | none =>
      have empty := List.getLast?_eq_none_iff.mp last
      rw [length, empty, List.length_nil] at full
      omega
    | some worst =>
      have lastRanked : batch.ranked.getLast? = some (worst.key, worst.value) := by
        simp [ranked, List.getLast?_map, last]
      have before : Ranked.Precedes batch.order batch.direction (key, value)
          (worst.key, worst.value) := by
        have filled : batch.isFull = true := by
          simp only [isFull, decide_eq_true_eq]
          omega
        simpa [admits, positive, filled, last, Ranked.Precedes, SortKey.Precedes] using admitted
      rw [lastRanked]
      dsimp only
      rw [if_pos before]
      exact inserted _

/-- A push adds nothing but what was pushed. -/
theorem of_mem_push {batch : RecordBatch T} {key : SortKey} {value : T} {entry : Entry T}
    (held : entry ∈ (batch.push key value).entries) : entry ∈ batch.entries ∨ entry.value = value := by
  by_cases zero : batch.limit = 0
  · simp only [push, zero, if_true] at held
    exact .inl held
  · rw [push_of_limit zero] at held
    rcases mem_offer held with rfl | earlier
    · exact .inr rfl
    · exact .inl earlier

/-- A batch admits a record unless it was offered `limit` others that precede it. -/
theorem Collects.admits_iff {batch : RecordBatch T} {offered : List (Ranked T)} {key : SortKey}
    (value : T) (collects : batch.Collects offered) (fresh : Fresh key offered) :
    batch.admits key = true ↔
      offered.countP (fun held => held.1.Precedes batch.order batch.direction key) < batch.limit := by
  have counted : (((key, value) :: offered).filter fun held =>
      decide (Ranked.Precedes batch.order batch.direction held (key, value))).length =
      offered.countP fun held => held.1.Precedes batch.order batch.direction key := by
    rw [List.filter_cons_of_neg, List.countP_eq_length_filter]
    · rfl
    · simpa using Std.Irrefl.irrefl (r := Ranked.Precedes batch.order batch.direction) (key, value)
  constructor
  · intro admitted
    have whole : (batch.push key value).Collects ((key, value) :: offered) := collects.push fresh
    have pushed := whole.best
    rw [push_limit, push_order, push_direction] at pushed
    rw [← counted]
    refine (pushed.mem_iff List.mem_cons_self).mp (mem_push ?_ admitted)
    exact fun held member => fresh held (collects.best.subset member)
  · intro fewer
    by_contra refused
    have away : batch.Collects ((key, value) :: offered) :=
      collects.turned_away fresh (by simpa using refused)
    rw [← counted] at fewer
    have held := (away.best.mem_iff List.mem_cons_self).mpr fewer
    exact fresh _ (collects.best.subset held) ⟨rfl, rfl⟩

end RecordBatch
end Klens.Scan
