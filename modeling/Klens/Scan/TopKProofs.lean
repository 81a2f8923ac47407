import Klens.Lib.TopK
import Klens.Scan.BatchProofs

/-! The batch against a stable sort of everything pushed, whatever keys repeat.
The sequence numbers only break ties, so the queue of `Lib.TopK` stands for the
batch as soon as every entry held was pushed earlier. -/
namespace Klens.Scan
open Klens.Lib

namespace SortKey

theorem rank_eq_iff (a b : SortKey) (order : RecordOrder) (direction : CursorDirection) :
    a.rank b order direction = .eq ↔ a = b := by
  constructor
  · intro tied
    have forward : ¬ Precedes order direction a b := by simp [Precedes, tied]
    have backward : ¬ Precedes order direction b a := by
      simp [Precedes, rank_swap a b, tied]
    rw [precedes_iff] at forward backward
    have parts : a.timestamp = b.timestamp ∧ a.partition = b.partition ∧ a.offset = b.offset := by
      cases order <;> cases direction <;> simp only at forward backward <;> omega
    cases a
    cases b
    simpa using parts
  · rintro rfl
    cases order <;> cases direction <;> simp [rank, cmpForOrder]

theorem not_precedes_trans {order : RecordOrder} {direction : CursorDirection} {a b c : SortKey}
    (first : ¬ Precedes order direction a b) (second : ¬ Precedes order direction b c) :
    ¬ Precedes order direction a c := by
  rw [precedes_iff] at first second ⊢
  cases order <;> cases direction <;> simp only at first second ⊢ <;> omega

theorem rank_ne_gt_iff (a b : SortKey) (order : RecordOrder) (direction : CursorDirection) :
    a.rank b order direction ≠ .gt ↔ ¬ Precedes order direction b a := by
  rw [Precedes, rank_swap a b]
  cases a.rank b order direction <;> decide

end SortKey

namespace Ranked
variable {T : Type} {order : RecordOrder} {direction : CursorDirection}

instance : NegTrans (Ranked.Precedes (T := T) order direction) where
  neg_trans _ _ _ first second := SortKey.not_precedes_trans first second

theorem sorted_eq (records : List (Ranked T)) :
    sorted order direction records =
      records.mergeSort (notAfter (Ranked.Precedes order direction)) := by
  unfold sorted
  congr 1
  funext a b
  rw [Bool.eq_iff_iff, not_precedes_iff, notAfter_iff]

theorem sorted_ascends (records : List (Ranked T)) :
    Ascends (Ranked.Precedes order direction) (sorted order direction records) := by
  rw [sorted_eq, ← insertAll_eq_mergeSort]
  exact insertAll_ascends records .nil

end Ranked

namespace RecordBatch
variable {T : Type}

def pushAll (batch : RecordBatch T) (pushes : List (Ranked T)) : RecordBatch T :=
  pushes.foldl (fun batch pushed => batch.push pushed.1 pushed.2) batch

@[simp] theorem shape_pushAll (batch : RecordBatch T) (pushes : List (Ranked T)) :
    (batch.pushAll pushes).shape = batch.shape := by
  induction pushes generalizing batch with
  | nil => rfl
  | cons pushed pushes ih => exact (ih _).trans (shape_push ..)

/-- Everything held was pushed before what comes next. -/
def Sequenced (batch : RecordBatch T) : Prop := ∀ entry ∈ batch.entries, entry.sequence < batch.seen

theorem sequenced_new (limit : Nat) (order : RecordOrder) (direction : CursorDirection) :
    (new limit order direction : RecordBatch T).Sequenced := by
  simp [Sequenced, new]

theorem Sequenced.push {batch : RecordBatch T} (sequenced : batch.Sequenced) (key : SortKey)
    (value : T) : (batch.push key value).Sequenced := by
  by_cases zero : batch.limit = 0
  · simpa [RecordBatch.push, zero] using sequenced
  · rw [push_of_limit zero]
    intro entry held
    rcases mem_offer held with rfl | earlier
    · exact Nat.lt_succ_self _
    · exact Nat.lt_succ_of_lt (sequenced entry earlier)

theorem Sequenced.pushAll {batch : RecordBatch T} (sequenced : batch.Sequenced)
    (pushes : List (Ranked T)) : (batch.pushAll pushes).Sequenced := by
  induction pushes generalizing batch with
  | nil => exact sequenced
  | cons pushed pushes ih => exact ih (sequenced.push pushed.1 pushed.2)

/-- Of two equal keys the one pushed later is not before the other. -/
theorem before_later_iff {entry other : Entry T} (later : other.sequence < entry.sequence) :
    entry.Before other ↔ Ranked.Precedes entry.order entry.direction
      (entry.key, entry.value) (other.key, other.value) := by
  have after : compare entry.sequence other.sequence ≠ .lt := by
    rw [Ne, compare_lt_iff_lt]
    omega
  simp only [Entry.Before, Entry.cmp, Ranked.Precedes, SortKey.Precedes, Ordering.then_eq_lt, after,
    and_false, or_false]

theorem ranked_push_later {batch : RecordBatch T} (sequenced : batch.Sequenced)
    (positive : batch.limit ≠ 0) (key : SortKey) (value : T) :
    (batch.push key value).ranked =
      offer (Ranked.Precedes batch.order batch.direction) batch.limit (key, value) batch.ranked := by
  rw [push_of_limit positive]
  unfold ranked
  exact offer_map _ _ _ _ _ fun entry held => before_later_iff (sequenced entry held)

/-- What `admits` refuses, `push` lets fall. -/
theorem push_of_refused {batch : RecordBatch T} (sequenced : batch.Sequenced) {key : SortKey}
    (refused : batch.admits key = false) (value : T) :
    (batch.push key value).entries = batch.entries := by
  unfold admits at refused
  split at refused
  · rename_i zero
    simp [push, zero]
  · rename_i positive
    split at refused
    · contradiction
    · rename_i full
      have full : ¬ batch.entries.length < batch.limit := by simpa [isFull] using full
      rw [push_of_limit positive, offer, if_neg full]
      cases last : batch.entries.getLast? with
      | none => rfl
      | some worst =>
        have after : ¬ Entry.Before ⟨key, value, batch.order, batch.direction, batch.seen⟩ worst := by
          rw [before_later_iff (sequenced worst (List.mem_of_getLast? last))]
          simpa [last, Ranked.Precedes, SortKey.Precedes] using refused
        dsimp only
        rw [if_neg after]

theorem pushAll_of_zero {batch : RecordBatch T} (zero : batch.limit = 0)
    (pushes : List (Ranked T)) : batch.pushAll pushes = batch := by
  induction pushes with
  | nil => rfl
  | cons pushed pushes ih =>
    have same : batch.push pushed.1 pushed.2 = batch := by simp [push, zero]
    rw [pushAll, List.foldl_cons, same]
    exact ih

/-- The batch is the bounded queue of `Lib.TopK`, sequence numbers forgotten. -/
theorem ranked_pushAll {batch : RecordBatch T} (sequenced : batch.Sequenced)
    (positive : batch.limit ≠ 0) (pushes : List (Ranked T)) :
    (batch.pushAll pushes).ranked =
      offerAll (Ranked.Precedes batch.order batch.direction) batch.limit pushes batch.ranked := by
  induction pushes generalizing batch with
  | nil => rfl
  | cons pushed pushes ih =>
    have rest := ih (sequenced.push pushed.1 pushed.2) (by simpa using positive)
    rw [push_limit, push_order, push_direction, ranked_push_later sequenced positive] at rest
    exact rest

theorem seen_pushAll {batch : RecordBatch T} (positive : batch.limit ≠ 0)
    (pushes : List (Ranked T)) : (batch.pushAll pushes).seen = batch.seen + pushes.length := by
  induction pushes generalizing batch with
  | nil => rfl
  | cons pushed pushes ih =>
    have rest : ((batch.push pushed.1 pushed.2).pushAll pushes).seen = _ :=
      ih (by simpa using positive)
    rw [seen_push positive] at rest
    rw [List.length_cons]
    exact rest.trans (by omega)

section Pushed
variable (limit : Nat) (order : RecordOrder) (direction : CursorDirection)
  (pushes : List (Ranked T))

/-- A new batch that took all of `pushes`. -/
def ofPushes : RecordBatch T := (new limit order direction).pushAll pushes

theorem shape_ofPushes : (ofPushes limit order direction pushes).shape = (limit, order, direction) :=
  shape_pushAll ..

theorem ranked_ofPushes : (ofPushes limit order direction pushes).ranked =
    (Ranked.sorted order direction pushes).take limit := by
  by_cases zero : limit = 0
  · have empty : ofPushes limit order direction pushes = new limit order direction :=
      pushAll_of_zero zero pushes
    rw [empty, zero]
    rfl
  · rw [Ranked.sorted_eq, ← insertAll_eq_mergeSort]
    refine (ranked_pushAll (sequenced_new limit order direction) zero pushes).trans ?_
    have filled : offerAll (Ranked.Precedes order direction) limit pushes ([].take limit) = _ :=
      offerAll_take limit pushes .nil
    rwa [List.take_nil] at filled

theorem length_ofPushes :
    (ofPushes limit order direction pushes).entries.length = min limit pushes.length := by
  have held := congrArg List.length (ranked_ofPushes limit order direction pushes)
  rwa [ranked, List.length_map, List.length_take, (Ranked.sorted_perm pushes).length_eq] at held

theorem seen_ofPushes :
    (ofPushes limit order direction pushes).seen = if limit = 0 then 0 else pushes.length := by
  split
  · rename_i zero
    exact congrArg seen (pushAll_of_zero zero pushes)
  · rename_i positive
    exact (seen_pushAll positive pushes).trans (Nat.zero_add _)

/-- A key is admitted as long as fewer than `limit` of the pushes precede it or
tie with it. -/
theorem admits_ofPushes_iff (key : SortKey) (value : T) :
    (ofPushes limit order direction pushes).admits key = true ↔
      ahead (Ranked.Precedes order direction) (key, value) pushes < limit := by
  have fewer : ahead (Ranked.Precedes order direction) (key, value) pushes ≤ pushes.length :=
    List.countP_le_length
  have held := length_ofPushes limit order direction pushes
  have items := ranked_ofPushes limit order direction pushes
  have same := shape_ofPushes limit order direction pushes
  simp only [RecordBatch.shape, Prod.mk.injEq] at same
  obtain ⟨sameLimit, sameOrder, sameDirection⟩ := same
  unfold admits
  rw [sameLimit, sameOrder, sameDirection]
  split
  · rename_i zero
    simp [zero]
  · rename_i positive
    obtain ⟨n, rfl⟩ := Nat.exists_eq_succ_of_ne_zero positive
    split
    · rename_i room
      have room : min (n + 1) pushes.length < n + 1 := by
        simpa [isFull, sameLimit, held] using room
      refine iff_of_true rfl ?_
      omega
    · rename_i full
      have full : n + 1 ≤ min (n + 1) pushes.length := by
        simpa [isFull, sameLimit, held] using full
      cases last : (ofPushes (n + 1) order direction pushes).entries.getLast? with
      | none =>
        rw [List.getLast?_eq_none_iff.mp last, List.length_nil] at held
        omega
      | some worst =>
        have found : (Ranked.sorted order direction pushes)[n]? = some (worst.key, worst.value) := by
          have lastRanked := congrArg List.getLast? items
          rw [ranked, List.getLast?_map, last, List.getLast?_take] at lastRanked
          have bound : n < (Ranked.sorted order direction pushes).length := by
            rw [(Ranked.sorted_perm pushes).length_eq]
            omega
          simpa [List.getElem?_eq_getElem bound] using lastRanked.symm
        have counted := lt_iff_ahead_le (Ranked.sorted_ascends pushes) (key, value) found
        rw [ahead_perm (Ranked.sorted_perm pushes)] at counted
        simpa [Ranked.Precedes, SortKey.Precedes, Nat.lt_succ_iff] using counted

/-- What more is pushed only adds to what stands ahead of a refused key. -/
theorem refused_pushAll {key : SortKey}
    (refused : (ofPushes limit order direction pushes).admits key = false) (value : T)
    (more : List (Ranked T)) :
    ((ofPushes limit order direction pushes).pushAll more).admits key = false := by
  have joined : (ofPushes limit order direction pushes).pushAll more =
      ofPushes limit order direction (pushes ++ more) := (List.foldl_append ..).symm
  rw [joined]
  rw [Bool.eq_false_iff, Ne, admits_ofPushes_iff limit order direction _ key value] at refused ⊢
  rw [ahead, List.countP_append]
  exact fun admitted => refused (lt_of_le_of_lt (Nat.le_add_right ..) admitted)

/-- A key that was refused counts for nothing in what comes after. -/
theorem ranked_pushAll_of_refused {batch : RecordBatch T} (sequenced : batch.Sequenced)
    {key : SortKey} (refused : batch.admits key = false) (value : T) (more : List (Ranked T)) :
    ((batch.push key value).pushAll more).ranked = (batch.pushAll more).ranked := by
  by_cases zero : batch.limit = 0
  · have same : batch.push key value = batch := by simp [push, zero]
    rw [same]
  · have kept : (batch.push key value).ranked = batch.ranked :=
      congrArg (List.map _) (push_of_refused sequenced refused value)
    rw [ranked_pushAll (sequenced.push key value) (by simpa using zero), kept, push_order,
      push_direction, push_limit, ranked_pushAll sequenced zero]

/-- The batch holds the first `limit` of the stable sort by rank, which is a
total order, and a key that it does not admit is never let in again. -/
theorem stable_top_k :
    (ofPushes limit order direction pushes).intoSorted =
      ((Ranked.sorted order direction pushes).take limit).map Prod.snd ∧
    (ofPushes limit order direction pushes).entries.length = min limit pushes.length ∧
    (ofPushes limit order direction pushes).displaced =
      (if limit = 0 then 0
        else pushes.length - (ofPushes limit order direction pushes).entries.length) ∧
    (∀ a b c : SortKey,
      b.rank a order direction = (a.rank b order direction).swap ∧
      (a.rank b order direction = .eq ↔ a = b) ∧
      (a.rank b order direction ≠ .gt → b.rank c order direction ≠ .gt →
        a.rank c order direction ≠ .gt)) ∧
    ∀ batch key, batch = ofPushes limit order direction pushes → batch.admits key = false →
      ∀ (value : T) (more : List (Ranked T)),
        (batch.push key value).entries = batch.entries ∧
        ((batch.push key value).pushAll more).ranked = (batch.pushAll more).ranked ∧
        ((batch.pushAll more).push key value).entries = (batch.pushAll more).entries := by
  refine ⟨?_, length_ofPushes .., ?_, fun a b c => ⟨SortKey.rank_swap .., SortKey.rank_eq_iff .., ?_⟩,
    ?_⟩
  · rw [← ranked_ofPushes, ranked, List.map_map]
    rfl
  · rw [displaced, seen_ofPushes]
    split
    · exact Nat.zero_sub _
    · rfl
  · simp only [SortKey.rank_ne_gt_iff]
    exact fun first second => SortKey.not_precedes_trans second first
  · rintro batch key rfl refused value more
    have sequenced := (sequenced_new limit order direction).pushAll pushes
    refine ⟨push_of_refused sequenced refused value,
      ranked_pushAll_of_refused sequenced refused value more, ?_⟩
    exact push_of_refused (sequenced.pushAll more)
      (refused_pushAll limit order direction pushes refused value more) value

end Pushed
end RecordBatch
end Klens.Scan
