import Mathlib.Data.List.Sort
import Mathlib.Tactic.Common

/-! Sorting a list and dropping repetitions. The result depends only on what
the list holds. -/
namespace Klens.Lib

variable {α : Type*} [LinearOrder α]

/-- Of every run of equal elements, one. -/
def dedupRuns : List α → List α
  | [] => []
  | [item] => [item]
  | item :: next :: rest =>
    if item = next then dedupRuns (next :: rest) else item :: dedupRuns (next :: rest)

/-- `sort_unstable` and `dedup`. -/
def sortDedup (items : List α) : List α := dedupRuns (items.insertionSort (· ≤ ·))

theorem mem_dedupRuns {items : List α} {item : α} : item ∈ dedupRuns items ↔ item ∈ items := by
  fun_induction dedupRuns items with
  | case1 => rfl
  | case2 => rfl
  | case3 next rest ih => simp [ih]
  | case4 first next rest _ ih => simp [ih]

theorem dedupRuns_pairwise {items : List α} (sorted : items.Pairwise (· ≤ ·)) :
    (dedupRuns items).Pairwise (· < ·) := by
  fun_induction dedupRuns items with
  | case1 => exact .nil
  | case2 => exact List.pairwise_singleton _ _
  | case3 next rest ih => exact ih (List.pairwise_cons.mp sorted).2
  | case4 first next rest apart ih =>
    obtain ⟨least, later⟩ := List.pairwise_cons.mp sorted
    refine List.pairwise_cons.mpr ⟨fun item member => ?_, ih later⟩
    have strict : first < next := lt_of_le_of_ne (least next (by simp)) apart
    rcases List.mem_cons.mp (mem_dedupRuns.mp member) with rfl | behind
    · exact strict
    · exact lt_of_lt_of_le strict ((List.pairwise_cons.mp later).1 item behind)

theorem insertionSort_eq_nil {items : List α} : items.insertionSort (· ≤ ·) = [] ↔ items = [] := by
  rw [← List.length_eq_zero_iff, List.length_insertionSort, List.length_eq_zero_iff]

theorem insertionSort_pairwise_lt {items : List α} (distinct : items.Nodup) :
    (items.insertionSort (· ≤ ·)).Pairwise (· < ·) := by
  have sorted := List.pairwise_insertionSort (· ≤ ·) items
  have apart := (List.perm_insertionSort (· ≤ ·) items).nodup_iff.mpr distinct
  refine (sorted.and apart).imp ?_
  rintro a b ⟨le, ne⟩
  exact lt_of_le_of_ne le ne

@[simp] theorem mem_sortDedup {items : List α} {item : α} :
    item ∈ sortDedup items ↔ item ∈ items :=
  mem_dedupRuns.trans (List.perm_insertionSort _ items).mem_iff

theorem sortDedup_pairwise (items : List α) : (sortDedup items).Pairwise (· < ·) :=
  dedupRuns_pairwise (List.pairwise_insertionSort (· ≤ ·) items)

theorem sortDedup_nodup (items : List α) : (sortDedup items).Nodup :=
  (sortDedup_pairwise items).imp ne_of_lt

/-- Ascending lists with the same elements are the same list. -/
theorem eq_of_ascending {left right : List α} (first : left.Pairwise (· < ·))
    (second : right.Pairwise (· < ·)) (same : ∀ item, item ∈ left ↔ item ∈ right) :
    left = right := by
  refine List.Perm.eq_of_pairwise (fun _ _ _ _ before after => absurd after (lt_asymm before))
    first second ?_
  exact (List.perm_ext_iff_of_nodup (first.imp ne_of_lt) (second.imp ne_of_lt)).mpr same

end Klens.Lib
