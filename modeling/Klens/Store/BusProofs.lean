import Klens.Store.Bus

/-! Map diffs are exact, so a table without a delta is the table before it. -/
namespace Klens.Store
open Klens.Lib Std

section Diff
variable {V : Type} [DecidableEq V]

/-- `diff` holds the keys only in `next`, only in `previous`, and in both with
different values. -/
structure Diffs (previous next : List (String × V)) (diff : KeyDiff) : Prop where
  added : ∀ key, key ∈ diff.added ↔ key ∈ next.map Prod.fst ∧ key ∉ previous.map Prod.fst
  removed : ∀ key, key ∈ diff.removed ↔ key ∈ previous.map Prod.fst ∧ key ∉ next.map Prod.fst
  changed : ∀ key, key ∈ diff.changed ↔
    ∃ old new, (key, old) ∈ previous ∧ (key, new) ∈ next ∧ old ≠ new

/-- Keys strictly rise. -/
def Ascending (entries : List (String × V)) : Prop := entries.Pairwise fun a b => a.1 < b.1

omit [DecidableEq V] in
private theorem absent_of_least {key : String} {entries : List (String × V)}
    (least : ∀ entry ∈ entries, key < entry.1) : key ∉ entries.map Prod.fst := by
  intro member
  obtain ⟨entry, held, rfl⟩ := List.mem_map.mp member
  exact lt_irrefl _ (least entry held)

omit [DecidableEq V] in
private theorem Diffs.remove {key : String} {old : V} {previous next : List (String × V)}
    {diff : KeyDiff} (diffs : Diffs previous next diff) (absent : key ∉ next.map Prod.fst) :
    Diffs ((key, old) :: previous) next (diff.remove key) := by
  constructor
  · intro other
    rw [KeyDiff.remove, diffs.added]
    by_cases same : other = key
    · subst same
      simp [absent]
    · simp [same]
  · intro other
    rw [KeyDiff.remove, List.mem_cons, diffs.removed, List.map_cons, List.mem_cons]
    by_cases same : other = key
    · subst same
      simp [absent]
    · simp [same]
  · intro other
    rw [KeyDiff.remove, diffs.changed]
    constructor
    · rintro ⟨old, new, before, after, apart⟩
      exact ⟨old, new, List.mem_cons_of_mem _ before, after, apart⟩
    · rintro ⟨old, new, before, after, apart⟩
      rcases List.mem_cons.mp before with same | before
      · obtain ⟨rfl, -⟩ := Prod.mk.inj same
        exact absurd (List.mem_map_of_mem after) absent
      · exact ⟨old, new, before, after, apart⟩

omit [DecidableEq V] in
private theorem Diffs.add {key : String} {new : V} {previous next : List (String × V)}
    {diff : KeyDiff} (diffs : Diffs previous next diff) (absent : key ∉ previous.map Prod.fst) :
    Diffs previous ((key, new) :: next) (diff.add key) := by
  constructor
  · intro other
    rw [KeyDiff.add, List.mem_cons, diffs.added, List.map_cons, List.mem_cons]
    by_cases same : other = key
    · subst same
      simp [absent]
    · simp [same]
  · intro other
    rw [KeyDiff.add, diffs.removed]
    by_cases same : other = key
    · subst same
      simp [absent]
    · simp [same]
  · intro other
    rw [KeyDiff.add, diffs.changed]
    constructor
    · rintro ⟨old, new, before, after, apart⟩
      exact ⟨old, new, before, List.mem_cons_of_mem _ after, apart⟩
    · rintro ⟨old, new, before, after, apart⟩
      rcases List.mem_cons.mp after with same | after
      · obtain ⟨rfl, -⟩ := Prod.mk.inj same
        exact absurd (List.mem_map_of_mem before) absent
      · exact ⟨old, new, before, after, apart⟩

/-- A key in both lists is changed when its values differ, and nothing else. -/
private theorem Diffs.both {key : String} {old new : V} {previous next : List (String × V)}
    {diff : KeyDiff} (diffs : Diffs previous next diff)
    (before : ∀ entry ∈ previous, key < entry.1) (after : ∀ entry ∈ next, key < entry.1) :
    Diffs ((key, old) :: previous) ((key, new) :: next)
      (if old ≠ new then diff.change key else diff) := by
  have gone := absent_of_least before
  have missing := absent_of_least after
  have shared (other : String) : (∃ first second, (other, first) ∈ (key, old) :: previous ∧
      (other, second) ∈ (key, new) :: next ∧ first ≠ second) ↔
      other = key ∧ old ≠ new ∨ other ∈ diff.changed := by
    rw [diffs.changed]
    constructor
    · rintro ⟨first, second, left, right, apart⟩
      rcases List.mem_cons.mp left with same | earlier
      · obtain ⟨rfl, rfl⟩ := Prod.mk.inj same
        rcases List.mem_cons.mp right with same | later
        · obtain ⟨-, rfl⟩ := Prod.mk.inj same
          exact .inl ⟨rfl, apart⟩
        · exact absurd (List.mem_map_of_mem later) missing
      · rcases List.mem_cons.mp right with same | later
        · obtain ⟨rfl, -⟩ := Prod.mk.inj same
          exact absurd (List.mem_map_of_mem earlier) gone
        · exact .inr ⟨first, second, earlier, later, apart⟩
    · rintro (⟨rfl, apart⟩ | ⟨first, second, left, right, apart⟩)
      · exact ⟨old, new, by simp, by simp, apart⟩
      · exact ⟨first, second, List.mem_cons_of_mem _ left, List.mem_cons_of_mem _ right, apart⟩
  have unmoved : Diffs previous next diff → ∀ other,
      (other ∈ diff.added ↔ other ∈ ((key, new) :: next).map Prod.fst ∧
        other ∉ ((key, old) :: previous).map Prod.fst) ∧
      (other ∈ diff.removed ↔ other ∈ ((key, old) :: previous).map Prod.fst ∧
        other ∉ ((key, new) :: next).map Prod.fst) := by
    intro diffs other
    rw [diffs.added, diffs.removed]
    by_cases same : other = key
    · subst same
      simp [gone, missing]
    · simp [same]
  split
  · rename_i apart
    refine ⟨fun other => (unmoved diffs other).1, fun other => (unmoved diffs other).2, ?_⟩
    intro other
    rw [shared, KeyDiff.change, List.mem_cons]
    simp [apart]
  · rename_i same
    refine ⟨fun other => (unmoved diffs other).1, fun other => (unmoved diffs other).2, ?_⟩
    intro other
    rw [shared]
    simp [not_not.mp same]

private theorem diffEntry_spec {key : String} {old : V} {previous : List (String × V)}
    {rest : List (String × V) → KeyDiff} (least : ∀ entry ∈ previous, key < entry.1)
    (later : ∀ next, Ascending next → Diffs previous next (rest next))
    (next : List (String × V)) (ascending : Ascending next) :
    Diffs ((key, old) :: previous) next (diffEntry key old rest next) := by
  induction next with
  | nil => exact (later [] ascending).remove (by simp)
  | cons entry next ih =>
    obtain ⟨other, new⟩ := entry
    obtain ⟨head, tail⟩ := List.pairwise_cons.mp ascending
    unfold diffEntry
    cases ranked : compare key other with
    | lt =>
      have before : key < other := compare_lt_iff_lt.mp ranked
      refine (later _ ascending).remove (absent_of_least fun entry member => ?_)
      rcases List.mem_cons.mp member with rfl | member
      · exact before
      · exact before.trans (head entry member)
    | gt =>
      have after : other < key := compare_gt_iff_gt.mp ranked
      refine (ih tail).add (absent_of_least fun entry member => ?_)
      rcases List.mem_cons.mp member with rfl | member
      · exact after
      · exact after.trans (least entry member)
    | eq =>
      obtain rfl : key = other := LawfulEqCmp.eq_of_compare ranked
      exact (later next tail).both least head

theorem diffEntries_spec {previous next : List (String × V)} (first : Ascending previous)
    (second : Ascending next) : Diffs previous next (diffEntries previous next) := by
  induction previous generalizing next with
  | nil => exact ⟨by simp [diffEntries, KeyDiff.none], by simp [diffEntries, KeyDiff.none],
      by simp [diffEntries, KeyDiff.none]⟩
  | cons entry previous ih =>
    obtain ⟨head, tail⟩ := List.pairwise_cons.mp first
    exact diffEntry_spec head (fun next ascending => ih tail ascending) next second

omit [DecidableEq V] in
theorem ascending_toList (map : ExtTreeMap String V) : Ascending map.toList :=
  (ExtTreeMap.ordered_keys_toList (t := map)).imp compare_lt_iff_lt.mp

theorem diffMaps_spec (previous next : ExtTreeMap String V) :
    Diffs previous.toList next.toList (diffMaps previous next) :=
  diffEntries_spec (ascending_toList previous) (ascending_toList next)

omit [DecidableEq V] in
theorem mem_keys_toList {map : ExtTreeMap String V} {key : String} :
    key ∈ map.toList.map Prod.fst ↔ map[key]?.isSome = true := by
  rw [ExtTreeMap.map_fst_toList_eq_keys, ExtTreeMap.mem_keys, ExtTreeMap.mem_iff_isSome_getElem?]

/-- A key is listed somewhere exactly when the maps disagree on it. -/
theorem mem_diffMaps {previous next : ExtTreeMap String V} {key : String} :
    (key ∈ (diffMaps previous next).added ∨ key ∈ (diffMaps previous next).removed ∨
      key ∈ (diffMaps previous next).changed) ↔ previous[key]? ≠ next[key]? := by
  have spec := diffMaps_spec previous next
  rw [spec.added, spec.removed, spec.changed]
  simp only [mem_keys_toList, ExtTreeMap.mem_toList_iff_getElem?_eq_some]
  cases previous[key]? <;> cases next[key]? <;> simp

theorem diffMaps_isEmpty {previous next : ExtTreeMap String V} :
    (diffMaps previous next).isEmpty = true ↔ previous = next := by
  constructor
  · intro empty
    simp only [KeyDiff.isEmpty, Bool.and_eq_true, List.isEmpty_iff] at empty
    obtain ⟨⟨added, removed⟩, changed⟩ := empty
    refine ExtTreeMap.ext_getElem? fun key => ?_
    by_contra apart
    have listed := mem_diffMaps.mpr apart
    simp [added, removed, changed] at listed
  · rintro rfl
    have none (key : String) : ¬ (key ∈ (diffMaps previous previous).added ∨
        key ∈ (diffMaps previous previous).removed ∨ key ∈ (diffMaps previous previous).changed) :=
      mem_diffMaps.not.mpr (not_not.mpr rfl)
    simp only [not_or] at none
    simp only [KeyDiff.isEmpty, Bool.and_eq_true, List.isEmpty_iff, List.eq_nil_iff_forall_not_mem]
    exact ⟨⟨fun key => (none key).1, fun key => (none key).2.1⟩, fun key => (none key).2.2⟩

end Diff
/-- Nothing is listed when every entry of `next` was there before and nothing of
`previous` is gone. -/
private theorem moved_eq_nil {V : Type} [DecidableEq V] {previous next : ExtTreeMap String V} :
    (next.toList.filter fun entry => decide (previous[entry.1]? ≠ some entry.2)).map Prod.fst ++
      (previous.keys.filter fun key => !next.contains key) = [] ↔ previous = next := by
  rw [List.append_eq_nil_iff, List.map_eq_nil_iff, List.filter_eq_nil_iff, List.filter_eq_nil_iff]
  constructor
  · rintro ⟨kept, gone⟩
    refine ExtTreeMap.ext_getElem? fun key => ?_
    cases found : next[key]? with
    | some value =>
      have same := kept (key, value) (ExtTreeMap.mem_toList_iff_getElem?_eq_some.mpr found)
      simpa using same
    | none =>
      have absent : key ∉ next := by simp [ExtTreeMap.mem_iff_isSome_getElem?, found]
      by_contra held
      have member : key ∈ previous.keys := by
        rw [ExtTreeMap.mem_keys, ExtTreeMap.mem_iff_isSome_getElem?]
        exact Option.isSome_iff_ne_none.mpr held
      simpa [absent] using gone key member
  · rintro rfl
    constructor
    · intro entry member
      simp [ExtTreeMap.mem_toList_iff_getElem?_eq_some.mp member]
    · intro key member
      simpa using ExtTreeMap.mem_keys.mp member

section Deltas

theorem TopologyDelta.between_eq_none {previous : Option Topology} {next : Topology} :
    between previous next = none ↔
      (previous.getD .empty).brokers = next.brokers ∧
      (previous.getD .empty).controller = next.controller ∧
      (previous.getD .empty).topics = next.topics ∧
      (previous.getD .empty).groups = next.groups := by
  have topics : (diffMaps (previous.getD .empty).topics next.topics).isEmpty = true ↔ _ :=
    diffMaps_isEmpty
  have groups : (diffMaps (previous.getD .empty).groups next.groups).isEmpty = true ↔ _ :=
    diffMaps_isEmpty
  simp only [KeyDiff.isEmpty, Bool.and_eq_true] at topics groups
  unfold between
  simp only [isEmpty, ite_eq_left_iff, reduceCtorEq, imp_false, not_not, Bool.and_eq_true,
    Bool.not_eq_true', Bool.or_eq_false_iff, decide_eq_false_iff_not, ne_eq]
  tauto

theorem ConfigsDelta.between_eq_none {previous : Option ConfigTable} {next : ConfigTable} :
    between previous next = none ↔ (previous.map ConfigTable.topics).getD ∅ = next.topics := by
  have listed (topics : List String) : (sortDedup topics).isEmpty = true ↔ topics = [] := by
    simp [List.isEmpty_iff, List.eq_nil_iff_forall_not_mem]
  unfold between
  simp only [ite_eq_left_iff, reduceCtorEq, imp_false, not_not, listed]
  cases previous with
  | some previous => exact moved_eq_nil
  | none =>
    change next.topics.keys = [] ↔ ∅ = next.topics
    rw [← List.isEmpty_iff, ExtTreeMap.isEmpty_keys, ExtTreeMap.isEmpty_iff, eq_comm]

theorem LogDirsDelta.between_eq_none {previous : Option LogDirTable} {next : LogDirTable} :
    between previous next = none ↔ previous.getD .empty = next := by
  unfold between
  generalize previous.getD .empty = held
  simp only [ite_eq_right_iff, reduceCtorEq, imp_false, Bool.or_eq_true, decide_eq_true_eq,
    Bool.not_eq_true', List.isEmpty_eq_false_iff, ne_eq, insertionSort_eq_nil, not_or, not_not]
  rw [moved_eq_nil]
  constructor
  · rintro ⟨brokers, partitions⟩
    cases held
    cases next
    simp_all
  · rintro rfl
    exact ⟨rfl, rfl⟩

theorem SubjectsDelta.of_eq_none {V : Type} [DecidableEq V]
    {previous : Option (ExtTreeMap String V)} {next : ExtTreeMap String V} :
    of previous next = none ↔ previous.getD ∅ = next := by
  rw [← diffMaps_isEmpty]
  simp [of]

/-- A key is reported as removed when only the table before has it. -/
theorem SubjectsDelta.mem_removed {V : Type} [DecidableEq V]
    {previous : Option (ExtTreeMap String V)} {next : ExtTreeMap String V} {name : String} :
    (∃ delta, of previous next = some delta ∧ name ∈ delta.removed) ↔
      (previous.getD ∅)[name]?.isSome ∧ next[name]? = none := by
  have removed := (diffMaps_spec (previous.getD ∅) next).removed name
  rw [mem_keys_toList, mem_keys_toList, Option.not_isSome_iff_eq_none] at removed
  rw [← removed, of]
  constructor
  · rintro ⟨delta, published, gone⟩
    split at published
    · contradiction
    · obtain rfl := Option.some.inj published
      exact gone
  · intro gone
    have shows : (diffMaps (previous.getD ∅) next).isEmpty = false := by
      simp only [KeyDiff.isEmpty, Bool.and_eq_false_iff]
      exact .inl (.inr (List.isEmpty_eq_false_iff.mpr (List.ne_nil_of_mem gone)))
    exact ⟨_, if_neg (by simp [shows]), gone⟩

end Deltas
end Klens.Store
