import Klens.Store.BusProofs

/-! The lists of a diff: strictly rising, without a common key, and with each key
that two maps differ at once, in whatever order a hash map is read. -/
namespace Klens.Store
open Klens.Lib Std

variable {V : Type} [DecidableEq V]

section Sorted

/-- The lists of a diff keep the order of the maps. -/
structure KeyDiff.Ordered (previous next : List (String × V)) (diff : KeyDiff) : Prop where
  added : diff.added.Sublist (next.map Prod.fst)
  removed : diff.removed.Sublist (previous.map Prod.fst)
  changed : diff.changed.Sublist (previous.map Prod.fst)

private theorem diffEntry_ordered {key : String} {old : V} {previous : List (String × V)}
    {rest : List (String × V) → KeyDiff} (later : ∀ next, KeyDiff.Ordered previous next (rest next))
    (next : List (String × V)) :
    KeyDiff.Ordered ((key, old) :: previous) next (diffEntry key old rest next) := by
  induction next with
  | nil => exact ⟨(later []).added, (later []).removed.cons_cons key, (later []).changed.cons key⟩
  | cons entry next ih =>
    obtain ⟨other, new⟩ := entry
    unfold diffEntry
    cases compare key other with
    | lt =>
      have held := later ((other, new) :: next)
      exact ⟨held.added, held.removed.cons_cons key, held.changed.cons key⟩
    | gt => exact ⟨ih.added.cons_cons other, ih.removed, ih.changed⟩
    | eq =>
      have held := later next
      dsimp only
      split
      · exact ⟨held.added.cons other, held.removed.cons key, held.changed.cons_cons key⟩
      · exact ⟨held.added.cons other, held.removed.cons key, held.changed.cons key⟩

private theorem diffEntries_ordered (previous next : List (String × V)) :
    KeyDiff.Ordered previous next (diffEntries previous next) := by
  induction previous generalizing next with
  | nil => exact ⟨.refl _, List.nil_sublist _, List.nil_sublist _⟩
  | cons entry previous ih => exact diffEntry_ordered ih next

theorem diffMaps_ordered (previous next : ExtTreeMap String V) :
    KeyDiff.Ordered previous.toList next.toList (diffMaps previous next) := diffEntries_ordered _ _

omit [DecidableEq V] in
theorem keys_rise (map : ExtTreeMap String V) : (map.toList.map Prod.fst).Pairwise (· < ·) :=
  List.pairwise_map.mpr (ascending_toList map)

theorem mem_added {previous next : ExtTreeMap String V} {key : String} :
    key ∈ (diffMaps previous next).added ↔ previous[key]? = none ∧ next[key]?.isSome := by
  rw [(diffMaps_spec previous next).added, mem_keys_toList, mem_keys_toList,
    Option.not_isSome_iff_eq_none, and_comm]

theorem mem_removed {previous next : ExtTreeMap String V} {key : String} :
    key ∈ (diffMaps previous next).removed ↔ previous[key]?.isSome ∧ next[key]? = none := by
  rw [(diffMaps_spec previous next).removed, mem_keys_toList, mem_keys_toList,
    Option.not_isSome_iff_eq_none]

theorem mem_changed {previous next : ExtTreeMap String V} {key : String} :
    key ∈ (diffMaps previous next).changed ↔
      ∃ old new, previous[key]? = some old ∧ next[key]? = some new ∧ old ≠ new := by
  simp only [(diffMaps_spec previous next).changed, ExtTreeMap.mem_toList_iff_getElem?_eq_some]

/-- Strictly rising lists with no key in two of them. -/
structure KeyDiff.Separate (diff : KeyDiff) : Prop where
  added : diff.added.Pairwise (· < ·)
  removed : diff.removed.Pairwise (· < ·)
  changed : diff.changed.Pairwise (· < ·)
  addedRemoved : diff.added.Disjoint diff.removed
  addedChanged : diff.added.Disjoint diff.changed
  removedChanged : diff.removed.Disjoint diff.changed

theorem diffMaps_separate (previous next : ExtTreeMap String V) :
    KeyDiff.Separate (diffMaps previous next) := by
  have ordered := diffMaps_ordered previous next
  refine ⟨(keys_rise next).sublist ordered.added, (keys_rise previous).sublist ordered.removed,
    (keys_rise previous).sublist ordered.changed, fun key left right => ?_, fun key left right => ?_,
    fun key left right => ?_⟩
  · rw [mem_added] at left
    rw [mem_removed] at right
    simp [left.1] at right
  · rw [mem_added] at left
    obtain ⟨old, new, held, -⟩ := mem_changed.mp right
    rw [left.1] at held
    contradiction
  · rw [mem_removed] at left
    obtain ⟨old, new, -, held, -⟩ := mem_changed.mp right
    rw [left.2] at held
    contradiction

end Sorted

section Scans

/-- The keys that two hash maps differ at, in the order they are read. -/
def movedKeys (previous next : ExtTreeMap String V) (entries : List (String × V))
    (keys : List String) : List String :=
  (entries.filter fun entry => decide (previous[entry.1]? ≠ some entry.2)).map Prod.fst ++
    keys.filter fun key => !next.contains key

variable {previous next : ExtTreeMap String V} {entries : List (String × V)} {keys : List String}

theorem mem_movedKeys (read : entries.Perm next.toList) (listed : keys.Perm previous.keys)
    {key : String} : key ∈ movedKeys previous next entries keys ↔ previous[key]? ≠ next[key]? := by
  have there : ∀ value, (key, value) ∈ entries ↔ next[key]? = some value := fun value => by
    rw [read.mem_iff, ExtTreeMap.mem_toList_iff_getElem?_eq_some]
  have here : key ∈ keys ↔ previous[key]?.isSome := by
    rw [listed.mem_iff, ExtTreeMap.mem_keys, ExtTreeMap.mem_iff_isSome_getElem?]
  have newer : key ∈ (entries.filter fun entry => decide (previous[entry.1]? ≠ some entry.2)).map
      Prod.fst ↔ ∃ value, next[key]? = some value ∧ previous[key]? ≠ some value := by
    simp only [List.mem_map, List.mem_filter, decide_eq_true_eq, Prod.exists, exists_and_right,
      exists_eq_right, there]
  rw [movedKeys, List.mem_append, newer, List.mem_filter, here, ExtTreeMap.contains_eq_isSome_getElem?]
  cases previous[key]? <;> cases next[key]? <;> simp

/-- No key is read twice: one that is gone from the second map is not in it. -/
theorem movedKeys_nodup (read : entries.Perm next.toList) (listed : keys.Perm previous.keys) :
    (movedKeys previous next entries keys).Nodup := by
  have distinct : (entries.map Prod.fst).Nodup :=
    (read.map Prod.fst).nodup_iff.mpr ((keys_rise next).imp LT.lt.ne)
  have apart : keys.Nodup := by
    rw [listed.nodup_iff, ← ExtTreeMap.map_fst_toList_eq_keys]
    exact (keys_rise previous).imp LT.lt.ne
  refine List.nodup_append.mpr ⟨distinct.sublist (List.filter_sublist.map _), apart.filter _, ?_⟩
  rintro key newer other gone rfl
  obtain ⟨⟨_, value⟩, held, rfl⟩ := List.mem_map.mp newer
  have kept := read.mem_iff.mp (List.mem_filter.mp held).1
  have found := ExtTreeMap.mem_toList_iff_getElem?_eq_some.mp kept
  have absent := (List.mem_filter.mp gone).2
  rw [ExtTreeMap.contains_eq_isSome_getElem?, found] at absent
  contradiction

/-- The topics of a delta: strictly rising, those whose entries differ, and the
same ones in whatever order the tables are read. -/
structure ListsMoved (previous next : ExtTreeMap String V) (sort : List String → List String)
    (topics : List String) : Prop where
  rising : topics.Pairwise (· < ·)
  mem_iff : ∀ topic, topic ∈ topics ↔ previous[topic]? ≠ next[topic]?
  anyOrder : ∀ entries keys, entries.Perm next.toList → keys.Perm previous.keys →
    sort (movedKeys previous next entries keys) = topics

theorem listsMoved_sortDedup (previous next : ExtTreeMap String V) :
    ListsMoved previous next sortDedup
      (sortDedup (movedKeys previous next next.toList previous.keys)) where
  rising := sortDedup_pairwise _
  mem_iff topic := by rw [mem_sortDedup, mem_movedKeys (.refl _) (.refl _)]
  anyOrder entries keys read listed := by
    apply eq_of_ascending (sortDedup_pairwise _) (sortDedup_pairwise _)
    intro topic
    rw [mem_sortDedup, mem_sortDedup, mem_movedKeys read listed, mem_movedKeys (.refl _) (.refl _)]

theorem listsMoved_insertionSort (previous next : ExtTreeMap String V) :
    ListsMoved previous next (List.insertionSort (· ≤ ·))
      ((movedKeys previous next next.toList previous.keys).insertionSort (· ≤ ·)) where
  rising := insertionSort_pairwise_lt (movedKeys_nodup (.refl _) (.refl _))
  mem_iff topic := by
    rw [(List.perm_insertionSort _ _).mem_iff, mem_movedKeys (.refl _) (.refl _)]
  anyOrder entries keys read listed := by
    apply eq_of_ascending (insertionSort_pairwise_lt (movedKeys_nodup read listed))
      (insertionSort_pairwise_lt (movedKeys_nodup (.refl _) (.refl _)))
    intro topic
    rw [(List.perm_insertionSort _ _).mem_iff, (List.perm_insertionSort _ _).mem_iff,
      mem_movedKeys read listed, mem_movedKeys (.refl _) (.refl _)]

/-- All of a map is new to the empty one. -/
theorem movedKeys_empty (next : ExtTreeMap String V) :
    movedKeys ∅ next next.toList (∅ : ExtTreeMap String V).keys = next.keys := by
  rw [movedKeys, List.filter_eq_self.mpr fun entry _ => by simp, ExtTreeMap.map_fst_toList_eq_keys]
  simp

end Scans

section Deltas

theorem ConfigsDelta.topics_between (previous : Option ConfigTable) (next : ConfigTable) :
    ((between previous next).map ConfigsDelta.topics).getD [] =
      sortDedup (movedKeys ((previous.map ConfigTable.topics).getD ∅) next.topics next.topics.toList
        ((previous.map ConfigTable.topics).getD ∅).keys) := by
  have shown (topics : List String) :
      ((if topics.isEmpty then none else some { topics } : Option ConfigsDelta).map
        ConfigsDelta.topics).getD [] = topics := by
    cases topics <;> rfl
  cases previous with
  | none => exact (shown _).trans (congrArg sortDedup (movedKeys_empty next.topics).symm)
  | some previous => exact shown _

theorem LogDirsDelta.topics_between (previous : Option LogDirTable) (next : LogDirTable) :
    ((between previous next).map LogDirsDelta.topics).getD [] =
      (movedKeys (previous.getD .empty).partitions next.partitions next.partitions.toList
        (previous.getD .empty).partitions.keys).insertionSort (· ≤ ·) := by
  have shown (topics : List String) (brokersChanged : Bool) :
      ((if brokersChanged || !topics.isEmpty then some { topics, brokersChanged } else none :
        Option LogDirsDelta).map LogDirsDelta.topics).getD [] = topics := by
    cases topics <;> cases brokersChanged <;> rfl
  exact shown _ _

/-- What the diffs of all pairs of maps, and of all pairs of tables, list. -/
theorem diffs_exact :
    (∀ previous next : ExtTreeMap String V, KeyDiff.Separate (diffMaps previous next) ∧ ∀ key,
      (key ∈ (diffMaps previous next).added ↔ previous[key]? = none ∧ next[key]?.isSome) ∧
      (key ∈ (diffMaps previous next).removed ↔ previous[key]?.isSome ∧ next[key]? = none) ∧
      (key ∈ (diffMaps previous next).changed ↔
        ∃ old new, previous[key]? = some old ∧ next[key]? = some new ∧ old ≠ new)) ∧
    (∀ (previous : Option ConfigTable) (next : ConfigTable),
      ListsMoved ((previous.map ConfigTable.topics).getD ∅) next.topics sortDedup
        (((ConfigsDelta.between previous next).map ConfigsDelta.topics).getD [])) ∧
    ∀ (previous : Option LogDirTable) (next : LogDirTable),
      ListsMoved (previous.getD .empty).partitions next.partitions (List.insertionSort (· ≤ ·))
        (((LogDirsDelta.between previous next).map LogDirsDelta.topics).getD []) := by
  refine ⟨fun previous next => ⟨diffMaps_separate previous next, fun key =>
    ⟨mem_added, mem_removed, mem_changed⟩⟩, fun previous next => ?_, fun previous next => ?_⟩
  · rw [ConfigsDelta.topics_between]
    exact listsMoved_sortDedup _ _
  · rw [LogDirsDelta.topics_between]
    exact listsMoved_insertionSort _ _

end Deltas
end Klens.Store
