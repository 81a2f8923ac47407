import Mathlib.Algebra.BigOperators.Group.List.Basic
import Mathlib.Algebra.Order.BigOperators.Group.List
import Mathlib.Algebra.Order.Ring.Int
import Mathlib.Data.List.Nodup
import Mathlib.Tactic.Common
import Std.Data.ExtTreeMap

/-! Ordered maps built from lists that never give one key two values. -/
namespace Klens.Lib.Maps
open Std

variable {α β γ : Type*} {cmp : α → α → Ordering} [TransCmp cmp] [LawfulEqCmp cmp]

/-- No key is listed with two values. -/
def Functional (entries : List (α × β)) : Prop :=
  ∀ ⦃key first second⦄, (key, first) ∈ entries → (key, second) ∈ entries → first = second

theorem Functional.tail {entry : α × β} {entries : List (α × β)}
    (functional : Functional (entry :: entries)) : Functional entries :=
  fun _ _ _ first second => functional (.tail _ first) (.tail _ second)

/-- Entries that agree wherever their keys do. -/
theorem functional_map {items : List γ} {key : γ → α} {value : γ → β}
    (agree : ∀ one ∈ items, ∀ two ∈ items, key one = key two → value one = value two) :
    Functional (items.map fun item => (key item, value item)) := by
  intro name first second left right
  obtain ⟨one, here, same⟩ := List.mem_map.mp left
  obtain ⟨two, there, equal⟩ := List.mem_map.mp right
  obtain ⟨rfl, rfl⟩ := Prod.mk.inj same
  obtain ⟨alike, rfl⟩ := Prod.mk.inj equal
  exact agree one here two there alike.symm

theorem functional_of_nodup {items : List γ} {key : γ → α} (distinct : (items.map key).Nodup)
    (value : γ → β) : Functional (items.map fun item => (key item, value item)) :=
  functional_map fun _ here _ there same =>
    congrArg value (List.inj_on_of_nodup_map distinct here there same)

theorem functional_toList (map : ExtTreeMap α β cmp) : Functional map.toList := by
  intro key first second one two
  have left := ExtTreeMap.mem_toList_iff_getElem?_eq_some.mp one
  have right := ExtTreeMap.mem_toList_iff_getElem?_eq_some.mp two
  exact Option.some.inj (left.symm.trans right)

omit [LawfulEqCmp cmp] in
theorem mem_iff_exists {map : ExtTreeMap α β cmp} {key : α} :
    key ∈ map ↔ ∃ value, map[key]? = some value := by
  rw [ExtTreeMap.mem_iff_isSome_getElem?, Option.isSome_iff_exists]

omit [LawfulEqCmp cmp] in
theorem mem_of_getElem? {map : ExtTreeMap α β cmp} {key : α} {value : β}
    (found : map[key]? = some value) : key ∈ map := mem_iff_exists.mpr ⟨value, found⟩

omit [LawfulEqCmp cmp] in
theorem not_mem_of_getElem? {map : ExtTreeMap α β cmp} {key : α} (missing : map[key]? = none) :
    key ∉ map := by
  rw [ExtTreeMap.mem_iff_isSome_getElem?, missing]
  exact Bool.false_ne_true

theorem getElem?_insertMany_of_not_mem {entries : List (α × β)} (map : ExtTreeMap α β cmp) {key : α}
    (absent : ∀ value, (key, value) ∉ entries) : (map.insertMany entries)[key]? = map[key]? := by
  induction entries generalizing map with
  | nil => rw [ExtTreeMap.insertMany_nil]
  | cons entry entries ih =>
    obtain ⟨name, value⟩ := entry
    have different : ¬ cmp name key = .eq := by
      intro same
      obtain rfl := LawfulEqCmp.compare_eq_iff_eq.mp same
      exact absent value (by simp)
    rw [ExtTreeMap.insertMany_cons, ih _ fun value member => absent value (.tail _ member),
      ExtTreeMap.getElem?_insert, if_neg different]

theorem getElem?_insertMany_of_mem {entries : List (α × β)} (functional : Functional entries)
    (map : ExtTreeMap α β cmp) {key : α} {value : β} (member : (key, value) ∈ entries) :
    (map.insertMany entries)[key]? = some value := by
  induction entries generalizing map with
  | nil => contradiction
  | cons entry entries ih =>
    obtain ⟨name, stored⟩ := entry
    rw [ExtTreeMap.insertMany_cons]
    by_cases later : ∃ other, (key, other) ∈ entries
    · obtain ⟨other, listed⟩ := later
      obtain rfl : value = other := functional member (.tail _ listed)
      exact ih functional.tail _ listed
    · rw [getElem?_insertMany_of_not_mem _ fun other listed => later ⟨other, listed⟩]
      rcases List.mem_cons.mp member with same | listed
      · obtain ⟨rfl, rfl⟩ := Prod.mk.inj same
        exact ExtTreeMap.getElem?_insert_self
      · exact absurd ⟨value, listed⟩ later

theorem getElem?_ofList {entries : List (α × β)} (functional : Functional entries) {key : α}
    {value : β} : (ExtTreeMap.ofList entries cmp)[key]? = some value ↔ (key, value) ∈ entries := by
  rw [ExtTreeMap.ofList_eq_insertMany_empty]
  constructor
  · intro found
    by_contra absent
    by_cases listed : ∃ other, (key, other) ∈ entries
    · obtain ⟨other, listed⟩ := listed
      rw [getElem?_insertMany_of_mem functional _ listed] at found
      exact absent (Option.some.inj found ▸ listed)
    · rw [getElem?_insertMany_of_not_mem _ fun other member => listed ⟨other, member⟩] at found
      simp at found
  · exact getElem?_insertMany_of_mem functional _

/-- A map made from keys alone. -/
theorem getElem?_ofList_map [DecidableEq α] (keys : List α) (value : α → β) (key : α) :
    (ExtTreeMap.ofList (keys.map fun key => (key, value key)) cmp)[key]? =
      if key ∈ keys then some (value key) else none := by
  have functional : Functional (keys.map fun key => (key, value key)) :=
    functional_map fun _ _ _ _ same => congrArg value same
  split
  · next listed => exact (getElem?_ofList functional).mpr (List.mem_map.mpr ⟨key, listed, rfl⟩)
  · next missing =>
    refine Option.eq_none_iff_forall_ne_some.mpr fun held found => missing ?_
    obtain ⟨name, listed, same⟩ := List.mem_map.mp ((getElem?_ofList functional).mp found)
    exact (Prod.mk.inj same).1 ▸ listed

omit [LawfulEqCmp cmp] in
theorem foldl_insert_eq (items : List γ) (key : γ → α) (value : γ → β) (map : ExtTreeMap α β cmp) :
    items.foldl (fun map item => map.insert (key item) (value item)) map =
      map.insertMany (items.map fun item => (key item, value item)) := by
  induction items generalizing map with
  | nil => rw [List.map_nil, ExtTreeMap.insertMany_nil, List.foldl_nil]
  | cons item items ih => rw [List.foldl_cons, List.map_cons, ExtTreeMap.insertMany_cons, ih]

section Sums

/-- A sum over a map is the sum over any distinct keys, absent ones counting
nothing, and over what the map holds besides. -/
theorem sum_toList_split [DecidableEq α] (map : ExtTreeMap α β cmp) {keys : List α}
    (distinct : keys.Nodup) (weight : β → Int) {absent : β} (nothing : weight absent = 0) :
    (map.toList.map fun entry => weight entry.2).sum =
      (keys.map fun key => weight (map[key]?.getD absent)).sum +
        ((map.toList.filter fun entry => !decide (entry.1 ∈ keys)).map
          fun entry => weight entry.2).sum := by
  let held (key : α) : Int := weight (map[key]?.getD absent)
  have present : ∀ entry ∈ map.toList, weight entry.2 = held entry.1 := by
    intro entry member
    simp [held, ExtTreeMap.mem_toList_iff_getElem?_eq_some.mp member]
  have missing : ((keys.filter fun key => !decide (key ∈ map)).map held).sum = 0 := by
    refine List.sum_eq_zero fun value member => ?_
    obtain ⟨key, listed, rfl⟩ := List.mem_map.mp member
    have gone : key ∉ map := by simpa using (List.mem_filter.mp listed).2
    simp [held, ExtTreeMap.getElem?_eq_none gone, nothing]
  have same : (keys.filter fun key => decide (key ∈ map)).Perm
      ((map.toList.filter fun entry => decide (entry.1 ∈ keys)).map Prod.fst) := by
    refine (List.perm_ext_iff_of_nodup (distinct.filter _) ?_).mpr fun key => ?_
    · refine List.Nodup.sublist (List.filter_sublist.map _) ?_
      rw [ExtTreeMap.map_fst_toList_eq_keys]
      exact ExtTreeMap.nodup_keys
    · simp only [List.mem_filter, List.mem_map, Prod.exists, exists_and_right, exists_eq_right,
        decide_eq_true_eq, ExtTreeMap.mem_toList_iff_getElem?_eq_some,
        ExtTreeMap.mem_iff_isSome_getElem?, Option.isSome_iff_exists]
      tauto
  have outer := ((List.filter_append_perm (fun entry : α × β => decide (entry.1 ∈ keys))
    map.toList).map fun entry => weight entry.2).sum_eq
  have inner := ((List.filter_append_perm (fun key => decide (key ∈ map)) keys).map held).sum_eq
  rw [List.map_append, List.sum_append] at outer inner
  have moved := (same.map held).sum_eq
  rw [List.map_map] at moved
  have renamed : ((map.toList.filter fun entry => decide (entry.1 ∈ keys)).map
      fun entry => weight entry.2) =
      (map.toList.filter fun entry => decide (entry.1 ∈ keys)).map (held ∘ Prod.fst) :=
    List.map_congr_left fun entry member => present entry (List.mem_of_mem_filter member)
  rw [← outer, ← inner, missing, moved, renamed, add_zero]

end Sums

end Klens.Lib.Maps
