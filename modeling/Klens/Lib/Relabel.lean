import Klens.Lib.Maps

/-! Maps whose keys are compared by a label they carry, read as maps of the
labels. -/
namespace Klens.Lib.Relabel
open Std

variable {Key Label Value Result : Type*} [Ord Label] [TransOrd Label] [LawfulEqOrd Label]
  {label : Key → Label}

abbrev byLabel (label : Key → Label) : Key → Key → Ordering := compareOn label

omit [TransOrd Label] in
theorem byLabel_eq {one two : Key} : byLabel label one two = .eq ↔ label one = label two := by
  rw [byLabel, compareOn]
  exact compare_eq_iff_eq

/-- The labels of the keys, with what `read` makes of the values. -/
def relabel (read : Value → Result) (map : ExtTreeMap Key Value (byLabel label)) :
    ExtTreeMap Label Result :=
  .ofList (map.toList.map fun entry => (label entry.1, read entry.2))

omit [LawfulEqOrd Label] in
private theorem mem_toList {map : ExtTreeMap Key Value (byLabel label)}
    {entry : Key × Value} (listed : entry ∈ map.toList) : map[entry.1]? = some entry.2 :=
  (ExtTreeMap.mem_toList_iff_getKey?_eq_some_and_getElem?_eq_some.mp listed).2

theorem getElem?_relabel (read : Value → Result) (map : ExtTreeMap Key Value (byLabel label))
    (key : Key) : (relabel read map)[label key]? = map[key]?.map read := by
  have functional : Maps.Functional (map.toList.map fun entry => (label entry.1, read entry.2)) := by
    refine Maps.functional_map fun one here two there same => ?_
    have equal := (mem_toList here).symm.trans
      ((ExtTreeMap.getElem?_congr (byLabel_eq.mpr same)).trans (mem_toList there))
    exact congrArg read (Option.some.inj equal)
  refine Option.ext fun result => ?_
  rw [relabel, Maps.getElem?_ofList functional, List.mem_map, Option.map_eq_some_iff]
  constructor
  · rintro ⟨entry, listed, same⟩
    obtain ⟨name, value⟩ := Prod.mk.inj same
    have found := (ExtTreeMap.getElem?_congr (byLabel_eq.mpr name)).symm.trans (mem_toList listed)
    exact ⟨entry.2, found, value⟩
  · rintro ⟨value, found, rfl⟩
    have present := ExtTreeMap.mem_iff_isSome_getElem?.mpr (Option.isSome_of_eq_some found)
    obtain ⟨stored, kept⟩ := Option.isSome_iff_exists.mp
      (ExtTreeMap.mem_iff_isSome_getKey?.mp present)
    have same : byLabel label stored key = .eq := by
      have compared := ExtTreeMap.compare_getKey?_self (t := map) (k := key)
      rw [kept] at compared
      simpa using compared
    refine ⟨(stored, value), ?_, by rw [byLabel_eq.mp same]⟩
    refine ExtTreeMap.mem_toList_iff_getKey?_eq_some_and_getElem?_eq_some.mpr ⟨?_, ?_⟩
    · exact (ExtTreeMap.getKey?_congr same).trans kept
    · exact (ExtTreeMap.getElem?_congr same).trans found

omit [LawfulEqOrd Label] in
theorem relabel_empty (read : Value → Result) :
    relabel read (∅ : ExtTreeMap Key Value (byLabel label)) = ∅ := by
  simp [relabel]

theorem mem_relabel {read : Value → Result} {map : ExtTreeMap Key Value (byLabel label)}
    {key : Key} : label key ∈ relabel read map ↔ key ∈ map := by
  rw [ExtTreeMap.mem_iff_isSome_getElem?, getElem?_relabel, Option.isSome_map,
    ExtTreeMap.mem_iff_isSome_getElem?]

section Surjective
variable (labels : Function.Surjective label)
include labels

theorem relabel_insert (read : Value → Result) (map : ExtTreeMap Key Value (byLabel label))
    (key : Key) (value : Value) :
    relabel read (map.insert key value) = (relabel read map).insert (label key) (read value) := by
  refine ExtTreeMap.ext_getElem? fun name => ?_
  obtain ⟨other, rfl⟩ := labels name
  rw [getElem?_relabel, ExtTreeMap.getElem?_insert, ExtTreeMap.getElem?_insert, getElem?_relabel]
  exact apply_ite (Option.map read) _ _ _

theorem relabel_alter (read : Value → Result) (map : ExtTreeMap Key Value (byLabel label))
    (key : Key) {change : Option Value → Option Value} (changed : Option Result → Option Result)
    (follows : ∀ held, (change held).map read = changed (held.map read)) :
    relabel read (map.alter key change) = (relabel read map).alter (label key) changed := by
  refine ExtTreeMap.ext_getElem? fun name => ?_
  obtain ⟨other, rfl⟩ := labels name
  rw [getElem?_relabel, ExtTreeMap.getElem?_alter, ExtTreeMap.getElem?_alter, getElem?_relabel,
    getElem?_relabel, ← follows]
  exact apply_ite (Option.map read) _ _ _

theorem relabel_map {Other : Type*} (read : Value → Result)
    (map : ExtTreeMap Key Other (byLabel label)) {change : Other → Value}
    {first : Other → Result} {changed : Result → Result}
    (follows : ∀ value, read (change value) = changed (first value)) :
    relabel read (map.map fun _ value => change value) =
      (relabel first map).map fun _ value => changed value := by
  refine ExtTreeMap.ext_getElem? fun name => ?_
  obtain ⟨other, rfl⟩ := labels name
  rw [getElem?_relabel, ExtTreeMap.getElem?_map', Option.pmap_eq_map, ExtTreeMap.getElem?_map,
    getElem?_relabel, Option.map_map, Option.map_map]
  exact congrFun (congrArg Option.map (funext follows)) _

end Surjective
end Klens.Lib.Relabel
