import Mathlib.Algebra.BigOperators.Group.List.Basic
import Mathlib.Data.List.Nodup
import Mathlib.Tactic.Common
import Std.Data.ExtTreeMap

/-! Items that each belong to one key: folding them into a map, and summing them
key by key. -/
namespace Klens.Lib.ByKey
open Std

variable {Item Key : Type*} [DecidableEq Key]

section Folds
variable {Value : Type*} {cmp : Key → Key → Ordering} [TransCmp cmp] [LawfulEqCmp cmp]

/-- A step that writes only at its item's key, from what stood there. -/
def Touches (key : Item → Option Key) (write : Item → Option Value → Option Value)
    (step : ExtTreeMap Key Value cmp → Item → ExtTreeMap Key Value cmp) : Prop :=
  ∀ map item name, (step map item)[name]? =
    if key item = some name then write item map[name]? else map[name]?

omit [LawfulEqCmp cmp] in
/-- Seen from one key, such a fold runs over that key's items alone. -/
theorem Touches.getElem?_foldl {key : Item → Option Key}
    {write : Item → Option Value → Option Value}
    {step : ExtTreeMap Key Value cmp → Item → ExtTreeMap Key Value cmp}
    (touches : Touches key write step) (items : List Item) (map : ExtTreeMap Key Value cmp)
    (name : Key) :
    (items.foldl step map)[name]? =
      (items.filter fun item => decide (key item = some name)).foldl
        (fun held item => write item held) map[name]? := by
  induction items generalizing map with
  | nil => rfl
  | cons item items ih =>
    rw [List.foldl_cons, ih, touches]
    by_cases here : key item = some name
    · rw [if_pos here, List.filter_cons_of_pos (by simpa using here), List.foldl_cons]
    · rw [if_neg here, List.filter_cons_of_neg (by simpa using here)]

omit [LawfulEqCmp cmp] in
/-- A fold over the items of some keys fills those keys as the whole fold does,
and no others. -/
theorem Touches.getElem?_foldl_filter (key : Item → Key) {write : Item → Option Value → Option Value}
    {step : ExtTreeMap Key Value cmp → Item → ExtTreeMap Key Value cmp}
    (touches : Touches (fun item => some (key item)) write step) (wanted : Key → Bool)
    (items : List Item) (map : ExtTreeMap Key Value cmp) (name : Key) :
    ((items.filter fun item => wanted (key item)).foldl step map)[name]? =
      if wanted name then (items.foldl step map)[name]? else map[name]? := by
  rw [touches.getElem?_foldl, touches.getElem?_foldl items, List.filter_filter]
  by_cases kept : wanted name
  · rw [if_pos kept]
    refine congrArg (List.foldl _ _) (List.filter_congr fun item _ => ?_)
    by_cases here : key item = name
    · simp [here, kept]
    · simp [here]
  · rw [if_neg kept, List.filter_eq_nil_iff.mpr fun item _ => ?_, List.foldl_nil]
    by_cases here : key item = name
    · simp [here, kept]
    · simp [here]

theorem touches_insert (key : Item → Key) (value : Item → Value) :
    Touches (fun item => some (key item)) (fun item _ => some (value item))
      fun (map : ExtTreeMap Key Value cmp) item => map.insert (key item) (value item) := by
  intro map item name
  rw [ExtTreeMap.getElem?_insert]
  by_cases same : key item = name
  · simp [same]
  · have apart : cmp (key item) name ≠ .eq := mt LawfulEqCmp.eq_of_compare same
    simp [same, apart]

end Folds

section Sums
variable {M : Type*} [AddCommMonoid M]

/-- Summed key by key, a value that has a key is counted once. -/
theorem sum_indicator {keys : List Key} (distinct : keys.Nodup) (name : Key) (value : M) :
    (keys.map fun key => if name = key then value else 0).sum =
      if name ∈ keys then value else 0 := by
  induction keys with
  | nil => simp
  | cons key keys ih =>
    obtain ⟨fresh, later⟩ := List.nodup_cons.mp distinct
    rw [List.map_cons, List.sum_cons, ih later]
    by_cases here : name = key
    · subst here
      simp [fresh]
    · simp [here]

/-- Over distinct keys that cover the items, the sums of each key's items add up
to the sum of all. -/
theorem sum_regroup {keys : List Key} (distinct : keys.Nodup) (key : Item → Key) (value : Item → M)
    {items : List Item} (covered : ∀ item ∈ items, key item ∈ keys) :
    (keys.map fun name => ((items.filter fun item => decide (key item = name)).map value).sum).sum =
      (items.map value).sum := by
  induction items with
  | nil => simp
  | cons item items ih =>
    have each : ∀ name, (((item :: items).filter fun item => decide (key item = name)).map value).sum
        = (if key item = name then value item else 0) +
          ((items.filter fun item => decide (key item = name)).map value).sum := by
      intro name
      by_cases here : key item = name
      · rw [List.filter_cons_of_pos (by simpa using here), if_pos here, List.map_cons,
          List.sum_cons]
      · rw [List.filter_cons_of_neg (by simpa using here), if_neg here, zero_add]
    simp only [each]
    rw [List.sum_map_add, sum_indicator distinct, if_pos (covered item (by simp)),
      ih fun item member => covered item (.tail _ member), List.map_cons, List.sum_cons]

end Sums
end Klens.Lib.ByKey
