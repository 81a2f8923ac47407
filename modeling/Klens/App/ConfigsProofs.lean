import Klens.App.Requests

/-! When an edit of configs shows in what Kafka describes. -/
namespace Klens.App
open Klens.Kafka Klens.Lib Klens.Store Std

/-- An edit that was let through does not both set and reset a config. -/
theorem EditConfigs.disjoint_of_accepted {request : EditConfigs} {edit : ConfigEdit}
    (accepted : request.intoEdit = .ok edit) : ∀ name ∈ edit.reset, name ∉ edit.set := by
  unfold intoEdit at accepted
  split at accepted
  · contradiction
  · split at accepted
    · contradiction
    · rename_i apart
      obtain rfl := Except.ok.inj accepted
      intro name member
      simpa using List.find?_eq_none.mp apart name (ExtTreeSet.mem_toList.mpr member)

end Klens.App

namespace Klens.Kafka
open Klens.Lib Klens.Store Std

namespace ConfigEdit
variable {edit : ConfigEdit} {overrides : Overrides} {resource : ConfigResource} {name : String}

theorem mem_alteration {change : String × Option String} :
    change ∈ (edit.alteration resource).2 ↔
      (∃ value, edit.set[change.1]? = some value ∧ change.2 = some value) ∨
        change.1 ∈ edit.reset ∧ change.2 = none := by
  simp only [alteration, toKrafka, List.map_append, List.map_map, List.mem_append, List.mem_map,
    Prod.exists, ExtTreeMap.mem_toList_iff_getElem?_eq_some, ExtTreeSet.mem_toList,
    Function.comp_apply, ConfigOp.change]
  grind

theorem alter_set (disjoint : ∀ name ∈ edit.reset, name ∉ edit.set) {value : String}
    (set : edit.set[name]? = some value) :
    overrides.alter (edit.alteration resource) resource name = some value := by
  have sets : (name, some value) ∈ (edit.alteration resource).2 :=
    mem_alteration.mpr (.inl ⟨value, set, rfl⟩)
  refine Holdings.alter_of_named sets fun other there same => Prod.ext same ?_
  obtain ⟨held, found, kept⟩ | ⟨reset, _⟩ := mem_alteration.mp there
  · rw [kept, ← found, same, set]
  · rw [same] at reset
    exact absurd (ExtTreeMap.mem_iff_isSome_getElem?.mpr (by simp [set])) (disjoint _ reset)

theorem alter_reset (disjoint : ∀ name ∈ edit.reset, name ∉ edit.set) (reset : name ∈ edit.reset) :
    overrides.alter (edit.alteration resource) resource name = none := by
  have deletes : (name, none) ∈ (edit.alteration resource).2 := mem_alteration.mpr (.inr ⟨reset, rfl⟩)
  refine Holdings.alter_of_named deletes fun other there same => Prod.ext same ?_
  obtain ⟨held, found, _⟩ | ⟨_, gone⟩ := mem_alteration.mp there
  · rw [same] at found
    exact absurd (ExtTreeMap.mem_iff_isSome_getElem?.mpr (by simp [found])) (disjoint _ reset)
  · exact gone

end ConfigEdit

/-- The layer an edit writes to is one its readers read. -/
theorem ConfigRules.layers_target (rules : ConfigRules) (overrides : Overrides)
    {target : ConfigTarget} {brokers : List Int} {reader : ConfigResource}
    (reads : reader ∈ target.readers brokers) (name : String) :
    rules.layers overrides reader target.source name =
      (overrides target.resource name).map some := by
  match target with
  | .topic topic =>
    obtain rfl := List.mem_singleton.mp reads
    rfl
  | .brokers (.broker id) =>
    obtain rfl := List.mem_singleton.mp reads
    rfl
  | .brokers .cluster =>
    obtain ⟨id, _, rfl⟩ := List.mem_map.mp reads
    rfl

namespace ConfigRules.Describes
variable {rules : ConfigRules} {overrides : Overrides} {resource : ConfigResource}
  {entries : List KrafkaConfigEntry} {name : String} {source : ConfigSource}

theorem find_of_wins (described : rules.Describes overrides resource entries)
    {value : Option String} (wins : (rules.layers overrides resource).Wins name source value) :
    ∃ entry, (entries.map ConfigEntry.ofKrafka).find? (fun entry => entry.name = name) = some entry ∧
      entry.source = source ∧ entry.sensitive = rules.sensitive name ∧
      entry.value = if rules.sensitive name then none else value := by
  obtain ⟨listed, member, rfl⟩ := described.complete name source wins.least.1
  obtain ⟨hidden, top, held, decided, coded, valued⟩ := described.decided listed member
  obtain ⟨rfl, rfl⟩ := wins.unique decided
  refine ⟨.ofKrafka listed, ?_, ?_, hidden, valued⟩
  · cases found : (entries.map ConfigEntry.ofKrafka).find? fun entry => entry.name = listed.name with
    | none =>
      have missing := List.find?_eq_none.mp found _ (List.mem_map_of_mem member)
      exact absurd (decide_eq_true rfl) missing
    | some entry =>
      obtain ⟨other, there, rfl⟩ := List.mem_map.mp (List.mem_of_find?_eq_some found)
      have named := List.find?_some found
      have same : other.name = listed.name := of_decide_eq_true named
      rw [List.inj_on_of_nodup_map described.distinct there member same]
  · simp only [ConfigEntry.ofKrafka, coded, ConfigSource.fromKrafka_code]

theorem find_of_unheld (described : rules.Describes overrides resource entries)
    (unheld : ∀ source, source ∉ (rules.layers overrides resource).holders name) :
    (entries.map ConfigEntry.ofKrafka).find? (fun entry => entry.name = name) = none := by
  refine List.find?_eq_none.mpr fun entry member same => ?_
  obtain ⟨listed, there, rfl⟩ := List.mem_map.mp member
  obtain ⟨_, top, held, decided, _⟩ := described.decided listed there
  obtain rfl : listed.name = name := of_decide_eq_true same
  exact unheld top decided.least.1

/-- A value set at `source` shows when it is held there, or something above hides it. -/
theorem set_shows (described : rules.Describes overrides resource entries) (value : String) :
    (((entries.map ConfigEntry.ofKrafka).find? fun entry => entry.name = name).any fun entry =>
      entry.source < source ||
        entry.source = source && (entry.sensitive || entry.value = some value)) = true ↔
    (rules.layers overrides resource).Shadowed source name ∨
      ∃ held, rules.layers overrides resource source name = some held ∧
        (rules.sensitive name = true ∨ held = some value) := by
  by_cases held : ∃ layer, layer ∈ (rules.layers overrides resource).holders name
  · obtain ⟨layer, holds⟩ := held
    obtain ⟨top, decided, wins, _⟩ := Layers.exists_wins holds
    obtain ⟨entry, found, sourced, hidden, valued⟩ := described.find_of_wins wins
    rw [found]
    simp only [Option.any_some, Bool.or_eq_true, Bool.and_eq_true, decide_eq_true_eq, sourced,
      hidden, valued, wins.lt_iff_shadowed, wins.eq_iff]
    by_cases shadowed : (rules.layers overrides resource).Shadowed source name
    · simp [shadowed]
    · constructor
      · rintro (past | ⟨⟨_, here⟩, shows⟩)
        · exact .inl past
        · refine .inr ⟨_, here, ?_⟩
          cases secret : rules.sensitive name with
          | true => exact .inl rfl
          | false => exact .inr (by simpa [secret] using shows)
      · rintro (past | ⟨_, here, shows⟩)
        · exact .inl past
        · obtain rfl := wins.eq_of_held shadowed here
          obtain rfl := Option.some.inj (wins.held.symm.trans here)
          refine .inr ⟨⟨shadowed, here⟩, ?_⟩
          cases secret : rules.sensitive name with
          | true => exact .inl rfl
          | false => exact .inr (by simpa [secret] using shows)
  · have unheld : ∀ layer, layer ∉ (rules.layers overrides resource).holders name :=
      fun layer holds => held ⟨layer, holds⟩
    rw [described.find_of_unheld unheld]
    refine ⟨nofun, ?_⟩
    rintro (⟨above, _, holds⟩ | ⟨_, here, _⟩)
    · exact absurd holds (unheld above)
    · exact absurd (Layers.mem_holders here) (unheld source)

/-- A reset at `source` shows when nothing is held there, or something above hides it. -/
theorem reset_shows (described : rules.Describes overrides resource entries) :
    (((entries.map ConfigEntry.ofKrafka).find? fun entry => entry.name = name).all fun entry =>
      entry.source ≠ source) = true ↔
    (rules.layers overrides resource).Shadowed source name ∨
      rules.layers overrides resource source name = none := by
  by_cases held : ∃ layer, layer ∈ (rules.layers overrides resource).holders name
  · obtain ⟨layer, holds⟩ := held
    obtain ⟨top, value, wins, _⟩ := Layers.exists_wins holds
    obtain ⟨entry, found, sourced, _⟩ := described.find_of_wins wins
    rw [found]
    simp only [Option.all_some, decide_eq_true_eq, sourced, ne_eq, wins.eq_iff]
    by_cases shadowed : (rules.layers overrides resource).Shadowed source name
    · simp [shadowed]
    · simp only [shadowed, not_false_eq_true, true_and, false_or]
      cases here : rules.layers overrides resource source name with
      | none => simp
      | some other =>
        obtain rfl := wins.eq_of_held shadowed here
        simp [← here, wins.held]
  · have unheld : ∀ layer, layer ∉ (rules.layers overrides resource).holders name :=
      fun layer holds => held ⟨layer, holds⟩
    rw [described.find_of_unheld unheld]
    refine iff_of_true rfl (.inr ?_)
    exact Option.not_isSome_iff_eq_none.mp (unheld source)

end ConfigRules.Describes
end Klens.Kafka

namespace Klens.App
open Klens.Kafka Klens.Lib Klens.Store Std

/-- An edit shows in a description of what it changes when, and only when, each of
its changes is in effect where it was written or is hidden by what wins over it. -/
theorem edit_shows_iff (rules : ConfigRules) (overrides : Overrides) (target : ConfigTarget)
    (brokers : List Int) (edit : ConfigEdit) {reader : ConfigResource}
    (reads : reader ∈ target.readers brokers) {entries : List KrafkaConfigEntry}
    (described : rules.Describes overrides reader entries) :
    edit.showsIn (entries.map ConfigEntry.ofKrafka) target.source = true ↔
      (∀ name value, edit.set[name]? = some value →
        (rules.layers overrides reader).Shadowed target.source name ∨
          ∃ held, overrides target.resource name = some held ∧
            (rules.sensitive name = true ∨ held = value)) ∧
      ∀ name ∈ edit.reset, (rules.layers overrides reader).Shadowed target.source name ∨
        overrides target.resource name = none := by
  simp only [ConfigEdit.showsIn, Bool.and_eq_true, List.all_eq_true, Prod.forall,
    ExtTreeMap.mem_toList_iff_getElem?_eq_some, ExtTreeSet.mem_toList, described.set_shows,
    described.reset_shows, rules.layers_target overrides reads, Option.map_eq_some_iff,
    Option.map_eq_none_iff]
  simp

/-- Once Kafka took an accepted edit, every description of what it changes shows
it, whatever else is altered meanwhile, until its own configs are altered again. -/
theorem edit_keeps_showing (rules : ConfigRules) (overrides : Overrides) (target : ConfigTarget)
    (brokers : List Int) {request : EditConfigs} {edit : ConfigEdit}
    (accepted : request.intoEdit = .ok edit)
    (later : List (Alteration ConfigResource String String))
    (apart : ∀ alteration ∈ later, alteration.1 = target.resource → ∀ change ∈ alteration.2,
      change.1 ∉ edit.set ∧ change.1 ∉ edit.reset)
    {reader : ConfigResource} (reads : reader ∈ target.readers brokers)
    {entries : List KrafkaConfigEntry}
    (described : rules.Describes
      (later.foldl Holdings.alter (overrides.alter (edit.alteration target.resource))) reader
      entries) :
    edit.showsIn (entries.map ConfigEntry.ofKrafka) target.source = true := by
  have disjoint := EditConfigs.disjoint_of_accepted accepted
  have kept : ∀ name, name ∈ edit.set ∨ name ∈ edit.reset →
      later.foldl Holdings.alter (overrides.alter (edit.alteration target.resource))
        target.resource name = overrides.alter (edit.alteration target.resource) target.resource name := by
    intro name named
    refine Holdings.foldl_alter fun alteration member same change there => ?_
    rintro rfl
    exact named.elim (apart alteration member same change there).1
      (apart alteration member same change there).2
  apply (edit_shows_iff rules _ target brokers edit reads described).mpr
  constructor
  · intro name value set
    have named : name ∈ edit.set := ExtTreeMap.mem_iff_isSome_getElem?.mpr (by simp [set])
    refine .inr ⟨value, ?_, .inr rfl⟩
    rw [kept name (.inl named), ConfigEdit.alter_set disjoint set]
  · intro name reset
    rw [kept name (.inr reset), ConfigEdit.alter_reset disjoint reset]
    exact .inr rfl

private def plain : ConfigRules := { fallback := fun _ _ _ _ => none, sensitive := fun _ => false }

private def retention : ConfigEdit := { set := .ofList [("retention.ms", "60000")], reset := ∅ }

private def listed : KrafkaConfigEntry :=
  { name := "retention.ms", value := some "60000", configSource := 1, readOnly := false
    isSensitive := false }

private theorem plain_described {overrides : Overrides}
    (held : ∀ name, overrides (.topic "orders") name =
      if name = "retention.ms" then some "60000" else none) :
    plain.Describes overrides (.topic "orders") [listed] := by
  refine ⟨List.nodup_singleton _, ?_, ?_⟩
  · intro entry member
    obtain rfl := List.mem_singleton.mp member
    refine ⟨rfl, .dynamicTopic, some "60000", ⟨⟨?_, fun layer _ => ?_⟩, ?_⟩, rfl, rfl⟩
    · exact Layers.mem_holders (congrArg (Option.map some) (held "retention.ms"))
    · cases layer <;> decide
    · exact congrArg (Option.map some) (held "retention.ms")
  · intro name source holds
    refine ⟨listed, List.mem_singleton_self _, ?_⟩
    cases source with
    | dynamicTopic =>
      have found : ((overrides (.topic "orders") name).map some).isSome := holds
      rw [held name] at found
      by_contra different
      have other : ¬ name = "retention.ms" := fun same => different same.symm
      rw [if_neg other] at found
      contradiction
    | _ => contradiction

private def retained : Overrides := fun resource name =>
  if resource = .topic "orders" ∧ name = "retention.ms" then some "60000" else none

theorem edit_shows_iff_retention :
    retention.showsIn [ConfigEntry.ofKrafka listed] .dynamicTopic = true ↔
      (∀ name value, retention.set[name]? = some value →
        (plain.layers retained (.topic "orders")).Shadowed .dynamicTopic name ∨
          ∃ held, retained (.topic "orders") name = some held ∧
            (plain.sensitive name = true ∨ held = value)) ∧
      ∀ name ∈ retention.reset, (plain.layers retained (.topic "orders")).Shadowed .dynamicTopic name ∨
        retained (.topic "orders") name = none :=
  edit_shows_iff plain retained (.topic "orders") [] retention (List.mem_singleton_self _)
    (plain_described fun name => by simp [retained])

theorem edit_keeps_showing_retention :
    retention.showsIn [ConfigEntry.ofKrafka listed] .dynamicTopic = true := by
  have accepted : EditConfigs.intoEdit ⟨retention.set, retention.reset⟩ = .ok retention := by
    rfl
  refine edit_keeps_showing plain (fun _ _ => none) (.topic "orders") [] accepted
    [(.topic "payments", [("retention.ms", none)])] ?_ (List.mem_singleton_self _)
    (plain_described fun name => ?_)
  · simp [ConfigTarget.resource]
  · have changes : retention.alteration (.topic "orders") =
        (.topic "orders", [("retention.ms", some "60000")]) := by rfl
    simp [ConfigTarget.resource, changes, Holdings.alter, Holdings.put, Function.update_apply]

end Klens.App
