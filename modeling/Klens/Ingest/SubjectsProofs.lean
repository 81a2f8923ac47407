import Klens.Ingest.RunnerProofs
import Klens.Ingest.Subjects
import Klens.Lib.Maps

/-! What the subject lane says of the registry: a latest schema that is taken
over from an earlier sweep is right as long as it is still registered. -/
namespace Klens.Ingest
open Klens.Lib Klens.Schemas Klens.Store Std

/-- The info a subject was loaded with. -/
def infoOf (subject : SchemaSubject) : SubjectInfo :=
  .mk subject.id subject.schemaType subject.latestVersion subject.versions subject.compatibility

section Loading
variable {sweep : SubjectSweep} {name : String} {known : Option LatestSchema}

/-- The schema a subject is loaded with: the known one when its version is still
the latest, and otherwise the registered one. -/
def LoadedAs (sweep : SubjectSweep) (name : String) (known : Option LatestSchema)
    (latest : LatestSchema) : Prop :=
  sweep.versions name = .ok () ∧ (sweep.registry.versions name).max? = some latest.version ∧
    (known = some latest ∨
      (∀ other ∈ known, other.version ≠ latest.version) ∧ sweep.schema name = .ok () ∧
        ∃ entry, sweep.registry.find name latest.version = some entry ∧ entry.id = latest.id ∧
          entry.schema.schemaType = latest.schemaType)

def subjectOf (sweep : SubjectSweep) (name : String) (latest : LatestSchema) : SchemaSubject :=
  { subject := name
    id := latest.id
    schemaType := latest.schemaType
    latestVersion := latest.version
    versions := sweep.registry.versions name
    compatibility := sweep.compatibility name }

private theorem latestSchema_eq_ok {version : Int} {latest : LatestSchema} :
    sweep.latestSchema name version = .ok latest ↔ sweep.schema name = .ok () ∧
      ∃ entry, sweep.registry.find name version = some entry ∧
        LatestSchema.mk version entry.id entry.schema.schemaType = latest := by
  unfold SubjectSweep.latestSchema
  cases sweep.schema name with
  | error reason => simp [Bind.bind, Except.bind]
  | ok =>
    cases sweep.registry.find name version with
    | none => simp [Bind.bind, Except.bind]
    | some entry => simp [Bind.bind, Except.bind]

private theorem latestOf_eq_ok {latestVersion : Int} {latest : LatestSchema} :
    sweep.latestOf name known latestVersion = .ok latest ↔ latest.version = latestVersion ∧ (known = some latest ∨
      (∀ other ∈ known, other.version ≠ latestVersion) ∧ sweep.schema name = .ok () ∧
        ∃ entry, sweep.registry.find name latestVersion = some entry ∧ entry.id = latest.id ∧
          entry.schema.schemaType = latest.schemaType) := by
  have read : sweep.latestSchema name latestVersion = .ok latest ↔
      latest.version = latestVersion ∧ sweep.schema name = .ok () ∧
        ∃ entry, sweep.registry.find name latestVersion = some entry ∧ entry.id = latest.id ∧
          entry.schema.schemaType = latest.schemaType := by
    rw [latestSchema_eq_ok]
    constructor
    · rintro ⟨answered, entry, found, rfl⟩
      exact ⟨rfl, answered, entry, found, rfl, rfl⟩
    · rintro ⟨rfl, answered, entry, found, sameId, sameType⟩
      exact ⟨answered, entry, found, by rw [sameId, sameType]⟩
  unfold SubjectSweep.latestOf
  cases known with
  | none => simp [read]
  | some held =>
    by_cases same : held.version = latestVersion
    · have kept : (some held).filter (fun known => decide (known.version = latestVersion)) =
          some held := by simp [Option.filter, same]
      rw [kept]
      constructor
      · rintro ⟨⟩
        exact ⟨same, .inl rfl⟩
      · rintro ⟨-, taken | ⟨other, -⟩⟩
        · obtain rfl := Option.some.inj taken
          rfl
        · exact absurd same (other held rfl)
    · have dropped : (some held).filter (fun known => decide (known.version = latestVersion)) =
          none := by simp [Option.filter, same]
      rw [dropped]
      dsimp only
      rw [read]
      constructor
      · rintro ⟨version, reads⟩
        refine ⟨version, .inr ⟨?_, reads⟩⟩
        rintro _ ⟨⟩
        exact same
      · rintro ⟨version, taken | ⟨-, reads⟩⟩
        · obtain rfl := Option.some.inj taken
          exact absurd version same
        · exact ⟨version, reads⟩

theorem loadSubject_eq_ok {subject : SchemaSubject} :
    sweep.loadSubject name known = .ok subject ↔
      ∃ latest, LoadedAs sweep name known latest ∧ subject = subjectOf sweep name latest := by
  unfold SubjectSweep.loadSubject LoadedAs
  cases sweep.versions name with
  | error reason => simp [Bind.bind, Except.bind]
  | ok =>
    cases newest : (sweep.registry.versions name).max? with
    | none => simp [Bind.bind, Except.bind, newest]
    | some latestVersion =>
      simp only [Bind.bind, Except.bind, newest, true_and, Option.some.injEq]
      constructor
      · intro loaded
        split at loaded
        · contradiction
        · next latest chosen =>
          obtain ⟨rfl, source⟩ := latestOf_eq_ok.mp chosen
          exact ⟨latest, ⟨rfl, source⟩, (Except.ok.inj loaded).symm⟩
      · rintro ⟨latest, ⟨rfl, source⟩, rfl⟩
        rw [latestOf_eq_ok.mpr ⟨rfl, source⟩]
        rfl

end Loading

section Fetching
variable {sweep : SubjectSweep} {previous : Option SubjectTable} {table : SubjectTable}

theorem find_of_newest {registry : Registry} {name : String} {version : Int}
    (newest : (registry.versions name).max? = some version) :
    ∃ entry, registry.find name version = some entry := by
  obtain ⟨entry, live, same⟩ := List.mem_map.mp (List.max?_mem newest)
  rw [← Option.isSome_iff_exists, Registry.find, List.find?_isSome]
  exact ⟨entry, live, by simpa using same⟩

theorem toOption_eq_some {ε α : Type} {result : Except ε α} {value : α} :
    result.toOption = some value ↔ result = .ok value := by
  cases result <;> simp [Except.toOption]

private theorem mem_subjects {known : String → Option LatestSchema} {subjects : List SchemaSubject}
    (swept : sweep.subjects known = .ok subjects) {subject : SchemaSubject} :
    subject ∈ subjects ↔ ∃ name ∈ sweep.registry.names,
      sweep.loadSubject name (known name) = .ok subject := by
  unfold SubjectSweep.subjects at swept
  cases listing : sweep.listing with
  | error reason => simp [listing, Bind.bind, Except.bind] at swept
  | ok =>
    simp only [listing, Bind.bind, Except.bind, Except.ok.injEq] at swept
    rw [← swept, (List.perm_insertionSort _ _).mem_iff, List.mem_filterMap]
    simp only [toOption_eq_some]

private theorem loadSubject_subject {name : String} {known : Option LatestSchema}
    {subject : SchemaSubject} (loaded : sweep.loadSubject name known = .ok subject) :
    subject.subject = name := by
  obtain ⟨latest, -, rfl⟩ := loadSubject_eq_ok.mp loaded
  rfl

/-- A table has the listed subjects that loaded, each as it loaded. -/
theorem getElem?_fetchSubjects (fetched : fetchSubjects sweep previous = .ok table) {name : String}
    {info : SubjectInfo} : table.subjects[name]? = some info ↔ name ∈ sweep.registry.names ∧
      ∃ latest, LoadedAs sweep name (knownLatest (previous.getD .empty) name) latest ∧
        info = infoOf (subjectOf sweep name latest) := by
  obtain ⟨subjects, swept, rfl⟩ : ∃ subjects, sweep.subjects (knownLatest (previous.getD .empty)) =
      .ok subjects ∧ SubjectTable.assemble subjects = table := by
    unfold fetchSubjects at fetched
    cases swept : sweep.subjects (knownLatest (previous.getD .empty)) with
    | error reason => simp [swept, Except.map] at fetched
    | ok subjects => exact ⟨subjects, rfl, by simpa [swept, Except.map] using fetched⟩
  have functional : Maps.Functional (subjects.map fun subject =>
      (subject.subject, infoOf subject)) := by
    refine Maps.functional_map fun one here two there same => ?_
    obtain ⟨first, -, loaded⟩ := (mem_subjects swept).mp here
    obtain ⟨second, -, again⟩ := (mem_subjects swept).mp there
    obtain rfl : first = second := by
      rw [← loadSubject_subject loaded, ← loadSubject_subject again, same]
    rw [Except.ok.inj (loaded.symm.trans again)]
  have entry : (SubjectTable.assemble subjects).subjects[name]? = some info ↔
      (name, info) ∈ subjects.map fun subject => (subject.subject, infoOf subject) :=
    Maps.getElem?_ofList functional
  rw [entry, List.mem_map]
  constructor
  · rintro ⟨subject, member, same⟩
    obtain ⟨other, listed, loaded⟩ := (mem_subjects swept).mp member
    obtain ⟨rfl, rfl⟩ := Prod.mk.inj same
    obtain ⟨latest, loadedAs, rfl⟩ := loadSubject_eq_ok.mp loaded
    exact ⟨listed, latest, loadedAs, rfl⟩
  · rintro ⟨listed, latest, loadedAs, rfl⟩
    refine ⟨subjectOf sweep name latest, (mem_subjects swept).mpr ⟨name, listed, ?_⟩, rfl⟩
    exact loadSubject_eq_ok.mpr ⟨latest, loadedAs, rfl⟩

/-- The table says what the registry holds for each subject's latest version. -/
def Right (table : SubjectTable) (registry : Registry) : Prop :=
  ∀ name info, table.subjects[name]? = some info →
    (registry.versions name).max? = some info.latestVersion ∧
      ∃ entry, registry.find name info.latestVersion = some entry ∧ entry.id = info.id ∧
        entry.schema.schemaType = info.schemaType

/-- A subject the table holds is still registered as it is held, if the registry
lists it with the same latest version. -/
def StillRegistered (table : SubjectTable) (sweep : SubjectSweep) : Prop :=
  ∀ name info entry, table.subjects[name]? = some info → name ∈ sweep.registry.names →
    sweep.versions name = .ok () →
    (sweep.registry.versions name).max? = some info.latestVersion →
    sweep.registry.find name info.latestVersion = some entry →
      entry.id = info.id ∧ entry.schema.schemaType = info.schemaType

/-- One sweep is right exactly when what it takes over is still registered. -/
theorem right_iff_stillRegistered (fetched : fetchSubjects sweep previous = .ok table) :
    Right table sweep.registry ↔ StillRegistered (previous.getD .empty) sweep := by
  constructor
  · intro right name info entry held listed answered newest found
    have taken : LoadedAs sweep name (knownLatest (previous.getD .empty) name)
        ⟨info.latestVersion, info.id, info.schemaType⟩ :=
      ⟨answered, newest, .inl (by simp [knownLatest, held])⟩
    have shown := (getElem?_fetchSubjects fetched).mpr ⟨listed, _, taken, rfl⟩
    obtain ⟨-, other, again, sameId, sameType⟩ := right name _ shown
    obtain rfl : entry = other := Option.some.inj (found.symm.trans again)
    exact ⟨sameId, sameType⟩
  · intro still name info shown
    obtain ⟨listed, latest, ⟨answered, newest, source⟩, rfl⟩ :=
      (getElem?_fetchSubjects fetched).mp shown
    refine ⟨newest, ?_⟩
    rcases source with taken | ⟨-, -, entry, found, sameId, sameType⟩
    · obtain ⟨info, held, rfl⟩ := Option.map_eq_some_iff.mp taken
      obtain ⟨entry, found⟩ := find_of_newest newest
      obtain ⟨sameId, sameType⟩ := still name info entry held listed answered newest found
      exact ⟨entry, found, sameId, sameType⟩
    · exact ⟨entry, found, sameId, sameType⟩

/-- The lane holds what was last fetched. -/
theorem load_subjectPolls {earlier : List SubjectSweep}
    (fetched : fetchSubjects sweep (subjectPolls earlier).load = .ok table) :
    (subjectPolls (sweep :: earlier)).load = some table := by
  rw [subjectPolls, fetched]
  have kept : LosesNothing .empty (subjectPolls earlier) (poll SubjectsDelta.between
      (subjectPolls earlier) (.untimed (.ok table))).1 _ (.ok table) :=
    poll_losesNothing subjects_exact (fun _ _ => trivial) (fun _ _ => trivial)
  exact kept.1

end Fetching

/-- A run of sweeps reports the registry's latest schemas, after each sweep that
came through, exactly when what each of them took over was still registered. -/
theorem subject_sweeps_right_iff (sweeps : List SubjectSweep) :
    (∀ sweep earlier, (sweep :: earlier) <:+ sweeps → ∀ table,
      fetchSubjects sweep (subjectPolls earlier).load = .ok table →
        (subjectPolls (sweep :: earlier)).load = some table ∧ Right table sweep.registry) ↔
    ∀ sweep earlier, (sweep :: earlier) <:+ sweeps → ∀ table,
      fetchSubjects sweep (subjectPolls earlier).load = .ok table →
        StillRegistered ((subjectPolls earlier).load.getD .empty) sweep := by
  refine forall₂_congr fun sweep earlier => forall_congr' fun _ => forall₂_congr fun table fetched => ?_
  rw [← right_iff_stillRegistered fetched, and_iff_right (load_subjectPolls fetched)]

section Examples

private def quietSweep (registry : Registry) : SubjectSweep :=
  { registry
    listing := .ok ()
    versions := fun _ => .ok ()
    schema := fun _ => .ok ()
    compatibility := fun _ => .none }

private def before : Registry :=
  Registry.empty.edits [.register "orders-value" ⟨.avro, "A"⟩]

/-- The subject was deleted for good and another schema registered. -/
private def after : Registry :=
  before.edits [.delete ⟨"orders-value", none, true⟩, .register "orders-value" ⟨.json, "B"⟩]

theorem subject_sweep_keeps_replaced_schema :
    ¬ ∀ sweep earlier, (sweep :: earlier) <:+ [quietSweep after, quietSweep before] → ∀ table,
      fetchSubjects sweep (subjectPolls earlier).load = .ok table →
        (subjectPolls (sweep :: earlier)).load = some table ∧ Right table sweep.registry := by
  intro right
  let fetched := fetchSubjects (quietSweep after) (subjectPolls [quietSweep before]).load
  have shown : (fetched.toOption.bind (·.subjects["orders-value"]?)).map
      (fun info => (info.latestVersion, info.id)) = some (1, 1) := by decide
  have registered : (after.find "orders-value" 1).map Entry.id = some 2 := by decide
  obtain ⟨info, held, same⟩ := Option.map_eq_some_iff.mp shown
  obtain ⟨table, fetches, entry⟩ := Option.bind_eq_some_iff.mp held
  obtain ⟨version, id⟩ := Prod.mk.inj same
  obtain ⟨-, here⟩ := right _ _ (List.suffix_refl _) table (toOption_eq_some.mp fetches)
  obtain ⟨-, found, finds, sameId, -⟩ := here "orders-value" info entry
  rw [version] at finds
  rw [show (quietSweep after).registry = after from rfl] at finds
  rw [finds, Option.map_some, sameId, id] at registered
  simp at registered

end Examples
end Klens.Ingest
