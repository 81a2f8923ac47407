import Klens.Ingest.SubjectsProofs

/-! When a subject is reported as removed: when it is gone, as long as the reads
of the subjects that are held are answered. -/
namespace Klens.Ingest
open Klens.Lib Klens.Schemas Klens.Store Std

section Sweep
variable {sweep : SubjectSweep} {earlier : List SubjectSweep} {name : String}

theorem fetchSubjects_of_listing (listed : sweep.listing = .ok ()) (previous : Option SubjectTable) :
    ∃ table, fetchSubjects sweep previous = .ok table := by
  rw [fetchSubjects, SubjectSweep.subjects, listed]
  exact ⟨_, rfl⟩

/-- The reads of a subject that is held: its versions, and its schema when the
latest version is not the held one. -/
def ReadsAnswered (sweep : SubjectSweep) (name : String) (info : SubjectInfo) : Prop :=
  sweep.versions name = .ok () ∧
    ((sweep.registry.versions name).max? = some info.latestVersion ∨ sweep.schema name = .ok ())

private theorem exists_newest {registry : Registry} (listed : name ∈ registry.names) :
    ∃ version, (registry.versions name).max? = some version := by
  rw [← Option.isSome_iff_exists, List.isSome_max?_iff]
  have live := (List.mem_filter.mp listed).2
  simpa [Registry.versions] using live

/-- A listed subject that is held loads exactly when its reads are answered. -/
theorem loadedAs_iff_readsAnswered {info : SubjectInfo} (listed : name ∈ sweep.registry.names)
    (held : subjectEntry earlier name = some info) :
    (∃ latest, LoadedAs sweep name
      (knownLatest ((subjectPolls earlier).load.getD .empty) name) latest) ↔
      ReadsAnswered sweep name info := by
  have known : knownLatest ((subjectPolls earlier).load.getD .empty) name =
      some ⟨info.latestVersion, info.id, info.schemaType⟩ := by
    rw [knownLatest]
    exact congrArg (Option.map _) held
  rw [known]
  constructor
  · rintro ⟨latest, answered, newest, taken | ⟨-, read, -⟩⟩
    · obtain rfl := Option.some.inj taken
      exact ⟨answered, .inl newest⟩
    · exact ⟨answered, .inr read⟩
  · rintro ⟨answered, reads⟩
    obtain ⟨version, newest⟩ := exists_newest listed
    by_cases same : version = info.latestVersion
    · subst same
      exact ⟨_, answered, newest, .inl rfl⟩
    · have read : sweep.schema name = .ok () := reads.resolve_left fun taken =>
        same (Option.some.inj (newest.symm.trans taken))
      obtain ⟨entry, found⟩ := find_of_newest newest
      refine ⟨⟨version, entry.id, entry.schema.schemaType⟩, answered, newest, .inr ⟨?_, read, entry,
        found, rfl, rfl⟩⟩
      rintro _ ⟨⟩
      exact Ne.symm same

theorem kept_iff_readsAnswered (came : sweep.listing = .ok ()) {info : SubjectInfo}
    (listed : name ∈ sweep.registry.names) (held : subjectEntry earlier name = some info) :
    (subjectEntry (sweep :: earlier) name).isSome ↔ ReadsAnswered sweep name info := by
  obtain ⟨table, fetched⟩ := fetchSubjects_of_listing came (subjectPolls earlier).load
  rw [← loadedAs_iff_readsAnswered listed held, subjectEntry, load_subjectPolls fetched,
    Option.getD_some, Option.isSome_iff_exists]
  constructor
  · rintro ⟨after, shown⟩
    obtain ⟨-, latest, loaded, -⟩ := (getElem?_fetchSubjects fetched).mp shown
    exact ⟨latest, loaded⟩
  · rintro ⟨latest, loaded⟩
    exact ⟨_, (getElem?_fetchSubjects fetched).mpr ⟨listed, latest, loaded, rfl⟩⟩

theorem removed_iff (came : sweep.listing = .ok ()) :
    (∃ delta, subjectDelta sweep earlier = some delta ∧ name ∈ delta.removed) ↔
      (subjectEntry earlier name).isSome ∧ subjectEntry (sweep :: earlier) name = none := by
  obtain ⟨table, fetched⟩ := fetchSubjects_of_listing came (subjectPolls earlier).load
  have published : subjectDelta sweep earlier =
      SubjectsDelta.between (subjectPolls earlier).load table := published_poll _ fetched
  rw [published, SubjectsDelta.between, SubjectsDelta.mem_removed, subjectEntry, subjectEntry,
    load_subjectPolls fetched]
  cases (subjectPolls earlier).load <;> rfl

end Sweep

/-- What a sweep reports as removed is no longer listed, and what is listed and
was held keeps an entry. -/
def RemovesOnlyGone (sweep : SubjectSweep) (earlier : List SubjectSweep) : Prop :=
  (∀ delta, subjectDelta sweep earlier = some delta →
    ∀ name ∈ delta.removed, name ∉ sweep.registry.names) ∧
  ∀ name ∈ sweep.registry.names, (subjectEntry earlier name).isSome →
    (subjectEntry (sweep :: earlier) name).isSome

/-- The registry answers the reads of every subject that is listed and held. -/
def HeldReadsAnswered (sweep : SubjectSweep) (earlier : List SubjectSweep) : Prop :=
  ∀ name ∈ sweep.registry.names, ∀ info, subjectEntry earlier name = some info →
    ReadsAnswered sweep name info

theorem removesOnlyGone_iff {sweep : SubjectSweep} {earlier : List SubjectSweep}
    (came : sweep.listing = .ok ()) :
    RemovesOnlyGone sweep earlier ↔ HeldReadsAnswered sweep earlier := by
  constructor
  · rintro ⟨-, keeps⟩ name listed info held
    exact (kept_iff_readsAnswered came listed held).mp
      (keeps name listed (Option.isSome_of_eq_some held))
  · intro answered
    have keeps : ∀ name ∈ sweep.registry.names, (subjectEntry earlier name).isSome →
        (subjectEntry (sweep :: earlier) name).isSome := by
      intro name listed some_
      obtain ⟨info, held⟩ := Option.isSome_iff_exists.mp some_
      exact (kept_iff_readsAnswered came listed held).mpr (answered name listed info held)
    refine ⟨fun delta published name gone listed => ?_, keeps⟩
    obtain ⟨before, after⟩ := (removed_iff came).mp ⟨delta, published, gone⟩
    rw [← Option.not_isSome_iff_eq_none] at after
    exact after (keeps name listed before)

/-- A run of sweeps whose listings succeed reports as removed only what is gone,
and keeps what is still listed, exactly when in each sweep the registry answers
the reads of every subject that is listed and held. -/
theorem subject_sweeps_remove_only_gone_iff {sweeps : List SubjectSweep}
    (came : ∀ sweep ∈ sweeps, sweep.listing = .ok ()) :
    (∀ sweep earlier, (sweep :: earlier) <:+ sweeps → RemovesOnlyGone sweep earlier) ↔
    ∀ sweep earlier, (sweep :: earlier) <:+ sweeps → HeldReadsAnswered sweep earlier := by
  refine forall₂_congr fun sweep earlier => forall_congr' fun suffix => ?_
  exact removesOnlyGone_iff (came sweep (suffix.subset List.mem_cons_self))

section Examples

private def orders : Registry := Registry.empty.edits [.register "orders-value" ⟨.avro, "A"⟩]

private def answering (versions : String → Except String Unit) : SubjectSweep :=
  { registry := orders
    listing := .ok ()
    versions
    schema := fun _ => .ok ()
    compatibility := fun _ => .none }

/-- The second sweep finds what the first one did. -/
theorem subject_sweeps_keep_listed :
    let steady := [answering fun _ => .ok (), answering fun _ => .ok ()]
    ∀ sweep earlier, (sweep :: earlier) <:+ steady → RemovesOnlyGone sweep earlier := by
  intro steady
  have came : ∀ sweep ∈ steady, sweep.listing = .ok () := by simp [steady, answering]
  have same : ∀ sweep ∈ steady, sweep = answering fun _ => .ok () := by simp [steady]
  refine (subject_sweeps_remove_only_gone_iff came).mpr fun sweep earlier suffix => ?_
  obtain rfl := same sweep (suffix.subset List.mem_cons_self)
  exact fun _ _ _ _ => ⟨rfl, .inr rfl⟩

private def failing : List SubjectSweep :=
  [answering fun _ => .error "timed out", answering fun _ => .ok ()]

theorem subject_sweeps_remove_listed :
    ¬ ∀ sweeps : List SubjectSweep, (∀ sweep ∈ sweeps, sweep.listing = .ok ()) →
      ∀ sweep earlier, (sweep :: earlier) <:+ sweeps → RemovesOnlyGone sweep earlier := by
  intro right
  have came : ∀ sweep ∈ failing, sweep.listing = .ok () := by simp [failing, answering]
  obtain ⟨removed, -⟩ := right failing came _ _ (List.suffix_refl _)
  have published : subjectDelta (answering fun _ => .error "timed out")
      [answering fun _ => .ok ()] =
      some { added := [], removed := ["orders-value"], changed := [] } := by decide
  exact removed _ published "orders-value" (by decide) (by decide)

end Examples
end Klens.Ingest
