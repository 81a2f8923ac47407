import Klens.Ingest.SubjectsProofs

/-! The ids behind the versions of each subject. Held ids are kept on the word of
one version: the latest, or the newest held. -/
namespace Klens.Ingest
open Klens.Lib Klens.Schemas Klens.Store Std

namespace SchemaIdPoll

/-- The id some subjects give a version. -/
def idIn (subjects : ExtTreeMap String Held) (subject : String) (version : Int) : Option Int :=
  subjects[subject]?.bind (·[version]?)

section Collecting

private theorem foldl_collectVersion (kept : Option Held) (subject : String) (info : SubjectInfo)
    (versions : List Int) (state : Held × List (String × Int)) :
    (∀ version, (versions.foldl (collectVersion kept subject info) state).1[version]? =
      if version ∈ versions then (knownId kept info version).or state.1[version]?
      else state.1[version]?) ∧
    ∀ entry, entry ∈ (versions.foldl (collectVersion kept subject info) state).2 ↔
      entry ∈ state.2 ∨ ∃ version ∈ versions, knownId kept info version = none ∧
        entry = (subject, version) := by
  induction versions generalizing state with
  | nil => simp
  | cons head versions ih =>
    obtain ⟨ids, wanted⟩ := ih (collectVersion kept subject info state head)
    rw [List.foldl_cons]
    cases known : knownId kept info head with
    | none =>
      simp only [collectVersion, known] at ids wanted ⊢
      refine ⟨fun version => ?_, fun entry => ?_⟩
      · rw [ids]
        by_cases same : version = head
        · subst same
          simp [known]
        · simp [same]
      · rw [wanted]
        simp [known, or_assoc]
    | some id =>
      simp only [collectVersion, known] at ids wanted ⊢
      refine ⟨fun version => ?_, fun entry => ?_⟩
      · rw [ids, ExtTreeMap.getElem?_insert]
        by_cases same : version = head
        · subst same
          simp [known]
        · simp [same, Ne.symm same]
      · rw [wanted]
        simp [known]

variable (previous : Option SchemaIdTable) (confirmed : List String)

/-- What one subject adds to subjects that do not have it. -/
private theorem collect_fields {state : Collected} {entry : String × SubjectInfo}
    (fresh : state.subjects[entry.1]? = none) :
    (∀ subject version, idIn (collect previous confirmed state entry).subjects subject version =
      if subject = entry.1 then
        if version ∈ entry.2.versions then
          knownId (keptFor previous confirmed entry.1 entry.2) entry.2 version
        else none
      else idIn state.subjects subject version) ∧
    (∀ subject ≠ entry.1, (collect previous confirmed state entry).subjects[subject]? =
      state.subjects[subject]?) ∧
    ∀ wanted, wanted ∈ (collect previous confirmed state entry).wanted ↔
      wanted ∈ state.wanted ∨ ∃ version ∈ entry.2.versions,
        knownId (keptFor previous confirmed entry.1 entry.2) entry.2 version = none ∧
          wanted = (entry.1, version) := by
  obtain ⟨ids, wants⟩ := foldl_collectVersion (keptFor previous confirmed entry.1 entry.2) entry.1
    entry.2 entry.2.versions (∅, state.wanted)
  have collected : collect previous confirmed state entry = Collected.mk
      (state.subjects.insert entry.1 (entry.2.versions.foldl (collectVersion
        (keptFor previous confirmed entry.1 entry.2) entry.1 entry.2) (∅, state.wanted)).1)
      (entry.2.versions.foldl (collectVersion
        (keptFor previous confirmed entry.1 entry.2) entry.1 entry.2) (∅, state.wanted)).2 := by
    rw [collect, fresh]
    rfl
  rw [collected]
  refine ⟨fun subject version => ?_, fun subject other => ?_, wants⟩
  · rw [idIn, ExtTreeMap.getElem?_insert]
    by_cases same : subject = entry.1
    · subst same
      simp [ids]
    · simp [same, Ne.symm same, idIn]
  · rw [ExtTreeMap.getElem?_insert, if_neg (mt LawfulEqCmp.eq_of_compare other.symm)]

/-- The loop over distinct subjects. -/
private theorem foldl_collect (entries : List (String × SubjectInfo))
    (distinct : (entries.map Prod.fst).Nodup) (state : Collected)
    (fresh : ∀ entry ∈ entries, state.subjects[entry.1]? = none) :
    (∀ entry ∈ entries, ∀ version,
      idIn (entries.foldl (collect previous confirmed) state).subjects entry.1 version =
        if version ∈ entry.2.versions then
          knownId (keptFor previous confirmed entry.1 entry.2) entry.2 version
        else none) ∧
    (∀ subject ∉ entries.map Prod.fst, ∀ version,
      idIn (entries.foldl (collect previous confirmed) state).subjects subject version =
        idIn state.subjects subject version) ∧
    ∀ wanted, wanted ∈ (entries.foldl (collect previous confirmed) state).wanted ↔
      wanted ∈ state.wanted ∨ ∃ entry ∈ entries, ∃ version ∈ entry.2.versions,
        knownId (keptFor previous confirmed entry.1 entry.2) entry.2 version = none ∧
          wanted = (entry.1, version) := by
  induction entries generalizing state with
  | nil => simp
  | cons head entries ih =>
    obtain ⟨apart, rest⟩ := List.nodup_cons.mp distinct
    obtain ⟨ids, others, wants⟩ := collect_fields previous confirmed (fresh head (by simp))
    have later : ∀ entry ∈ entries,
        (collect previous confirmed state head).subjects[entry.1]? = none := by
      intro entry listed
      have other : entry.1 ≠ head.1 := fun same => apart (same ▸ List.mem_map_of_mem listed)
      rw [others _ other]
      exact fresh entry (.tail _ listed)
    obtain ⟨listedIds, unlisted, wanted⟩ := ih rest (collect previous confirmed state head) later
    rw [List.foldl_cons]
    refine ⟨fun entry listed version => ?_, fun subject outside version => ?_, fun entry => ?_⟩
    · rcases List.mem_cons.mp listed with rfl | behind
      · rw [unlisted _ apart, ids, if_pos rfl]
      · exact listedIds entry behind version
    · rw [List.map_cons, List.mem_cons, not_or] at outside
      rw [unlisted subject outside.2, ids, if_neg outside.1]
    · rw [wanted, wants]
      simp only [List.mem_cons, exists_eq_or_imp, or_assoc]

end Collecting

section Found

private theorem idIn_insertFound (subjects : ExtTreeMap String Held)
    (found : String × RegisteredVersion) (subject : String) (version : Int) :
    idIn (insertFound subjects found) subject version =
      if found.1 = subject ∧ found.2.version = version then some found.2.id
      else idIn subjects subject version := by
  rw [idIn, insertFound, ExtTreeMap.getElem?_insert]
  by_cases same : found.1 = subject
  · subst same
    by_cases equal : found.2.version = version
    · subst equal
      simp
    · have apart : compare found.2.version version ≠ .eq := mt LawfulEqCmp.eq_of_compare equal
      simp only [ReflCmp.compare_self, if_true, Option.bind_some, equal, and_false, if_false,
        ExtTreeMap.getElem?_insert, apart, idIn]
      cases subjects[found.1]? <;> simp
  · simp [same, idIn]

/-- What was found goes over what was there. -/
private theorem foldl_insertFound (found : List (String × RegisteredVersion))
    (subjects : ExtTreeMap String Held) (subject : String) (version : Int) :
    (∀ id, idIn (found.foldl insertFound subjects) subject version = some id →
      (subject, RegisteredVersion.mk id version) ∈ found ∨ idIn subjects subject version = some id) ∧
    ((∀ id, (subject, RegisteredVersion.mk id version) ∉ found) →
      idIn (found.foldl insertFound subjects) subject version = idIn subjects subject version) := by
  induction found generalizing subjects with
  | nil => simp
  | cons head found ih =>
    obtain ⟨sound, untouched⟩ := ih (insertFound subjects head)
    rw [List.foldl_cons]
    refine ⟨fun id held => ?_, fun absent => ?_⟩
    · rcases sound id held with listed | earlier
      · exact .inl (.tail _ listed)
      · rw [idIn_insertFound] at earlier
        split at earlier
        · next here =>
          obtain ⟨rfl, rfl⟩ := here
          obtain rfl := Option.some.inj earlier
          exact .inl (by simp)
        · exact .inr earlier
    · rw [untouched fun id listed => absent id (.tail _ listed), idIn_insertFound, if_neg]
      rintro ⟨rfl, rfl⟩
      exact absent head.2.id (by simp)

end Found

theorem mem_versionIds {registry : Registry} {unread : String → Int → Bool}
    {versions : List (String × Int)} {subject : String} {found : RegisteredVersion} :
    (subject, found) ∈ versionIds registry unread versions ↔
      (subject, found.version) ∈ versions ∧ unread subject found.version = false ∧
        ∃ entry, registry.find subject found.version = some entry ∧ entry.id = found.id := by
  rw [versionIds, List.mem_filterMap]
  constructor
  · rintro ⟨⟨name, version⟩, listed, read⟩
    dsimp only at read
    split at read
    · contradiction
    · next answered =>
      obtain ⟨entry, finds, same⟩ := Option.map_eq_some_iff.mp read
      obtain ⟨rfl, rfl⟩ := Prod.mk.inj same
      exact ⟨listed, by simpa using answered, entry, finds, rfl⟩
  · rintro ⟨listed, answered, entry, finds, same⟩
    refine ⟨_, listed, ?_⟩
    simp [answered, finds, same]

section Fetching
variable (poll : SchemaIdPoll) (previous : Option SchemaIdTable)

/-- The subjects whose newest held version is still registered as held. -/
def confirmedBy : List String :=
  confirmed previous (versionIds poll.registry poll.unread (checks poll.subjects previous))

def collectedBy : Collected :=
  poll.subjects.subjects.toList.foldl (collect previous (poll.confirmedBy previous))
    { subjects := ∅, wanted := [] }

private theorem readChecks_eq_ok {confirmed : List String}
    (read : poll.readChecks previous = .ok confirmed) : confirmed = poll.confirmedBy previous := by
  unfold readChecks at read
  dsimp only at read
  split at read
  · next none =>
    rw [List.isEmpty_iff] at none
    rw [confirmedBy, none, ← Except.ok.inj read]
    rfl
  · cases checking : poll.checking with
    | error reason => simp [checking, Bind.bind, Except.bind] at read
    | ok =>
      simp only [checking, Bind.bind, Except.bind, Except.ok.injEq] at read
      exact read.symm

private theorem readWanted_eq_ok {collected : Collected} {table : SchemaIdTable}
    (read : poll.readWanted collected = .ok table) : table = .mk
      ((versionIds poll.registry poll.unread collected.wanted).foldl insertFound
        collected.subjects) := by
  unfold readWanted at read
  split at read
  · next none =>
    rw [List.isEmpty_iff] at none
    rw [none, ← Except.ok.inj read]
    rfl
  · cases reading : poll.reading with
    | error reason => simp [reading, Bind.bind, Except.bind] at read
    | ok =>
      simp only [reading, Bind.bind, Except.bind, Except.ok.injEq] at read
      exact read.symm

/-- What a fetch that comes through returns. -/
theorem fetch_eq_ok {table : SchemaIdTable} (fetched : poll.fetch previous = .ok table) :
    table = .mk ((versionIds poll.registry poll.unread
      (poll.collectedBy previous).wanted).foldl insertFound (poll.collectedBy previous).subjects) := by
  unfold fetch at fetched
  cases checked : poll.readChecks previous with
  | error reason => simp [checked, Bind.bind, Except.bind] at fetched
  | ok confirmed =>
    obtain rfl := readChecks_eq_ok poll previous checked
    simp only [checked, Bind.bind, Except.bind] at fetched
    exact readWanted_eq_ok poll fetched

private theorem distinct_toList : (poll.subjects.subjects.toList.map Prod.fst).Nodup := by
  rw [ExtTreeMap.map_fst_toList_eq_keys]
  exact ExtTreeMap.nodup_keys

/-- The subjects' ids as they were collected. -/
private theorem idIn_collectedBy {subject : String} {info : SubjectInfo}
    (listed : poll.subjects.subjects[subject]? = some info) (version : Int) :
    idIn (poll.collectedBy previous).subjects subject version =
      if version ∈ info.versions then
        knownId (keptFor previous (poll.confirmedBy previous) subject info) info version
      else none :=
  (foldl_collect previous (poll.confirmedBy previous) _ poll.distinct_toList _ (by simp)).1
    (subject, info) (ExtTreeMap.mem_toList_iff_getElem?_eq_some.mpr listed) version

private theorem idIn_collectedBy_of_unlisted {subject : String}
    (unlisted : poll.subjects.subjects[subject]? = none) (version : Int) :
    idIn (poll.collectedBy previous).subjects subject version = none := by
  have outside : subject ∉ poll.subjects.subjects.toList.map Prod.fst := by
    rw [ExtTreeMap.map_fst_toList_eq_keys, ExtTreeMap.mem_keys, ExtTreeMap.mem_iff_isSome_getElem?,
      unlisted]
    simp
  have kept := (foldl_collect previous (poll.confirmedBy previous) _ poll.distinct_toList
    { subjects := ∅, wanted := [] } (by simp)).2.1 subject outside version
  rw [collectedBy, kept]
  simp [idIn]

private theorem mem_wanted {subject : String} {version : Int} :
    (subject, version) ∈ (poll.collectedBy previous).wanted ↔
      ∃ info, poll.subjects.subjects[subject]? = some info ∧ version ∈ info.versions ∧
        knownId (keptFor previous (poll.confirmedBy previous) subject info) info version = none := by
  have wants := (foldl_collect previous (poll.confirmedBy previous) _ poll.distinct_toList
    { subjects := ∅, wanted := [] } (by simp)).2.2 (subject, version)
  rw [collectedBy, wants]
  constructor
  · rintro (none | ⟨⟨name, info⟩, listed, other, member, unknown, same⟩)
    · contradiction
    · obtain ⟨rfl, rfl⟩ := Prod.mk.inj same
      exact ⟨info, ExtTreeMap.mem_toList_iff_getElem?_eq_some.mp listed, member, unknown⟩
  · rintro ⟨info, listed, member, unknown⟩
    exact .inr ⟨(subject, info), ExtTreeMap.mem_toList_iff_getElem?_eq_some.mpr listed, version,
      member, unknown, rfl⟩

/-- The version that stands for the held ids of a subject still has its id. -/
def Witnessed (subject : String) (info : SubjectInfo) (held : Held) : Prop :=
  match held[info.latestVersion]? with
  | some id => id = info.id
  | none => ∃ version, held.maxKey? = some version ∧ poll.unread subject version = false ∧
      ∃ entry, poll.registry.find subject version = some entry ∧ held[version]? = some entry.id

private theorem mem_checks {subject : String} {info : SubjectInfo} {held : Held} {version : Int}
    (listed : poll.subjects.subjects[subject]? = some info)
    (holds : heldFor previous subject = some held) (missing : held[info.latestVersion]? = none) :
    (subject, version) ∈ checks poll.subjects previous ↔ held.maxKey? = some version := by
  have lacks : info.latestVersion ∉ held := by
    rw [ExtTreeMap.mem_iff_isSome_getElem?, missing]
    simp
  rw [checks, List.mem_filterMap]
  constructor
  · rintro ⟨⟨name, other⟩, entry, check⟩
    have here := ExtTreeMap.mem_toList_iff_getElem?_eq_some.mp entry
    simp only [Option.bind_eq_bind, Option.bind_eq_some_iff] at check
    obtain ⟨ids, heldToo, check⟩ := check
    split at check
    · contradiction
    · obtain ⟨newest, last, same⟩ := Option.map_eq_some_iff.mp check
      obtain ⟨rfl, rfl⟩ := Prod.mk.inj same
      obtain rfl : held = ids := Option.some.inj (holds.symm.trans heldToo)
      exact last
  · intro last
    refine ⟨(subject, info), ExtTreeMap.mem_toList_iff_getElem?_eq_some.mpr listed, ?_⟩
    simp [holds, lacks, last]

private theorem mem_confirmedBy {subject : String} {info : SubjectInfo} {held : Held}
    (listed : poll.subjects.subjects[subject]? = some info)
    (holds : heldFor previous subject = some held) (missing : held[info.latestVersion]? = none) :
    subject ∈ poll.confirmedBy previous ↔ ∃ version, held.maxKey? = some version ∧
      poll.unread subject version = false ∧
      ∃ entry, poll.registry.find subject version = some entry ∧
        held[version]? = some entry.id := by
  rw [confirmedBy, confirmed, List.mem_map]
  constructor
  · rintro ⟨⟨name, found⟩, kept, rfl⟩
    obtain ⟨read, same⟩ := List.mem_filter.mp kept
    obtain ⟨check, answered, entry, finds, sameId⟩ := mem_versionIds.mp read
    refine ⟨found.version, (mem_checks poll previous listed holds missing).mp check, answered,
      entry, finds, ?_⟩
    simpa [holds, sameId] using same
  · rintro ⟨version, last, answered, entry, finds, same⟩
    refine ⟨(subject, { id := entry.id, version }), List.mem_filter.mpr ⟨?_, ?_⟩, rfl⟩
    · exact mem_versionIds.mpr ⟨(mem_checks poll previous listed holds missing).mpr last, answered,
        entry, finds, rfl⟩
    · simpa [holds] using same

private theorem keptFor_eq_some {subject : String} {info : SubjectInfo} {held : Held}
    (listed : poll.subjects.subjects[subject]? = some info) :
    keptFor previous (poll.confirmedBy previous) subject info = some held ↔
      heldFor previous subject = some held ∧ poll.Witnessed subject info held := by
  rw [keptFor, Option.filter_eq_some_iff]
  refine and_congr_right fun holds => ?_
  unfold Witnessed
  cases latest : held[info.latestVersion]? with
  | some id => simp
  | none =>
    dsimp only
    rw [List.contains_iff_mem, mem_confirmedBy poll previous listed holds latest]

/-- The subjects a poll is called with are those of the registry it reads: their
latest versions, the ids of these, and all their versions. -/
def SubjectsRight : Prop :=
  ∀ name info, poll.subjects.subjects[name]? = some info →
    info.versions = poll.registry.versions name ∧
      ∃ entry, poll.registry.find name info.latestVersion = some entry ∧ entry.id = info.id

/-- Every id held for a listed version is the one the registry has for it. -/
def IdsRight (table : SchemaIdTable) (registry : Registry) : Prop :=
  ∀ subject version id, table.get subject version = some id →
    version ∈ registry.versions subject →
      ∃ entry, registry.find subject version = some entry ∧ entry.id = id

/-- Where the witness of a subject still has its held id, so has every other held
version that is listed. -/
def Reusable : Prop :=
  ∀ subject info held, poll.subjects.subjects[subject]? = some info →
    heldFor previous subject = some held → poll.Witnessed subject info held →
    ∀ version ∈ info.versions, version ≠ info.latestVersion → ∀ id, held[version]? = some id →
      ∃ entry, poll.registry.find subject version = some entry ∧ entry.id = id

/-- A fetch is right exactly when what it keeps may be kept. -/
theorem idsRight_iff_reusable (right : poll.SubjectsRight) {table : SchemaIdTable}
    (fetched : poll.fetch previous = .ok table) :
    IdsRight table poll.registry ↔ poll.Reusable previous := by
  obtain rfl := poll.fetch_eq_ok previous fetched
  constructor
  · intro idsRight subject info held listed holds witnessed version member other id old
    have kept := (poll.keptFor_eq_some previous listed).mpr ⟨holds, witnessed⟩
    have known : knownId (keptFor previous (poll.confirmedBy previous) subject info) info version =
        some id := by rw [knownId, if_neg other, kept, Option.bind_some, old]
    have unread : ∀ id, (subject, RegisteredVersion.mk id version) ∉ versionIds poll.registry
        poll.unread (poll.collectedBy previous).wanted := by
      intro read found
      obtain ⟨again, here, -, unknown⟩ := (poll.mem_wanted previous).mp (mem_versionIds.mp found).1
      obtain rfl : info = again := Option.some.inj (listed.symm.trans here)
      rw [known] at unknown
      contradiction
    refine idsRight subject version id ?_ ((right subject info listed).1 ▸ member)
    refine ((foldl_insertFound _ _ subject version).2 unread).trans ?_
    rw [poll.idIn_collectedBy previous listed, if_pos member, known]
  · intro reusable subject version id shown _
    rcases (foldl_insertFound _ _ subject version).1 id shown with found | collected
    · exact (mem_versionIds.mp found).2.2
    · cases listed : poll.subjects.subjects[subject]? with
      | none =>
        rw [poll.idIn_collectedBy_of_unlisted previous listed] at collected
        contradiction
      | some info =>
        rw [poll.idIn_collectedBy previous listed] at collected
        split at collected
        · next member =>
          rw [knownId] at collected
          split at collected
          · next latest =>
            obtain ⟨entry, finds, same⟩ := (right subject info listed).2
            exact ⟨entry, latest ▸ finds, same.trans (Option.some.inj collected)⟩
          · next other =>
            obtain ⟨held, kept, old⟩ := Option.bind_eq_some_iff.mp collected
            obtain ⟨holds, witnessed⟩ := (poll.keptFor_eq_some previous listed).mp kept
            exact reusable subject info held listed holds witnessed version member other id old
        · contradiction

end Fetching
end SchemaIdPoll

/-- The lane holds what was last fetched. -/
theorem load_schemaIdPolls {next : SchemaIdPoll} {earlier : List SchemaIdPoll}
    {table : SchemaIdTable} (fetched : next.fetch (schemaIdPolls earlier).load = .ok table) :
    (schemaIdPolls (next :: earlier)).load = some table := by
  rw [schemaIdPolls, fetched]
  have kept : LosesNothing .empty (schemaIdPolls earlier) (poll SubjectsDelta.ofIds
      (schemaIdPolls earlier) (.untimed (.ok table))).1 _ (.ok table) :=
    poll_losesNothing schemaIds_exact (fun _ _ => trivial) (fun _ _ => trivial)
  exact kept.1

/-- Over a run of polls that see the registry's subjects, the ids of the versions
are right after each poll that came through, exactly when each of them could
reuse what it kept. -/
theorem schema_ids_right_iff (polls : List SchemaIdPoll)
    (right : ∀ poll ∈ polls, poll.SubjectsRight) :
    (∀ next earlier, (next :: earlier) <:+ polls → ∀ table,
      next.fetch (schemaIdPolls earlier).load = .ok table →
        (schemaIdPolls (next :: earlier)).load = some table ∧
          SchemaIdPoll.IdsRight table next.registry) ↔
    ∀ next earlier, (next :: earlier) <:+ polls → ∀ table,
      next.fetch (schemaIdPolls earlier).load = .ok table →
        next.Reusable (schemaIdPolls earlier).load := by
  refine forall₂_congr fun next earlier => forall_congr' fun reached =>
    forall₂_congr fun table fetched => ?_
  rw [← next.idsRight_iff_reusable _ (right next (reached.subset (by simp))) fetched,
    and_iff_right (load_schemaIdPolls fetched)]

section Examples

/-- A poll that sees one subject, with versions 1 and 2 of which the second has
id 2. -/
private def pollOf (registry : Registry) : SchemaIdPoll :=
  { subjects := .mk ((∅ : ExtTreeMap String SubjectInfo).insert "orders-value"
      (.mk 2 .avro 2 [1, 2] .none))
    registry
    unread := fun _ _ => false
    checking := .ok ()
    reading := .ok () }

/-- Two versions, with ids 1 and 2; the second is also registered elsewhere. -/
private def registered : Registry :=
  Registry.empty.edits [.register "orders-value" ⟨.avro, "A"⟩,
    .register "orders-value" ⟨.avro, "B"⟩, .register "payments-value" ⟨.avro, "B"⟩]

/-- The subject was deleted for good and registered again: another first version,
and the second as it was. -/
private def registeredAgain : Registry :=
  registered.edits [.delete ⟨"orders-value", none, true⟩,
    .register "orders-value" ⟨.avro, "C"⟩, .register "orders-value" ⟨.avro, "B"⟩]

/-- A later poll that reads none of the versions anew. -/
private def keeping : SchemaIdPoll := { pollOf registered with unread := fun _ _ => true }

private theorem listed_pollOf {registry : Registry} {name : String} {info : SubjectInfo}
    (listed : (pollOf registry).subjects.subjects[name]? = some info) :
    name = "orders-value" ∧ info = .mk 2 .avro 2 [1, 2] .none := by
  simp only [pollOf, ExtTreeMap.getElem?_insert] at listed
  split at listed
  · next same => exact ⟨(LawfulEqCmp.eq_of_compare same).symm, (Option.some.inj listed).symm⟩
  · simp at listed

private theorem subjectsRight_pollOf {registry : Registry}
    (all : registry.versions "orders-value" = [1, 2])
    (found : (registry.find "orders-value" 2).map Entry.id = some 2) :
    (pollOf registry).SubjectsRight := by
  intro name info listed
  obtain ⟨rfl, rfl⟩ := listed_pollOf listed
  obtain ⟨entry, finds, same⟩ := Option.map_eq_some_iff.mp found
  exact ⟨all.symm, entry, finds, same⟩

private theorem right_registered : (pollOf registered).SubjectsRight :=
  subjectsRight_pollOf (by decide) (by decide)

private theorem right_registeredAgain : (pollOf registeredAgain).SubjectsRight :=
  subjectsRight_pollOf (by decide) (by decide)

/-- What the first poll held may be kept by the second. -/
private theorem keeping_reusable : keeping.Reusable (schemaIdPolls [pollOf registered]).load := by
  intro subject info held listed holds _ version member other id old
  obtain ⟨rfl, rfl⟩ := @listed_pollOf registered _ _ listed
  have first : version = 1 := by
    simp only [List.mem_cons, List.not_mem_nil, or_false] at member
    exact member.resolve_right other
  subst first
  have shown : (schemaIdPolls [pollOf registered]).load.bind (·.get "orders-value" 1) = some 1 := by
    decide
  have same : (schemaIdPolls [pollOf registered]).load.bind (·.get "orders-value" 1) =
      held[(1 : Int)]? := by
    obtain ⟨table, loads, found⟩ := Option.bind_eq_some_iff.mp holds
    rw [loads, Option.bind_some, SchemaIdTable.get, found, Option.bind_some]
  obtain rfl : 1 = id := Option.some.inj ((shown.symm.trans same).trans old)
  have there : (registered.find "orders-value" 1).map Entry.id = some 1 := by decide
  exact Option.map_eq_some_iff.mp there

theorem schema_ids_right_again :
    ∃ table, keeping.fetch (schemaIdPolls [pollOf registered]).load = .ok table ∧
      SchemaIdPoll.IdsRight table registered ∧ table.get "orders-value" 1 = some 1 := by
  let fetched := keeping.fetch (schemaIdPolls [pollOf registered]).load
  have shown : fetched.toOption.bind (·.get "orders-value" 1) = some 1 := by decide
  obtain ⟨table, fetches, held⟩ := Option.bind_eq_some_iff.mp shown
  have fetched := toOption_eq_some.mp fetches
  have right : ∀ poll ∈ [keeping, pollOf registered], poll.SubjectsRight := by
    simpa using ⟨right_registered, right_registered⟩
  refine ⟨table, fetched, ((schema_ids_right_iff [keeping, pollOf registered] right).mpr ?_ _ _
    (List.suffix_refl _) table fetched).2, held⟩
  intro next earlier reached table _
  rcases List.suffix_cons_iff.mp reached with same | reached
  · obtain ⟨rfl, rfl⟩ := List.cons.inj same
    exact keeping_reusable
  · obtain ⟨rfl, rfl⟩ := List.cons.inj (reached.eq_of_length_le (by simp))
    intro subject info held _ holds
    contradiction

/-- Version 2 vouches for a version 1 that was replaced. -/
theorem schema_ids_keep_replaced_version :
    (∀ poll ∈ [pollOf registeredAgain, pollOf registered], poll.SubjectsRight) ∧
    ¬ ∀ next earlier, (next :: earlier) <:+ [pollOf registeredAgain, pollOf registered] → ∀ table,
      next.fetch (schemaIdPolls earlier).load = .ok table →
        (schemaIdPolls (next :: earlier)).load = some table ∧
          SchemaIdPoll.IdsRight table next.registry := by
  refine ⟨by simpa using ⟨right_registeredAgain, right_registered⟩, fun right => ?_⟩
  let fetched := (pollOf registeredAgain).fetch (schemaIdPolls [pollOf registered]).load
  have shown : fetched.toOption.bind (·.get "orders-value" 1) = some 1 := by decide
  have now : (registeredAgain.find "orders-value" 1).map Entry.id = some 3 := by decide
  obtain ⟨table, fetches, held⟩ := Option.bind_eq_some_iff.mp shown
  obtain ⟨-, here⟩ := right _ _ (List.suffix_refl _) table (toOption_eq_some.mp fetches)
  obtain ⟨entry, finds, same⟩ := here "orders-value" 1 1 held (by decide)
  rw [show (pollOf registeredAgain).registry = registeredAgain from rfl] at finds
  rw [finds, Option.map_some, same] at now
  simp at now

end Examples
end Klens.Ingest
