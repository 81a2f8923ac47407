import Klens.Ingest.Runner
import Klens.Store.BusProofs
import Klens.Store.TablesProofs

/-! A poll that skips its commit had nothing to commit. -/
namespace Klens.Ingest
open Klens.Store

variable {T D : Type} {diff : Option T → T → Option D}

/-- Nothing to publish means nothing changed, counting from the empty table,
for tables a source may fetch. -/
def Exact (diff : Option T → T → Option D) (Fetched : T → Prop) (empty : T) : Prop :=
  ∀ previous next, (∀ table ∈ previous, Fetched table) → Fetched next →
    (diff previous next = none ↔ previous.getD empty = next)

/-- Every table the fetches bring is one the source may fetch. -/
def Fetches (Fetched : T → Prop) (fetches : List (Fetch T)) : Prop :=
  ∀ fetch ∈ fetches, ∀ table, fetch.result = .ok table → Fetched table

/-- What a poll does to a lane, and what it publishes, whether or not it commits. -/
def LosesNothing [DecidableEq T] (empty : T) (before after : Lane T) (published : Option D) :
    Except String T → Prop
  | .ok next => after.table = some next ∧
      after.version = (if before.table = some next then before.version else before.version + 1) ∧
      (published.isSome = true ↔ before.table.getD empty ≠ next)
  | .error _ => after.table = before.table ∧ after.version = before.version ∧ published = none

/-- In every run of polls, each poll loses nothing. -/
def SkipsNothing [DecidableEq T] (diff : Option T → T → Option D) (Fetched : T → Prop)
    (empty : T) : Prop :=
  ∀ (fetches : List (Fetch T)) (fetch : Fetch T), Fetches Fetched (fetches ++ [fetch]) →
    LosesNothing empty (polls diff .new fetches) (poll diff (polls diff .new fetches) fetch).1
      (poll diff (polls diff .new fetches) fetch).2 fetch.result

private theorem poll_table {Fetched : T → Prop} {lane : Lane T} {fetch : Fetch T}
    (held : ∀ table ∈ lane.table, Fetched table)
    (brings : ∀ table, fetch.result = .ok table → Fetched table) :
    ∀ table ∈ (poll diff lane fetch).1.table, Fetched table := by
  intro table after
  rcases load_poll diff after with fetched | before
  · exact brings table fetched
  · exact held table before

/-- A lane only ever holds what was fetched. -/
theorem polls_table {Fetched : T → Prop} {fetches : List (Fetch T)} {lane : Lane T}
    (held : ∀ table ∈ lane.table, Fetched table) (brings : Fetches Fetched fetches) :
    ∀ table ∈ (polls diff lane fetches).table, Fetched table := by
  induction fetches generalizing lane with
  | nil => exact held
  | cons fetch fetches ih =>
    refine ih (poll_table held (brings fetch (by simp))) ?_
    exact fun other member => brings other (by simp [member])

/-- One poll, from any table the source may have fetched. -/
theorem poll_losesNothing [DecidableEq T] {Fetched : T → Prop} {empty : T}
    (faithful : Exact diff Fetched empty) {lane : Lane T} {fetch : Fetch T}
    (held : ∀ table ∈ lane.table, Fetched table)
    (brings : ∀ table, fetch.result = .ok table → Fetched table) :
    LosesNothing empty lane (poll diff lane fetch).1 (poll diff lane fetch).2 fetch.result := by
  unfold poll
  cases result : fetch.result with
  | error => exact ⟨rfl, rfl, rfl⟩
  | ok next =>
    have same := faithful lane.table next held (brings next result)
    cases delta : diff lane.table next with
    | some change =>
      have apart : lane.table.getD empty ≠ next := by
        intro equal
        rw [same.mpr equal] at delta
        contradiction
      have moved : lane.table ≠ some next := by
        rintro equal
        exact apart (by simp [equal])
      simp [LosesNothing, Lane.load, delta, Lane.commit, Lane.recordPoll, moved, apart]
    | none =>
      have equal := same.mp delta
      cases table : lane.table with
      | none =>
        rw [table] at delta equal
        simp [LosesNothing, Lane.load, table, delta, Lane.commit, Lane.recordPoll, equal]
      | some current =>
        rw [table] at delta equal
        obtain rfl : current = next := equal
        simp [LosesNothing, Lane.load, table, delta, Lane.recordPoll]

theorem Exact.skipsNothing [DecidableEq T] {Fetched : T → Prop} {empty : T}
    (faithful : Exact diff Fetched empty) : SkipsNothing diff Fetched empty := by
  intro fetches fetch brings
  refine poll_losesNothing faithful ?_ (brings fetch (by simp))
  refine polls_table (by simp [Lane.new]) ?_
  exact fun other member => brings other (by simp [member])

section Lanes

theorem topology_exact : Exact TopologyDelta.between Topology.Assembled .empty := by
  intro previous next held assembled
  have before : (previous.getD .empty).Assembled := by
    cases previous with
    | none => exact Topology.assembled_empty
    | some table => exact held table rfl
  rw [TopologyDelta.between_eq_none]
  generalize previous.getD .empty = current at before
  constructor
  · rintro ⟨brokers, controller, topics, groups⟩
    -- the delta never compares the index, which follows from the groups
    have index := before.topicGroups_eq assembled groups
    cases current
    cases next
    simp_all
  · rintro rfl
    exact ⟨rfl, rfl, rfl, rfl⟩

theorem configs_exact : Exact ConfigsDelta.between (fun _ => True) ⟨∅⟩ := by
  intro previous next _ _
  rw [ConfigsDelta.between_eq_none]
  cases previous <;> simp [ConfigTable.ext_iff]

theorem logDirs_exact : Exact LogDirsDelta.between (fun _ => True) .empty :=
  fun _ _ _ _ => LogDirsDelta.between_eq_none

theorem subjects_exact : Exact SubjectsDelta.between (fun _ => True) .empty := by
  intro previous next _ _
  rw [SubjectsDelta.between, SubjectsDelta.of_eq_none]
  cases previous <;> simp [SubjectTable.ext_iff, SubjectTable.empty]

theorem schemaIds_exact : Exact SubjectsDelta.ofIds (fun _ => True) .empty := by
  intro previous next _ _
  rw [SubjectsDelta.ofIds, SubjectsDelta.of_eq_none]
  cases previous <;> simp [SchemaIdTable.ext_iff, SchemaIdTable.empty]

/-- Whatever the sources fetch, a lane holds the last table fetched, its version
counts the changes, and a delta goes out exactly when there was one. -/
theorem lanes_skip_nothing :
    SkipsNothing TopologyDelta.between Topology.Assembled .empty ∧
    SkipsNothing ConfigsDelta.between (fun _ => True) ⟨∅⟩ ∧
    SkipsNothing LogDirsDelta.between (fun _ => True) .empty ∧
    SkipsNothing SubjectsDelta.between (fun _ => True) .empty ∧
    SkipsNothing SubjectsDelta.ofIds (fun _ => True) .empty :=
  ⟨topology_exact.skipsNothing, configs_exact.skipsNothing, logDirs_exact.skipsNothing,
    subjects_exact.skipsNothing, schemaIds_exact.skipsNothing⟩

end Lanes
end Klens.Ingest
