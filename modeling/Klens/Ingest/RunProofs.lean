import Klens.Ingest.Run
import Klens.Store.FollowerProofs

/-! The loop of a lane that follows another drives a follower, and waits only on
upstream tables it knows. -/
namespace Klens.Ingest
open Klens.Store

namespace Run
variable {T C : Type} {stale : T → T → Bool} [DecidableEq C]

/-- The table of its last poll, or the one `stale` was evaluated on after it, is
the one last loaded. -/
structure Invariant (stale : T → T → Bool) (run : Run T C) : Prop where
  polling : ∀ fetched, run.control = .polling fetched →
    run.follower.phase = .idle ∧ run.follower.loaded = some (some fetched)
  waiting : ∀ fetched evaluated, run.control = .waiting fetched evaluated →
    run.follower.loaded = some (some (evaluated.getD fetched)) ∧
      ∀ table ∈ evaluated, stale fetched table = false
  stored : run.control ≠ .reading → run.follower.shared.lane.table.isSome

omit [DecidableEq C] in
theorem invariant_start (shared : SharedLane T C) : (start shared).Invariant stale :=
  ⟨nofun, nofun, fun busy => absurd rfl busy⟩

private theorem isSome_of_step {shared next : SharedLane T C} (step : shared.Step next)
    (stored : shared.lane.table.isSome) : next.lane.table.isSome := by
  cases step with
  | store committer table free => rfl
  | bump committer now phase => exact stored
  | notify committer phase => exact stored

omit [DecidableEq C] in
/-- What a load can come to. -/
private theorem load_cases {run : Run T C} (invariant : run.Invariant stale)
    (marked : run.follower.phase = .marked) :
    run.control = .reading ∧ run.load stale = { run with follower := run.follower.load } ∨
    ∃ table, run.follower.shared.lane.table = some table ∧
      (run.control = .reading ∧
          run.load stale = { follower := run.follower.load, control := .polling table } ∨
        ∃ fetched evaluated, run.control = .waiting fetched evaluated ∧
          (run.load stale = { run with follower := run.follower.load }.again ∨
            stale fetched table = false ∧ run.load stale =
              { follower := { run.follower.load with phase := .waiting }
                control := .waiting fetched (some table) })) := by
  cases control : run.control with
  | reading =>
    cases held : run.follower.shared.lane.table with
    | none => exact .inl ⟨rfl, by simp [Run.load, control, Lane.load, held]⟩
    | some table =>
      exact .inr ⟨table, rfl, .inl ⟨rfl, by simp [Run.load, control, Lane.load, held]⟩⟩
  | polling fetched =>
    have := (invariant.polling fetched control).1
    simp [this] at marked
  | waiting fetched evaluated =>
    have stored := invariant.stored (by simp [control])
    obtain ⟨table, held⟩ := Option.isSome_iff_exists.mp stored
    refine .inr ⟨table, held, .inr ⟨fetched, evaluated, rfl, ?_⟩⟩
    by_cases outdated : stale fetched table = true
    · exact .inl (by simp [Run.load, control, Lane.load, held, outdated])
    · rw [Bool.not_eq_true] at outdated
      exact .inr ⟨outdated, by simp [Run.load, control, Lane.load, held, outdated]⟩

omit [DecidableEq C] in
private theorem Invariant.load {run : Run T C} (invariant : run.Invariant stale)
    (marked : run.follower.phase = .marked) : (run.load stale).Invariant stale := by
  obtain ⟨reading, same⟩ | ⟨table, held, ⟨reading, same⟩ | ⟨fetched, evaluated, waiting, same |
    ⟨fresh, same⟩⟩⟩ := load_cases invariant marked
  · rw [same]
    exact ⟨by simp [reading], by simp [reading], fun busy => absurd reading busy⟩
  · rw [same]
    refine ⟨?_, nofun, fun _ => by simp [Follower.load, held]⟩
    rintro _ ⟨⟩
    exact ⟨by simp [Follower.load, Lane.load, held], by simp [Follower.load, Lane.load, held]⟩
  · rw [same]
    exact ⟨nofun, nofun, fun busy => absurd rfl busy⟩
  · rw [same]
    refine ⟨nofun, ?_, fun _ => by simp [Follower.load, held]⟩
    rintro _ _ ⟨⟩
    exact ⟨by simp [Follower.load, Lane.load, held], by simpa using fresh⟩

theorem Invariant.step {run next : Run T C} (invariant : run.Invariant stale)
    (step : Step stale run next) : next.Invariant stale := by
  cases step with
  | lane step =>
    refine ⟨invariant.polling, invariant.waiting, fun busy => ?_⟩
    exact isSome_of_step step (invariant.stored busy)
  | changed waits change =>
    refine ⟨fun fetched polling => ?_, invariant.waiting, invariant.stored⟩
    have := (invariant.polling fetched polling).1
    simp [this] at waits
  | mark awake =>
    refine ⟨fun fetched polling => ?_, invariant.waiting, invariant.stored⟩
    have := (invariant.polling fetched polling).1
    simp [this] at awake
  | load marked => exact invariant.load marked
  | polled fetched polling =>
    obtain ⟨-, loaded⟩ := invariant.polling fetched polling
    refine ⟨nofun, ?_, fun _ => invariant.stored (by simp [polling])⟩
    rintro _ _ ⟨⟩
    exact ⟨loaded, nofun⟩
  | elapsed waiting waits => exact ⟨nofun, nofun, fun busy => absurd rfl busy⟩

theorem Reaches.invariant {first last : Run T C} (reaches : Reaches stale first last)
    (invariant : first.Invariant stale) : last.Invariant stale := by
  induction reaches with
  | refl => exact invariant
  | tail _ step ih => exact ih.step step

/-- Each step of the loop is some steps of its follower. -/
private theorem Step.follower {run next : Run T C} (invariant : run.Invariant stale)
    (step : Step stale run next) : run.follower.Reaches next.follower := by
  cases step with
  | lane step => exact .single (.lane step)
  | changed waits change => exact .single (.changed waits change)
  | mark awake => exact .single (.mark awake)
  | load marked =>
    have loaded : run.follower.Reaches run.follower.load := .single (.load marked)
    obtain ⟨reading, same⟩ | ⟨table, held, ⟨reading, same⟩ | ⟨fetched, evaluated, waiting, same |
      ⟨fresh, same⟩⟩⟩ := load_cases invariant marked
    · exact same ▸ loaded
    · exact same ▸ loaded
    · rw [same]
      exact loaded.tail (.table (by simp [Follower.load, Lane.load, held]))
    · rw [same]
      exact loaded.tail (.commit (by simp [Follower.load, Lane.load, held]))
  | polled fetched polling => exact .single (.commit (invariant.polling fetched polling).1)
  | elapsed waiting waits =>
    have freed : run.follower.Step { run.follower with phase := .idle } := .dropped waits
    exact (Relation.ReflTransGen.single freed).tail (.table rfl)

/-- A run of the loop is a run of its follower. -/
theorem Reaches.follower {first last : Run T C} (reaches : Reaches stale first last)
    (invariant : first.Invariant stale) : first.follower.Reaches last.follower := by
  induction reaches with
  | refl => exact .refl
  | tail earlier step ih => exact ih.trans (step.follower (Reaches.invariant earlier invariant))

/-- The loop waits, nothing is pending and no commit is under way. -/
def Settled (run : Run T C) (fetched : T) (evaluated : Option T) : Prop :=
  run.control = .waiting fetched evaluated ∧ run.follower.phase = .waiting ∧
    ¬ run.follower.Changed ∧ ¬ run.follower.shared.InFlight

end Run

section Settled
variable {T C : Type} [DecidableEq C]

/-- A follower that has no load ahead of it knows what is stored or is going to
be told. A settled loop polled with the latest table, or found it not stale. -/
theorem follower_never_sleeps_on_unseen (stale : T → T → Bool) (shared : SharedLane T C) :
    (∀ follower : Follower T C, (Follower.follow shared).Reaches follower → ¬ follower.Awake →
      follower.Informed) ∧
    ∀ (run : Run T C) (fetched : T) (evaluated : Option T),
      Run.Reaches stale (.start shared) run → run.Settled fetched evaluated →
      ∃ latest, run.follower.shared.lane.load = some latest ∧
        (evaluated = none ∧ fetched = latest ∨
          evaluated = some latest ∧ stale fetched latest = false) := by
  constructor
  · intro follower run asleep
    exact (run.invariant (Follower.invariant_follow shared)).informed asleep
  · rintro run fetched evaluated reaches ⟨control, phase, unchanged, landed⟩
    have invariant := reaches.invariant (Run.invariant_start shared)
    have called : (Follower.follow shared).Reaches (Run.start shared).follower :=
      .single (.table rfl)
    have traced := reaches.follower (Run.invariant_start shared)
    have followed : (Follower.follow shared).Reaches run.follower := called.trans traced
    have informed := (followed.invariant (Follower.invariant_follow shared)).informed
      (by simp [Follower.Awake, phase])
    obtain ⟨loaded, fresh⟩ := invariant.waiting fetched evaluated control
    have latest : some (evaluated.getD fetched) = run.follower.shared.lane.table := by
      by_contra differs
      rcases informed _ loaded differs with pending | flying
      · exact unchanged pending
      · exact landed flying
    refine ⟨evaluated.getD fetched, latest.symm, ?_⟩
    cases evaluated with
    | none => exact .inl ⟨rfl, rfl⟩
    | some table => exact .inr ⟨rfl, fresh table rfl⟩

end Settled

section Examples

private def committed (shared : SharedLane Nat Unit) (table : Nat) : SharedLane Nat Unit :=
  ((shared.store () table).bump () 0).notify ()

/-- The loop polled with table 1 and waits. -/
private def waitingRun (stale : Nat → Nat → Bool) : Run Nat Unit :=
  let marked : Run Nat Unit :=
    { Run.start (committed .new 1) with follower := (Run.start (committed .new 1)).follower.mark }
  (marked.load stale).polled 1

private theorem reaches_waitingRun (stale : Nat → Nat → Bool) :
    Run.Reaches stale (.start (committed .new 1)) (waitingRun stale) :=
  .tail (.tail (.single (.mark (.inl rfl))) (.load rfl)) (.polled 1 rfl)

/-- Table 2 was committed while it waited. -/
private def toldRun (stale : Nat → Nat → Bool) : Run Nat Unit :=
  { waitingRun stale with
    follower := { (waitingRun stale).follower with shared := committed (committed .new 1) 2 } }

private theorem reaches_toldRun (stale : Nat → Nat → Bool) :
    Run.Reaches stale (waitingRun stale) (toldRun stale) :=
  .tail (.tail (.single (.lane (.store () 2 rfl))) (.lane (.bump () 0 rfl))) (.lane (.notify () rfl))

/-- It took the change, loaded table 2 and found it not stale. -/
private def settledRun : Run Nat Unit :=
  { follower :=
      { shared := committed (committed .new 1) 2, phase := .waiting, seen := 2,
        loaded := some (some 2) }
    control := .waiting 1 (some 2) }

private theorem reaches_settledRun :
    Run.Reaches (fun _ _ => false) (.start (committed .new 1)) settledRun :=
  ((reaches_waitingRun _).trans (reaches_toldRun _)).trans
    (.tail (.tail (.single (.changed (.inl rfl) (by decide))) (.mark (.inr rfl))) (.load rfl))

theorem follower_never_sleeps_on_unseen_two : ∃ latest,
    settledRun.follower.shared.lane.load = some latest ∧
      (some 2 = none ∧ 1 = latest ∨ some 2 = some latest ∧ false = false) := by
  refine (follower_never_sleeps_on_unseen (fun _ _ => false) _).2 settledRun 1 (some 2)
    reaches_settledRun ⟨rfl, rfl, by decide, ?_⟩
  rintro ⟨committer, flying⟩
  exact flying rfl

/-- A change is taken before the table is loaded; and a loop that just polled
evaluates nothing before it waits. -/
theorem follower_takes_change_before_load :
    (∃ follower : Follower Nat Unit, (Follower.follow (committed .new 1)).Reaches follower ∧
      ¬ follower.Informed) ∧
    ∃ run : Run Nat Unit, Run.Reaches (fun _ _ => false) (.start (committed .new 1)) run ∧
      run.Settled 1 none := by
  let never : Nat → Nat → Bool := fun _ _ => false
  have told := (reaches_waitingRun never).trans (reaches_toldRun never)
  constructor
  · have called : (Follower.follow (committed .new 1)).Reaches
        (Run.start (committed .new 1)).follower := .single (.table rfl)
    have traced := Run.Reaches.follower told (Run.invariant_start _)
    refine ⟨(toldRun never).follower.take, (called.trans traced).tail
      (.changed (.inl rfl) (by decide)), fun informed => ?_⟩
    rcases informed (some 1) rfl (by decide) with pending | ⟨committer, flying⟩
    · exact pending rfl
    · exact flying rfl
  · refine ⟨waitingRun never, reaches_waitingRun never, rfl, rfl, by decide, ?_⟩
    rintro ⟨committer, flying⟩
    exact flying rfl

end Examples
end Klens.Ingest
