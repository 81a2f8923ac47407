import Klens.App.Groups
import Klens.Reset.PlanProofs

/-! A reset commits the whole plan or changes nothing. -/
namespace Klens.App
open Klens.Lib Klens.Store Klens.Client Klens.Reset

namespace Cluster

/-- The partitions that a reset asks a plan for: those it names, all of its
topic when it names none, and all that is committed without a topic. -/
def asked (cluster : Cluster) (reset : OffsetReset) :
    Except KafkaError (Option (String × List Int)) :=
  match reset.topic with
  | none => .ok none
  | some topic => do
    let known ← cluster.writableTopic topic TopicInfo.partitionIds
    match reset.partitions.find? fun partition => !known.contains partition with
    | some partition => .error (.unknownPartition cluster.session.cluster topic partition)
    | none => .ok (some (topic, if reset.partitions.isEmpty then known else reset.partitions))

variable {cluster : Cluster} {order : MapOrder} {reset : OffsetReset}

theorem plan_eq : cluster.plan order reset =
    (cluster.asked reset).mapError Stop.failed >>= fun partitions =>
      planReset cluster.session order reset.group partitions reset.target := by
  unfold plan asked
  cases reset.topic with
  | none => rfl
  | some topic =>
    dsimp only
    cases cluster.writableTopic topic TopicInfo.partitionIds with
    | error error => rfl
    | ok known =>
      simp only [Except.mapError, bind, Except.bind]
      cases reset.partitions.find? fun partition => !known.contains partition <;> rfl

theorem resetOffsets_altered {committed : List CommittedOffset}
    (altered : (cluster.resetOffsets order reset).altered = some committed) :
    ∃ moves, cluster.plan order reset = .ok moves ∧ moves ≠ [] ∧
      committed = moves.map OffsetMove.committed := by
  unfold resetOffsets at altered
  split at altered
  · contradiction
  · split at altered
    · contradiction
    · rename_i moves planned
      split at altered
      · contradiction
      · rename_i some_
        refine ⟨moves, planned, by simpa using some_, ?_⟩
        dsimp only at altered
        split at altered <;> exact (Option.some.inj altered).symm

/-- Without a plan nothing is sent to Kafka, and the request fails. -/
theorem resetOffsets_unplanned {error : KafkaError}
    (unplanned : cluster.plan order reset = .error (.failed error)) :
    (cluster.resetOffsets order reset).altered = none ∧
      ∃ error, (cluster.resetOffsets order reset).moves = .error (.failed error) := by
  unfold resetOffsets
  split
  · exact ⟨rfl, _, rfl⟩
  · rw [unplanned]
    exact ⟨rfl, error, rfl⟩

end Cluster

/-- Plans are exact or fail, and a reset that has no plan changes nothing. -/
theorem reset_exact_or_nothing :
    (∀ (session : Session) (order : MapOrder) (group : String)
        (partitions : Option (String × List Int)) (target : ResetTarget),
      planReset session order group partitions target ≠ .error .panicked ∧
      (∀ moves, planReset session order group partitions target = .ok moves →
        ∃ commits lows highs, session.committedOffsets group = .ok commits ∧
          session.Answers (order.walk (wantedPartitions partitions commits)) .earliest lows ∧
          session.Answers (order.walk (wantedPartitions partitions commits)) .latest highs ∧
          Exact session partitions commits lows highs target moves) ∧
      ∀ commits, session.committedOffsets group = .ok commits →
        Unanswered session order partitions target commits →
        ∃ error, planReset session order group partitions target = .error (.failed error)) ∧
    ∀ (cluster : Cluster) (order : MapOrder) (reset : OffsetReset),
      (∀ partitions commits, cluster.asked reset = .ok partitions →
        cluster.session.committedOffsets reset.group = .ok commits →
        Unanswered cluster.session order partitions reset.target commits →
        (cluster.resetOffsets order reset).altered = none ∧
          ∃ error, (cluster.resetOffsets order reset).moves = .error (.failed error)) ∧
      ∀ committed, (cluster.resetOffsets order reset).altered = some committed →
        ∃ partitions moves, cluster.asked reset = .ok partitions ∧
          planReset cluster.session order reset.group partitions reset.target = .ok moves ∧
          committed = moves.map OffsetMove.committed := by
  refine ⟨fun session order group partitions target => ⟨?_, ?_, ?_⟩,
    fun cluster order reset => ⟨?_, ?_⟩⟩
  · intro panicked
    obtain ⟨error, failed⟩ := planReset_error panicked
    contradiction
  · intro moves planned
    obtain ⟨commits, lows, highs, committed, low, high, exact, -⟩ := planReset_exact planned
    exact ⟨commits, lows, highs, committed, low, high, exact⟩
  · exact fun commits committed unanswered => planReset_unanswered committed unanswered
  · intro partitions commits asked committed unanswered
    obtain ⟨error, failed⟩ := planReset_unanswered committed unanswered
    have unplanned : cluster.plan order reset = .error (.failed error) := by
      rw [Cluster.plan_eq, asked]
      exact failed
    exact Cluster.resetOffsets_unplanned unplanned
  · intro committed altered
    obtain ⟨moves, planned, -, same⟩ := Cluster.resetOffsets_altered altered
    rw [Cluster.plan_eq] at planned
    obtain ⟨partitions, asked, rest⟩ := Except.bind_ok planned
    exact ⟨partitions, moves, Except.mapError_ok asked, rest, same⟩

/-- One partition of a log from 10 to 50, on which a group is at 30. -/
def oneLog : Session where
  cluster := "test"
  committedOffsets _ := .ok ⟨[⟨"orders", 0, 30⟩], by decide⟩
  listed partitions spec := .ok (partitions.map fun partition =>
    (partition, .ok (if spec = .earliest then ⟨10, by decide⟩ else ⟨50, by decide⟩)))

def asWritten : MapOrder := ⟨id, fun _ => .refl _⟩

/-- A shift past the end of the log, and one of a partition without a commit. -/
theorem reset_exact_or_nothing_orders :
    (∃ commits lows highs, Exact oneLog none commits lows highs (.shift Scan.i64Max)
      [⟨"orders", 0, some 30, 50, 50⟩]) ∧
    ∃ error, planReset oneLog asWritten "billing" (some ("orders", [0, 1])) (.shift 5) =
      .error (.failed error) := by
  have spec := reset_exact_or_nothing.1 oneLog asWritten "billing"
  obtain ⟨commits, lows, highs, -, -, -, exact⟩ :=
    (spec none (.shift Scan.i64Max)).2.1 [⟨"orders", 0, some 30, 50, 50⟩] (by decide)
  refine ⟨⟨commits, lows, highs, exact⟩, ?_⟩
  refine (spec (some ("orders", [0, 1])) (.shift 5)).2.2 _ rfl ?_
  exact .commit rfl (List.mem_cons_of_mem _ List.mem_cons_self) (by simp)

end Klens.App
