import Klens.Client.Offsets

/-! What is left of Kafka's answers once they are read. -/
namespace Klens.Client
open Klens.Store Std

/-- The topic's name is one Kafka allows. -/
def Legal (key : TopicPartition) : Prop := (validateTopicName key.1).isOk = true

instance : DecidablePred Legal := fun key =>
  inferInstanceAs (Decidable ((validateTopicName key.1).isOk = true))

/-- A read of some partitions came back with these answers: for each partition
that was asked for, or for whatever the group committed on. -/
inductive Reads (list : Option (List TopicPartition) → Except String Answers) :
    Option (List TopicPartition) → Answers → Prop where
  | nothing {partitions : List TopicPartition} (unasked : askedFor partitions = []) :
      Reads list (some partitions) ∅
  | asked {partitions : List TopicPartition} {answers : Answers} (asks : askedFor partitions ≠ [])
      (listed : list (some (askedFor partitions)) = .ok answers)
      (each : ∀ key, key ∈ answers ↔ key ∈ askedFor partitions) :
      Reads list (some partitions) answers
  | all {answers : Answers} (listed : list none = .ok answers) : Reads list none answers

variable {list : Option (List TopicPartition) → Except String Answers} {answers : Answers}

theorem Reads.committedOffsets_eq {partitions : Option (List TopicPartition)}
    (reads : Reads list partitions answers) :
    committedOffsets list partitions = .ok (committedFromKrafka answers) := by
  cases reads with
  | nothing unasked => simp [committedOffsets, unasked, committedFromKrafka]
  | asked asks listed each => simp [committedOffsets, asks, listed, Except.map]
  | all listed => simp [committedOffsets, listed, Except.map]

/-- Every legal partition of a list is answered for, and no other. -/
theorem Reads.mem_answers {partitions : List TopicPartition}
    (reads : Reads list (some partitions) answers) {key : TopicPartition} :
    key ∈ answers ↔ key ∈ partitions ∧ Legal key := by
  have asked : key ∈ askedFor partitions ↔ key ∈ partitions ∧ Legal key := List.mem_filter
  cases reads with
  | nothing unasked =>
    rw [← asked, unasked]
    simp
  | asked asks listed each => rw [each, asked]

private theorem ofKrafka_eq_some {key : TopicPartition} {offset : Option Int}
    {committed : CommittedOffset} : ofKrafka key offset = some committed ↔
      offset = some committed.offset ∧ key = (committed.topic, committed.partition) ∧
        Legal key := by
  cases offset with
  | none => simp [ofKrafka]
  | some offset =>
    cases valid : validateTopicName key.1 with
    | error reason => simp [ofKrafka, Legal, valid, Except.toOption, Except.isOk, Except.toBool]
    | ok =>
      obtain ⟨topic, partition⟩ := key
      obtain ⟨name, number, position⟩ := committed
      simp [ofKrafka, Legal, valid, Except.toOption, Except.isOk, Except.toBool]
      tauto

/-- What is kept of an entry of the answers. -/
private def keptOf (entry : TopicPartition × Except String (Option Int)) : Option CommittedOffset :=
  match entry.2 with
  | .ok offset => ofKrafka entry.1 offset
  | .error _ => none

private theorem keptOf_eq_some {entry : TopicPartition × Except String (Option Int)}
    {committed : CommittedOffset} : keptOf entry = some committed ↔
      entry.2 = .ok (some committed.offset) ∧ entry.1 = (committed.topic, committed.partition) ∧
        Legal entry.1 := by
  obtain ⟨key, answer⟩ := entry
  cases answer with
  | error reason => simp [keptOf]
  | ok offset => simp [keptOf, ofKrafka_eq_some]

theorem mem_committedFromKrafka {committed : CommittedOffset} :
    committed ∈ committedFromKrafka answers ↔
      answers[(committed.topic, committed.partition)]? = some (.ok (some committed.offset)) ∧
        Legal (committed.topic, committed.partition) := by
  have kept : committed ∈ committedFromKrafka answers ↔
      ∃ entry ∈ answers.toList, keptOf entry = some committed := List.mem_filterMap
  rw [kept]
  constructor
  · rintro ⟨⟨key, answer⟩, listed, same⟩
    obtain ⟨rfl, rfl, legal⟩ := keptOf_eq_some.mp same
    exact ⟨ExtTreeMap.mem_toList_iff_getElem?_eq_some.mp listed, legal⟩
  · rintro ⟨held, legal⟩
    refine ⟨(_, _), ExtTreeMap.mem_toList_iff_getElem?_eq_some.mpr held, ?_⟩
    exact keptOf_eq_some.mpr ⟨rfl, rfl, legal⟩

theorem committedFromKrafka_nodup (answers : Answers) : ((committedFromKrafka answers).map
    fun offset => (offset.topic, offset.partition)).Nodup := by
  have keys : (answers.toList.map Prod.fst).Nodup := by
    rw [ExtTreeMap.map_fst_toList_eq_keys]
    exact ExtTreeMap.nodup_keys
  have sublist : ((answers.toList.filterMap keptOf).map
      fun offset => (offset.topic, offset.partition)).Sublist (answers.toList.map Prod.fst) := by
    induction answers.toList with
    | nil => exact .slnil
    | cons entry entries ih =>
      cases kept : keptOf entry with
      | none =>
        rw [List.filterMap_cons_none kept]
        exact ih.cons _
      | some committed =>
        rw [List.filterMap_cons_some kept, List.map_cons, List.map_cons,
          (keptOf_eq_some.mp kept).2.1]
        exact ih.cons_cons _
  exact keys.sublist sublist

end Klens.Client
