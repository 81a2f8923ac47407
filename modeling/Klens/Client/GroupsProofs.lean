import Klens.Client.Groups
import Klens.Lib.Except
import Klens.Lib.Maps

/-! What klens shows of a group against what Kafka told of it. -/
namespace Klens.Client
open Klens.App (GroupState.hasMembers)
open Klens.Lib Klens.Store Std

/-- Of several snapshots of a group the last one stands. -/
theorem state_assembled (snapshot : MetadataSnapshot) (groups : List GroupSnapshot) (id : String) :
    (Topology.assemble snapshot groups).groups[id]?.map GroupInfo.state =
      (groups.reverse.find? fun group => group.id = id).map GroupSnapshot.state := by
  have kept : (Topology.assemble snapshot groups).groups =
      (groups.foldl Topology.assembleGroup (∅, ∅)).2 := rfl
  rw [kept]
  clear kept
  induction groups using List.reverseRecOn with
  | nil => simp
  | append_singleton groups group ih =>
    rw [List.foldl_append, List.reverse_append]
    by_cases same : group.id = id
    · simp [Topology.assembleGroup, same]
    · have apart : compare group.id id ≠ .eq := mt LawfulEqCmp.eq_of_compare same
      simpa [Topology.assembleGroup, ExtTreeMap.getElem?_insert, apart, same] using ih

/-- A broker lists the group, with the state it knows if it knows one. -/
def GroupAnswers.Lists (answers : GroupAnswers) (id : String) (state : Option String) : Prop :=
  ∃ brokers listings, answers.listed = .ok brokers ∧ .ok listings ∈ brokers ∧
    ⟨id, state⟩ ∈ listings

def MayHaveMembers (state : Option String) : Prop :=
  ∀ raw, state = some raw → normalized raw ≠ "empty" ∧ normalized raw ≠ "dead"

/-- Kafka answers that there is no such group any more. -/
inductive Gone : Except KrafkaError ConsumerGroupDescription → Prop where
  | dead {description} (dead : description.dead = true) : Gone (.ok description)
  | notFound {message} : Gone (.error (.broker groupIdNotFound message))

/-- What Kafka told of a group: how it described it, that it could not, or that brokers list
it without members and no description says otherwise. -/
inductive Told (answers : GroupAnswers) (id : String) : GroupState → Prop where
  | described {raw description} (listed : answers.Lists id raw) (unsure : MayHaveMembers raw)
      (answer : answers.describe id = .ok description) (lives : ¬ Gone (answers.describe id)) :
      Told answers id (parseState description.state)
  | undescribed {raw error} (listed : answers.Lists id raw) (unsure : MayHaveMembers raw)
      (answer : answers.describe id = .error error) (lives : ¬ Gone (answers.describe id)) :
      Told answers id .unknown
  | empty {raw} (listed : answers.Lists id raw) (idle : ¬ MayHaveMembers raw)
      (only : ∀ other, answers.Lists id other → MayHaveMembers other →
        Gone (answers.describe id)) : Told answers id .empty

theorem hasMembers_parseState (raw : String) : GroupState.hasMembers (parseState raw) = true ↔
    normalized raw ≠ "empty" ∧ normalized raw ≠ "dead" := by
  unfold parseState
  split <;> simp_all [GroupState.hasMembers]

theorem needsDescription_iff (listing : ConsumerGroupListing) :
    (ListedGroup.fromKrafka listing).needsDescription = true ↔ MayHaveMembers listing.state := by
  unfold MayHaveMembers ListedGroup.needsDescription ListedGroup.fromKrafka
  cases listing.state with
  | none => simp
  | some raw => simp [hasMembers_parseState]

theorem described_eq_none (id : String) {answer : Except KrafkaError ConsumerGroupDescription} :
    described id answer = none ↔ Gone answer := by
  constructor
  · intro none
    unfold described at none
    split at none
    · split at none
      · rename_i dead
        exact .dead dead
      · contradiction
    · split at none
      · rename_i code _ same
        subst same
        exact .notFound
      · contradiction
    · contradiction
  · rintro (dead | _)
    · exact if_pos dead
    · rfl

theorem described_eq_some {id : String} {answer : Except KrafkaError ConsumerGroupDescription}
    {snapshot : GroupSnapshot} (some : described id answer = some snapshot) :
    (∃ description, answer = .ok description ∧ snapshot = groupSnapshot description) ∨
      ∃ error, answer = .error error ∧ snapshot = listedSnapshot id .unknown := by
  unfold described at some
  split at some
  · split at some
    · contradiction
    · exact .inl ⟨_, rfl, (Option.some.inj some).symm⟩
  · split at some
    · contradiction
    · exact .inr ⟨_, rfl, (Option.some.inj some).symm⟩
  · exact .inr ⟨_, rfl, (Option.some.inj some).symm⟩

theorem GroupAnswers.id_described {answers : GroupAnswers} {id : String}
    {snapshot : GroupSnapshot} (some : described id (answers.describe id) = some snapshot) :
    snapshot.id = id := by
  obtain ⟨description, answer, rfl⟩ | ⟨_, _, rfl⟩ := described_eq_some some
  · exact answers.named id description answer
  · rfl

structure GroupAnswers.Split (answers : GroupAnswers) (groups : List GroupSnapshot)
    (active : List String) (empty : List GroupSnapshot) : Prop where
  groups : groups = empty ++ snapshotsFromDescriptions
    ((answers.walk active).map fun id => (id, answers.describe id))
  active : ∀ id, id ∈ active ↔ isInternalGroup id = false ∧
    ∃ raw, answers.Lists id raw ∧ MayHaveMembers raw
  empty : ∀ snapshot, snapshot ∈ empty ↔ ∃ id, snapshot = listedSnapshot id .empty ∧
    isInternalGroup id = false ∧ ∃ raw, answers.Lists id raw ∧ ¬ MayHaveMembers raw

theorem GroupAnswers.split_of_answered {answers : GroupAnswers} {groups : List GroupSnapshot}
    (answered : answers.groups = .ok groups) :
    ∃ active empty, answers.Split groups active empty := by
  obtain ⟨brokers, listed, rest⟩ := Except.bind_ok answered
  obtain ⟨known, all, rest⟩ := Except.bind_ok rest
  obtain ⟨listings, flat, same⟩ := Except.bind_ok all
  obtain rfl := Except.ok.inj same
  obtain ⟨_, _, last⟩ := Except.bind_ok rest
  obtain rfl : listings.map Except.ok = brokers := Except.map_mapM_ok flat fun _ _ => Eq.symm
  have lists (id : String) (raw : Option String) :
      answers.Lists id raw ↔ ⟨id, raw⟩ ∈ listings.flatten := by
    simp [Lists, listed]
  have known (needs : Bool) (id : String) :
      (∃ group ∈ listings.flatten.map ListedGroup.fromKrafka, (isInternalGroup group.id = false ∧
        group.needsDescription = needs) ∧ group.id = id) ↔
      isInternalGroup id = false ∧ ∃ raw, answers.Lists id raw ∧
        (needs = true ↔ MayHaveMembers raw) := by
    simp only [lists]
    constructor
    · rintro ⟨_, member, ⟨shown, needs⟩, rfl⟩
      obtain ⟨listing, held, rfl⟩ := List.mem_map.mp member
      refine ⟨shown, listing.state, held, ?_⟩
      rw [← needs, needsDescription_iff]
    · rintro ⟨shown, raw, member, needs⟩
      refine ⟨.fromKrafka ⟨id, raw⟩, List.mem_map_of_mem member, ⟨shown, ?_⟩, rfl⟩
      rw [Bool.eq_iff_iff, needsDescription_iff, needs]
  refine ⟨_, _, (Except.ok.inj last).symm, fun id => ?_, fun snapshot => ?_⟩
  · have told := known true id
    simp only [true_iff] at told
    rw [← told]
    simp only [List.mem_map, List.mem_filter, Bool.not_eq_true', and_assoc]
  · have told (id : String) := known false id
    simp only [Bool.false_eq_true, false_iff] at told
    rw [List.mem_map]
    simp only [List.mem_filter, Bool.not_eq_true']
    constructor
    · rintro ⟨group, held, rfl⟩
      exact ⟨group.id, rfl, (told group.id).mp ⟨group, held.1.1, ⟨held.1.2, held.2⟩, rfl⟩⟩
    · rintro ⟨id, rfl, shown⟩
      obtain ⟨group, held, ⟨external, idle⟩, rfl⟩ := (told id).mpr shown
      exact ⟨group, ⟨⟨held, external⟩, idle⟩, rfl⟩

/-- Described snapshots are of the groups asked for, one each. -/
theorem mem_snapshots {answers : GroupAnswers} {active : List String} {snapshot : GroupSnapshot} :
    snapshot ∈ snapshotsFromDescriptions
        ((answers.walk active).map fun id => (id, answers.describe id)) ↔
      snapshot.id ∈ active ∧ isInternalGroup snapshot.id = false ∧
        described snapshot.id (answers.describe snapshot.id) = some snapshot := by
  simp only [snapshotsFromDescriptions, List.mem_filterMap, List.mem_filter, List.mem_map,
    answers.each, Bool.not_eq_true']
  constructor
  · rintro ⟨_, ⟨⟨id, asked, rfl⟩, shown⟩, some⟩
    obtain rfl := GroupAnswers.id_described some
    exact ⟨asked, shown, some⟩
  · rintro ⟨asked, shown, some⟩
    exact ⟨_, ⟨⟨snapshot.id, asked, rfl⟩, shown⟩, some⟩

section
variable {answers : GroupAnswers} {id : String} {raw : Option String} {state : GroupState}
  (listed : answers.Lists id raw)
include listed

/-- A description that klens takes decides. -/
theorem told_described_iff (unsure : MayHaveMembers raw) {snapshot : GroupSnapshot}
    (some : described id (answers.describe id) = some snapshot) :
    Told answers id state ↔ snapshot.state = state := by
  have lives : ¬ Gone (answers.describe id) := by
    rw [← described_eq_none id, some]
    exact Option.some_ne_none snapshot
  obtain ⟨description, answer, rfl⟩ | ⟨error, answer, rfl⟩ := described_eq_some some
  · constructor
    · rintro (⟨_, _, answer', _⟩ | ⟨_, _, answer', _⟩ | ⟨_, _, only⟩)
      · rw [Except.ok.inj (answer'.symm.trans answer)]
        rfl
      · cases answer'.symm.trans answer
      · exact absurd (only raw listed unsure) lives
    · rintro rfl
      exact .described listed unsure answer lives
  · constructor
    · rintro (⟨_, _, answer', _⟩ | _ | ⟨_, _, only⟩)
      · cases answer'.symm.trans answer
      · rfl
      · exact absurd (only raw listed unsure) lives
    · rintro rfl
      exact .undescribed listed unsure answer lives

end

/-- Where no description counts, a listing without members does. -/
theorem told_undescribed_iff {answers : GroupAnswers} {id : String} {state : GroupState}
    (gone : ∀ raw, answers.Lists id raw → MayHaveMembers raw → Gone (answers.describe id)) :
    Told answers id state ↔
      state = .empty ∧ ∃ raw, answers.Lists id raw ∧ ¬ MayHaveMembers raw := by
  constructor
  · rintro (⟨listed, unsure, _, lives⟩ | ⟨listed, unsure, _, lives⟩ | ⟨listed, idle, _⟩)
    · exact absurd (gone _ listed unsure) lives
    · exact absurd (gone _ listed unsure) lives
    · exact ⟨rfl, _, listed, idle⟩
  · rintro ⟨rfl, raw, listed, idle⟩
    exact .empty listed idle gone

/-- A group is shown, and as what, just as Kafka told of it. -/
theorem shown_iff_told {answers : GroupAnswers} {groups : List GroupSnapshot}
    (answered : answers.groups = .ok groups) (snapshot : MetadataSnapshot) (id : String)
    (state : GroupState) :
    ((Topology.assemble snapshot groups).groups[id]?.map GroupInfo.state = some state) ↔
      isInternalGroup id = false ∧ Told answers id state := by
  obtain ⟨active, empty, split⟩ := answers.split_of_answered answered
  rw [state_assembled, split.groups, List.reverse_append, List.find?_append]
  cases found : (snapshotsFromDescriptions ((answers.walk active).map
      fun id => (id, answers.describe id))).reverse.find? (fun group => group.id = id) with
  | some group =>
    obtain rfl : group.id = id := by simpa using List.find?_some found
    obtain ⟨asked, shown, some⟩ :=
      mem_snapshots.mp (List.mem_reverse.mp (List.mem_of_find?_eq_some found))
    obtain ⟨_, raw, listed, unsure⟩ := (split.active group.id).mp asked
    rw [told_described_iff listed unsure some]
    simp [shown]
  | none =>
    have gone (shown : isInternalGroup id = false) (raw : Option String)
        (listed : answers.Lists id raw) (unsure : MayHaveMembers raw) :
        Gone (answers.describe id) := by
      rw [← described_eq_none id, Option.eq_none_iff_forall_ne_some]
      intro group some
      obtain rfl := GroupAnswers.id_described some
      have asked := (split.active group.id).mpr ⟨shown, raw, listed, unsure⟩
      have member := List.mem_reverse.mpr (mem_snapshots.mpr ⟨asked, shown, some⟩)
      simpa using List.find?_eq_none.mp found group member
    cases idle : empty.reverse.find? fun group => group.id = id with
    | some group =>
      have member := List.mem_reverse.mp (List.mem_of_find?_eq_some idle)
      obtain ⟨other, rfl, shown, raw, listed, idles⟩ := (split.empty group).mp member
      have named := List.find?_some idle
      obtain rfl : other = id := of_decide_eq_true named
      rw [told_undescribed_iff (gone shown)]
      constructor
      · intro same
        exact ⟨shown, (Option.some.inj same).symm, raw, listed, idles⟩
      · rintro ⟨_, rfl, _⟩
        rfl
    | none =>
      constructor
      · intro same
        contradiction
      · rintro ⟨shown, told⟩
        obtain ⟨rfl, raw, listed, idles⟩ := (told_undescribed_iff (gone shown)).mp told
        have member := List.mem_reverse.mpr
          ((split.empty (listedSnapshot id .empty)).mpr ⟨id, rfl, shown, raw, listed, idles⟩)
        simpa [listedSnapshot] using List.find?_eq_none.mp idle _ member

namespace Sample

theorem mem_walked (asked : List String) (id : String) : id ∈ asked.dedup ↔ id ∈ asked :=
  List.mem_dedup

def moving (_ : String) : Except KrafkaError ConsumerGroupDescription :=
  .error (.other "coordinator moving")

theorem moving_named (id : String) (description : ConsumerGroupDescription)
    (answer : moving id = .ok description) : description.groupId = id := by
  contradiction

/-- A group that one broker still lists with members and another without, and that none
describes. -/
def unsure : GroupAnswers where
  listed := .ok [.ok [⟨"billing", some "Stable"⟩], .ok [⟨"billing", some "Empty"⟩]]
  describes := .ok ()
  describe := moving
  walk := List.dedup
  once := List.nodup_dedup
  each := mem_walked
  named := moving_named

end Sample

example :
    ∃ groups, Sample.unsure.groups = .ok groups ∧
      (Topology.assemble ⟨[], []⟩ groups).groups["billing"]?.map GroupInfo.state =
        some .unknown := by
  have answered : Sample.unsure.groups =
      .ok [listedSnapshot "billing" .empty, listedSnapshot "billing" .unknown] := by decide
  refine ⟨_, answered, (shown_iff_told answered ⟨[], []⟩ "billing" .unknown).mpr ⟨by decide, ?_⟩⟩
  have listed : Sample.unsure.Lists "billing" (some "Stable") :=
    ⟨_, _, rfl, List.mem_cons_self, List.mem_cons_self⟩
  refine .undescribed listed ?_ rfl ?_
  · intro raw same
    obtain rfl := Option.some.inj same
    decide
  · intro gone
    cases gone

end Klens.Client
