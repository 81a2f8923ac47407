import Klens.App.Requests
import Mathlib.Data.List.Sort
import Mathlib.Data.Set.List

/-! When a quota shows in what Kafka describes. -/
namespace Klens.Kafka
open Klens.Lib

namespace QuotaEntityType

theorem parse_wire (entityType : QuotaEntityType) : parse entityType.wire = some entityType := by
  cases entityType <;> decide

theorem wire_of_parse {text : String} {entityType : QuotaEntityType}
    (parsed : parse text = some entityType) : entityType.wire = text := by
  unfold parse at parsed
  split_ifs at parsed <;> cases parsed <;> subst_vars <;> rfl

theorem wire_injective : Function.Injective wire := fun one two same =>
  Option.some.inj ((parse_wire one).symm.trans ((congrArg parse same).trans (parse_wire two)))

end QuotaEntityType

namespace QuotaEntity

/-- Each type once, in order. -/
def Canonical (entity : List QuotaEntity) : Prop :=
  entity.Pairwise fun one two => one.entityType < two.entityType

def wire (part : QuotaEntity) : String × Option String := (part.entityType.wire, part.name)

theorem wire_injective : Function.Injective wire := by
  intro one two same
  obtain ⟨typed, named⟩ := Prod.mk.inj same
  exact QuotaEntity.ext (QuotaEntityType.wire_injective typed) named

theorem mem_wired {entity : List QuotaEntity} {part : String × Option String} :
    part ∈ wired entity ↔ ∃ known ∈ entity, known.wire = part := by
  rw [wired, List.mem_toFinset, List.mem_map]
  rfl

/-- In order, an entity is known by its parts. -/
theorem Canonical.eq_of_wired {one two : List QuotaEntity} (first : Canonical one)
    (second : Canonical two) (same : wired one = wired two) : one = two := by
  have irrefl : Std.Irrefl fun one two : QuotaEntity => one.entityType < two.entityType :=
    ⟨fun part => lt_irrefl part.entityType⟩
  have among : ∀ {one two : List QuotaEntity}, wired one = wired two → ∀ part ∈ one, part ∈ two := by
    intro one two same part member
    obtain ⟨known, there, alike⟩ := mem_wired.mp (same ▸ mem_wired.mpr ⟨part, member, rfl⟩)
    exact wire_injective alike ▸ there
  exact List.Pairwise.eq_of_mem_iff first second fun part => ⟨among same part, among same.symm part⟩

theorem wired_sorted (entity : List QuotaEntity) : wired (sorted entity) = wired entity := by
  ext part
  simp only [mem_wired, sorted, List.mem_mergeSort]

theorem pairwise_sorted (entity : List QuotaEntity) :
    (sorted entity).Pairwise fun one two => one.entityType ≤ two.entityType := by
  refine (List.pairwise_mergeSort ?_ ?_ entity).imp of_decide_eq_true
  · intro one two three before after
    exact decide_eq_true (le_trans (of_decide_eq_true before) (of_decide_eq_true after))
  · intro one two
    simpa using le_total one.entityType two.entityType

theorem canonical_sorted {entity : List QuotaEntity}
    (distinct : (entity.map QuotaEntity.entityType).Nodup) : Canonical (sorted entity) := by
  have apart : (sorted entity).Pairwise fun one two => one.entityType ≠ two.entityType :=
    List.pairwise_map.mp (((List.mergeSort_perm _ _).map _).nodup_iff.mpr distinct)
  exact ((pairwise_sorted entity).and apart).imp fun ⟨le, ne⟩ => lt_of_le_of_ne le ne

end QuotaEntity

namespace QuotaValues
variable {V : Type}

/-- The values that `held` has under their keys. -/
def ofHeld (held : String → Option V) : QuotaValues V :=
  { producerByteRate := held "producer_byte_rate"
    consumerByteRate := held "consumer_byte_rate"
    requestPercentage := held "request_percentage"
    controllerMutationRate := held "controller_mutation_rate"
    connectionCreationRate := held "connection_creation_rate" }

theorem ofHeld_eq_iff {held : String → Option V} {values : QuotaValues V} :
    ofHeld held = values ↔ ∀ change ∈ values.entries, held change.1 = change.2 := by
  cases values
  simp [ofHeld, entries]

/-- An unknown key changes nothing that is read. -/
theorem set_ofHeld (held : String → Option V) (key : String) (value : V) :
    (ofHeld held).set key value = ofHeld (Function.update held key (some value)) := by
  have other (name : String) (different : ¬ key = name) :
      Function.update held key (some value) name = held name :=
    Function.update_of_ne (Ne.symm different) _ _
  unfold set
  split_ifs with producer consumer request controller connection
  · subst producer
    simp [ofHeld]
  · subst consumer
    simp [ofHeld]
  · subst request
    simp [ofHeld]
  · subst controller
    simp [ofHeld]
  · subst connection
    simp [ofHeld]
  · simp only [ofHeld, other _ producer, other _ consumer, other _ request, other _ controller,
      other _ connection]

theorem foldl_set_ofHeld (holdings : Holdings Unit String V) (values : List (String × V)) :
    values.foldl (fun values entry => values.set entry.1 entry.2) (ofHeld (holdings ())) =
      ofHeld (holdings.alter ((), values.map fun entry => (entry.1, some entry.2)) ()) := by
  unfold Holdings.alter
  induction values generalizing holdings with
  | nil => rfl
  | cons entry values ih =>
    rw [List.foldl_cons, set_ofHeld]
    have put : Function.update (holdings ()) entry.1 (some entry.2) =
        holdings.put () (entry.1, some entry.2) () := by
      simp only [Holdings.put, Function.update_self]
    rw [put, ih]
    rfl

/-- What is described key by key reads back as it is held. -/
theorem foldl_set {held : String → Option V} {values : List (String × V)}
    (keyed : (values.map Prod.fst).Nodup)
    (listed : ∀ key value, (key, value) ∈ values ↔ held key = some value) :
    values.foldl (fun values entry => values.set entry.1 entry.2) default = ofHeld held := by
  have start : (default : QuotaValues V) = ofHeld ((fun _ _ => none : Holdings Unit String V) ()) :=
    rfl
  rw [start, foldl_set_ofHeld (fun _ _ => none)]
  congr 1
  funext key
  cases found : held key with
  | none =>
    refine Holdings.alter_of_unnamed fun change member => ?_
    obtain ⟨⟨name, value⟩, there, rfl⟩ := List.mem_map.mp member
    rintro rfl
    rw [(listed _ _).mp there] at found
    contradiction
  | some value =>
    have member := (listed key value).mpr found
    have changed : (key, some value) ∈ values.map fun entry => (entry.1, some entry.2) :=
      List.mem_map.mpr ⟨(key, value), member, rfl⟩
    refine Holdings.alter_of_named changed fun other there same => ?_
    obtain ⟨⟨name, kept⟩, listing, rfl⟩ := List.mem_map.mp there
    obtain rfl : name = key := same
    rw [(Prod.mk.inj (List.inj_on_of_nodup_map keyed listing member rfl)).2]

end QuotaValues

namespace ClientQuota
variable {V : Type}

theorem mapM_eq_some {listed : List (String × Option String)} {entity : List QuotaEntity} :
    (listed.mapM fun part => (QuotaEntityType.parse part.1).map fun entityType =>
      ({ entityType, name := part.2 } : QuotaEntity)) = some entity ↔
        listed = entity.map QuotaEntity.wire := by
  induction listed generalizing entity with
  | nil => simp [eq_comm]
  | cons part listed ih =>
    obtain ⟨entityType, name⟩ := part
    rw [List.mapM_cons]
    simp only [Option.bind_eq_bind, Option.bind_eq_some_iff, Option.map_eq_some_iff, ih,
      Option.pure_def, Option.some.injEq]
    constructor
    · rintro ⟨_, ⟨known, parsed, rfl⟩, entity, rfl, rfl⟩
      rw [List.map_cons, QuotaEntity.wire, QuotaEntityType.wire_of_parse parsed]
    · intro same
      obtain ⟨known, rest, rfl, here, later⟩ := List.map_eq_cons_iff.mp same.symm
      obtain ⟨rfl, rfl⟩ := Prod.mk.inj here
      exact ⟨known, ⟨known.entityType, QuotaEntityType.parse_wire _, rfl⟩, rest, later.symm, rfl⟩

theorem fromDescribed_values {described : DescribedQuota V} {quota : ClientQuota V}
    (read : fromDescribed described = some quota) : quota.values =
      described.values.foldl (fun values entry => values.set entry.1 entry.2) .default := by
  obtain ⟨_, _, made⟩ := Option.bind_eq_some_iff.mp read
  rw [← Option.some.inj made]

/-- Which described entry is read as a quota of `entity`. -/
theorem fromDescribed_entity {described : DescribedQuota V}
    (typed : (described.entity.map Prod.fst).Nodup) {entity : List QuotaEntity}
    (canonical : QuotaEntity.Canonical entity) :
    (∃ quota, fromDescribed described = some quota ∧ quota.entity = entity) ↔
      described.entity.toFinset = QuotaEntity.wired entity := by
  constructor
  · rintro ⟨quota, read, rfl⟩
    obtain ⟨parts, parsed, same⟩ := Option.bind_eq_some_iff.mp read
    obtain rfl := Option.some.inj same
    rw [mapM_eq_some.mp parsed, QuotaEntity.wired_sorted]
    rfl
  · intro same
    have known : described.entity ∈ Set.range (List.map QuotaEntity.wire) := by
      rw [Set.range_list_map]
      intro part member
      obtain ⟨known, _, wired⟩ := QuotaEntity.mem_wired.mp (same ▸ List.mem_toFinset.mpr member)
      exact ⟨known, wired⟩
    obtain ⟨parts, listed⟩ := known
    rw [← listed, List.map_map] at typed
    have distinct : (parts.map QuotaEntity.entityType).Nodup := by
      refine List.Nodup.of_map QuotaEntityType.wire ?_
      rwa [List.map_map]
    refine ⟨_, Option.bind_eq_some_iff.mpr ⟨parts, mapM_eq_some.mpr listed.symm, rfl⟩, ?_⟩
    refine (QuotaEntity.canonical_sorted distinct).eq_of_wired canonical ?_
    rw [QuotaEntity.wired_sorted, ← same, ← listed]
    rfl

end ClientQuota

namespace Describes
variable {V : Type} {quotas : Quotas V} {entries : List (DescribedQuota V)}
  {entity : List QuotaEntity}

/-- The listing has of an entity what Kafka holds, wherever it is described. -/
theorem values_of_listed (described : Describes quotas entries)
    (canonical : QuotaEntity.Canonical entity)
    (listed : ∃ entry ∈ entries, entry.entity.toFinset = QuotaEntity.wired entity) :
    (QuotaListing.fromDescribe entries).values entity =
      some (.ofHeld (quotas (QuotaEntity.wired entity))) := by
  obtain ⟨entry, member, same⟩ := listed
  obtain ⟨quota, read, rfl⟩ :=
    (ClientQuota.fromDescribed_entity (described.typed entry member) canonical).mpr same
  cases found : (entries.filterMap ClientQuota.fromDescribed).find? fun other =>
      other.entity = quota.entity with
  | none =>
    have missing := List.find?_eq_none.mp found quota (List.mem_filterMap.mpr ⟨entry, member, read⟩)
    exact absurd (decide_eq_true rfl) missing
  | some other =>
    obtain ⟨source, there, also⟩ := List.mem_filterMap.mp (List.mem_of_find?_eq_some found)
    have named := List.find?_some found
    have alike := (ClientQuota.fromDescribed_entity (described.typed source there) canonical).mp
      ⟨other, also, of_decide_eq_true named⟩
    obtain rfl := List.inj_on_of_nodup_map described.distinct there member (alike.trans same.symm)
    obtain rfl := Option.some.inj (read.symm.trans also)
    simp only [QuotaListing.values, QuotaListing.fromDescribe, found, Option.map_some]
    rw [ClientQuota.fromDescribed_values read,
      QuotaValues.foldl_set (described.keyed source there) (described.held source there), alike]

theorem values_of_unlisted (described : Describes quotas entries)
    (canonical : QuotaEntity.Canonical entity)
    (unlisted : ∀ entry ∈ entries, entry.entity.toFinset ≠ QuotaEntity.wired entity) :
    (QuotaListing.fromDescribe entries).values entity = none := by
  refine Option.map_eq_none_iff.mpr (List.find?_eq_none.mpr fun quota member same => ?_)
  obtain ⟨entry, there, read⟩ := List.mem_filterMap.mp member
  exact unlisted entry there ((ClientQuota.fromDescribed_entity (described.typed entry there)
    canonical).mp ⟨quota, read, of_decide_eq_true same⟩)

theorem settled_iff [DecidableEq V] (described : Describes quotas entries) {quota : ClientQuota V}
    (canonical : QuotaEntity.Canonical quota.entity) :
    quota.settled (.fromDescribe entries) = true ↔
      ∀ change ∈ quota.values.entries, quotas (QuotaEntity.wired quota.entity) change.1 = change.2 := by
  unfold ClientQuota.settled
  by_cases listed : ∃ entry ∈ entries, entry.entity.toFinset = QuotaEntity.wired quota.entity
  · rw [described.values_of_listed canonical listed]
    simp only [decide_eq_true_eq, QuotaValues.ofHeld_eq_iff]
  · have unlisted : ∀ entry ∈ entries, entry.entity.toFinset ≠ QuotaEntity.wired quota.entity :=
      fun entry member same => listed ⟨entry, member, same⟩
    have unheld : quotas (QuotaEntity.wired quota.entity) = fun _ => none := by
      funext key
      refine Option.eq_none_iff_forall_ne_some.mpr fun value held => ?_
      exact listed (described.complete _ key value held)
    rw [described.values_of_unlisted canonical unlisted, unheld]
    have empty : (QuotaValues.default : QuotaValues V) = .ofHeld fun _ => none := rfl
    exact decide_eq_true_iff.trans (empty ▸ eq_comm.trans QuotaValues.ofHeld_eq_iff)

end Describes

/-- The alteration of a quota sets each of its values, in whatever state it finds Kafka. -/
theorem ClientQuota.alter_self {V : Type} (quotas : Quotas V) (quota : ClientQuota V) :
    ∀ change ∈ quota.values.entries,
      quotas.alter quota.alteration (QuotaEntity.wired quota.entity) change.1 = change.2 := by
  intro change member
  refine Holdings.alter_of_named member fun other there same => ?_
  have keys : (quota.values.entries.map Prod.fst).Nodup := by
    have listed : quota.values.entries.map Prod.fst = ["producer_byte_rate", "consumer_byte_rate",
      "request_percentage", "controller_mutation_rate", "connection_creation_rate"] := rfl
    rw [listed]
    decide
  exact List.inj_on_of_nodup_map keys there member same

end Klens.Kafka

namespace Klens.App
open Klens.Kafka Klens.Lib

theorem canonical_of_repeated {entity : List QuotaEntity}
    (ordered : entity.Pairwise fun one two => one.entityType ≤ two.entityType)
    (once : repeated entity = none) : QuotaEntity.Canonical entity := by
  induction entity with
  | nil => exact .nil
  | cons part rest ih =>
    obtain ⟨before, ordered⟩ := List.pairwise_cons.mp ordered
    cases rest with
    | nil => exact List.pairwise_singleton _ _
    | cons next rest =>
      unfold repeated at once
      split_ifs at once with same
      have canonical := ih ordered once
      have below : part.entityType < next.entityType := lt_of_le_of_ne (before next (by simp)) same
      refine List.pairwise_cons.mpr ⟨fun later member => ?_, canonical⟩
      obtain rfl | member := List.mem_cons.mp member
      · exact below
      · exact lt_trans below ((List.pairwise_cons.mp canonical).1 later member)

/-- What `into_quota` lets through: the entity asked for, in order, and its values. -/
theorem ClientQuota.of_accepted {V : Type} {request : ClientQuota V} {quota : Kafka.ClientQuota V}
    (accepted : request.intoQuota = .ok quota) : QuotaEntity.Canonical quota.entity ∧
      QuotaEntity.wired quota.entity = QuotaEntity.wired request.entity ∧
      quota.values = request.values := by
  unfold intoQuota at accepted
  split_ifs at accepted
  dsimp only at accepted
  split at accepted
  · contradiction
  · rename_i once
    obtain rfl := Except.ok.inj accepted
    exact ⟨canonical_of_repeated (QuotaEntity.pairwise_sorted _) once, QuotaEntity.wired_sorted _,
      rfl⟩

/-- The wait after a quota was set ends exactly where Kafka holds what was asked
for: each value of the quota and nothing under the keys it left out. -/
theorem quota_settled_iff {V : Type} [DecidableEq V] {request : ClientQuota V}
    {quota : Kafka.ClientQuota V} (accepted : request.intoQuota = .ok quota) {quotas : Quotas V}
    {entries : List (DescribedQuota V)} (described : Describes quotas entries) :
    quota.settled (.fromDescribe entries) = true ↔
      ∀ change ∈ quota.values.entries, quotas (QuotaEntity.wired quota.entity) change.1 = change.2 :=
  described.settled_iff (ClientQuota.of_accepted accepted).1

/-- Once Kafka took a quota that was let through, every listing shows it, in whatever
order Kafka describes, until something alters the same values of the same entity. -/
theorem quota_keeps_showing {V : Type} [DecidableEq V] {request : ClientQuota V}
    {quota : Kafka.ClientQuota V} (accepted : request.intoQuota = .ok quota) (quotas : Quotas V)
    (later : List (Alteration EntityName String V))
    (apart : ∀ alteration ∈ later, alteration.1 = QuotaEntity.wired request.entity →
      ∀ change ∈ alteration.2, change.1 ∉ request.values.entries.map Prod.fst)
    {entries : List (DescribedQuota V)}
    (described : Describes (later.foldl Holdings.alter (quotas.alter quota.alteration)) entries) :
    quota.settled (.fromDescribe entries) = true := by
  obtain ⟨_, named, valued⟩ := ClientQuota.of_accepted accepted
  refine (quota_settled_iff accepted described).mpr fun change member => ?_
  rw [Holdings.foldl_alter]
  · exact quota.alter_self quotas change member
  · intro alteration there same other within named_too
    refine apart alteration there (same.trans named) other within ?_
    rw [named_too, ← valued]
    exact List.mem_map_of_mem member

private def alice : List QuotaEntity := [⟨.user, some "alice"⟩, ⟨.clientId, some "app"⟩]

private def limits : QuotaValues Nat := { QuotaValues.default with producerByteRate := some 5 }

private def answered : DescribedQuota Nat :=
  { entity := [("client-id", some "app"), ("user", some "alice")]
    values := [("producer_byte_rate", 5)] }

private theorem alice_accepted :
    (ClientQuota.mk alice limits).intoQuota = .ok { entity := alice, values := limits } := by
  have ordered : QuotaEntity.sorted alice = alice := List.mergeSort_of_pairwise (by decide)
  simp only [ClientQuota.intoQuota, ordered]
  rfl

private theorem alice_described {quotas : Quotas Nat}
    (held : ∀ entity key, quotas entity key =
      if entity = QuotaEntity.wired alice ∧ key = "producer_byte_rate" then some 5 else none) :
    Describes quotas [answered] := by
  have named : answered.entity.toFinset = QuotaEntity.wired alice := by decide
  refine ⟨?_, ?_, List.nodup_singleton _, ?_, ?_⟩
  · simp [answered]
  · simp [answered]
  · intro entry member key value
    obtain rfl := List.mem_singleton.mp member
    rw [named, held]
    simp [answered, eq_comm]
  · intro entity key value found
    rw [held] at found
    split_ifs at found with there
    exact ⟨answered, List.mem_singleton_self _, named.trans there.1.symm⟩

theorem quota_settled_iff_alice :
    let quotas : Quotas Nat := fun entity key =>
      if entity = QuotaEntity.wired alice ∧ key = "producer_byte_rate" then some 5 else none
    (Kafka.ClientQuota.mk alice limits).settled (.fromDescribe [answered]) = true ↔
      ∀ change ∈ limits.entries, quotas (QuotaEntity.wired alice) change.1 = change.2 :=
  quota_settled_iff alice_accepted (alice_described fun _ _ => rfl)

theorem quota_keeps_showing_alice :
    (Kafka.ClientQuota.mk alice limits).settled (.fromDescribe [answered]) = true := by
  refine quota_keeps_showing alice_accepted (fun _ _ => none)
    [(QuotaEntity.wired [⟨.ip, none⟩], [("connection_creation_rate", none)])] ?_
    (alice_described fun entity key => ?_)
  · intro alteration member same
    obtain rfl := List.mem_singleton.mp member
    exact absurd same (by decide)
  · have apart : QuotaEntity.wired [⟨.ip, none⟩] ≠ QuotaEntity.wired alice := by decide
    by_cases same : entity = QuotaEntity.wired alice
    · obtain rfl := same
      simp only [List.foldl_cons, List.foldl_nil, Holdings.alter_of_ne apart]
      simp only [Kafka.ClientQuota.alteration, QuotaValues.entries, limits, QuotaValues.default,
        Holdings.alter, List.foldl_cons, List.foldl_nil, Holdings.put_self]
      grind
    · by_cases other : entity = QuotaEntity.wired [⟨.ip, none⟩] <;>
        simp_all [Holdings.alter, Holdings.put, Kafka.ClientQuota.alteration, QuotaValues.entries]

end Klens.App
