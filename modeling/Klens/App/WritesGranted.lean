import Klens.App.WritesProofs

/-! A request that is granted, to a cluster that stands still meanwhile: it asks Kafka for
just what is warranted. -/
namespace Klens.App
open Klens.Auth Klens.Kafka Klens.Lib Klens.Schemas Klens.Store Std
open Klens.Scan (Bytes)
variable {V : Type}

namespace LiveCluster

/-- The tables and what Kafka tells of offsets and schemas are the same at any moment. -/
structure Still (cluster : LiveCluster V) : Prop where
  topology : ∀ one two, cluster.topology one = cluster.topology two
  subjects : ∀ one two, cluster.subjects one = cluster.subjects two
  committedOffsets : ∀ one two, cluster.committedOffsets one = cluster.committedOffsets two
  listed : ∀ one two, cluster.listed one = cluster.listed two
  encodePayload : ∀ one two, cluster.encodePayload one = cluster.encodePayload two

variable {cluster : LiveCluster V}

theorem Still.seen (still : cluster.Still) (one two : Nat) :
    cluster.seen one = cluster.seen two := by
  rw [LiveCluster.seen, LiveCluster.seen, still.topology one two, still.committedOffsets one two,
    still.listed one two]

end LiveCluster

section
variable {α : Type} {cluster : LiveCluster V} {call : KafkaCall V} {first last : Nat}
  {topic group subject : String}

theorem asks_refusing {result : Except ApiError α} {value : α} {next : α → Handling V WriteAnswer}
    (done : result = .ok value) (rest : Asking.Asks (next value) call) :
    Asking.Asks (refusing result >>= next) call := by
  apply Asking.asks_lift_bind _ rest
  rw [done]
  rfl

theorem asks_looking {look : Nat → Except KafkaError α} {value : α}
    {next : α → Handling V WriteAnswer} (found : ∀ moment, look moment = .ok value)
    (rest : Asking.Asks (next value) call) : Asking.Asks (looking look >>= next) call := by
  apply Asking.asks_read_bind _ rest
  intro moment
  rw [found]
  rfl

theorem asks_writableTopic (still : cluster.Still) {holds : TopicInfo → Prop}
    (shown : cluster.ShowsTopic first last topic holds) {read : TopicInfo → α}
    {next : α → Handling V WriteAnswer}
    (rest : ∀ info, holds info → Asking.Asks (next (read info)) call) :
    Asking.Asks (cluster.writableTopic topic read >>= next) call := by
  obtain ⟨moment, topology, info, _, _, loaded, listed, external, has⟩ := shown
  refine asks_looking (fun now => ?_) (rest info has)
  have found : (cluster.topology now).bind (fun known => known.topics[topic]?) = some info := by
    rw [still.topology now moment, loaded]
    exact listed
  simp only [Cluster.writableTopic, LiveCluster.seen, found, external]
  rfl

theorem asks_knownGroup (still : cluster.Still) {holds : GroupInfo → Prop}
    (shown : cluster.ShowsGroup first last group holds) {read : GroupInfo → α}
    {next : α → Handling V WriteAnswer}
    (rest : ∀ info, holds info → Asking.Asks (next (read info)) call) :
    Asking.Asks (cluster.knownGroup group read >>= next) call := by
  obtain ⟨moment, topology, info, _, _, loaded, listed, has⟩ := shown
  refine asks_looking (fun now => ?_) (rest info has)
  have found : (cluster.topology now).bind (fun known => known.groups[group]?) = some info := by
    rw [still.topology now moment, loaded]
    exact listed
  simp only [Cluster.knownGroup, LiveCluster.seen, found]
  rfl

theorem asks_stoppedGroup (still : cluster.Still)
    (shown : cluster.ShowsGroup first last group fun info =>
      GroupState.hasMembers info.state = false)
    {next : Unit → Handling V WriteAnswer} (rest : Asking.Asks (next ()) call) :
    Asking.Asks (cluster.stoppedGroup group >>= next) call := by
  obtain ⟨moment, topology, info, _, _, loaded, listed, idle⟩ := shown
  refine asks_looking (fun now => ?_) rest
  have found : (cluster.topology now).bind (fun known => known.groups[group]?) = some info := by
    rw [still.topology now moment, loaded]
    exact listed
  simp only [Cluster.stoppedGroup, Cluster.knownGroup, LiveCluster.seen, found, bind, Except.bind,
    idle]
  rfl

theorem asks_knownSubject (still : cluster.Still) {version : Option Int}
    (shown : cluster.ShowsSubject first last subject version)
    {next : Unit → Handling V WriteAnswer} (rest : Asking.Asks (next ()) call) :
    Asking.Asks (cluster.knownSubject subject version >>= next) call := by
  obtain ⟨moment, _, _, knows⟩ := shown
  refine asks_looking (fun now => ?_) rest
  rw [LiveCluster.knowsSubject, still.subjects now moment]
  exact if_pos knows

theorem asks_knownBroker (still : cluster.Still) {id : Int}
    (shown : ∃ moment, first ≤ moment ∧ moment < last ∧
      ∀ topology, cluster.topology moment = some topology → id ∈ topology.brokers)
    {next : Unit → Handling V WriteAnswer} (rest : Asking.Asks (next ()) call) :
    Asking.Asks (cluster.knownBroker id >>= next) call := by
  obtain ⟨moment, _, _, known⟩ := shown
  refine asks_looking (fun now => ?_) rest
  rw [still.topology now moment]
  split
  · rename_i topology loaded
    exact if_pos (known topology loaded)
  · rfl

theorem asks_plan (still : cluster.Still) {reset : OffsetReset} {moment : Nat}
    {moves : List Reset.OffsetMove}
    (planned : (cluster.seen moment).plan cluster.order reset = .ok moves)
    {next : List Reset.OffsetMove → Handling V WriteAnswer}
    (rest : Asking.Asks (next moves) call) : Asking.Asks (cluster.plan reset >>= next) call := by
  apply Asking.asks_read_bind _ rest
  intro now
  rw [still.seen now moment, planned]
  rfl

theorem asks_sending {answers : Nat → Except KafkaError α} {answer : α → WriteAnswer} :
    Asking.Asks (sending call answers >>= fun value => pure (answer value)) call :=
  Asking.asks_send_map

theorem asks_take {answer : WriteAnswer} :
    Asking.Asks (cluster.take call >>= fun _ => pure answer : Handling V WriteAnswer) call := by
  have sent : (cluster.take call >>= fun _ => pure answer : Handling V WriteAnswer) =
      sending call (fun moment => cluster.takes moment call) >>= fun taken =>
        pure (Function.const Unit answer taken) := rfl
  rw [sent]
  exact asks_sending

theorem asks_intoBytes (still : cluster.Still) {payload : RecordPayload} {bytes : Bytes}
    (spells : cluster.Spells first last payload bytes) {part : String}
    {next : Bytes → Handling V WriteAnswer} (rest : Asking.Asks (next bytes) call) :
    Asking.Asks (payload.intoBytes part cluster >>= next) call := by
  cases payload with
  | text data =>
    obtain rfl := spells
    exact rest
  | base64 data =>
    rw [RecordPayload.intoBytes, spells]
    exact rest
  | schema schemaId data =>
    obtain ⟨moment, _, _, encoded⟩ := spells
    rw [RecordPayload.intoBytes, LiveCluster.encode]
    refine asks_looking (fun now => ?_) rest
    rw [still.encodePayload now moment]
    exact encoded

theorem asks_intoPart (still : cluster.Still) {payload : Option RecordPayload}
    {bytes : Option Bytes} (spells : Option.Rel (cluster.Spells first last) payload bytes)
    {part : String} {next : Option Bytes → Handling V WriteAnswer}
    (rest : Asking.Asks (next bytes) call) :
    Asking.Asks (RecordPayload.intoPart payload part cluster >>= next) call := by
  cases spells with
  | none => exact rest
  | @some payload bytes spells =>
    have mapped : (RecordPayload.intoPart (some payload) part cluster >>= next) =
        payload.intoBytes part cluster >>= fun bytes => next (some bytes) :=
      Asking.bind_assoc ..
    rw [mapped]
    exact asks_intoBytes still spells rest

end

theorem EditConfigs.accepted_of_apart {request : EditConfigs}
    (named : request.set ≠ ∅ ∨ request.reset ≠ ∅)
    (apart : ∀ name ∈ request.reset, name ∉ request.set) :
    request.intoEdit = .ok ⟨request.set, request.reset⟩ := by
  unfold intoEdit
  rw [if_neg]
  · have none : request.reset.toList.find? (fun name => request.set.contains name) = none := by
      refine List.find?_eq_none.mpr fun name member => ?_
      simpa using apart name (ExtTreeSet.mem_toList.mp member)
    rw [none]
  · simp only [Bool.and_eq_true, ExtTreeMap.isEmpty_iff, ExtTreeSet.isEmpty_iff]
    rintro ⟨set, reset⟩
    exact named.elim (· set) (· reset)

theorem repeated_of_canonical {entity : List QuotaEntity}
    (canonical : QuotaEntity.Canonical entity) : repeated entity = none := by
  induction entity with
  | nil => rfl
  | cons part rest ih =>
    obtain ⟨before, canonical⟩ := List.pairwise_cons.mp canonical
    cases rest with
    | nil => rfl
    | cons next rest =>
      rw [repeated, if_neg (before next List.mem_cons_self).ne]
      exact ih canonical

theorem ClientQuota.accepted_of_canonical {request : ClientQuota V} {entity : List QuotaEntity}
    (named : request.entity ≠ []) (canonical : QuotaEntity.Canonical entity)
    (same : entity.Perm request.entity) :
    request.intoQuota = .ok ⟨entity, request.values⟩ := by
  have distinct : (request.entity.map QuotaEntity.entityType).Nodup :=
    (same.map _).nodup_iff.mp (List.pairwise_map.mpr (canonical.imp fun below => below.ne))
  have sorted : QuotaEntity.sorted request.entity = entity := by
    refine (QuotaEntity.canonical_sorted distinct).eq_of_wired canonical ?_
    rw [QuotaEntity.wired_sorted]
    ext part
    simp only [QuotaEntity.mem_wired, same.mem_iff]
  unfold intoQuota
  rw [if_neg (by simpa using named), sorted]
  simp only [repeated_of_canonical canonical]

theorem DeleteParams.accepted_of_offset {params : DeleteParams}
    (offset : ∀ offset, params.before = some offset → 0 ≤ offset) :
    params.offset = .ok params.before := by
  unfold DeleteParams.offset
  cases given : params.before with
  | none => rfl
  | some before => exact if_neg (Int.not_lt.mpr (offset before given))

theorem ResetOffsets.accepted_of_covered {request : ResetOffsets} {group : String}
    (covered : request.topic = none → request.partitions = ∅) :
    request.intoReset group =
      .ok ⟨group, request.topic, request.partitions.toList, request.target⟩ := by
  unfold intoReset
  rw [if_neg]
  simp only [Bool.and_eq_true, Option.isNone_iff_eq_none, Bool.not_eq_true']
  rintro ⟨none, some⟩
  rw [covered none] at some
  contradiction

namespace Session
variable {session : Session V} {name : String} {handle : ClusterHandle V}

theorem asks_granted {privilege : Privilege} {call : KafkaCall V}
    (reached : session.cluster name = .ok handle) (writable : handle.cluster.writable = true)
    (privileged : privilege ∈ handle.access.privileges)
    {rest : LiveCluster V → Handling V WriteAnswer}
    (asks : Asking.Asks (rest handle.cluster) call) :
    Asking.Asks (refusing (session.cluster name) >>= fun handle =>
      refusing (handle.writes privilege) >>= rest) call := by
  refine asks_refusing reached (asks_refusing ?_ asks)
  rw [handle.writes_eq, if_pos writable, if_pos privileged]

variable {first last : Nat}

/-- Each request that is warranted is made. -/
theorem asks_of_warranted {request : WriteRequest V} {call : KafkaCall V}
    (reached : session.cluster name = .ok handle) (writable : handle.cluster.writable = true)
    (privileged : request.privilege ∈ handle.access.privileges) (still : handle.cluster.Still)
    (warranted : handle.cluster.Warranted first last request call) :
    Asking.Asks (session.write name request) call := by
  cases warranted with
  | @createTopic request legal =>
    rw [write, createTopic]
    refine asks_granted reached writable privileged (asks_refusing ?_ asks_take)
    rw [CreateTopic.intoTopic, legal]
  | @deleteTopic topic shown =>
    rw [write, deleteTopic]
    refine asks_granted reached writable privileged ?_
    rw [LiveCluster.deleteTopic, Asking.bind_assoc]
    exact asks_writableTopic still shown fun _ _ => asks_take
  | @alterTopicConfigs topic request named apart shown =>
    rw [write, alterTopicConfigs]
    refine asks_granted reached writable privileged
      (asks_refusing (EditConfigs.accepted_of_apart named apart) ?_)
    rw [LiveCluster.alterTopicConfigs, Asking.bind_assoc]
    exact asks_writableTopic still shown fun _ _ => asks_take
  | @addPartitions topic count shown =>
    rw [write, addPartitions]
    refine asks_granted reached writable privileged ?_
    rw [LiveCluster.addPartitions, Asking.bind_assoc]
    exact asks_writableTopic still shown fun _ _ => asks_take
  | @deleteRecords topic params before offset shown =>
    rw [write, deleteRecords]
    refine asks_granted reached writable privileged
      (asks_refusing (DeleteParams.accepted_of_offset offset) ?_)
    rw [LiveCluster.deleteRecords, Asking.bind_assoc]
    refine asks_writableTopic still shown fun info held => ?_
    obtain ⟨known, marked⟩ := held
    have none : params.partition.find? (fun partition => !info.partitionIds.contains partition) =
        none := by
      refine List.find?_eq_none.mpr fun partition member => ?_
      simpa using known partition member
    have same : before = .ofList ((if params.partition.isEmpty then info.partitionIds
        else params.partition).map fun partition => (partition, params.before)) := by
      refine ExtTreeMap.ext_getElem? fun partition => ?_
      rw [marked, Maps.getElem?_ofList_map]
      simp only [List.isEmpty_iff]
    rw [none, same]
    exact asks_take
  | @produce topic request key value shown keys values =>
    rw [write, produce]
    refine asks_granted reached writable privileged ?_
    rw [ProduceRecord.intoRecord, Asking.bind_assoc]
    refine asks_intoPart still keys ?_
    rw [Asking.bind_assoc]
    refine asks_intoPart still values ?_
    rw [Asking.pure_bind, LiveCluster.produce, Asking.bind_assoc, LiveCluster.writablePartition,
      Asking.bind_assoc]
    refine asks_writableTopic still shown fun info known => ?_
    have none : request.partition.filter (fun partition => !info.partitionIds.contains partition) =
        none := by
      refine Option.filter_eq_none_iff.mpr fun partition chosen => ?_
      simpa using known partition chosen
    rw [none]
    exact asks_sending
  | @resetOffsets group request moment moves live covered stopped after before planned moved =>
    rw [write, resetOffsets]
    refine asks_granted reached writable privileged
      (asks_refusing (ResetOffsets.accepted_of_covered covered) ?_)
    rw [live, if_neg Bool.false_ne_true, LiveCluster.resetOffsets, Asking.bind_assoc]
    refine asks_stoppedGroup still stopped ?_
    rw [Asking.bind_assoc]
    refine asks_plan still planned ?_
    rw [if_neg (by simpa using moved), Asking.bind_assoc]
    simp only [Asking.pure_bind]
    exact asks_take
  | @deleteOffsets group topic moment commits shown after before committed held =>
    rw [write, deleteOffsets]
    refine asks_granted reached writable privileged ?_
    rw [LiveCluster.deleteOffsets, Asking.bind_assoc]
    refine asks_knownGroup still shown fun info free => ?_
    rw [if_neg (by simpa using free), Asking.bind_assoc]
    have known (now : Nat) : (handle.cluster.committedOffsets now group).mapError .ofReset =
        (.ok commits : Except KafkaError Reset.Commits) := by
      rw [still.committedOffsets now moment, committed]
      rfl
    refine asks_looking known ?_
    rw [if_neg (by simpa using held)]
    exact asks_take
  | @deleteGroup group stopped =>
    rw [write, deleteGroup]
    refine asks_granted reached writable privileged ?_
    rw [LiveCluster.deleteGroup, Asking.bind_assoc]
    exact asks_stoppedGroup still stopped asks_take
  | @registerSchema subject request =>
    rw [write, registerSchema]
    exact asks_granted reached writable privileged asks_sending
  | @editSubject subject level shown =>
    rw [write, editSubject]
    refine asks_granted reached writable privileged ?_
    rw [LiveCluster.setCompatibility, Asking.bind_assoc]
    exact asks_knownSubject still shown asks_take
  | @deleteSchema deletion shown =>
    rw [write, deleteSchema]
    refine asks_granted reached writable privileged ?_
    rw [LiveCluster.deleteSchema, Asking.bind_assoc]
    exact asks_knownSubject still shown asks_take
  | @createAcls request named =>
    rw [write, createAcls]
    refine asks_granted reached writable privileged (asks_refusing ?_ asks_take)
    exact if_neg (by simpa using named)
  | @deleteAcl acl =>
    rw [write, deleteAcl]
    exact asks_granted reached writable privileged asks_take
  | @setClientQuota request entity named canonical same =>
    rw [write, setClientQuota]
    exact asks_granted reached writable privileged
      (asks_refusing (ClientQuota.accepted_of_canonical named canonical same) asks_take)
  | @setScramCredential user request iterations chosen least most spelled =>
    rw [write, setScramCredential]
    refine asks_granted reached writable privileged (asks_refusing ?_ asks_take)
    subst chosen
    unfold SetScramCredential.intoCredential
    rw [if_neg (not_not.mpr ⟨least, most⟩), if_neg (by simpa using spelled)]
    rfl
  | @deleteScramCredential user mechanism =>
    rw [write, deleteScramCredential]
    exact asks_granted reached writable privileged asks_take
  | @alterBrokerConfigs scope request named apart known =>
    rw [write, alterBrokerConfigs]
    refine asks_granted reached writable privileged
      (asks_refusing (EditConfigs.accepted_of_apart named apart) ?_)
    cases scope with
    | cluster => exact asks_take
    | broker id =>
      unfold LiveCluster.alterBrokerConfigs
      rw [Asking.bind_assoc]
      exact asks_knownBroker still (known id rfl) asks_take

/-- On a cluster that stands still, a request of someone who may make it asks for the one
change that is warranted, and for none where none is. -/
theorem granted_asks_iff {request : WriteRequest V} {call : KafkaCall V}
    (reached : session.cluster name = .ok handle) (writable : handle.cluster.writable = true)
    (privileged : request.privilege ∈ handle.access.privileges) (still : handle.cluster.Still) :
    (∃ moment, (session.write name request ⟨first, []⟩).2.calls = [(moment, call)]) ↔
      ∃ last, handle.cluster.Warranted first last request call := by
  constructor
  · rintro ⟨moment, calls⟩
    obtain ⟨none, _⟩ | ⟨other, made, _, calls', found, reached', _, _, warranted, _⟩ :=
      makes_write request ⟨first, []⟩ (Nat.le_refl first)
    · rw [none] at calls
      contradiction
    · obtain rfl := Except.ok.inj (reached.symm.trans reached')
      obtain ⟨rfl, rfl⟩ := Prod.mk.inj (List.singleton_injective (calls'.symm.trans calls))
      exact ⟨other, warranted⟩
  · rintro ⟨last, warranted⟩
    exact asks_of_warranted reached writable privileged still warranted ⟨first, []⟩

namespace Sample
open Klens.Store

def cluster (topology : Option Topology) : LiveCluster Nat where
  name := "local"
  writable := true
  topology := fun _ => topology
  subjects := fun _ => none
  committedOffsets := fun _ _ => .ok ⟨[], .nil⟩
  listed := fun _ _ _ => .ok []
  order := asWritten
  encodePayload := fun _ id _ => .error (.unencodable id "no schema")
  takes := fun _ _ => .ok ()
  registers := fun _ _ => .error .timeout
  produces := fun _ _ => .error .timeout
  decodeBase64 := fun _ => none
  debugChar := fun illegal => illegal.toString

theorem still (topology : Option Topology) : (cluster topology).Still :=
  ⟨fun _ _ => rfl, fun _ _ => rfl, fun _ _ => rfl, fun _ _ => rfl, fun _ _ => rfl⟩

def orders : Topology :=
  { Topology.empty with topics := .ofList [("orders", TopicInfo.mk false [])] }

/-- Someone who may change whatever there is. -/
def owner : Session Nat where
  access := .unrestricted
  clusters := fun _ => some (cluster (some orders))

end Sample

theorem granted_asks_iff_orders :
    ∃ moment, (Sample.owner.write "local" (.deleteTopic "orders") ⟨0, []⟩).2.calls =
      [(moment, .deleteTopic "orders")] := by
  have reached : Sample.owner.cluster "local" =
      .ok ⟨⟨"local", .all, []⟩, Sample.cluster (some Sample.orders)⟩ := rfl
  have listed : Sample.orders.topics["orders"]? = some (TopicInfo.mk false []) := by decide
  have privileged : (WriteRequest.deleteTopic "orders" : WriteRequest Nat).privilege ∈
      PrivilegeSet.all := by decide
  refine (granted_asks_iff reached rfl privileged (Sample.still _)).mpr ⟨1, .deleteTopic ?_⟩
  exact ⟨0, Sample.orders, _, Nat.le_refl 0, Nat.zero_lt_one, rfl, listed, rfl, trivial⟩

end Session
end Klens.App
