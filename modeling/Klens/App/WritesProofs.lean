import Klens.App.ConfigsProofs
import Klens.App.GroupsProofs
import Klens.App.QuotasProofs
import Klens.App.Writes
import Klens.Lib.Maps

/-! What a request to change a cluster asks Kafka for, whatever the tables do meanwhile. -/
namespace Klens.App
open Klens.Auth Klens.Kafka Klens.Lib Klens.Schemas Klens.Store Std
open Klens.Scan (Bytes RecordHeader)
variable {V : Type}

namespace LiveCluster
variable (cluster : LiveCluster V)

/-- Since `first` and before `last` the cluster listed a topic that is not internal. -/
def ShowsTopic (first last : Nat) (topic : String) (holds : TopicInfo → Prop) : Prop :=
  ∃ moment topology info, first ≤ moment ∧ moment < last ∧
    cluster.topology moment = some topology ∧ topology.topics[topic]? = some info ∧
    info.internal = false ∧ holds info

def ShowsGroup (first last : Nat) (group : String) (holds : GroupInfo → Prop) : Prop :=
  ∃ moment topology info, first ≤ moment ∧ moment < last ∧
    cluster.topology moment = some topology ∧ topology.groups[group]? = some info ∧ holds info

def ShowsSubject (first last : Nat) (subject : String) (version : Option Int) : Prop :=
  ∃ moment, first ≤ moment ∧ moment < last ∧ cluster.knowsSubject subject version moment = true

/-- The bytes of a part of a record. -/
def Spells (first last : Nat) : RecordPayload → Bytes → Prop
  | .text data, bytes => bytes = data.toUTF8.toList
  | .base64 data, bytes =>
    cluster.decodeBase64 (data.toUTF8.toList.filter (!isAsciiWhitespace ·)) = some bytes
  | .schema schemaId data, bytes => ∃ moment, first ≤ moment ∧ moment < last ∧
    cluster.encodePayload moment schemaId data = .ok bytes

/-- The call is the one that the request is for, and what the cluster showed since the
request came in allows it. -/
inductive Warranted (first last : Nat) : WriteRequest V → KafkaCall V → Prop where
  | createTopic {request : CreateTopic}
      (legal : Client.validateTopicName request.name = .ok ()) :
      Warranted first last (.createTopic request) (.createTopic
        ⟨request.name, request.partitions, request.replicationFactor, request.configs⟩)
  | deleteTopic {topic : String} (shown : cluster.ShowsTopic first last topic fun _ => True) :
      Warranted first last (.deleteTopic topic) (.deleteTopic topic)
  | alterTopicConfigs {topic : String} {request : EditConfigs}
      (named : request.set ≠ ∅ ∨ request.reset ≠ ∅)
      (apart : ∀ name ∈ request.reset, name ∉ request.set)
      (shown : cluster.ShowsTopic first last topic fun _ => True) :
      Warranted first last (.alterTopicConfigs topic request)
        (.alterTopicConfigs topic ⟨request.set, request.reset⟩)
  | addPartitions {topic : String} {count : NonZeroU16}
      (shown : cluster.ShowsTopic first last topic fun _ => True) :
      Warranted first last (.addPartitions topic count) (.addPartitions topic count)
  | deleteRecords {topic : String} {params : DeleteParams} {before : ExtTreeMap Int (Option Int)}
      (offset : ∀ offset, params.before = some offset → 0 ≤ offset)
      (shown : cluster.ShowsTopic first last topic fun info =>
        (∀ partition ∈ params.partition, partition ∈ info.partitionIds) ∧
        ∀ partition, before[partition]? =
          if partition ∈ (if params.partition = [] then info.partitionIds else params.partition)
          then some params.before else none) :
      Warranted first last (.deleteRecords topic params) (.deleteRecords ⟨topic, before⟩)
  | produce {topic : String} {request : ProduceRecord} {key value : Option Bytes}
      (shown : cluster.ShowsTopic first last topic fun info =>
        ∀ partition, request.partition = some partition → partition ∈ info.partitionIds)
      (keys : Option.Rel (cluster.Spells first last) request.key key)
      (values : Option.Rel (cluster.Spells first last) request.value value) :
      Warranted first last (.produce topic request)
        (.produce ⟨topic, request.partition, key, value, request.headers⟩)
  | resetOffsets {group : String} {request : ResetOffsets} {moment : Nat}
      {moves : List Reset.OffsetMove} (live : request.dryRun = false)
      (covered : request.topic = none → request.partitions = ∅)
      (stopped : cluster.ShowsGroup first last group fun info =>
        GroupState.hasMembers info.state = false)
      (after : first ≤ moment) (before : moment < last)
      (planned : (cluster.seen moment).plan cluster.order
        ⟨group, request.topic, request.partitions.toList, request.target⟩ = .ok moves)
      (moved : moves ≠ []) :
      Warranted first last (.resetOffsets group request)
        (.alterGroupOffsets group (moves.map Reset.OffsetMove.committed))
  | deleteOffsets {group topic : String} {moment : Nat} {commits : Reset.Commits}
      (shown : cluster.ShowsGroup first last group fun info =>
        topic ∉ info.assignedPartitionRefs.map Prod.fst)
      (after : first ≤ moment) (before : moment < last)
      (committed : cluster.committedOffsets moment group = .ok commits)
      (held : topic ∈ commits.offsets.map CommittedOffset.topic) :
      Warranted first last (.deleteOffsets group topic) (.deleteGroupOffsets group topic
        ((commits.offsets.filter fun offset => offset.topic = topic).map
          CommittedOffset.partition))
  | deleteGroup {group : String}
      (stopped : cluster.ShowsGroup first last group fun info =>
        GroupState.hasMembers info.state = false) :
      Warranted first last (.deleteGroup group) (.deleteGroup group)
  | registerSchema {subject : String} {request : RegisterSchema} :
      Warranted first last (.registerSchema subject request) (.registerSchema
        ⟨subject, request.schemaType, request.schema, request.references⟩)
  | editSubject {subject : String} {level : SchemaCompatibility}
      (shown : cluster.ShowsSubject first last subject none) :
      Warranted first last (.editSubject subject level) (.setCompatibility subject level)
  | deleteSchema {deletion : SchemaDeletion}
      (shown : cluster.ShowsSubject first last deletion.subject deletion.version) :
      Warranted first last (.deleteSchema deletion) (.deleteSchema deletion)
  | createAcls {request : CreateAcls} (named : request.bindings ≠ []) :
      Warranted first last (.createAcls request) (.createAcls request.bindings)
  | deleteAcl {acl : Acl} : Warranted first last (.deleteAcl acl) (.deleteAcl acl)
  | setClientQuota {request : ClientQuota V} {entity : List QuotaEntity}
      (named : request.entity ≠ []) (canonical : QuotaEntity.Canonical entity)
      (same : entity.Perm request.entity) :
      Warranted first last (.setClientQuota request) (.alterClientQuota ⟨entity, request.values⟩)
  | setScramCredential {user : String} {request : SetScramCredential} {iterations : Int}
      (chosen : iterations = request.iterations.getD 4096) (least : 4096 ≤ iterations)
      (most : iterations ≤ 16384) (spelled : request.password ≠ "") :
      Warranted first last (.setScramCredential user request)
        (.setScramCredential ⟨user, request.mechanism, iterations, request.password⟩)
  | deleteScramCredential {user : String} {mechanism : ScramMechanism} :
      Warranted first last (.deleteScramCredential user mechanism)
        (.deleteScramCredential user mechanism)
  | alterBrokerConfigs {scope : BrokerScope} {request : EditConfigs}
      (named : request.set ≠ ∅ ∨ request.reset ≠ ∅)
      (apart : ∀ name ∈ request.reset, name ∉ request.set)
      (known : ∀ id, scope = .broker id → ∃ moment, first ≤ moment ∧ moment < last ∧
        ∀ topology, cluster.topology moment = some topology → id ∈ topology.brokers) :
      Warranted first last (.alterBrokerConfigs scope request)
        (.alterBrokerConfigs scope ⟨request.set, request.reset⟩)

/-- How a request is answered that asks Kafka for nothing: with the moves of a reset that
is only planned, or because there is nothing to move or no offset to delete. -/
inductive Idle (first last : Nat) : WriteRequest V → WriteAnswer → Prop where
  | planned {group : String} {request : ResetOffsets} {moment : Nat}
      {moves : List Reset.OffsetMove} (dry : request.dryRun = true)
      (covered : request.topic = none → request.partitions = ∅)
      (known : cluster.ShowsGroup first last group fun _ => True)
      (after : first ≤ moment) (before : moment < last)
      (planned : (cluster.seen moment).plan cluster.order
        ⟨group, request.topic, request.partitions.toList, request.target⟩ = .ok moves) :
      Idle first last (.resetOffsets group request) (.moves moves)
  | unmoved {group : String} {request : ResetOffsets} {moment : Nat}
      (live : request.dryRun = false)
      (covered : request.topic = none → request.partitions = ∅)
      (stopped : cluster.ShowsGroup first last group fun info =>
        GroupState.hasMembers info.state = false)
      (after : first ≤ moment) (before : moment < last)
      (planned : (cluster.seen moment).plan cluster.order
        ⟨group, request.topic, request.partitions.toList, request.target⟩ = .ok []) :
      Idle first last (.resetOffsets group request) (.moves [])
  | uncommitted {group topic : String} {moment : Nat} {commits : Reset.Commits}
      (shown : cluster.ShowsGroup first last group fun info =>
        topic ∉ info.assignedPartitionRefs.map Prod.fst)
      (after : first ≤ moment) (before : moment < last)
      (committed : cluster.committedOffsets moment group = .ok commits)
      (absent : topic ∉ commits.offsets.map CommittedOffset.topic) :
      Idle first last (.deleteOffsets group topic) .noContent

/-- What a request that asks Kafka for nothing ends with. -/
def Idles (first : Nat) (request : WriteRequest V) (last : Nat) :
    Except Failure WriteAnswer → Prop
  | .ok answer => cluster.Idle first last request answer
  | .error failure => failure ≠ .panicked

variable {cluster}

theorem ShowsTopic.since {start first last : Nat} {topic : String} {holds : TopicInfo → Prop}
    (shown : cluster.ShowsTopic first last topic holds) (le : start ≤ first) :
    cluster.ShowsTopic start last topic holds := by
  obtain ⟨moment, topology, info, after, shown⟩ := shown
  exact ⟨moment, topology, info, le.trans after, shown⟩

theorem Spells.since {start first last : Nat} {payload : RecordPayload} {bytes : Bytes}
    (spells : cluster.Spells first last payload bytes) (le : start ≤ first) :
    cluster.Spells start last payload bytes := by
  cases payload with
  | text data | base64 data => exact spells
  | schema schemaId data =>
    obtain ⟨moment, after, encoded⟩ := spells
    exact ⟨moment, le.trans after, encoded⟩

theorem spells_since {start first last : Nat} {payload : Option RecordPayload}
    {bytes : Option Bytes} (spells : Option.Rel (cluster.Spells first last) payload bytes)
    (le : start ≤ first) : Option.Rel (cluster.Spells start last) payload bytes := by
  cases spells with
  | none => exact .none
  | some spells => exact .some (spells.since le)

variable (cluster)

/-- What Kafka, or the registry, makes of a call. -/
def outcome (moment : Nat) : KafkaCall V → Except KafkaError Unit
  | .registerSchema schema => (cluster.registers moment schema).map fun _ => ()
  | .produce record => (cluster.produces moment record).map fun _ => ()
  | call => cluster.takes moment call

/-- A call was warranted, and the request is answered as the call was. -/
def Made {β : Type} (first : Nat) (request : WriteRequest V) (moment : Nat) (call : KafkaCall V)
    (result : Except Failure β) : Prop :=
  cluster.Warranted first moment request call ∧
    result.map (fun _ => ()) =
      (cluster.outcome moment call).mapError fun error => .refused (.kafka error)

end LiveCluster

/-- What is idle includes each error to report but that of a caller who is denied. -/
def Reports {β : Type} (idle : Nat → Except Failure β → Prop) : Prop :=
  ∀ error : ApiError, (∀ denied, error ≠ .access denied) →
    ∀ last, idle last (.error (.refused error))

theorem LiveCluster.reports (cluster : LiveCluster V) (first : Nat) (request : WriteRequest V) :
    Reports (cluster.Idles first request) :=
  fun _ _ _ => Failure.noConfusion

section
variable {α β : Type} {start first : Nat} {idle : Nat → Except Failure β → Prop}
  {made : Nat → KafkaCall V → Except Failure β → Prop}

theorem makes_refusing_of {result : Except ApiError α} {next : α → Handling V β}
    (fails : ∀ last error, result = .error error → idle last (.error (.refused error)))
    (rest : ∀ value, result = .ok value → Asking.Makes first (next value) idle made) :
    Asking.Makes first (refusing result >>= next) idle made := by
  refine Asking.makes_lift_bind ?_ fun value done => rest value (Except.mapError_ok done)
  intro last failure failed
  cases result with
  | ok value => contradiction
  | error error =>
    obtain rfl := Except.error.inj failed
    exact fails last error rfl

theorem makes_looking (reports : Reports idle) {look : Nat → Except KafkaError α}
    {next : α → Handling V β}
    (rest : ∀ moment value, first ≤ moment → look moment = .ok value →
      Asking.Makes (moment + 1) (next value) idle made) :
    Asking.Makes first (looking look >>= next) idle made := by
  apply Asking.makes_read_bind
  · intro moment failure failed
    obtain ⟨error, rfl⟩ := Except.mapError_error failed
    exact reports _ (fun _ => ApiError.noConfusion) _
  · exact fun moment value after found => rest moment value after (Except.mapError_ok found)

variable {cluster : LiveCluster V} {topic group subject : String}

theorem makes_writableTopic (reports : Reports idle) {read : TopicInfo → α}
    {next : α → Handling V β}
    (rest : ∀ info later, first < later →
      (∀ last, later ≤ last → ∀ holds : TopicInfo → Prop, holds info →
        cluster.ShowsTopic first last topic holds) →
      Asking.Makes later (next (read info)) idle made) :
    Asking.Makes first (cluster.writableTopic topic read >>= next) idle made := by
  refine makes_looking reports fun moment value after found => ?_
  have found := Except.mapError_ok found
  dsimp only [Cluster.writableTopic, LiveCluster.seen] at found
  split at found
  · contradiction
  · rename_i info listed
    obtain ⟨topology, loaded, listed⟩ := Option.bind_eq_some_iff.mp listed
    split at found
    · contradiction
    · rename_i external
      obtain rfl := Except.ok.inj found
      refine rest info (moment + 1) (Nat.lt_succ_of_le after) fun last later holds has => ?_
      exact ⟨moment, topology, info, after, later, loaded, listed, by simpa using external, has⟩

theorem makes_writablePartition (reports : Reports idle) {partition : Option Int}
    {next : Unit → Handling V β}
    (rest : ∀ later, first < later →
      (∀ last, later ≤ last → cluster.ShowsTopic first last topic fun info =>
        ∀ chosen, partition = some chosen → chosen ∈ info.partitionIds) →
      Asking.Makes later (next ()) idle made) :
    Asking.Makes first (cluster.writablePartition topic partition >>= next) idle made := by
  rw [LiveCluster.writablePartition, Asking.bind_assoc]
  refine makes_writableTopic reports fun info later after shows => ?_
  split
  · refine makes_refusing_of (fun last error failed => ?_) nofun
    obtain rfl := Except.error.inj failed
    exact reports _ (fun _ => ApiError.noConfusion) last
  · rename_i known
    refine rest later after fun last past => shows last past _ ?_
    rintro chosen rfl
    simpa [Option.filter] using known

theorem makes_intoBytes (reports : Reports idle) {payload : RecordPayload} {part : String}
    {next : Bytes → Handling V β}
    (rest : ∀ bytes later, first ≤ later →
      (∀ last, later ≤ last → cluster.Spells first last payload bytes) →
      Asking.Makes later (next bytes) idle made) :
    Asking.Makes first (payload.intoBytes part cluster >>= next) idle made := by
  cases payload with
  | text data => exact rest _ first (Nat.le_refl _) fun _ _ => rfl
  | base64 data =>
    dsimp only [RecordPayload.intoBytes]
    split
    · rename_i bytes decoded
      exact rest bytes first (Nat.le_refl _) fun _ _ => decoded
    · refine makes_refusing_of (fun last error failed => ?_) nofun
      obtain rfl := Except.error.inj failed
      exact reports _ (fun _ => ApiError.noConfusion) last
  | schema schemaId data =>
    rw [RecordPayload.intoBytes, LiveCluster.encode]
    refine makes_looking reports fun moment bytes after encoded => ?_
    exact rest bytes (moment + 1) (Nat.le_succ_of_le after) fun last later =>
      ⟨moment, after, later, encoded⟩

theorem makes_intoPart (reports : Reports idle) {payload : Option RecordPayload} {part : String}
    {next : Option Bytes → Handling V β}
    (rest : ∀ bytes later, first ≤ later →
      (∀ last, later ≤ last → Option.Rel (cluster.Spells first last) payload bytes) →
      Asking.Makes later (next bytes) idle made) :
    Asking.Makes first (RecordPayload.intoPart payload part cluster >>= next) idle made := by
  cases payload with
  | none => exact rest none first (Nat.le_refl _) fun _ _ => .none
  | some payload =>
    have mapped : (RecordPayload.intoPart (some payload) part cluster >>= next) =
        payload.intoBytes part cluster >>= fun bytes => next (some bytes) :=
      Asking.bind_assoc ..
    rw [mapped]
    refine makes_intoBytes reports fun bytes later after spells => ?_
    exact rest (some bytes) later after fun last past => .some (spells last past)

/-- A warranted call, after which the request is answered without another: it is answered
as the call is. -/
theorem makes_sending_bind {request : WriteRequest V} {call : KafkaCall V}
    {answers : Nat → Except KafkaError α} {next : α → Handling V β}
    (same : ∀ moment, cluster.outcome moment call = (answers moment).map fun _ => ())
    (answered : ∀ value asked, (next value asked).2.calls = asked.calls ∧
      (next value asked).1.map (fun _ => ()) = .ok ())
    (warranted : ∀ last, first ≤ last → cluster.Warranted start last request call) :
    Asking.Makes first (sending call answers >>= next) idle (cluster.Made start request) := by
  apply Asking.makes_send_bind
  · exact fun value asked => (answered value asked).1
  · intro moment failure after failed
    refine ⟨warranted moment after, ?_⟩
    rw [same]
    cases result : answers moment with
    | ok value =>
      rw [result] at failed
      contradiction
    | error error =>
      rw [result] at failed
      obtain rfl := Except.error.inj failed
      rfl
  · intro moment value asked after found
    refine ⟨warranted moment after, ?_⟩
    rw [same, (answered value asked).2, Except.mapError_ok found]
    rfl

theorem makes_sending {request : WriteRequest V} {call : KafkaCall V}
    {answers : Nat → Except KafkaError α} {answer : α → β}
    (same : ∀ moment, cluster.outcome moment call = (answers moment).map fun _ => ())
    (warranted : ∀ last, first ≤ last → cluster.Warranted start last request call) :
    Asking.Makes first (sending call answers >>= fun value => pure (answer value)) idle
      (cluster.Made start request) :=
  makes_sending_bind same (fun _ _ => ⟨rfl, rfl⟩) warranted

end

section
variable {α : Type} {start first : Nat} {request : WriteRequest V}
  {idle : Nat → Except Failure WriteAnswer → Prop}
  {made : Nat → KafkaCall V → Except Failure WriteAnswer → Prop}
  {cluster : LiveCluster V} {topic group subject : String}

theorem makes_refusing {result : Except ApiError α} {next : α → Handling V WriteAnswer}
    (rest : ∀ value, result = .ok value →
      Asking.Makes first (next value) (cluster.Idles start request) made) :
    Asking.Makes first (refusing result >>= next) (cluster.Idles start request) made :=
  makes_refusing_of (fun _ _ _ => Failure.noConfusion) rest

theorem makes_knownGroup (reports : Reports idle) {read : GroupInfo → α}
    {next : α → Handling V WriteAnswer} (rest : ∀ info later, first < later →
      (∀ last, later ≤ last → ∀ holds : GroupInfo → Prop, holds info →
        cluster.ShowsGroup first last group holds) →
      Asking.Makes later (next (read info)) idle made) :
    Asking.Makes first (cluster.knownGroup group read >>= next) idle made := by
  refine makes_looking reports fun moment value after found => ?_
  have found := Except.mapError_ok found
  dsimp only [Cluster.knownGroup, LiveCluster.seen] at found
  split at found
  · rename_i info listed
    obtain ⟨topology, loaded, listed⟩ := Option.bind_eq_some_iff.mp listed
    obtain rfl := Except.ok.inj found
    refine rest info (moment + 1) (Nat.lt_succ_of_le after) fun last later holds has => ?_
    exact ⟨moment, topology, info, after, later, loaded, listed, has⟩
  · contradiction

theorem makes_stoppedGroup (reports : Reports idle) {next : Unit → Handling V WriteAnswer}
    (rest : ∀ later, first < later →
      (∀ last, later ≤ last → cluster.ShowsGroup first last group fun info =>
        GroupState.hasMembers info.state = false) →
      Asking.Makes later (next ()) idle made) :
    Asking.Makes first (cluster.stoppedGroup group >>= next) idle made := by
  refine makes_looking reports fun moment value after found => ?_
  have found := Except.mapError_ok found
  obtain ⟨active, known, stopped⟩ := Except.bind_ok found
  dsimp only [Cluster.knownGroup, LiveCluster.seen] at known
  split at known
  · rename_i info listed
    obtain ⟨topology, loaded, listed⟩ := Option.bind_eq_some_iff.mp listed
    obtain rfl := Except.ok.inj known
    split at stopped
    · contradiction
    · rename_i idle
      refine rest (moment + 1) (Nat.lt_succ_of_le after) fun last later => ?_
      exact ⟨moment, topology, info, after, later, loaded, listed, by simpa using idle⟩
  · contradiction

theorem makes_knownSubject (reports : Reports idle) {version : Option Int}
    {next : Unit → Handling V WriteAnswer}
    (rest : ∀ later, first < later →
      (∀ last, later ≤ last → cluster.ShowsSubject first last subject version) →
      Asking.Makes later (next ()) idle made) :
    Asking.Makes first (cluster.knownSubject subject version >>= next) idle made := by
  refine makes_looking reports fun moment value after found => ?_
  split at found
  · rename_i knows
    refine rest (moment + 1) (Nat.lt_succ_of_le after) fun last later => ?_
    exact ⟨moment, after, later, knows⟩
  · contradiction

theorem makes_knownBroker (reports : Reports idle) {id : Int}
    {next : Unit → Handling V WriteAnswer}
    (rest : ∀ later, first < later →
      (∀ last, later ≤ last → ∃ moment, first ≤ moment ∧ moment < last ∧
        ∀ topology, cluster.topology moment = some topology → id ∈ topology.brokers) →
      Asking.Makes later (next ()) idle made) :
    Asking.Makes first (cluster.knownBroker id >>= next) idle made := by
  refine makes_looking reports fun moment value after found => ?_
  refine rest (moment + 1) (Nat.lt_succ_of_le after) fun last later => ⟨moment, after, later, ?_⟩
  intro topology loaded
  rw [loaded] at found
  dsimp only at found
  split at found
  · assumption
  · contradiction

/-- A plan never panics, so one that fails is an error to report. -/
theorem makes_plan {reset : OffsetReset} {next : List Reset.OffsetMove → Handling V WriteAnswer}
    (rest : ∀ moment moves, first ≤ moment →
      (cluster.seen moment).plan cluster.order reset = .ok moves →
      Asking.Makes (moment + 1) (next moves) (cluster.Idles start request) made) :
    Asking.Makes first (cluster.plan reset >>= next) (cluster.Idles start request) made := by
  apply Asking.makes_read_bind
  · intro moment failure failed
    cases stopped : (cluster.seen moment).plan cluster.order reset with
    | ok moves =>
      rw [stopped] at failed
      contradiction
    | error stop =>
      rw [stopped] at failed
      obtain rfl := Except.error.inj failed
      rw [Cluster.plan_eq] at stopped
      obtain unasked | ⟨partitions, _, unplanned⟩ := Except.bind_error stopped
      · obtain ⟨error, rfl⟩ := Except.mapError_error unasked
        exact Failure.noConfusion
      · obtain ⟨error, rfl⟩ := Reset.planReset_error unplanned
        exact Failure.noConfusion
  · exact fun moment moves after found => rest moment moves after (Except.mapError_ok found)

theorem makes_take {call : KafkaCall V} {answer : WriteAnswer}
    (same : ∀ moment, cluster.outcome moment call = cluster.takes moment call)
    (warranted : ∀ last, first ≤ last → cluster.Warranted start last request call) :
    Asking.Makes first (cluster.take call >>= fun _ => pure answer) idle
      (cluster.Made start request) := by
  have sent : (cluster.take call >>= fun _ => pure answer : Handling V WriteAnswer) =
      sending call (fun moment => cluster.takes moment call) >>= fun taken =>
        pure (Function.const Unit answer taken) := rfl
  rw [sent]
  refine makes_sending (fun moment => ?_) warranted
  rw [same]
  cases cluster.takes moment call <;> rfl

end

theorem ClusterHandle.writes_eq (handle : ClusterHandle V) (privilege : Privilege) :
    handle.writes privilege =
      if handle.cluster.writable = true then
        if privilege ∈ handle.access.privileges then .ok handle.cluster
        else .error (.access (.forbidden handle.access.cluster privilege))
      else .error (.access (.readOnlyCluster handle.access.cluster)) := by
  simp only [writes, isWritable, ClusterAccess.check, ClusterAccess.allows, decide_eq_true_eq]
  split
  · split <;> rfl
  · rfl

/-- Who is let through may change the cluster so. -/
theorem ClusterHandle.of_writes {handle : ClusterHandle V} {privilege : Privilege}
    {cluster : LiveCluster V} (granted : handle.writes privilege = .ok cluster) :
    cluster = handle.cluster ∧ cluster.writable = true ∧ privilege ∈ handle.access.privileges := by
  rw [handle.writes_eq] at granted
  split at granted
  · rename_i writable
    split at granted
    · rename_i privileged
      obtain rfl := Except.ok.inj granted
      exact ⟨rfl, writable, privileged⟩
    · contradiction
  · contradiction

theorem EditConfigs.of_accepted {request : EditConfigs} {edit : ConfigEdit}
    (accepted : request.intoEdit = .ok edit) :
    edit = ⟨request.set, request.reset⟩ ∧ (request.set ≠ ∅ ∨ request.reset ≠ ∅) ∧
      ∀ name ∈ request.reset, name ∉ request.set := by
  have disjoint := disjoint_of_accepted accepted
  unfold intoEdit at accepted
  split at accepted
  · contradiction
  · rename_i named
    split at accepted
    · contradiction
    · obtain rfl := Except.ok.inj accepted
      refine ⟨rfl, ?_, disjoint⟩
      by_contra none
      obtain ⟨set, reset⟩ := not_or.mp none
      rw [not_ne_iff.mp set, not_ne_iff.mp reset] at named
      exact named rfl

theorem DeleteParams.of_accepted {params : DeleteParams} {before : Option Int}
    (accepted : params.offset = .ok before) :
    before = params.before ∧ ∀ offset, params.before = some offset → 0 ≤ offset := by
  unfold offset at accepted
  split at accepted
  · rename_i offset given
    split at accepted
    · contradiction
    · rename_i least
      obtain rfl := Except.ok.inj accepted
      refine ⟨given.symm, ?_⟩
      rintro other same
      obtain rfl := Option.some.inj (given.symm.trans same)
      exact Int.not_lt.mp least
  · rename_i none
    obtain rfl := Except.ok.inj accepted
    exact ⟨none.symm, by simp [none]⟩

theorem ResetOffsets.of_accepted {request : ResetOffsets} {group : String} {reset : OffsetReset}
    (accepted : request.intoReset group = .ok reset) :
    reset = ⟨group, request.topic, request.partitions.toList, request.target⟩ ∧
      (request.topic = none → request.partitions = ∅) := by
  unfold intoReset at accepted
  split at accepted
  · contradiction
  · rename_i covered
    obtain rfl := Except.ok.inj accepted
    refine ⟨rfl, fun none => ?_⟩
    simpa [none, ExtTreeSet.isEmpty_iff] using covered

theorem named_of_cluster {access : EffectiveAccess} {name : String}
    {view : ClusterAccess} (seen : access.cluster name = .ok view) : view.cluster = name := by
  unfold EffectiveAccess.cluster at seen
  split at seen
  · obtain rfl := Except.ok.inj seen
    rfl
  · contradiction

namespace Session
variable {session : Session V} {name : String} {first : Nat}

theorem of_cluster {handle : ClusterHandle V} (reached : session.cluster name = .ok handle) :
    session.access.cluster name = .ok handle.access ∧
      session.clusters name = some handle.cluster := by
  obtain ⟨access, seen, rest⟩ := Except.bind_ok reached
  have seen := Except.mapError_ok seen
  split at rest
  · rename_i cluster found
    obtain rfl := Except.ok.inj rest
    rw [named_of_cluster seen] at found
    exact ⟨seen, found⟩
  · contradiction

/-- An end without a call: an error to report, or the answer that the cluster has for who
may change it so. -/
def Idles (session : Session V) (name : String) (first : Nat) (request : WriteRequest V)
    (last : Nat) : Except Failure WriteAnswer → Prop
  | .ok answer => ∃ handle, session.cluster name = .ok handle ∧ handle.cluster.writable = true ∧
      request.privilege ∈ handle.access.privileges ∧
      handle.cluster.Idle first last request answer
  | .error failure => failure ≠ .panicked

/-- A call that only who may change the cluster so can have made. -/
def Made (session : Session V) (name : String) (first : Nat) (request : WriteRequest V)
    (moment : Nat) (call : KafkaCall V) (result : Except Failure WriteAnswer) : Prop :=
  ∃ handle, session.cluster name = .ok handle ∧ handle.cluster.writable = true ∧
    request.privilege ∈ handle.access.privileges ∧
    handle.cluster.Made first request moment call result

/-- What the handlers begin with: the cluster, to who may change it so. -/
theorem makes_granted (request : WriteRequest V) {rest : LiveCluster V → Handling V WriteAnswer}
    (made : ∀ cluster, Asking.Makes first (rest cluster) (cluster.Idles first request)
      (cluster.Made first request)) :
    Asking.Makes first
      (refusing (session.cluster name) >>= fun handle =>
        refusing (handle.writes request.privilege) >>= rest)
      (session.Idles name first request) (session.Made name first request) := by
  refine makes_refusing_of (fun _ _ _ => Failure.noConfusion) fun handle reached => ?_
  refine makes_refusing_of (fun _ _ _ => Failure.noConfusion) fun cluster granted => ?_
  obtain ⟨rfl, writable, privileged⟩ := ClusterHandle.of_writes granted
  refine (made handle.cluster).mono ?_ fun _ _ _ _ holds =>
    ⟨handle, reached, writable, privileged, holds⟩
  intro last result idle
  cases result with
  | ok answer => exact ⟨handle, reached, writable, privileged, idle⟩
  | error failure => exact idle

theorem makes_createTopic (request : CreateTopic) :
    Asking.Makes first (session.createTopic name request)
      (session.Idles name first (.createTopic request))
      (session.Made name first (.createTopic request)) := by
  rw [createTopic]
  refine makes_granted (.createTopic request) fun topics => makes_refusing fun topic accepted => ?_
  unfold CreateTopic.intoTopic at accepted
  split at accepted
  · contradiction
  · rename_i legal
    obtain rfl := Except.ok.inj accepted
    exact makes_take (fun _ => rfl) fun _ _ => .createTopic legal

theorem makes_deleteTopic (topic : String) :
    Asking.Makes first (session.deleteTopic name topic)
      (session.Idles name first (.deleteTopic topic))
      (session.Made name first (.deleteTopic topic)) := by
  rw [deleteTopic]
  refine makes_granted (.deleteTopic topic) fun topics => ?_
  rw [LiveCluster.deleteTopic, Asking.bind_assoc]
  refine makes_writableTopic (LiveCluster.reports _ _ _) fun info later _ shows => ?_
  exact makes_take (fun _ => rfl) fun last after => .deleteTopic (shows last after _ trivial)

theorem makes_alterTopicConfigs (topic : String) (request : EditConfigs) :
    Asking.Makes first (session.alterTopicConfigs name topic request)
      (session.Idles name first (.alterTopicConfigs topic request))
      (session.Made name first (.alterTopicConfigs topic request)) := by
  rw [alterTopicConfigs]
  refine makes_granted (.alterTopicConfigs topic request) fun topics =>
    makes_refusing fun edit accepted => ?_
  obtain ⟨rfl, named, apart⟩ := EditConfigs.of_accepted accepted
  rw [LiveCluster.alterTopicConfigs, Asking.bind_assoc]
  refine makes_writableTopic (LiveCluster.reports _ _ _) fun info later _ shows => ?_
  exact makes_take (fun _ => rfl) fun last after =>
    .alterTopicConfigs named apart (shows last after _ trivial)

theorem makes_addPartitions (topic : String) (count : NonZeroU16) :
    Asking.Makes first (session.addPartitions name topic count)
      (session.Idles name first (.addPartitions topic count))
      (session.Made name first (.addPartitions topic count)) := by
  rw [addPartitions]
  refine makes_granted (.addPartitions topic count) fun topics => ?_
  rw [LiveCluster.addPartitions, Asking.bind_assoc]
  refine makes_writableTopic (LiveCluster.reports _ _ _) fun info later _ shows => ?_
  exact makes_take (fun _ => rfl) fun last after => .addPartitions (shows last after _ trivial)

theorem makes_deleteRecords (topic : String) (params : DeleteParams) :
    Asking.Makes first (session.deleteRecords name topic params)
      (session.Idles name first (.deleteRecords topic params))
      (session.Made name first (.deleteRecords topic params)) := by
  rw [deleteRecords]
  refine makes_granted (.deleteRecords topic params) fun topics =>
    makes_refusing fun before accepted => ?_
  obtain ⟨rfl, offset⟩ := DeleteParams.of_accepted accepted
  rw [LiveCluster.deleteRecords, Asking.bind_assoc]
  refine makes_writableTopic (LiveCluster.reports _ _ _) fun info later _ shows => ?_
  split
  · exact makes_refusing nofun
  · rename_i known
    refine makes_take (fun _ => rfl) fun last after =>
      .deleteRecords offset (shows last after _ ⟨?_, ?_⟩)
    · intro partition named
      simpa using List.find?_eq_none.mp known partition named
    · intro partition
      rw [Maps.getElem?_ofList_map]
      simp only [List.isEmpty_iff]

theorem makes_produce (topic : String) (request : ProduceRecord) :
    Asking.Makes first (session.produce name topic request)
      (session.Idles name first (.produce topic request))
      (session.Made name first (.produce topic request)) := by
  rw [produce]
  refine makes_granted (.produce topic request) fun producer => ?_
  rw [ProduceRecord.intoRecord, Asking.bind_assoc]
  refine makes_intoPart (LiveCluster.reports _ _ _) fun key later after keys => ?_
  rw [Asking.bind_assoc]
  refine makes_intoPart (LiveCluster.reports _ _ _) fun value next past values => ?_
  rw [Asking.pure_bind, LiveCluster.produce, Asking.bind_assoc]
  refine makes_writablePartition (LiveCluster.reports _ _ _) fun checked since shows => ?_
  refine makes_sending (fun _ => rfl) fun last done => ?_
  have late : next ≤ last := since.le.trans done
  exact .produce ((shows last done).since (after.trans past)) (keys last (past.trans late))
    (LiveCluster.spells_since (values last late) after)

theorem makes_resetOffsets (group : String) (request : ResetOffsets) :
    Asking.Makes first (session.resetOffsets name group request)
      (session.Idles name first (.resetOffsets group request))
      (session.Made name first (.resetOffsets group request)) := by
  rw [resetOffsets]
  refine makes_granted (.resetOffsets group request) fun groups =>
    makes_refusing fun reset accepted => ?_
  obtain ⟨rfl, covered⟩ := ResetOffsets.of_accepted accepted
  split
  · rename_i dry
    rw [LiveCluster.planReset, Asking.bind_assoc]
    refine makes_knownGroup (LiveCluster.reports _ _ _) fun info later after shows => ?_
    refine makes_plan fun moment moves reached planned => ?_
    refine Asking.makes_pure fun last done => ?_
    exact .planned dry covered (shows last (reached.trans (Nat.le_of_succ_le done)) _ trivial)
      (after.le.trans reached) done planned
  · rename_i live
    rw [LiveCluster.resetOffsets, Asking.bind_assoc]
    refine makes_stoppedGroup (LiveCluster.reports _ _ _) fun later after shows => ?_
    rw [Asking.bind_assoc]
    refine makes_plan fun moment moves reached planned => ?_
    split
    · rename_i none
      obtain rfl := List.isEmpty_iff.mp none
      refine Asking.makes_pure fun last done => ?_
      exact .unmoved (by simpa using live) covered
        (shows last (reached.trans (Nat.le_of_succ_le done))) (after.le.trans reached) done planned
    · rename_i moved
      rw [Asking.bind_assoc]
      simp only [Asking.pure_bind]
      refine makes_take (fun _ => rfl) fun last done => ?_
      have before : moment < last := done
      exact .resetOffsets (by simpa using live) covered
        (shows last (reached.trans before.le)) (after.le.trans reached) before planned
        (by simpa using moved)

theorem makes_deleteOffsets (group topic : String) :
    Asking.Makes first (session.deleteOffsets name group topic)
      (session.Idles name first (.deleteOffsets group topic))
      (session.Made name first (.deleteOffsets group topic)) := by
  rw [deleteOffsets]
  refine makes_granted (.deleteOffsets group topic) fun groups => ?_
  rw [LiveCluster.deleteOffsets, Asking.bind_assoc]
  refine makes_knownGroup (LiveCluster.reports _ _ _) fun info later after shows => ?_
  split
  · exact makes_refusing nofun
  · rename_i free
    rw [Asking.bind_assoc]
    refine makes_looking (LiveCluster.reports _ _ _) fun moment commits past committed => ?_
    have committed := Except.mapError_ok committed
    dsimp only
    have unassigned : topic ∉ info.assignedPartitionRefs.map Prod.fst := by
      simpa using free
    split
    · rename_i none
      rw [Asking.pure_bind]
      refine Asking.makes_pure fun last done => ?_
      refine .uncommitted (shows last (past.trans (Nat.le_of_succ_le done)) _ unassigned)
        (after.le.trans past) done committed ?_
      simpa using none
    · rename_i held
      refine makes_take (fun _ => rfl) fun last done => ?_
      refine .deleteOffsets (shows last (past.trans (Nat.le_of_succ_le done)) _ unassigned)
        (after.le.trans past) done committed ?_
      simpa using held

theorem makes_deleteGroup (group : String) :
    Asking.Makes first (session.deleteGroup name group)
      (session.Idles name first (.deleteGroup group))
      (session.Made name first (.deleteGroup group)) := by
  rw [deleteGroup]
  refine makes_granted (.deleteGroup group) fun groups => ?_
  rw [LiveCluster.deleteGroup, Asking.bind_assoc]
  refine makes_stoppedGroup (LiveCluster.reports _ _ _) fun later _ shows => ?_
  exact makes_take (fun _ => rfl) fun last after => .deleteGroup (shows last after)

theorem makes_registerSchema (subject : String) (request : RegisterSchema) :
    Asking.Makes first (session.registerSchema name subject request)
      (session.Idles name first (.registerSchema subject request))
      (session.Made name first (.registerSchema subject request)) := by
  rw [registerSchema]
  refine makes_granted (.registerSchema subject request) fun schemas => ?_
  exact makes_sending (fun _ => rfl) fun _ _ => .registerSchema

theorem makes_editSubject (subject : String) (level : SchemaCompatibility) :
    Asking.Makes first (session.editSubject name subject level)
      (session.Idles name first (.editSubject subject level))
      (session.Made name first (.editSubject subject level)) := by
  rw [editSubject]
  refine makes_granted (.editSubject subject level) fun schemas => ?_
  rw [LiveCluster.setCompatibility, Asking.bind_assoc]
  refine makes_knownSubject (LiveCluster.reports _ _ _) fun later _ shows => ?_
  exact makes_take (fun _ => rfl) fun last after => .editSubject (shows last after)

theorem makes_deleteSchema (deletion : SchemaDeletion) :
    Asking.Makes first (session.deleteSchema name deletion)
      (session.Idles name first (.deleteSchema deletion))
      (session.Made name first (.deleteSchema deletion)) := by
  rw [deleteSchema]
  refine makes_granted (.deleteSchema deletion) fun schemas => ?_
  rw [LiveCluster.deleteSchema, Asking.bind_assoc]
  refine makes_knownSubject (LiveCluster.reports _ _ _) fun later _ shows => ?_
  exact makes_take (fun _ => rfl) fun last after => .deleteSchema (shows last after)

theorem makes_createAcls (request : CreateAcls) :
    Asking.Makes first (session.createAcls name request)
      (session.Idles name first (.createAcls request))
      (session.Made name first (.createAcls request)) := by
  rw [createAcls]
  refine makes_granted (.createAcls request) fun acls =>
    makes_refusing fun bindings accepted => ?_
  unfold CreateAcls.intoAcls at accepted
  split at accepted
  · contradiction
  · rename_i named
    obtain rfl := Except.ok.inj accepted
    exact makes_take (fun _ => rfl) fun _ _ => .createAcls (by simpa using named)

theorem makes_deleteAcl (acl : Acl) :
    Asking.Makes first (session.deleteAcl name acl)
      (session.Idles name first (.deleteAcl acl))
      (session.Made name first (.deleteAcl acl)) := by
  rw [deleteAcl]
  refine makes_granted (.deleteAcl acl) fun acls => ?_
  exact makes_take (fun _ => rfl) fun _ _ => .deleteAcl

theorem makes_setClientQuota (request : ClientQuota V) :
    Asking.Makes first (session.setClientQuota name request)
      (session.Idles name first (.setClientQuota request))
      (session.Made name first (.setClientQuota request)) := by
  rw [setClientQuota]
  refine makes_granted (.setClientQuota request) fun quotas =>
    makes_refusing fun quota accepted => ?_
  unfold ClientQuota.intoQuota at accepted
  split at accepted
  · contradiction
  · rename_i named
    dsimp only at accepted
    split at accepted
    · contradiction
    · rename_i once
      obtain rfl := Except.ok.inj accepted
      exact makes_take (fun _ => rfl) fun _ _ => .setClientQuota (by simpa using named)
        (canonical_of_repeated (QuotaEntity.pairwise_sorted _) once) (List.mergeSort_perm _ _)

theorem makes_setScramCredential (user : String) (request : SetScramCredential) :
    Asking.Makes first (session.setScramCredential name user request)
      (session.Idles name first (.setScramCredential user request))
      (session.Made name first (.setScramCredential user request)) := by
  rw [setScramCredential]
  refine makes_granted (.setScramCredential user request) fun users =>
    makes_refusing fun credential accepted => ?_
  unfold SetScramCredential.intoCredential at accepted
  dsimp only at accepted
  split at accepted
  · contradiction
  · rename_i range
    split at accepted
    · contradiction
    · rename_i spelled
      obtain rfl := Except.ok.inj accepted
      obtain ⟨least, most⟩ := not_not.mp range
      exact makes_take (fun _ => rfl) fun _ _ =>
        .setScramCredential rfl least most (by simpa using spelled)

theorem makes_deleteScramCredential (user : String) (mechanism : ScramMechanism) :
    Asking.Makes first (session.deleteScramCredential name user mechanism)
      (session.Idles name first (.deleteScramCredential user mechanism))
      (session.Made name first (.deleteScramCredential user mechanism)) := by
  rw [deleteScramCredential]
  refine makes_granted (.deleteScramCredential user mechanism) fun users => ?_
  exact makes_take (fun _ => rfl) fun _ _ => .deleteScramCredential

theorem makes_alterBrokerConfigs (scope : BrokerScope) (request : EditConfigs) :
    Asking.Makes first (session.alterBrokerConfigs name scope request)
      (session.Idles name first (.alterBrokerConfigs scope request))
      (session.Made name first (.alterBrokerConfigs scope request)) := by
  rw [alterBrokerConfigs]
  refine makes_granted (.alterBrokerConfigs scope request) fun brokers =>
    makes_refusing fun edit accepted => ?_
  obtain ⟨rfl, named, apart⟩ := EditConfigs.of_accepted accepted
  cases scope with
  | cluster => exact makes_take (fun _ => rfl) fun _ _ => .alterBrokerConfigs named apart nofun
  | broker id =>
    unfold LiveCluster.alterBrokerConfigs
    rw [Asking.bind_assoc]
    refine makes_knownBroker (LiveCluster.reports _ _ _) fun later _ shows => ?_
    refine makes_take (fun _ => rfl) fun last after => .alterBrokerConfigs named apart ?_
    rintro _ ⟨⟩
    exact shows last after

theorem makes_write (request : WriteRequest V) :
    Asking.Makes first (session.write name request) (session.Idles name first request)
      (session.Made name first request) := by
  cases request with
  | createTopic request => exact makes_createTopic request
  | deleteTopic topic => exact makes_deleteTopic topic
  | alterTopicConfigs topic request => exact makes_alterTopicConfigs topic request
  | addPartitions topic count => exact makes_addPartitions topic count
  | deleteRecords topic params => exact makes_deleteRecords topic params
  | produce topic request => exact makes_produce topic request
  | resetOffsets group request => exact makes_resetOffsets group request
  | deleteOffsets group topic => exact makes_deleteOffsets group topic
  | deleteGroup group => exact makes_deleteGroup group
  | registerSchema subject request => exact makes_registerSchema subject request
  | editSubject subject level => exact makes_editSubject subject level
  | deleteSchema deletion => exact makes_deleteSchema deletion
  | createAcls request => exact makes_createAcls request
  | deleteAcl acl => exact makes_deleteAcl acl
  | setClientQuota request => exact makes_setClientQuota request
  | setScramCredential user request => exact makes_setScramCredential user request
  | deleteScramCredential user mechanism => exact makes_deleteScramCredential user mechanism
  | alterBrokerConfigs scope request => exact makes_alterBrokerConfigs scope request

/-- Whatever the tables show and Kafka answers meanwhile: a request asks for one change at
most, and for one that the caller may make, that it was made for and that nothing the
cluster showed since stands against. It is answered as the change was. One that asks for
none ends in an error, or was only to plan, or the cluster showed that there is nothing
to change. -/
theorem writes_gated (session : Session V) (name : String) (request : WriteRequest V)
    (first : Nat) :
    let (answer, asked) := session.write name request ⟨first, []⟩
    (asked.calls = [] ∧ session.Idles name first request asked.moment answer) ∨
      ∃ moment call, asked.calls = [(moment, call)] ∧
        session.Made name first request moment call answer := by
  obtain quiet | ⟨moment, call, _, calls, made⟩ := makes_write request ⟨first, []⟩ (Nat.le_refl first)
  · exact .inl quiet
  · exact .inr ⟨moment, call, calls, made⟩

end Session
end Klens.App
