import Klens.App.Mcp.Tools
import Klens.App.WritesGranted

/-! What the tools may change, and that a caller is told beforehand what it may do. -/
namespace Klens.App.Mcp
open Klens.Auth Klens.Kafka Klens.Lib Klens.Schemas Klens.Store Std
variable {V : Type}

/-- Each name has one gate. -/
theorem ToolGate.named_eq {gate : ToolGate} (listed : gate ∈ ToolGate.gates) :
    ToolGate.named gate.name = some gate := by
  have perm : ToolGate.gates.Perm _ := List.mergeSort_perm _ _
  have distinct : (ToolGate.gates.map ToolGate.name).Nodup :=
    (perm.map ToolGate.name).nodup_iff.mpr (by decide)
  have found : (ToolGate.named gate.name).isSome = true :=
    List.find?_isSome.mpr ⟨gate, listed, decide_eq_true rfl⟩
  obtain ⟨other, found⟩ := Option.isSome_iff_exists.mp found
  have same : other.name = gate.name := by simpa using List.find?_some found
  rw [found, List.inj_on_of_nodup_map distinct (List.mem_of_find?_eq_some found) listed same]

namespace ToolCall

/-- The gate of the tool that a call names. -/
def gate : ToolCall → ToolGate
  | .topicCreate _ => (ToolGate.needing "klens_topic_create" .createTopics).notIdempotent
  | .recordProduce _ => (ToolGate.needing "klens_record_produce" .produce).notIdempotent
  | .schemaRegister _ => .needing "klens_schema_register" .registerSchemas
  | .recordGet _ => .needing "klens_record_get" .records
  | .recordsRead _ => .needing "klens_records_read" .records
  | .schemaGet _ => .needing "klens_schema_get" .schemaText
  | .aclsList _ => .needing "klens_acls_list" .acls

theorem named_tool (call : ToolCall) : ToolGate.named call.tool = some call.gate := by
  have same : call.tool = call.gate.name := by cases call <;> rfl
  rw [same]
  apply ToolGate.named_eq
  rw [ToolGate.gates, List.mem_mergeSort]
  cases call <;> dsimp only [gate] <;> decide

/-- The request that asks for the same change over HTTP. -/
def request : ToolCall → Option (WriteRequest V)
  | .topicCreate create => some (.createTopic
      ⟨create.topic, create.partitions, create.replicationFactor, create.configs⟩)
  | .recordProduce produce => some (.produce produce.topic
      ⟨produce.partition, produce.key, some produce.value, produce.headers⟩)
  | .schemaRegister register => some (.registerSchema register.subject
      ⟨register.schemaType, register.schema, register.references⟩)
  | _ => none

end ToolCall

namespace KlensMcp
variable {server : KlensMcp V} {call : ToolCall} {handle : ClusterHandle V}

theorem reached_of_clusterOrOnly {given : Option String}
    (reached : server.clusterOrOnly given = .ok handle) :
    ∃ name, server.caller.cluster name = .ok handle := by
  cases given with
  | some name => exact ⟨name, reached⟩
  | none =>
    dsimp only [clusterOrOnly] at reached
    split at reached
    · contradiction
    · rename_i only seen
      obtain rfl := Except.ok.inj reached
      have shown : only ∈ server.visible := by
        rw [seen]
        exact List.mem_singleton_self only
      obtain ⟨name, _, found⟩ := List.mem_filterMap.mp shown
      cases result : server.caller.cluster name with
      | error error => simp [result, Except.toOption] at found
      | ok other =>
        rw [result] at found
        exact ⟨name, result.trans (congrArg Except.ok (Option.some.inj found))⟩
    · contradiction

/-- What a call may do is what the configuration says, on the clusters it names. -/
theorem configured_of_reached {given : Option String}
    (reached : server.clusterOrOnly given = .ok handle) :
    handle.access.privileges = server.mcp.privileges.val.toFinset ∧
      ∀ names, server.mcp.clusters = some names → handle.access.cluster ∈ names := by
  obtain ⟨name, reached⟩ := reached_of_clusterOrOnly reached
  have seen := (Session.of_cluster reached).1
  have named := named_of_cluster seen
  unfold EffectiveAccess.cluster at seen
  split at seen
  · rename_i privileges held
    rw [← Except.ok.inj seen]
    dsimp only [caller, Config.access, EffectiveAccess.privilegesFor] at held
    cases inside : (ClusterScope.fromList server.mcp.clusters).contains name with
    | false => simp [inside, reduce] at held
    | true =>
      have held : server.mcp.privileges.val.toFinset = privileges := by
        simpa [inside, reduce] using held
      refine ⟨held.symm, fun names limited => ?_⟩
      rw [limited] at inside
      simpa [ClusterScope.contains, ClusterScope.fromList] using inside
  · contradiction

/-- The caller is denied before anything is read: it cannot see the cluster, or the tool
is not usable there. -/
def Denies (server : KlensMcp V) (call : ToolCall) : Prop :=
  ∀ handle, server.clusterOrOnly call.cluster = .ok handle → call.gate.usableOn handle = false

/-- A call without a change: it read, or it ends in an error, which denies only who is
denied. -/
def Idles (server : KlensMcp V) (call : ToolCall) (_ : Nat) : Except Failure ToolAnswer → Prop
  | .ok _ => call.gate.changes = false
  | .error failure => failure ≠ .panicked ∧
      ∀ denied, failure = .refused (.access denied) → server.Denies call

/-- A change that the call stands for, by a tool that its caller may use, after the limiter
let the call through. -/
def Made (server : KlensMcp V) (first : Nat) (call : ToolCall) (moment : Nat)
    (change : KafkaCall V) (result : Except Failure ToolAnswer) : Prop :=
  ∃ handle request permit, server.clusterOrOnly call.cluster = .ok handle ∧
    call.request = some request ∧ call.gate.needs = some request.privilege ∧
    call.gate.changes = true ∧ call.gate.usableOn handle = true ∧
    first ≤ permit ∧ permit < moment ∧ server.liveCalls permit = true ∧
    (request.privilege = .registerSchemas →
      server.hasSchemaRegistry handle.access.cluster = true) ∧
    handle.cluster.Made first request moment change result

theorem reports (server : KlensMcp V) (call : ToolCall) : Reports (server.Idles call) := by
  intro error other _
  refine ⟨Failure.noConfusion, fun denied same => ?_⟩
  exact absurd (Failure.refused.inj same) (other denied)

variable {first : Nat} {made : Nat → KafkaCall V → Except Failure ToolAnswer → Prop}

theorem makes_reached {next : ClusterHandle V → Handling V ToolAnswer}
    (rest : ∀ handle, server.clusterOrOnly call.cluster = .ok handle →
      Asking.Makes first (next handle) (server.Idles call) made) :
    Asking.Makes first (refusing (server.clusterOrOnly call.cluster) >>= next)
      (server.Idles call) made := by
  refine makes_refusing_of (fun _ error failed => ⟨Failure.noConfusion, ?_⟩) rest
  intro denied _ handle reached
  rw [failed] at reached
  contradiction

/-- What is not usable denies. -/
theorem makes_allowed {α : Type} {result : Except ApiError α} {next : α → Handling V ToolAnswer}
    (reached : server.clusterOrOnly call.cluster = .ok handle)
    (fails : ∀ error, result = .error error → call.gate.usableOn handle = false)
    (rest : ∀ value, result = .ok value →
      Asking.Makes first (next value) (server.Idles call) made) :
    Asking.Makes first (refusing result >>= next) (server.Idles call) made := by
  refine makes_refusing_of (fun _ error failed => ⟨Failure.noConfusion, ?_⟩) rest
  intro denied _ other reached'
  obtain rfl := Except.ok.inj (reached.symm.trans reached')
  exact fails error failed

theorem makes_checked {α : Type} {result : Except ApiError α} {next : α → Handling V ToolAnswer}
    (fails : ∀ error, result = .error error → ∀ denied, error ≠ .access denied)
    (rest : ∀ value, result = .ok value →
      Asking.Makes first (next value) (server.Idles call) made) :
    Asking.Makes first (refusing result >>= next) (server.Idles call) made :=
  makes_refusing_of (fun _ error failed => server.reports call error (fails error failed) _) rest

theorem makes_liveCall {next : Unit → Handling V ToolAnswer}
    (rest : ∀ permit, first ≤ permit → server.liveCalls permit = true →
      Asking.Makes (permit + 1) (next ()) (server.Idles call) made) :
    Asking.Makes first (server.liveCall >>= next) (server.Idles call) made := by
  apply Asking.makes_read_bind
  · intro moment failure failed
    split at failed
    · contradiction
    · obtain rfl := Except.error.inj failed
      exact server.reports call _ (fun _ => ApiError.noConfusion) _
  · intro moment value after found
    split at found
    · rename_i live
      exact rest moment after live
    · contradiction

theorem makes_snapshot {T : Type} {lane : String} {load : Nat → Option T}
    {next : T → Handling V ToolAnswer}
    (rest : ∀ moment table, first ≤ moment →
      Asking.Makes (moment + 1) (next table) (server.Idles call) made) :
    Asking.Makes first (server.snapshot handle lane load >>= next) (server.Idles call) made := by
  rw [snapshot]
  apply Asking.makes_read_bind
  · intro moment failure failed
    split at failed
    · contradiction
    · obtain rfl := Except.error.inj failed
      exact server.reports call _ (fun _ => ApiError.noConfusion) _
  · exact fun moment table after _ => rest moment table after

theorem makes_read (reads : call.gate.changes = false) (read : LiveRead) :
    Asking.Makes first (server.read handle read) (server.Idles call) made :=
  makes_looking (server.reports call) fun _ _ _ _ => Asking.makes_pure fun _ _ => reads

/-- What a reading tool begins with. -/
theorem makes_reading (call : ToolCall) {privilege : Privilege}
    {next : ClusterHandle V → Handling V ToolAnswer}
    (needs : call.gate.needs = some privilege)
    (rest : ∀ handle, Asking.Makes first (next handle) (server.Idles call) made) :
    Asking.Makes first
      (refusing (server.clusterOrOnly call.cluster) >>= fun handle =>
        refusing ((handle.access.check privilege).mapError .access) >>= fun _ => next handle)
      (server.Idles call) made := by
  refine makes_reached fun handle reached => makes_allowed reached ?_ fun _ _ => rest handle
  intro error denied
  unfold ClusterAccess.check at denied
  split at denied
  · contradiction
  · rename_i lacks
    simp [ToolGate.usableOn, needs, lacks]

/-- What a changing tool begins with. -/
theorem makes_writing (call : ToolCall) {privilege : Privilege}
    {next : ClusterHandle V → LiveCluster V → Handling V ToolAnswer}
    (needs : call.gate.needs = some privilege) (changes : call.gate.changes = true)
    (rest : ∀ handle, server.clusterOrOnly call.cluster = .ok handle →
      call.gate.usableOn handle = true →
      Asking.Makes first (next handle handle.cluster) (server.Idles call) made) :
    Asking.Makes first
      (refusing (server.clusterOrOnly call.cluster) >>= fun handle =>
        refusing (handle.writes privilege) >>= next handle)
      (server.Idles call) made := by
  refine makes_reached fun handle reached => makes_allowed reached ?_ fun cluster granted => ?_
  · intro error denied
    rw [handle.writes_eq] at denied
    split at denied
    · split at denied
      · contradiction
      · rename_i lacks
        simp [ToolGate.usableOn, needs, ClusterAccess.allows, lacks]
    · rename_i readOnly
      simp [ToolGate.usableOn, changes, readOnly]
  · obtain ⟨rfl, writable, privileged⟩ := ClusterHandle.of_writes granted
    apply rest handle reached
    simp [ToolGate.usableOn, needs, ClusterAccess.allows, writable, privileged]

/-- What a changing tool ends with, once the limiter let it through. -/
theorem makes_made {request : WriteRequest V} {permit : Nat} {program : Handling V ToolAnswer}
    (reached : server.clusterOrOnly call.cluster = .ok handle)
    (usable : call.gate.usableOn handle = true) (stands : call.request = some request)
    (needs : call.gate.needs = some request.privilege) (changes : call.gate.changes = true)
    (after : first ≤ permit) (live : server.liveCalls permit = true)
    (registered : request.privilege = .registerSchemas →
      server.hasSchemaRegistry handle.access.cluster = true)
    (makes : Asking.Makes (permit + 1) program (server.Idles call)
      (handle.cluster.Made first request)) :
    Asking.Makes (permit + 1) program (server.Idles call) (server.Made first call) :=
  makes.mono (fun _ _ => id) fun _ _ _ later holds => ⟨handle, request, permit, reached, stands,
    needs, changes, usable, after, later, live, registered, holds⟩

theorem makes_topicCreate (request : TopicToCreate) :
    Asking.Makes first (server.klensTopicCreate request) (server.Idles (.topicCreate request))
      (server.Made first (.topicCreate request)) := by
  refine makes_writing (.topicCreate request) rfl rfl fun handle reached usable => ?_
  apply makes_checked
  · intro error refused
    unfold CreateTopic.intoTopic at refused
    split at refused
    · obtain rfl := Except.error.inj refused
      exact fun _ => ApiError.noConfusion
    · contradiction
  · intro topic accepted
    unfold CreateTopic.intoTopic at accepted
    split at accepted
    · contradiction
    · rename_i legal
      obtain rfl := Except.ok.inj accepted
      refine makes_liveCall fun permit after live => ?_
      refine makes_made reached usable rfl rfl rfl after live nofun ?_
      rw [LiveCluster.createTopic, LiveCluster.take]
      refine makes_sending_bind (fun _ => ?_) (fun _ _ => ⟨rfl, rfl⟩) fun _ _ => .createTopic legal
      dsimp only [LiveCluster.outcome]
      cases handle.cluster.takes _ _ <;> rfl

theorem makes_recordProduce (request : RecordToProduce) :
    Asking.Makes first (server.klensRecordProduce request) (server.Idles (.recordProduce request))
      (server.Made first (.recordProduce request)) := by
  have reports := server.reports (.recordProduce request)
  refine makes_writing (.recordProduce request) rfl rfl fun handle reached usable => ?_
  refine makes_writablePartition reports fun checked _ _ => ?_
  refine makes_liveCall fun permit after live => ?_
  refine makes_made reached usable rfl rfl rfl (by omega) live nofun ?_
  dsimp only [ProduceRecord.intoRecord]
  rw [Asking.bind_assoc]
  refine makes_intoPart reports fun key later since keys => ?_
  rw [Asking.bind_assoc]
  refine makes_intoPart reports fun value next past values => ?_
  rw [Asking.pure_bind, LiveCluster.produce, Asking.bind_assoc]
  refine makes_writablePartition reports fun last done shows => ?_
  refine makes_sending (fun _ => rfl) fun final reached => ?_
  exact .produce ((shows final reached).since (by omega))
    (LiveCluster.spells_since (keys final (by omega)) (by omega))
    (LiveCluster.spells_since (values final (by omega)) (by omega))

theorem unregistered {error : ApiError}
    (failed : server.requireSchemaRegistry handle = .error error) :
    ∀ denied, error ≠ .access denied := by
  dsimp only [requireSchemaRegistry] at failed
  split at failed
  · contradiction
  · obtain rfl := Except.error.inj failed
    exact fun _ => ApiError.noConfusion

theorem makes_schemaRegister (request : SchemaToRegister) :
    Asking.Makes first (server.klensSchemaRegister request)
      (server.Idles (.schemaRegister request)) (server.Made first (.schemaRegister request)) := by
  refine makes_writing (.schemaRegister request) rfl rfl fun handle reached usable => ?_
  refine makes_checked (fun _ => unregistered) fun _ found => ?_
  refine makes_liveCall fun permit after live => ?_
  refine makes_made reached usable rfl rfl rfl after live (fun _ => ?_) ?_
  · by_contra none
    rw [requireSchemaRegistry, if_neg none] at found
    contradiction
  · exact makes_sending (fun _ => rfl) fun _ _ => .registerSchema

theorem makes_recordGet (address : RecordAddress) :
    Asking.Makes first (server.klensRecordGet address)
      (server.Idles (.recordGet address)) made := by
  refine makes_reading (.recordGet address) rfl fun handle => ?_
  split
  · exact fun _ _ => .inl ⟨rfl, server.reports _ _ (fun _ => ApiError.noConfusion) _⟩
  · exact makes_liveCall fun _ _ _ => makes_read rfl _

/-- A query that does not hold up is not a matter of access. -/
theorem unreadable_query {read : RecordsQuery} {error : ApiError}
    (failed : read.query server.builds = .error error) : ∀ denied, error ≠ .access denied := by
  obtain misplaced | ⟨start, _, rest⟩ := Except.bind_error failed
  · unfold RecordsQuery.start at misplaced
    split at misplaced
    · contradiction
    · split at misplaced
      · contradiction
      · obtain rfl := Except.error.inj misplaced
        exact fun _ => ApiError.noConfusion
    · obtain rfl := Except.error.inj misplaced
      exact fun _ => ApiError.noConfusion
  · obtain invalid | ⟨query, _, settled⟩ := Except.bind_error rest
    · obtain ⟨other, rfl⟩ := Except.mapError_error invalid
      exact fun _ => ApiError.noConfusion
    · split at settled
      · split at settled <;> contradiction
      · contradiction

theorem makes_recordsRead (read : RecordsQuery) :
    Asking.Makes first (server.klensRecordsRead read) (server.Idles (.recordsRead read)) made := by
  refine makes_reading (.recordsRead read) rfl fun handle => ?_
  exact makes_checked (fun _ => unreadable_query) fun query _ =>
    makes_liveCall fun _ _ _ => makes_read rfl _

theorem makes_schemaGet (query : SchemaQuery) :
    Asking.Makes first (server.klensSchemaGet query) (server.Idles (.schemaGet query)) made := by
  refine makes_reading (.schemaGet query) rfl fun handle => ?_
  refine makes_checked (fun _ => unregistered) fun _ _ => ?_
  have rest (first : Nat) (version : Int) : Asking.Makes first
      (server.liveCall >>= fun _ => server.read handle (.schema query.subject version))
      (server.Idles (.schemaGet query)) made := makes_liveCall fun _ _ _ => makes_read rfl _
  split
  · split
    · exact fun _ _ => .inl ⟨rfl, server.reports _ _ (fun _ => ApiError.noConfusion) _⟩
    · exact rest first _
  · refine makes_snapshot fun moment _ _ => ?_
    exact makes_looking (server.reports _) fun later version _ _ => rest (later + 1) version

theorem makes_aclsList (query : AclsQuery) :
    Asking.Makes first (server.klensAclsList query) (server.Idles (.aclsList query)) made := by
  refine makes_reading (.aclsList query) rfl fun handle => ?_
  exact makes_snapshot fun _ _ _ => Asking.makes_pure fun _ _ => rfl

theorem makes_tool (server : KlensMcp V) (call : ToolCall) :
    Asking.Makes first (server.callTool call) (server.Idles call) (server.Made first call) := by
  cases call with
  | topicCreate request => exact makes_topicCreate request
  | recordProduce request => exact makes_recordProduce request
  | schemaRegister request => exact makes_schemaRegister request
  | recordGet address => exact makes_recordGet address
  | recordsRead read => exact makes_recordsRead read
  | schemaGet query => exact makes_schemaGet query
  | aclsList query => exact makes_aclsList query

/-- Whatever a call of a tool does and finds meanwhile, it changes nothing, or it makes one
change: the one it stands for, of a kind that the configuration names, on a cluster that the
configuration covers and that takes changes, once the limiter has let the call through, and
only where the same request over HTTP would make it. A tool that only reads changes nothing,
and one that changes has no answer but that of its change. -/
theorem tools_change_as_configured (server : KlensMcp V) (call : ToolCall)
    (asked : Asked (KafkaCall V)) :
    let done := server.callTool call asked
    (done.2.calls = asked.calls ∧ done.1 ≠ .error .panicked ∧
      (done.1.isOk = true → call.gate.annotations.readOnly = true)) ∨
    ∃ moment change handle request permit,
      done.2.calls = asked.calls ++ [(moment, change)] ∧
      call.gate.annotations.readOnly = false ∧ call.request = some request ∧
      server.clusterOrOnly call.cluster = .ok handle ∧ handle.cluster.writable = true ∧
      (∀ names, server.mcp.clusters = some names → handle.access.cluster ∈ names) ∧
      request.privilege ∈ server.mcp.privileges.val ∧ request.privilege ∈ writes ∧
      asked.moment ≤ permit ∧ permit < moment ∧ server.liveCalls permit = true ∧
      (request.privilege = .registerSchemas →
        server.hasSchemaRegistry handle.access.cluster = true) ∧
      handle.cluster.Made asked.moment request moment change done.1 := by
  intro done
  obtain ⟨quiet, idle⟩ | ⟨moment, change, _, calls, handle, request, permit, reached, stands, needs,
    changes, usable, after, before, live, registered, made⟩ :=
      makes_tool server call asked (Nat.le_refl asked.moment)
  · refine .inl ⟨quiet, ?_, ?_⟩
    · intro panicked
      have idle : server.Idles call done.2.moment done.1 := idle
      rw [panicked] at idle
      exact idle.1 rfl
    · intro answered
      have idle : server.Idles call done.2.moment done.1 := idle
      cases result : done.1 with
      | error failure =>
        rw [result] at answered
        contradiction
      | ok answer =>
        rw [result] at idle
        rw [ToolGate.annotations, show call.gate.changes = false from idle]
        rfl
  · obtain ⟨held, covered⟩ := configured_of_reached reached
    have kind : request.privilege ∈ writes := by
      simpa [ToolGate.changes, needs] using changes
    rw [ToolGate.usableOn, Bool.and_eq_true, Bool.or_eq_true, changes, needs] at usable
    obtain ⟨allowed, writable⟩ := usable
    refine .inr ⟨moment, change, handle, request, permit, calls, ?_, stands, reached, ?_, covered,
      ?_, kind, after, before, live, registered, made⟩
    · rw [ToolGate.annotations, changes]
      rfl
    · simpa using writable
    · simpa [ClusterAccess.allows, held] using allowed

section
variable {privilege : Privilege}

/-- The error of a call on a cluster where the tool is not usable. -/
def denial (call : ToolCall) (privilege : Privilege) (handle : ClusterHandle V) : AccessError :=
  if call.gate.changes = true ∧ handle.cluster.writable = false then
    .readOnlyCluster handle.access.cluster
  else .forbidden handle.access.cluster privilege

theorem denied_writing (call : ToolCall)
    {next : ClusterHandle V → LiveCluster V → Handling V ToolAnswer}
    (reached : server.clusterOrOnly call.cluster = .ok handle)
    (needs : call.gate.needs = some privilege) (changes : call.gate.changes = true)
    (unusable : call.gate.usableOn handle = false) :
    (refusing (server.clusterOrOnly call.cluster) >>= fun handle =>
      refusing (handle.writes privilege) >>= next handle) =
      .lift (.error (.refused (.access (denial call privilege handle)))) := by
  have denied : handle.writes privilege = .error (.access (denial call privilege handle)) := by
    rw [handle.writes_eq, denial, changes]
    by_cases writable : handle.cluster.writable = true
    · have lacks : privilege ∉ handle.access.privileges := by
        simpa [ToolGate.usableOn, needs, writable, ClusterAccess.allows] using unusable
      simp [writable, lacks]
    · simp [writable]
  have entered : (refusing (.ok handle) >>= fun handle =>
      refusing (handle.writes privilege) >>= next handle) =
      refusing (handle.writes privilege) >>= next handle := rfl
  rw [reached, entered, denied]
  rfl

theorem denied_reading (call : ToolCall) {next : ClusterHandle V → Handling V ToolAnswer}
    (reached : server.clusterOrOnly call.cluster = .ok handle)
    (needs : call.gate.needs = some privilege) (reads : call.gate.changes = false)
    (unusable : call.gate.usableOn handle = false) :
    (refusing (server.clusterOrOnly call.cluster) >>= fun handle =>
      refusing ((handle.access.check privilege).mapError .access) >>= fun _ => next handle) =
      .lift (.error (.refused (.access (denial call privilege handle)))) := by
  have lacks : handle.access.allows privilege = false := by
    simpa [ToolGate.usableOn, needs, reads] using unusable
  have denied : handle.access.check privilege = .error (denial call privilege handle) := by
    simp [ClusterAccess.check, lacks, denial, reads]
  have entered : (refusing (.ok handle) >>= fun handle =>
      refusing ((handle.access.check privilege).mapError .access) >>= fun _ => next handle) =
      refusing ((handle.access.check privilege).mapError .access) >>= fun _ => next handle := rfl
  rw [reached, entered, denied]
  rfl

theorem callTool_denied (call : ToolCall)
    (reached : server.clusterOrOnly call.cluster = .ok handle)
    (needs : call.gate.needs = some privilege) (unusable : call.gate.usableOn handle = false) :
    server.callTool call = .lift (.error (.refused (.access (denial call privilege handle)))) := by
  cases call with
  | topicCreate request =>
    obtain rfl := Option.some.inj needs
    exact denied_writing (.topicCreate request) reached rfl rfl unusable
  | recordProduce request =>
    obtain rfl := Option.some.inj needs
    exact denied_writing (.recordProduce request) reached rfl rfl unusable
  | schemaRegister request =>
    obtain rfl := Option.some.inj needs
    exact denied_writing (.schemaRegister request) reached rfl rfl unusable
  | recordGet address =>
    obtain rfl := Option.some.inj needs
    exact denied_reading (.recordGet address) reached rfl rfl unusable
  | recordsRead read =>
    obtain rfl := Option.some.inj needs
    exact denied_reading (.recordsRead read) reached rfl rfl unusable
  | schemaGet query =>
    obtain rfl := Option.some.inj needs
    exact denied_reading (.schemaGet query) reached rfl rfl unusable
  | aclsList query =>
    obtain rfl := Option.some.inj needs
    exact denied_reading (.aclsList query) reached rfl rfl unusable

/-- A tool is listed where some cluster that the caller sees has it. -/
theorem mem_listTools (server : KlensMcp V) (call : ToolCall) :
    call.gate ∈ server.listTools ↔
      ∃ name handle, server.caller.cluster name = .ok handle ∧
        call.gate.usableOn handle = true := by
  have listed : call.gate ∈ ToolGate.gates := List.mem_of_find?_eq_some call.named_tool
  have needs : call.gate.needs.isNone = false := by cases call <;> rfl
  simp only [listTools, List.mem_filter, listed, true_and, offers, needs, Bool.false_or,
    List.any_eq_true, visible, List.mem_filterMap]
  constructor
  · rintro ⟨handle, ⟨name, _, found⟩, usable⟩
    cases result : server.caller.cluster name with
    | error error => simp [result, Except.toOption] at found
    | ok other =>
      rw [result] at found
      obtain rfl : other = handle := Option.some.inj found
      exact ⟨name, other, result, usable⟩
  · rintro ⟨name, handle, reached, usable⟩
    refine ⟨handle, ⟨name, ?_, by rw [reached]; rfl⟩, usable⟩
    have found : server.clusters name = some handle.cluster := (Session.of_cluster reached).2
    rw [server.configured, found]
    rfl

end

/-- What `klens_access_explain` tells of a tool that needs a privilege is what a call meets on
that cluster: one that is available is never denied, and one that is not is denied before
anything is read, for the privilege that it is told to need or since the cluster takes no
changes. Such a tool is listed just where it is available on some cluster. -/
theorem rights_told (server : KlensMcp V) (call : ToolCall) {handle : ClusterHandle V}
    (reached : server.clusterOrOnly call.cluster = .ok handle) :
    ∃ gate, ToolGate.named call.tool = some gate ∧
      (gate ∈ server.listTools ↔ ∃ name other, server.caller.cluster name = .ok other ∧
        ∃ right ∈ gate.rights other, right.part = none ∧ right.available = true) ∧
      ∃ right ∈ gate.rights handle, right.name = call.tool ∧ right.part = none ∧
        (right.available = true → ∀ asked denied,
          (server.callTool call asked).1 ≠ .error (.refused (.access denied))) ∧
        (right.available = false → ∃ denied,
          (∀ asked, server.callTool call asked = (.error (.refused (.access denied)), asked)) ∧
          (denied = .readOnlyCluster handle.access.cluster ∧ handle.cluster.writable = false ∧
              gate.annotations.readOnly = false ∨
            ∃ privilege, denied = .forbidden handle.access.cluster privilege ∧
              right.needs = some privilege)) := by
  obtain ⟨privilege, needs⟩ : ∃ privilege, call.gate.needs = some privilege := by
    cases call <;> exact ⟨_, rfl⟩
  have same : call.gate.name = call.tool := by cases call <;> rfl
  have own (other : ClusterHandle V) : ∀ right ∈ call.gate.rights other, right.part = none →
      right.available = call.gate.usableOn other := by
    have plain : call.gate.sections = [] := by cases call <;> rfl
    intro right listed _
    rw [ToolGate.rights, plain] at listed
    rw [List.mem_singleton.mp listed]
  let right : ToolRights :=
    { ToolRights.check handle.access call.gate.name none call.gate.needs with
      available := call.gate.usableOn handle }
  refine ⟨call.gate, call.named_tool, ?_, right, List.mem_cons_self, same, rfl, ?_, ?_⟩
  · rw [mem_listTools]
    constructor
    · rintro ⟨name, other, reached, usable⟩
      exact ⟨name, other, reached, _, List.mem_cons_self, rfl, usable⟩
    · rintro ⟨name, other, reached, right, listed, whole, available⟩
      exact ⟨name, other, reached, (own other right listed whole).symm.trans available⟩
  · intro available asked denied refused
    obtain ⟨_, idle⟩ | ⟨_, _, _, _, _, _, _, _, _, _, _, _, _, _, _, _, _, answered⟩ :=
      makes_tool server call asked (Nat.le_refl asked.moment)
    · rw [refused] at idle
      have unusable := idle.2 denied rfl handle reached
      exact absurd (unusable.symm.trans available) Bool.false_ne_true
    · rw [refused] at answered
      obtain ⟨error, same⟩ := Except.mapError_error answered.symm
      exact ApiError.noConfusion (Failure.refused.inj same)
  · intro unavailable
    refine ⟨denial call privilege handle, fun asked => ?_, ?_⟩
    · rw [callTool_denied call reached needs unavailable]
      rfl
    · unfold denial
      split
      · rename_i readOnly
        refine .inl ⟨rfl, readOnly.2, ?_⟩
        rw [ToolGate.annotations, readOnly.1]
        rfl
      · rename_i writable
        have lacks : handle.access.allows privilege = false := by
          by_contra allowed
          apply writable
          have unusable : call.gate.usableOn handle = false := unavailable
          have allowed : handle.access.allows privilege = true := by simpa using allowed
          simpa [ToolGate.usableOn, needs, allowed] using unusable
        refine .inr ⟨privilege, rfl, ?_⟩
        simp [right, ToolRights.check, needs, lacks]

namespace Sample
open App.Session.Sample (cluster)

theorem used_records : ∀ privilege ∈ [Privilege.records], privilege ∈ Mcp.reads ++ writes := by
  decide

/-- The one cluster there is. -/
def clusters (name : String) : Option (LiveCluster Nat) :=
  if name = "local" then some (cluster none) else none

theorem configured_clusters (name : String) : name ∈ ["local"] ↔ (clusters name).isSome = true := by
  by_cases same : name = "local" <;> simp [clusters, same]

/-- A server that may read records and change nothing. -/
def reader : KlensMcp Nat where
  mcp := ⟨⟨[.records], used_records⟩, none⟩
  names := ["local"]
  clusters
  configured := configured_clusters
  hasSchemaRegistry := fun _ => false
  liveCalls := fun _ => true
  acls := fun _ _ => none
  lastError := fun _ _ _ => none
  reads := fun _ _ _ => .ok ()
  builds := fun _ => true

def create : ToolCall := .topicCreate ⟨some "local", "orders", none, none, ∅⟩

def reached : ClusterHandle Nat :=
  { access := ⟨"local", [Privilege.records].toFinset,
      [⟨"mcp", [Privilege.records].toFinset, .all⟩]⟩
    cluster := cluster none }

end Sample

theorem rights_told_reader :
    ∃ gate, ToolGate.named "klens_topic_create" = some gate ∧
      ∃ right ∈ gate.rights Sample.reached, right.part = none ∧
        (right.available = false → ∃ denied, ∀ asked,
          Sample.reader.callTool Sample.create asked =
            (.error (.refused (.access denied)), asked)) := by
  have seen : Sample.reader.clusterOrOnly Sample.create.cluster = .ok Sample.reached := rfl
  obtain ⟨gate, named, _, right, listed, _, whole, _, denied⟩ := rights_told _ _ seen
  exact ⟨gate, named, right, listed, whole, fun unavailable =>
    (denied unavailable).imp fun _ met => met.1⟩

end KlensMcp
end Klens.App.Mcp
