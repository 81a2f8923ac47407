import Klens.App.Pages
import Klens.App.StreamProofs
import Klens.Store.DiffProofs

/-! A page that a browser reads again whenever it is told to shows the store as
it is, once nothing is on its way. -/
namespace Klens.App
open Klens.Auth Klens.Ingest Klens.Lib Klens.Store Std

namespace PageStore
variable {Rate A Q S : Type} (store : PageStore Rate A Q S)

def topology : Topology := store.cluster.topology.load.getD .empty

def configsOf (name : String) : Option (List ConfigEntry) :=
  store.cluster.configs.load.bind (·.get name)

def storageOf (name : String) : Option (ExtTreeMap Int PartitionStorage) :=
  store.cluster.logDirs.load.bind (·.partitions[name]?)

def dirsOf (broker : Int) : Option (List LogDirInfo) := store.cluster.logDirs.load.bind (·.broker broker)

def subjects : ExtTreeMap String SubjectInfo :=
  (store.cluster.subjects.load.map SubjectTable.subjects).getD ∅

def idsOf (subject : String) : Option (ExtTreeMap Int Int) :=
  store.cluster.schemaIds.load.bind (·.subjects[subject]?)

/-- Two stores agree on all that a page's told columns are read from. -/
def Agree (page : Page) (first second : PageStore Rate A Q S) : Prop :=
  match page with
  | .topicRows => first.topology.topics = second.topology.topics ∧
      first.configsOf = second.configsOf ∧ first.storageOf = second.storageOf
  | .topic name => first.topology.topics[name]? = second.topology.topics[name]? ∧
      first.configsOf name = second.configsOf name ∧ first.storageOf name = second.storageOf name
  | .topicConfigs name => first.configsOf name = second.configsOf name
  | .brokerRows => first.topology.brokers = second.topology.brokers ∧
      first.topology.controller = second.topology.controller ∧ first.dirsOf = second.dirsOf
  | .subjectRows => first.subjects = second.subjects ∧ first.idsOf = second.idsOf
  | .acls => first.acls.load = second.acls.load
  | .quotas => first.quotas.load = second.quotas.load
  | .scramUsers => first.scramUsers.load = second.scramUsers.load

theorem Agree.refl (page : Page) : Agree page store store := by
  cases page <;> simp [Agree]

end PageStore

section Reads
variable {Rate A Q S : Type} {first second : PageStore Rate A Q S}

theorem storage_topic (table : Option LogDirTable) (name : String) :
    table.bind (·.topic name) = (table.bind (·.partitions[name]?)).map fun partitions =>
      partitions.toList.foldl (fun total entry => total.add entry.2) .zero := by
  cases table <;> rfl

theorem storage_partition (table : Option LogDirTable) (name : String) (partition : Int) :
    table.bind (·.partition name partition) =
      (table.bind (·.partitions[name]?)).bind (·[partition]?) := by
  cases table <;> rfl

theorem brokerRows_told (store : PageStore Rate A Q S) :
    store.brokerRows.map BrokerRow.told = store.topology.brokers.toList.map fun entry =>
      { id := entry.1
        host := entry.2.host
        port := entry.2.port
        rack := entry.2.rack
        controller := decide (store.topology.controller = some entry.1)
        partitionCount := 0
        leaderCount := 0
        sizeBytes := (store.dirsOf entry.1).map fun dirs => (dirs.map LogDirInfo.sizeBytes).sum
        logDirs := (store.dirsOf entry.1).getD [] : BrokerRow } := by
  unfold PageStore.brokerRows PageStore.topology
  cases store.cluster.topology.load with
  | none => simp [Topology.empty]
  | some topology => simp [BrokerRow.all, BrokerRow.row, BrokerRow.told, PageStore.dirsOf]

theorem subjectRows_eq (store : PageStore Rate A Q S) :
    store.subjectRows = store.subjects.toList.map fun entry =>
      { subject := entry.1
        info := entry.2
        versions := entry.2.versions.map fun version =>
          { version
            id := if version = entry.2.latestVersion then some entry.2.id
              else (store.idsOf entry.1).bind (·[version]?) } } := by
  unfold PageStore.subjectRows PageStore.subjects
  cases store.cluster.subjects.load with
  | none => simp
  | some subjects =>
    simp [SubjectRow.all, SubjectRow.row, SubjectRow.version, PageStore.idsOf, SchemaIdTable.get,
      Option.bind_assoc]

variable [Zero Rate]

theorem told_topicRow {first second : TopicLanes} {name : String} (topic : TopicInfo)
    (rate other : Rate)
    (configs : first.configs.bind (·.get name) = second.configs.bind (·.get name))
    (storage : first.logDirs.bind (·.partitions[name]?) = second.logDirs.bind (·.partitions[name]?)) :
    TopicRow.told (.project name topic first rate) =
      TopicRow.told (.project name topic second other) := by
  simp only [TopicRow.told, TopicRow.project, storage_topic, configs, storage]

theorem told_topicDetail {first second : TopicLanes} {name : String} (topic : TopicInfo)
    (rate other : Rate)
    (configs : first.configs.bind (·.get name) = second.configs.bind (·.get name))
    (storage : first.logDirs.bind (·.partitions[name]?) = second.logDirs.bind (·.partitions[name]?)) :
    TopicDetail.told (.project name topic first rate) =
      TopicDetail.told (.project name topic second other) := by
  simp only [TopicDetail.told, TopicDetail.project, storage_topic, configs, storage, List.map_map,
    List.any_map]
  have partitions : PartitionRow.told ∘ partitionRow first name =
      PartitionRow.told ∘ partitionRow second name := by
    funext partition
    simp only [Function.comp_apply, PartitionRow.told, partitionRow, storage_partition, storage]
  rw [partitions]
  rfl

theorem topicRows_told (store : PageStore Rate A Q S) :
    store.cluster.topicRows.map TopicRow.told = store.topology.topics.toList.map fun entry =>
      TopicRow.told (.project entry.1 entry.2 (store.cluster.topicLanes store.topology)
        (store.cluster.rates[entry.1]?.getD 0)) := by
  unfold ClusterStore.topicRows PageStore.topology
  cases store.cluster.topology.load with
  | none => simp [Topology.empty]
  | some topology => simp

theorem topicDetail_told (store : PageStore Rate A Q S) (name : String) :
    (store.cluster.topicDetail name).map TopicDetail.told =
      store.topology.topics[name]?.map fun topic =>
        TopicDetail.told (.project name topic (store.cluster.topicLanes store.topology)
          (store.cluster.rates[name]?.getD 0)) := by
  unfold ClusterStore.topicDetail PageStore.topology
  cases store.cluster.topology.load with
  | none => simp [Topology.empty]
  | some topology =>
    cases found : topology.topics[name]? <;> simp [found, ClusterStore.topicLanes]

theorem told_read (page : Page) (agree : PageStore.Agree page first second) :
    (first.read page).told = (second.read page).told := by
  cases page with
  | topicRows =>
    obtain ⟨topics, configs, storage⟩ := agree
    simp only [PageStore.read, Content.told, topicRows_told, topics]
    congr 1
    refine List.map_congr_left fun entry _ => ?_
    exact told_topicRow entry.2 _ _ (congrFun configs entry.1) (congrFun storage entry.1)
  | topic name =>
    obtain ⟨topics, configs, storage⟩ := agree
    simp only [PageStore.read, Content.told, topicDetail_told, topics]
    congr 1
    refine Option.map_congr fun topic _ => ?_
    exact told_topicDetail topic _ _ configs storage
  | topicConfigs name => exact congrArg Content.topicConfigs agree
  | brokerRows =>
    obtain ⟨brokers, controller, dirs⟩ := agree
    simp only [PageStore.read, Content.told, brokerRows_told, brokers, controller, dirs]
  | subjectRows =>
    obtain ⟨subjects, ids⟩ := agree
    simp only [PageStore.read, Content.told, subjectRows_eq, subjects, ids]
  | acls => exact congrArg Content.acls agree
  | quotas => exact congrArg Content.quotas agree
  | scramUsers => exact congrArg Content.scramUsers agree

end Reads

/-- Whether a stream of this scope is told of all that makes a page old. -/
def Scope.covers (scope : Scope) : Page → Bool
  | .topicRows | .brokerRows => scope.topic.isNone && scope.group.isNone
  | .topic name => (scope.topic.isNone && scope.group.isNone) || scope.topic = some name
  | .topicConfigs name => scope.topic.isNone || scope.topic = some name
  | .subjectRows | .acls | .quotas | .scramUsers => true

/-- A change that a stream of this scope tells a browser to read the page again for. -/
def Scope.names {Rate : Type} (scope : Scope) (page : Page) (change : Change Rate) : Prop :=
  ∃ update ∈ scope.updates change, update.invalidates page = true

section Polls
variable {Rate : Type} {scope : Scope}

theorem poll_cases {T D : Type} {diff : Option T → T → Option D} {lane after : Lane T}
    {fetch : Fetch T} {delta : Option D} (polled : poll diff lane fetch = (after, delta)) :
    after.load = lane.load ∨ ∃ next, after.load = some next ∧ delta = diff lane.load next := by
  unfold poll at polled
  cases result : fetch.result with
  | error error =>
    rw [result] at polled
    exact .inl (congrArg (Lane.load ·.1) polled.symm)
  | ok next =>
    rw [result] at polled
    dsimp only at polled
    split at polled
    · exact .inr ⟨next, congrArg (Lane.load ·.1) polled.symm, congrArg Prod.snd polled.symm⟩
    · exact .inl (congrArg (Lane.load ·.1) polled.symm)

/-- What a page reads of two topologies is the same. -/
def Page.AgreeOn (page : Page) (first second : Topology) : Prop :=
  match page with
  | .topicRows => first.topics = second.topics
  | .topic name => first.topics[name]? = second.topics[name]?
  | .brokerRows => first.brokers = second.brokers ∧ first.controller = second.controller
  | _ => True

/-- The topics a delta lists, in the order the browser reads its lists. -/
def topicNames (delta : TopologyDelta) : List String :=
  delta.addedTopics ++ delta.removedTopics ++ delta.changedTopics

theorem between_eq_some {previous : Option Topology} {next : Topology} {delta : TopologyDelta}
    (between : TopologyDelta.between previous next = some delta) :
    (∀ name, name ∈ topicNames delta ↔
      (previous.getD .empty).topics[name]? ≠ next.topics[name]?) ∧
    (delta.brokersChanged = true ↔ (previous.getD .empty).brokers ≠ next.brokers ∨
      (previous.getD .empty).controller ≠ next.controller) := by
  simp only [TopologyDelta.between] at between
  split at between
  · contradiction
  · obtain rfl := Option.some.inj between
    refine ⟨fun name => ?_, by simp⟩
    rw [topicNames, List.mem_append, List.mem_append, or_assoc]
    exact mem_diffMaps

theorem names_topics {delta : TopologyDelta} {name : String} {page : Page}
    (covered : scope.covers page = true) (asked : page = .topicRows ∨ page = .topic name)
    (listed : name ∈ topicNames delta) : scope.names page (.topology delta : Change Rate) := by
  have touches : delta.touchesTopic name = true := by
    simpa [topicNames, TopologyDelta.touchesTopic, or_assoc] using listed
  have relevant : scope.relevant delta = true := by
    obtain ⟨topic, group⟩ := scope
    rcases asked with rfl | rfl <;> cases topic <;> cases group <;>
      simp_all [Scope.covers, Scope.relevant]
  refine ⟨_, by rw [Scope.updates, if_pos relevant]; exact List.mem_singleton_self _, ?_⟩
  rcases asked with rfl | rfl
  · exact decide_eq_true (List.length_pos_of_mem listed)
  · exact List.contains_iff_mem.mpr listed

theorem between_names (previous : Option Topology) (next : Topology) {page : Page}
    (covered : scope.covers page = true) :
    page.AgreeOn (previous.getD .empty) next ∨ ∃ delta,
      TopologyDelta.between previous next = some delta ∧
      scope.names page (.topology delta : Change Rate) := by
  cases between : TopologyDelta.between previous next with
  | none =>
    obtain ⟨brokers, controller, topics, _⟩ := TopologyDelta.between_eq_none.mp between
    left
    cases page <;> simp [Page.AgreeOn, brokers, controller, topics]
  | some delta =>
    obtain ⟨listed, moved⟩ := between_eq_some between
    rw [or_iff_not_imp_left]
    intro differ
    refine ⟨delta, rfl, ?_⟩
    cases page with
    | topicRows =>
      have apart : ∃ name, (previous.getD .empty).topics[name]? ≠ next.topics[name]? :=
        not_forall.mp fun same => differ (ExtTreeMap.ext_getElem? same)
      obtain ⟨name, apart⟩ := apart
      exact names_topics covered (.inl rfl) ((listed name).mpr apart)
    | topic name => exact names_topics covered (.inr rfl) ((listed name).mpr differ)
    | brokerRows =>
      have changed := moved.mpr (not_and_or.mp differ)
      have relevant : scope.relevant delta = true := by
        obtain ⟨topic, group⟩ := scope
        cases topic <;> cases group <;> simp_all [Scope.covers, Scope.relevant]
      refine ⟨_, by rw [Scope.updates, if_pos relevant]; exact List.mem_singleton_self _, ?_⟩
      exact changed
    | topicConfigs name => exact absurd trivial differ
    | subjectRows => exact absurd trivial differ
    | acls => exact absurd trivial differ
    | quotas => exact absurd trivial differ
    | scramUsers => exact absurd trivial differ

theorem configs_names (Rate : Type) (previous : Option ConfigTable) (next : ConfigTable) {name : String}
    (differ : previous.bind (·.get name) ≠ next.get name) {page : Page}
    (covered : scope.covers page = true)
    (asked : page = .topicRows ∨ page = .topic name ∨ page = .topicConfigs name) :
    ∃ delta, ConfigsDelta.between previous next = some delta ∧
      scope.names page (.configs delta : Change Rate) := by
  have listed : name ∈ ((ConfigsDelta.between previous next).map ConfigsDelta.topics).getD [] := by
    rw [ConfigsDelta.topics_between, (listsMoved_sortDedup _ _).mem_iff]
    cases previous <;> simpa [ConfigTable.get] using differ
  cases between : ConfigsDelta.between previous next with
  | none => simp [between] at listed
  | some delta =>
    simp only [between, Option.map_some, Option.getD_some] at listed
    refine ⟨delta, rfl, ?_⟩
    obtain ⟨topic, group⟩ := scope
    rcases asked with rfl | rfl | rfl <;> cases topic <;>
      simp_all [Scope.covers, Scope.names, Scope.updates, Update.invalidates]

theorem logDirs_names (Rate : Type) (previous : Option LogDirTable) (next : LogDirTable) {name : String}
    (differ : previous.bind (·.partitions[name]?) ≠ next.partitions[name]?) {page : Page}
    (covered : scope.covers page = true) (asked : page = .topicRows ∨ page = .topic name) :
    ∃ delta, LogDirsDelta.between previous next = some delta ∧
      scope.names page (.logDirs delta : Change Rate) := by
  have listed : name ∈ ((LogDirsDelta.between previous next).map LogDirsDelta.topics).getD [] := by
    rw [LogDirsDelta.topics_between, (listsMoved_insertionSort _ _).mem_iff]
    cases previous <;> simpa [LogDirTable.empty] using differ
  cases between : LogDirsDelta.between previous next with
  | none => simp [between] at listed
  | some delta =>
    simp only [between, Option.map_some, Option.getD_some] at listed
    have some_ := List.length_pos_of_mem listed
    refine ⟨delta, rfl, ?_⟩
    obtain ⟨topic, group⟩ := scope
    rcases asked with rfl | rfl <;> cases topic <;>
      simp_all [Scope.covers, Scope.names, Scope.updates, Update.invalidates,
        LogDirsDelta.touchesTopic]

theorem brokerDirs_names (Rate : Type) (previous : Option LogDirTable) (next : LogDirTable)
    (differ : (fun id => previous.bind (·.broker id)) ≠ next.broker)
    (covered : scope.covers .brokerRows = true) :
    ∃ delta, LogDirsDelta.between previous next = some delta ∧
      scope.names .brokerRows (.logDirs delta : Change Rate) := by
  have moved : (previous.getD .empty).brokers ≠ next.brokers := by
    intro same
    refine differ (funext fun id => ?_)
    rw [LogDirTable.broker, ← same]
    cases previous <;> simp [LogDirTable.broker, LogDirTable.empty]
  refine ⟨{ topics := _, brokersChanged := true }, by simp [LogDirsDelta.between, moved]; rfl, ?_⟩
  obtain ⟨topic, group⟩ := scope
  cases topic <;> cases group <;>
    simp_all [Scope.covers, Scope.names, Scope.updates, Update.invalidates]

theorem subjects_of {V : Type} [DecidableEq V] {previous : Option (ExtTreeMap String V)}
    {next : ExtTreeMap String V} (differ : previous.getD ∅ ≠ next) :
    ∃ delta, SubjectsDelta.of previous next = some delta :=
  Option.ne_none_iff_exists'.mp fun none => differ (SubjectsDelta.of_eq_none.mp none)

variable {A Q S : Type} (store : PageStore Rate A Q S) {page : Page}

theorem agree_topology {lane : Lane Topology}
    (same : page.AgreeOn store.topology (lane.load.getD .empty)) :
    PageStore.Agree page store
      { store with cluster := { store.cluster with topology := lane } } := by
  cases page with
  | topicRows => exact ⟨same, rfl, rfl⟩
  | topic name => exact ⟨same, rfl, rfl⟩
  | topicConfigs name => rfl
  | brokerRows => exact ⟨same.1, same.2, rfl⟩
  | subjectRows => exact ⟨rfl, rfl⟩
  | acls => rfl
  | quotas => rfl
  | scramUsers => rfl

theorem agree_configs {lane : Lane ConfigTable}
    (same : ∀ name, page = .topicRows ∨ page = .topic name ∨ page = .topicConfigs name →
      store.configsOf name = lane.load.bind (·.get name)) :
    PageStore.Agree page store
      { store with cluster := { store.cluster with configs := lane } } := by
  cases page with
  | topicRows => exact ⟨rfl, funext fun name => same name (.inl rfl), rfl⟩
  | topic name => exact ⟨rfl, same name (.inr (.inl rfl)), rfl⟩
  | topicConfigs name => exact same name (.inr (.inr rfl))
  | brokerRows => exact ⟨rfl, rfl, rfl⟩
  | subjectRows => exact ⟨rfl, rfl⟩
  | acls => rfl
  | quotas => rfl
  | scramUsers => rfl

theorem agree_logDirs {lane : Lane LogDirTable}
    (same : ∀ name, page = .topicRows ∨ page = .topic name →
      store.storageOf name = lane.load.bind (·.partitions[name]?))
    (dirs : page = .brokerRows → store.dirsOf = fun id => lane.load.bind (·.broker id)) :
    PageStore.Agree page store
      { store with cluster := { store.cluster with logDirs := lane } } := by
  cases page with
  | topicRows => exact ⟨rfl, rfl, funext fun name => same name (.inl rfl)⟩
  | topic name => exact ⟨rfl, rfl, same name (.inr rfl)⟩
  | topicConfigs name => rfl
  | brokerRows => exact ⟨rfl, rfl, dirs rfl⟩
  | subjectRows => exact ⟨rfl, rfl⟩
  | acls => rfl
  | quotas => rfl
  | scramUsers => rfl

theorem agree_listings {other : PageStore Rate A Q S} (cluster : other.cluster = store.cluster)
    (acls : page = .acls → store.acls.load = other.acls.load)
    (quotas : page = .quotas → store.quotas.load = other.quotas.load)
    (users : page = .scramUsers → store.scramUsers.load = other.scramUsers.load) :
    PageStore.Agree page store other := by
  obtain ⟨lanes, _, _, _⟩ := other
  obtain rfl : lanes = store.cluster := cluster
  cases page with
  | acls => exact acls rfl
  | quotas => exact quotas rfl
  | scramUsers => exact users rfl
  | topicRows | topic name | brokerRows => exact ⟨rfl, rfl, rfl⟩
  | subjectRows => exact ⟨rfl, rfl⟩
  | topicConfigs name => rfl

variable [DecidableEq A] [DecidableEq Q] [DecidableEq S]

/-- A poll leaves what a page reads as it was, or publishes a change that names
the page. -/
def Tells (scope : Scope) (page : Page) (store : PageStore Rate A Q S)
    (after : PageStore Rate A Q S × Option (Change Rate)) : Prop :=
  PageStore.Agree page store after.1 ∨ ∃ change, after.2 = some change ∧ scope.names page change

theorem tells_topology (covered : scope.covers page = true) (fetch : Fetch Topology) :
    Tells scope page store (store.poll (.topology fetch)) := by
  rcases polled : poll TopologyDelta.between store.cluster.topology fetch with ⟨lane, delta⟩
  simp only [PageStore.poll, polled]
  rcases poll_cases polled with kept | ⟨next, committed, rfl⟩
  · refine .inl (agree_topology store ?_)
    rw [kept]
    cases page <;> trivial
  · rcases between_names store.cluster.topology.load next covered with same | ⟨delta, between, named⟩
    · refine .inl (agree_topology store ?_)
      rw [committed]
      exact same
    · exact .inr ⟨.topology delta, by rw [between]; rfl, named⟩

theorem tells_configs (covered : scope.covers page = true) (fetch : Fetch ConfigTable) :
    Tells scope page store (store.poll (.configs fetch)) := by
  rcases polled : poll ConfigsDelta.between store.cluster.configs fetch with ⟨lane, delta⟩
  simp only [PageStore.poll, polled]
  rcases poll_cases polled with kept | ⟨next, committed, rfl⟩
  · exact .inl (agree_configs store fun name _ => by rw [kept]; rfl)
  · by_cases same : ∀ name, page = .topicRows ∨ page = .topic name ∨ page = .topicConfigs name →
        store.configsOf name = next.get name
    · exact .inl (agree_configs store fun name asked => by rw [committed]; exact same name asked)
    · obtain ⟨name, apart⟩ := not_forall.mp same
      obtain ⟨asked, differ⟩ := Classical.not_imp.mp apart
      obtain ⟨delta, between, named⟩ := configs_names Rate _ next differ covered asked
      exact .inr ⟨.configs delta, by rw [between]; rfl, named⟩

theorem tells_logDirs (covered : scope.covers page = true) (fetch : Fetch LogDirTable) :
    Tells scope page store (store.poll (.logDirs fetch)) := by
  rcases polled : poll LogDirsDelta.between store.cluster.logDirs fetch with ⟨lane, delta⟩
  simp only [PageStore.poll, polled]
  rcases poll_cases polled with kept | ⟨next, committed, rfl⟩
  · exact .inl (agree_logDirs store (fun name _ => by rw [kept]; rfl) fun _ => by rw [kept]; rfl)
  · by_cases same : ∀ name, page = .topicRows ∨ page = .topic name →
        store.storageOf name = next.partitions[name]?
    · by_cases dirs : page = .brokerRows → store.dirsOf = next.broker
      · refine .inl (agree_logDirs store (fun name asked => ?_) fun asked => ?_)
        · rw [committed]
          exact same name asked
        · rw [committed]
          exact dirs asked
      · obtain ⟨rfl, differ⟩ := Classical.not_imp.mp dirs
        obtain ⟨delta, between, named⟩ := brokerDirs_names Rate _ next differ covered
        exact .inr ⟨.logDirs delta, by rw [between]; rfl, named⟩
    · obtain ⟨name, apart⟩ := not_forall.mp same
      obtain ⟨asked, differ⟩ := Classical.not_imp.mp apart
      obtain ⟨delta, between, named⟩ := logDirs_names Rate _ next differ covered asked
      exact .inr ⟨.logDirs delta, by rw [between]; rfl, named⟩

theorem tells_subjects (fetch : Fetch SubjectTable) :
    Tells scope page store (store.poll (.subjects fetch)) := by
  rcases polled : poll SubjectsDelta.between store.cluster.subjects fetch with ⟨lane, delta⟩
  simp only [PageStore.poll, polled]
  have agree (same : page = .subjectRows → store.subjects =
      (lane.load.map SubjectTable.subjects).getD ∅) : PageStore.Agree page store
        { store with cluster := { store.cluster with subjects := lane } } := by
    cases page with
    | subjectRows => exact ⟨same rfl, rfl⟩
    | topicRows | topic name | brokerRows => exact ⟨rfl, rfl, rfl⟩
    | topicConfigs name | acls | quotas | scramUsers => rfl
  rcases poll_cases polled with kept | ⟨next, committed, rfl⟩
  · exact .inl (agree fun _ => by rw [kept]; rfl)
  · by_cases same : page = .subjectRows → store.subjects = next.subjects
    · exact .inl (agree fun asked => by rw [committed]; exact same asked)
    · obtain ⟨rfl, differ⟩ := Classical.not_imp.mp same
      obtain ⟨delta, between⟩ := subjects_of differ
      exact .inr ⟨.subjects delta, congrArg (Option.map Change.subjects) between, _,
        List.mem_singleton_self _, rfl⟩

theorem tells_schemaIds (fetch : Fetch SchemaIdTable) :
    Tells scope page store (store.poll (.schemaIds fetch)) := by
  rcases polled : poll SubjectsDelta.ofIds store.cluster.schemaIds fetch with ⟨lane, delta⟩
  simp only [PageStore.poll, polled]
  have agree (same : page = .subjectRows → store.idsOf = fun subject =>
      lane.load.bind (·.subjects[subject]?)) : PageStore.Agree page store
        { store with cluster := { store.cluster with schemaIds := lane } } := by
    cases page with
    | subjectRows => exact ⟨rfl, same rfl⟩
    | topicRows | topic name | brokerRows => exact ⟨rfl, rfl, rfl⟩
    | topicConfigs name | acls | quotas | scramUsers => rfl
  rcases poll_cases polled with kept | ⟨next, committed, rfl⟩
  · exact .inl (agree fun _ => by rw [kept]; rfl)
  · by_cases same : page = .subjectRows → store.idsOf = fun subject => next.subjects[subject]?
    · exact .inl (agree fun asked => by rw [committed]; exact same asked)
    · obtain ⟨rfl, differ⟩ := Classical.not_imp.mp same
      have moved : (store.cluster.schemaIds.load.map SchemaIdTable.subjects).getD ∅ ≠
          next.subjects := by
        intro equal
        refine differ (funext fun subject => ?_)
        rw [PageStore.idsOf, ← equal]
        cases store.cluster.schemaIds.load <;> simp
      obtain ⟨delta, between⟩ := subjects_of moved
      exact .inr ⟨.subjects delta, congrArg (Option.map Change.subjects) between, _,
        List.mem_singleton_self _, rfl⟩

/-- A listing's lane publishes whenever what it shows changes. -/
theorem listing_polled {T : Type} [DecidableEq T] {lane after : Lane T} {fetch : Fetch T}
    {delta : Option Unit} (polled : poll listingDiff lane fetch = (after, delta)) :
    lane.load = after.load ∨ delta = some () := by
  rcases poll_cases polled with kept | ⟨next, committed, rfl⟩
  · exact .inl kept.symm
  · unfold listingDiff
    split
    · exact .inr rfl
    · next same => exact .inl (by rw [committed, not_not.mp same])

/-- Every poll tells of what it changes. -/
theorem tells_poll (covered : scope.covers page = true) (polled : Polled A Q S) :
    Tells scope page store (store.poll polled) := by
  cases polled with
  | topology fetch => exact tells_topology store covered fetch
  | configs fetch => exact tells_configs store covered fetch
  | subjects fetch => exact tells_subjects store fetch
  | schemaIds fetch => exact tells_schemaIds store fetch
  | logDirs fetch => exact tells_logDirs store covered fetch
  | acls fetch =>
    rcases polled : poll listingDiff store.acls fetch with ⟨lane, delta⟩
    simp only [PageStore.poll, polled]
    by_cases asked : page = .acls
    · subst asked
      rcases listing_polled polled with same | rfl
      · exact .inl same
      · exact .inr ⟨.acls, rfl, .acls, List.mem_singleton_self _, rfl⟩
    · exact .inl (agree_listings store rfl (absurd · asked) (fun _ => rfl) fun _ => rfl)
  | quotas fetch =>
    rcases polled : poll listingDiff store.quotas fetch with ⟨lane, delta⟩
    simp only [PageStore.poll, polled]
    by_cases asked : page = .quotas
    · subst asked
      rcases listing_polled polled with same | rfl
      · exact .inl same
      · exact .inr ⟨.quotas, rfl, .quotas, List.mem_singleton_self _, rfl⟩
    · exact .inl (agree_listings store rfl (fun _ => rfl) (absurd · asked) fun _ => rfl)
  | scramUsers fetch =>
    rcases polled : poll listingDiff store.scramUsers fetch with ⟨lane, delta⟩
    simp only [PageStore.poll, polled]
    by_cases asked : page = .scramUsers
    · subst asked
      rcases listing_polled polled with same | rfl
      · exact .inl same
      · exact .inr ⟨.scramUsers, rfl, .scramUsers, List.mem_singleton_self _, rfl⟩
    · exact .inl (agree_listings store rfl (fun _ => rfl) (fun _ => rfl) (absurd · asked))

end Polls

namespace Browsing
variable {Rate A Q S H : Type} {scope : Scope} {page : Page}

/-- Something on its way will make the browser read the page again, or the
stream is lost. -/
inductive Owed (scope : Scope) (page : Page) (browsing : Browsing Rate A Q S H) : Prop where
  | lost (past : ∀ stream ∈ browsing.listening.stream, stream.done = true)
  | unpublished (lane : LaneName) {change : Change Rate}
      (held : browsing.unpublished lane = some change) (named : scope.names page change)
  | unheard (index : Nat) {stream : Stream Rate} {change : Change Rate}
      (listens : browsing.listening.stream = some stream) (ahead : stream.next ≤ index)
      (found : browsing.listening.bus.sent[index]? = some change) (named : scope.names page change)
  | untold (event : SseEvent Rate)
      (member : event ∈ browsing.listening.sent.drop browsing.applied ++ browsing.listening.pending)
      (named : event.invalidates page = true)

/-- Owing nothing, a page's answers are the store as it is. -/
structure Coherent [Zero Rate] (scope : Scope) (page : Page) (browsing : Browsing Rate A Q S H) :
    Prop where
  follows : ∀ stream ∈ browsing.listening.stream, stream.scope = scope ∧
    stream.next ≤ browsing.listening.bus.sent.length
  applied : browsing.applied ≤ browsing.listening.sent.length
  current : (∀ answer ∈ browsing.answers, answer.told = (browsing.store.read page).told) ∨
    browsing.Owed scope page

/-- What is owed does not depend on the store, the sessions or the answers. -/
theorem Owed.same {before after : Browsing Rate A Q S H} (owed : before.Owed scope page)
    (unpublished : after.unpublished = before.unpublished)
    (stream : after.listening.stream = before.listening.stream)
    (bus : after.listening.bus.sent = before.listening.bus.sent)
    (sent : after.listening.sent = before.listening.sent)
    (applied : after.applied = before.applied) : after.Owed scope page := by
  cases owed with
  | lost past => exact .lost (stream ▸ past)
  | unpublished lane held named => exact .unpublished lane (unpublished ▸ held) named
  | unheard index listens ahead found named =>
    exact .unheard index (stream.trans listens) ahead (bus ▸ found) named
  | untold event member named =>
    refine .untold _ ?_ named
    rw [sent, applied, Listening.pending, stream]
    exact member

theorem Quiet.not_owed {browsing : Browsing Rate A Q S H} (quiet : browsing.Quiet) :
    ¬ browsing.Owed scope page := by
  obtain ⟨stream, listens, going, held, last⟩ := quiet.heard
  intro owed
  cases owed with
  | lost past => exact absurd (past stream listens) (by simp [going])
  | unpublished lane held named => exact absurd held (by simp [quiet.published])
  | unheard index same ahead found named =>
    obtain rfl := Option.some.inj (listens.symm.trans same)
    rw [List.getElem?_eq_none (last ▸ ahead)] at found
    contradiction
  | untold event member named =>
    simp [quiet.told, Listening.pending, listens, held] at member

variable {browsing : Browsing Rate A Q S H}

/-- What a turn of the stream leaves owed. -/
theorem owed_take (auth : AuthState H) {stream : Stream Rate}
    (listens : browsing.listening.stream = some stream) (follows : stream.scope = scope)
    (applied : browsing.applied ≤ browsing.listening.sent.length)
    (owed : browsing.Owed scope page) :
    Owed scope page { browsing with
      listening := browsing.listening.take
        (stream.turn auth browsing.listening.sessions browsing.listening.bus) } := by
  obtain ⟨turn, past⟩ | turn | ⟨update, rest, going, held, turn⟩ |
    ⟨missed, _, going, held, behind, within, turn⟩ |
    ⟨change, error, going, held, found, _, turn⟩ | ⟨change, going, held, found, _, turn⟩ :=
    stream.turn_cases auth browsing.listening.sessions browsing.listening.bus
  all_goals rw [turn]; simp only [Listening.take]
  · exact .lost fun _ member => absurd member (Option.not_mem_none _)
  · exact owed
  · cases owed with
    | lost past => exact absurd (past stream listens) (by simp [going])
    | unpublished lane held named => exact .unpublished lane held named
    | unheard index same ahead found named =>
      obtain rfl := Option.some.inj (listens.symm.trans same)
      exact .unheard index rfl ahead found named
    | untold event member named =>
      refine .untold _ ?_ named
      rw [List.drop_append_of_le_length applied]
      simpa [Listening.pending, listens, held, or_assoc] using member
  · refine .untold (.update .resync) ?_ rfl
    rw [List.drop_append_of_le_length applied]
    simp
  · exact .lost (by rintro _ ⟨⟩; rfl)
  · cases owed with
    | lost past => exact absurd (past stream listens) (by simp [going])
    | unpublished lane held named => exact .unpublished lane held named
    | unheard index same ahead found' named =>
      obtain rfl := Option.some.inj (listens.symm.trans same)
      rcases Nat.eq_or_lt_of_le ahead with rfl | later
      · -- The change it just heard: what it tells of it is pending now.
        obtain rfl := Option.some.inj (found.symm.trans found')
        obtain ⟨update, listed, invalidates⟩ := named
        refine .untold (.update update) ?_ invalidates
        simp [Listening.pending, follows, listed]
      · exact .unheard index rfl later found' named
    | untold event member named =>
      refine .untold _ ?_ named
      simp only [Listening.pending, listens, held, List.map_nil, List.append_nil] at member
      exact List.mem_append_left _ member

/-- After a turn the stream is of the same scope and no further than the bus. -/
theorem follows_take (listening : Listening Rate H) (auth : AuthState H) {stream : Stream Rate}
    (listens : listening.stream = some stream) (within : stream.next ≤ listening.bus.sent.length)
    {later : Stream Rate}
    (listens' : (listening.take (stream.turn auth listening.sessions listening.bus)).stream =
      some later) : later.scope = stream.scope ∧ later.next ≤ listening.bus.sent.length := by
  obtain ⟨turn, _⟩ | turn | ⟨_, _, _, _, turn⟩ | ⟨_, _, _, _, _, more, turn⟩ |
    ⟨_, _, _, _, found, _, turn⟩ | ⟨_, _, _, found, _, turn⟩ :=
    stream.turn_cases auth listening.sessions listening.bus
  all_goals rw [turn] at listens'
  · contradiction
  · obtain rfl := Option.some.inj (listens.symm.trans listens')
    exact ⟨rfl, within⟩
  all_goals obtain rfl := Option.some.inj listens'
  · exact ⟨rfl, within⟩
  · exact ⟨rfl, more⟩
  · exact ⟨rfl, (List.getElem?_eq_some_iff.mp found).1⟩
  · exact ⟨rfl, (List.getElem?_eq_some_iff.mp found).1⟩

theorem take_bus (listening : Listening Rate H) (turn : Turn Rate) :
    (listening.take turn).bus = listening.bus := by
  cases turn <;> rfl

theorem sent_le_take (listening : Listening Rate H) (turn : Turn Rate) :
    listening.sent.length ≤ (listening.take turn).sent.length := by
  cases turn <;> simp [Listening.take]

variable [Zero Rate]

theorem Coherent.take (coherent : browsing.Coherent scope page) (auth : AuthState H)
    {stream : Stream Rate} (listens : browsing.listening.stream = some stream) :
    Coherent scope page { browsing with
      listening := browsing.listening.take
        (stream.turn auth browsing.listening.sessions browsing.listening.bus) } := by
  obtain ⟨follows, applied, current⟩ := coherent
  obtain ⟨same, within⟩ := follows stream listens
  refine ⟨?_, applied.trans (sent_le_take _ _),
    current.imp_right (owed_take auth listens same applied)⟩
  intro later listens'
  obtain ⟨kept, inside⟩ := follows_take browsing.listening auth listens within listens'
  exact ⟨kept.trans same, by rw [take_bus]; exact inside⟩

theorem Coherent.store (coherent : browsing.Coherent scope page)
    {store : PageStore Rate A Q S} (agree : PageStore.Agree page browsing.store store) :
    Coherent scope page { browsing with store } := by
  obtain ⟨follows, applied, current⟩ := coherent
  refine ⟨follows, applied, ?_⟩
  rcases current with current | owed
  · exact .inl fun answer member => (current answer member).trans (told_read page agree)
  · exact .inr (owed.same rfl rfl rfl rfl rfl)

theorem Coherent.apply (coherent : browsing.Coherent scope page) {event : SseEvent Rate}
    (found : browsing.listening.sent[browsing.applied]? = some event) :
    Coherent scope page { browsing with
      applied := browsing.applied + 1
      answers := if event.invalidates page then [] else browsing.answers } := by
  obtain ⟨follows, applied, current⟩ := coherent
  obtain ⟨inside, rfl⟩ := List.getElem?_eq_some_iff.mp found
  refine ⟨follows, inside, ?_⟩
  by_cases told : SseEvent.invalidates page browsing.listening.sent[browsing.applied] = true
  · exact .inl fun answer member => absurd member (by simp [told])
  · simp only [told, Bool.false_eq_true, if_false]
    refine current.imp_right fun owed => ?_
    cases owed with
    | lost past => exact .lost past
    | unpublished lane held named => exact .unpublished lane held named
    | unheard index listens ahead found named => exact .unheard index listens ahead found named
    | untold event member named =>
      refine .untold _ ?_ named
      rw [List.drop_eq_getElem_cons inside, List.cons_append, List.mem_cons] at member
      rcases member with rfl | later
      · exact absurd named told
      · exact later

variable [DecidableEq H]

theorem Coherent.stream (coherent : browsing.Coherent scope page) (auth : AuthState H)
    (act : Act Rate) :
    Coherent scope page { browsing with listening := browsing.listening.step auth act } := by
  have ⟨follows, applied, current⟩ := coherent
  cases act with
  | publish change =>
    refine ⟨fun stream listens => ?_, applied, current.imp_right fun owed => ?_⟩
    · obtain ⟨same, within⟩ := follows stream listens
      refine ⟨same, within.trans ?_⟩
      simp [Listening.step, Lib.Broadcast.send]
    · cases owed with
      | lost past => exact .lost past
      | unpublished lane held named => exact .unpublished lane held named
      | unheard index listens ahead found named =>
        refine .unheard index listens ahead ?_ named
        obtain ⟨inside, _⟩ := List.getElem?_eq_some_iff.mp found
        simp only [Listening.step, Lib.Broadcast.send]
        rw [List.getElem?_append_left inside, found]
      | untold event member named => exact .untold event member named
  | shutDown =>
    exact ⟨follows, applied, current.imp_right fun owed => owed.same rfl rfl rfl rfl rfl⟩
  | auth event =>
    exact ⟨follows, applied, current.imp_right fun owed => owed.same rfl rfl rfl rfl rfl⟩
  | turn =>
    unfold Listening.step
    cases listens : browsing.listening.stream with
    | none => exact coherent
    | some stream => exact coherent.take auth listens

theorem Coherent.publish (coherent : browsing.Coherent scope page) (auth : AuthState H)
    {lane : LaneName} {change : Change Rate} (held : browsing.unpublished lane = some change) :
    Coherent scope page { browsing with
      listening := browsing.listening.step auth (.publish change)
      unpublished := Function.update browsing.unpublished lane none } := by
  have ⟨follows, applied, current⟩ := coherent
  obtain ⟨follows', applied', current'⟩ := coherent.stream auth (.publish change)
  refine ⟨follows', applied', ?_⟩
  rcases current' with current | owed
  · exact .inl current
  right
  cases owed with
  | lost past => exact .lost past
  | unheard index listens ahead found named => exact .unheard index listens ahead found named
  | untold event member named => exact .untold event member named
  | unpublished other held' named =>
    by_cases same : other = lane
    · subst same
      obtain rfl := Option.some.inj (held.symm.trans held')
      cases listens : browsing.listening.stream with
      | none => exact .lost (by simp [Listening.step, listens])
      | some stream =>
        refine .unheard browsing.listening.bus.sent.length listens
          (follows stream listens).2 ?_ named
        simp [Listening.step, Lib.Broadcast.send]
    · refine .unpublished other ?_ named
      exact (Function.update_of_ne same _ _).trans held'

variable [DecidableEq A] [DecidableEq Q] [DecidableEq S]

omit [DecidableEq H] in
theorem Coherent.poll (coherent : browsing.Coherent scope page) (covered : scope.covers page = true)
    (polled : Polled A Q S) (free : browsing.unpublished polled.lane = none) :
    Coherent scope page { browsing with
      store := (browsing.store.poll polled).1
      unpublished := Function.update browsing.unpublished polled.lane
        (browsing.store.poll polled).2 } := by
  obtain ⟨follows, applied, current⟩ := coherent
  refine ⟨follows, applied, ?_⟩
  rcases current with current | owed
  · rcases tells_poll browsing.store covered polled with agree | ⟨change, published, named⟩
    · exact .inl fun answer member => (current answer member).trans (told_read page agree)
    · exact .inr (.unpublished polled.lane (by simp [published]) named)
  · right
    cases owed with
    | lost past => exact .lost past
    | unheard index listens ahead found named => exact .unheard index listens ahead found named
    | untold event member named => exact .untold event member named
    | unpublished other held named =>
      refine .unpublished other ?_ named
      have apart : other ≠ polled.lane := by
        rintro rfl
        rw [free] at held
        contradiction
      exact (Function.update_of_ne apart _ _).trans held

theorem Coherent.step (coherent : browsing.Coherent scope page) (auth : AuthState H)
    (covered : scope.covers page = true) (happening : Happening Rate A Q S) :
    (browsing.step auth page happening).Coherent scope page := by
  cases happening with
  | polled polled =>
    simp only [Browsing.step]
    split
    · exact coherent
    · rename_i free
      exact coherent.poll covered polled (by simpa using free)
  | published lane =>
    simp only [Browsing.step]
    cases held : browsing.unpublished lane with
    | none => exact coherent
    | some change => exact coherent.publish auth held
  | watermarks lane rates => exact coherent.store (by cases page <;> trivial)
  | offsets lane => exact coherent.store (by cases page <;> trivial)
  | stream act => exact coherent.stream auth act
  | read =>
    obtain ⟨follows, applied, current⟩ := coherent
    refine ⟨follows, applied, current.imp ?_ fun owed => owed.same rfl rfl rfl rfl rfl⟩
    intro current answer member
    rcases List.mem_cons.mp member with rfl | before
    · rfl
    · exact current answer before
  | applied =>
    simp only [Browsing.step]
    cases found : browsing.listening.sent[browsing.applied]? with
    | none => exact coherent
    | some event => exact coherent.apply found

theorem Coherent.run (coherent : browsing.Coherent scope page) (auth : AuthState H)
    (covered : scope.covers page = true) (happenings : List (Happening Rate A Q S)) :
    (browsing.run auth page happenings).Coherent scope page := by
  induction happenings generalizing browsing with
  | nil => exact coherent
  | cons happening happenings ih => exact ih (coherent.step auth covered happening)

end Browsing

/-- Whatever the lanes, the streams and the sessions do and in whatever order, a
page that its stream covers shows the store as it is once nothing is on its way:
each answer read since the browser was last told to read the page again has the
told columns of the page as it reads now. -/
theorem page_current {Rate A Q S H : Type} [Zero Rate] [DecidableEq A] [DecidableEq Q]
    [DecidableEq S] [DecidableEq H] (auth : AuthState H) (page : Page) (scope : Scope)
    (covered : scope.covers page = true) (store : PageStore Rate A Q S)
    (unpublished : LaneName → Option (Change Rate)) (cluster : String) (guard : Holder)
    (bus : ChangeBus Rate) (sessions : Sessions H) (happenings : List (Happening Rate A Q S)) :
    let last := (Browsing.opened store unpublished cluster guard scope bus sessions).run auth page
      happenings
    last.Quiet → ∀ answer ∈ last.answers, answer.told = (last.store.read page).told := by
  intro last quiet
  have start : (Browsing.opened store unpublished cluster guard scope bus sessions).Coherent
      scope page := by
    refine ⟨?_, Nat.le_refl _, .inl fun _ member => absurd member List.not_mem_nil⟩
    rintro _ ⟨⟩
    exact ⟨rfl, Nat.le_refl _⟩
  rcases (start.run auth covered happenings).current with current | owed
  · exact current
  · exact absurd owed quiet.not_owed

private def noStore : PageStore Int Nat Nat Nat :=
  { cluster := .new, acls := .new, quotas := .new, scramUsers := .new }

private def anyone : AuthState String := { enabled := false, policy := .unbound, sha256 := id }

/-- Read before the first poll and again once told of it. -/
private def reading : List (Happening Int Nat Nat Nat) :=
  [.read, .polled (.acls (.untimed (.ok 1))), .published .acls, .stream .turn, .stream .turn,
    .applied, .read]

theorem page_current_acls :
    let last := (Browsing.opened noStore (fun _ => none) "local" .nobody ⟨none, none⟩
      (.new busCapacity) (.start 0)).run anyone .acls reading
    last.answers.length = 1 ∧
      ∀ answer ∈ last.answers, answer.told = (last.store.read .acls).told := by
  refine ⟨rfl, ?_⟩
  refine page_current anyone .acls ⟨none, none⟩ rfl noStore (fun _ => none) "local" .nobody
    (.new busCapacity) (.start 0) reading ⟨?_, ?_, rfl⟩
  · intro lane
    cases lane <;> rfl
  · exact ⟨_, rfl, rfl, rfl, rfl⟩

end Klens.App
