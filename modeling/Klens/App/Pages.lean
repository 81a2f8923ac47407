import Klens.App.Stream
import Klens.Ingest.Runner
import Klens.Store.Cluster
import Klens.Store.Rows

/-! The pages of a browser that reads a cluster and listens to its updates. The
listings of access rules, quotas and users are passed through and stay abstract. -/
namespace Klens.App
open Klens.Auth Klens.Ingest Klens.Lib Klens.Store

/-- What an update makes a browser read again: `invalidateQueries` by key. -/
inductive Page where
  | topicRows
  | topic (name : String)
  | topicConfigs (name : String)
  | brokerRows
  | subjectRows
  | acls
  | quotas
  | scramUsers
  deriving DecidableEq, Repr

section Apply
variable {Rate : Type}

/-- `apply` of the browser: whether an update makes it read a page again. -/
def Update.invalidates (page : Page) : Update Rate → Bool
  | .watermarks _ => false
  | .groupLag _ _ _ _ => false
  | .topology addedTopics removedTopics changedTopics _ _ _ brokersChanged =>
    let topics := addedTopics ++ removedTopics ++ changedTopics
    match page with
    | .topicRows => decide (topics.length > 0)
    | .topic name => topics.contains name
    | .brokerRows => brokersChanged
    | _ => false
  | .configs topics =>
    match page with
    | .topicRows => true
    | .topic name | .topicConfigs name => topics.contains name
    | _ => false
  | .logDirs topics brokersChanged =>
    match page with
    | .topicRows => decide (topics.length > 0)
    | .topic name => topics.contains name
    | .brokerRows => brokersChanged
    | _ => false
  | .subjects _ _ => page = .subjectRows
  | .acls => page = .acls
  | .quotas => page = .quotas
  | .scramUsers => page = .scramUsers
  | .resync => true

/-- An error ends the stream and names no page. -/
def SseEvent.invalidates (page : Page) : SseEvent Rate → Bool
  | .update sent => sent.invalidates page
  | .error _ => false

end Apply

/-- The lanes of a cluster, those of its listings with them. -/
structure PageStore (Rate A Q S : Type) where
  cluster : ClusterStore Rate
  acls : Lane A
  quotas : Lane Q
  scramUsers : Lane S

inductive Content (Rate A Q S : Type) where
  | topicRows (rows : List (TopicRow Rate))
  | topic (detail : Option (TopicDetail Rate))
  | topicConfigs (entries : Option (List ConfigEntry))
  | brokerRows (rows : List BrokerRow)
  | subjectRows (rows : List SubjectRow)
  | acls (listing : Option A)
  | quotas (listing : Option Q)
  | scramUsers (listing : Option S)

namespace PageStore
variable {Rate A Q S : Type} [Zero Rate]

def brokerRows (store : PageStore Rate A Q S) : List BrokerRow :=
  match store.cluster.topology.load with
  | none => []
  | some topology => BrokerRow.all topology store.cluster.logDirs.load

def subjectRows (store : PageStore Rate A Q S) : List SubjectRow :=
  match store.cluster.subjects.load with
  | none => []
  | some subjects => SubjectRow.all subjects store.cluster.schemaIds.load

def read (store : PageStore Rate A Q S) : Page → Content Rate A Q S
  | .topicRows => .topicRows store.cluster.topicRows
  | .topic name => .topic (store.cluster.topicDetail name)
  | .topicConfigs name => .topicConfigs (store.cluster.topicConfigs name)
  | .brokerRows => .brokerRows store.brokerRows
  | .subjectRows => .subjectRows store.subjectRows
  | .acls => .acls store.acls.load
  | .quotas => .quotas store.quotas.load
  | .scramUsers => .scramUsers store.scramUsers.load

end PageStore

section Told
variable {Rate A Q S : Type} [Zero Rate]

/-- The columns of a row that updates make a browser read again. Rates are told
as values; what was produced and what is retained, and how many groups read the
topic, are as old as the page. -/
def TopicRow.told (row : TopicRow Rate) : TopicRow Rate :=
  { row with retainedMessages := 0, producedTotal := 0, rate := 0, groupCount := 0 }

def PartitionRow.told (row : PartitionRow) : PartitionRow :=
  { row with lowWatermark := 0, highWatermark := 0 }

def TopicDetail.told (detail : TopicDetail Rate) : TopicDetail Rate :=
  { detail with
    partitions := detail.partitions.map PartitionRow.told
    retainedMessages := 0
    producedTotal := 0
    rate := 0
    groupCount := 0 }

def BrokerRow.told (row : BrokerRow) : BrokerRow := { row with partitionCount := 0, leaderCount := 0 }

def Content.told : Content Rate A Q S → Content Rate A Q S
  | .topicRows rows => .topicRows (rows.map TopicRow.told)
  | .topic detail => .topic (detail.map TopicDetail.told)
  | .brokerRows rows => .brokerRows (rows.map BrokerRow.told)
  | content => content

end Told

/-- The lanes whose polls publish what changed. -/
inductive LaneName where
  | topology
  | configs
  | subjects
  | schemaIds
  | logDirs
  | acls
  | quotas
  | scramUsers
  deriving DecidableEq, Repr

inductive Polled (A Q S : Type) where
  | topology (fetch : Fetch Topology)
  | configs (fetch : Fetch ConfigTable)
  | subjects (fetch : Fetch SubjectTable)
  | schemaIds (fetch : Fetch SchemaIdTable)
  | logDirs (fetch : Fetch LogDirTable)
  | acls (fetch : Fetch A)
  | quotas (fetch : Fetch Q)
  | scramUsers (fetch : Fetch S)

def Polled.lane {A Q S : Type} : Polled A Q S → LaneName
  | .topology _ => .topology
  | .configs _ => .configs
  | .subjects _ => .subjects
  | .schemaIds _ => .schemaIds
  | .logDirs _ => .logDirs
  | .acls _ => .acls
  | .quotas _ => .quotas
  | .scramUsers _ => .scramUsers

namespace PageStore
variable {Rate A Q S : Type} [DecidableEq A] [DecidableEq Q] [DecidableEq S]

/-- The store once a lane has committed, and the change its runner publishes next. -/
def poll (store : PageStore Rate A Q S) :
    Polled A Q S → PageStore Rate A Q S × Option (Change Rate)
  | .topology fetch =>
    let (lane, delta) := Ingest.poll TopologyDelta.between store.cluster.topology fetch
    ({ store with cluster := { store.cluster with topology := lane } }, delta.map .topology)
  | .configs fetch =>
    let (lane, delta) := Ingest.poll ConfigsDelta.between store.cluster.configs fetch
    ({ store with cluster := { store.cluster with configs := lane } }, delta.map .configs)
  | .subjects fetch =>
    let (lane, delta) := Ingest.poll SubjectsDelta.between store.cluster.subjects fetch
    ({ store with cluster := { store.cluster with subjects := lane } }, delta.map .subjects)
  | .schemaIds fetch =>
    let (lane, delta) := Ingest.poll SubjectsDelta.ofIds store.cluster.schemaIds fetch
    ({ store with cluster := { store.cluster with schemaIds := lane } }, delta.map .subjects)
  | .logDirs fetch =>
    let (lane, delta) := Ingest.poll LogDirsDelta.between store.cluster.logDirs fetch
    ({ store with cluster := { store.cluster with logDirs := lane } }, delta.map .logDirs)
  | .acls fetch =>
    let (lane, delta) := Ingest.poll listingDiff store.acls fetch
    ({ store with acls := lane }, delta.map fun _ => .acls)
  | .quotas fetch =>
    let (lane, delta) := Ingest.poll listingDiff store.quotas fetch
    ({ store with quotas := lane }, delta.map fun _ => .quotas)
  | .scramUsers fetch =>
    let (lane, delta) := Ingest.poll listingDiff store.scramUsers fetch
    ({ store with scramUsers := lane }, delta.map fun _ => .scramUsers)

end PageStore

/-- A page of a browser. `answers` is what the server read for it since it was
last told to read again: a query drops what it asked for before. `applied` counts
the events of the stream the browser has applied. -/
structure Browsing (Rate A Q S H : Type) where
  store : PageStore Rate A Q S
  unpublished : LaneName → Option (Change Rate)
  listening : Listening Rate H
  applied : Nat
  answers : List (Content Rate A Q S)

/-- What can happen next. The watermark and offset lanes change what they show
and publish what they like. -/
inductive Happening (Rate A Q S : Type) where
  | polled (polled : Polled A Q S)
  | published (lane : LaneName)
  | watermarks (lane : Lane WatermarkTable) (rates : Std.ExtTreeMap String Rate)
  | offsets (lane : Lane OffsetTable)
  | stream (act : Act Rate)
  | read
  | applied

namespace Browsing
variable {Rate A Q S H : Type}

/-- A browser that opens the stream of a cluster it may see. -/
def opened (store : PageStore Rate A Q S) (unpublished : LaneName → Option (Change Rate))
    (cluster : String) (guard : Holder) (scope : Scope) (bus : ChangeBus Rate)
    (sessions : Sessions H) : Browsing Rate A Q S H :=
  { store
    unpublished
    listening := .opened cluster guard scope bus sessions
    applied := 0
    answers := [] }

/-- Nothing is on its way: each lane has published what it committed, the stream
is open and has told all it heard, and the browser has applied what it was told. -/
structure Quiet (browsing : Browsing Rate A Q S H) : Prop where
  published : ∀ lane, browsing.unpublished lane = none
  heard : ∃ stream, browsing.listening.stream = some stream ∧ stream.done = false ∧
    stream.pending = [] ∧ stream.next = browsing.listening.bus.sent.length
  told : browsing.applied = browsing.listening.sent.length

variable [Zero Rate] [DecidableEq A] [DecidableEq Q] [DecidableEq S] [DecidableEq H]

/-- One step of whoever moves next, for the page `page`. A runner publishes what
its last poll committed before it polls again. -/
def step (auth : AuthState H) (page : Page) (browsing : Browsing Rate A Q S H) :
    Happening Rate A Q S → Browsing Rate A Q S H
  | .polled polled =>
    if (browsing.unpublished polled.lane).isSome then browsing
    else
      let (store, change) := browsing.store.poll polled
      { browsing with
        store
        unpublished := Function.update browsing.unpublished polled.lane change }
  | .published lane =>
    match browsing.unpublished lane with
    | none => browsing
    | some change =>
      { browsing with
        listening := browsing.listening.step auth (.publish change)
        unpublished := Function.update browsing.unpublished lane none }
  | .watermarks lane rates =>
    { browsing with
      store := { browsing.store with
        cluster := { browsing.store.cluster with watermarks := lane, rates } } }
  | .offsets lane =>
    { browsing with
      store := { browsing.store with
        cluster := { browsing.store.cluster with offsets := lane } } }
  | .stream act => { browsing with listening := browsing.listening.step auth act }
  | .read => { browsing with answers := browsing.store.read page :: browsing.answers }
  | .applied =>
    match browsing.listening.sent[browsing.applied]? with
    | none => browsing
    | some event =>
      { browsing with
        applied := browsing.applied + 1
        answers := if event.invalidates page then [] else browsing.answers }

def run (auth : AuthState H) (page : Page) (browsing : Browsing Rate A Q S H)
    (happenings : List (Happening Rate A Q S)) : Browsing Rate A Q S H :=
  happenings.foldl (step auth page) browsing

end Browsing
end Klens.App
