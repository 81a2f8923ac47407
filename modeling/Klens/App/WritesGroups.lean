import Klens.App.WritesGranted
import Klens.Client.GroupsProofs
import Klens.Ingest.RunnerProofs

/-! What Kafka told of a group whose offsets klens asks it to reset, or which it asks it to
delete. -/
namespace Klens.App
open Klens.Auth Klens.Client Klens.Kafka Klens.Lib Klens.Store
variable {V : Type}

/-- The call takes a group's place in its topics. -/
def Displaces (group : String) (call : KafkaCall V) : Prop :=
  call = .deleteGroup group ∨ ∃ offsets, call = .alterGroupOffsets group offsets

/-- What Kafka answers to a poll of the topology lane. -/
structure TopologyPoll where
  metadata : Except KrafkaError MetadataSnapshot
  groups : GroupAnswers

/-- `TopologyLane::fetch`. -/
def TopologyPoll.fetch (poll : TopologyPoll) : Except KrafkaError Topology := do
  let metadata ← poll.metadata
  let groups ← poll.groups.groups
  .ok (.assemble metadata groups)

/-- The polls of the lane up to each moment. `printed` is how an error reads. -/
structure TopologyPolls where
  upTo : Nat → List TopologyPoll
  grows : ∀ earlier later, earlier ≤ later → upTo earlier <+: upTo later
  printed : KrafkaError → String

/-- What the lane shows at a moment. -/
def TopologyPolls.load (polls : TopologyPolls) (moment : Nat) : Option Topology :=
  (Ingest.polls TopologyDelta.between .new ((polls.upTo moment).map fun poll =>
    .untimed (poll.fetch.mapError polls.printed))).load

/-- The lane shows what one of its polls fetched. -/
theorem TopologyPolls.fetched {polls : TopologyPolls} {moment : Nat} {topology : Topology}
    (shown : polls.load moment = some topology) :
    ∃ poll ∈ polls.upTo moment, poll.fetch = .ok topology := by
  let Answered (table : Topology) : Prop := ∃ poll ∈ polls.upTo moment, poll.fetch = .ok table
  have brings : Ingest.Fetches Answered ((polls.upTo moment).map fun poll =>
      .untimed (poll.fetch.mapError polls.printed)) := by
    intro fetch asked table brings
    obtain ⟨poll, member, rfl⟩ := List.mem_map.mp asked
    exact ⟨poll, member, Except.mapError_ok brings⟩
  refine Ingest.polls_table (fun table held => ?_) brings topology shown
  exact absurd held (Option.not_mem_none table)

theorem TopologyPoll.fetch_ok {poll : TopologyPoll} {topology : Topology}
    (fetched : poll.fetch = .ok topology) :
    ∃ snapshot groups, poll.groups.groups = .ok groups ∧ topology = .assemble snapshot groups := by
  obtain ⟨snapshot, _, rest⟩ := Except.bind_ok fetched
  obtain ⟨groups, answered, same⟩ := Except.bind_ok rest
  exact ⟨snapshot, groups, answered, (Except.ok.inj same).symm⟩

namespace LiveCluster
variable {cluster : LiveCluster V} {first last : Nat}

theorem Warranted.stopped {request : WriteRequest V} {call : KafkaCall V} {group : String}
    (warranted : cluster.Warranted first last request call) (displaces : Displaces group call) :
    cluster.ShowsGroup first last group fun info => GroupState.hasMembers info.state = false := by
  obtain rfl | ⟨offsets, rfl⟩ := displaces
  · cases warranted with
    | deleteGroup stopped => exact stopped
  · cases warranted with
    | resetOffsets _ _ stopped => exact stopped

end LiveCluster

/-- Whatever a request asks for and Kafka answers the polls meanwhile, klens has a group
deleted or its offsets reset only once Kafka told, in a poll whose topology klens showed
when the request came in or later, that the group has no members. -/
theorem displaces_only_stopped (session : Session V) (name : String) (request : WriteRequest V)
    (first : Nat) {handle : ClusterHandle V} (reached : session.cluster name = .ok handle)
    (polls : TopologyPolls) (shows : ∀ moment, handle.cluster.topology moment = polls.load moment) :
    ∀ moment call, (moment, call) ∈ (session.write name request ⟨first, []⟩).2.calls →
      ∀ group, Displaces group call →
        ∃ seen topology state, ∃ poll ∈ polls.upTo seen, first ≤ seen ∧ seen < moment ∧
          handle.cluster.topology seen = some topology ∧ poll.fetch = .ok topology ∧
          isInternalGroup group = false ∧ Told poll.groups group state ∧
          GroupState.hasMembers state = false := by
  intro moment call asked group displaces
  obtain ⟨none, _⟩ | ⟨_, _, _, calls, found, reached', _, _, warranted, _⟩ :=
    Session.makes_write request ⟨first, []⟩ (Nat.le_refl first)
  · rw [none] at asked
    contradiction
  · obtain rfl := Except.ok.inj (reached.symm.trans reached')
    rw [calls] at asked
    obtain ⟨rfl, rfl⟩ := Prod.mk.inj (List.mem_singleton.mp asked)
    obtain ⟨seen, topology, info, after, before, shown, listed, idle⟩ :=
      warranted.stopped displaces
    obtain ⟨poll, polled, fetched⟩ := TopologyPolls.fetched ((shows seen).symm.trans shown)
    obtain ⟨snapshot, groups, answered, rfl⟩ := TopologyPoll.fetch_ok fetched
    obtain ⟨external, told⟩ := (shown_iff_told answered snapshot group info.state).mp
      (congrArg (Option.map GroupInfo.state) listed)
    exact ⟨seen, _, info.state, poll, polled, after, before, shown, fetched, external, told, idle⟩

namespace Sample

/-- Brokers list a group without members, and nobody describes it. -/
def idle : GroupAnswers where
  listed := .ok [.ok [⟨"billing", some "Empty"⟩]]
  describes := .ok ()
  describe := Client.Sample.moving
  walk := List.dedup
  once := List.nodup_dedup
  each := Client.Sample.mem_walked
  named := Client.Sample.moving_named

def told : Topology := .assemble ⟨[], []⟩ [listedSnapshot "billing" .empty]

def polledOnce : TopologyPolls where
  upTo _ := [⟨.ok ⟨[], []⟩, idle⟩]
  grows _ _ _ := List.prefix_rfl
  printed _ := ""

theorem fetched_told : TopologyPoll.fetch ⟨.ok ⟨[], []⟩, idle⟩ = .ok told := by
  have answered : idle.groups = .ok [listedSnapshot "billing" .empty] := by decide
  unfold TopologyPoll.fetch
  rw [answered]
  rfl

theorem load_polledOnce (moment : Nat) : polledOnce.load moment = some told := by
  simp only [TopologyPolls.load, polledOnce, List.map_cons, List.map_nil, fetched_told,
    Except.mapError, Ingest.polls, List.foldl_cons, List.foldl_nil]
  simp [Ingest.poll, Ingest.Fetch.untimed, Lane.new, Lane.load, Lane.commit, Lane.recordPoll]

/-- Someone who may delete the group. -/
def operator : Session Nat where
  access := .unrestricted
  clusters := fun _ => some (Session.Sample.cluster (some told))

end Sample

theorem displaces_only_stopped_billing :
    (1, KafkaCall.deleteGroup "billing") ∈
        (Sample.operator.write "local" (.deleteGroup "billing") ⟨0, []⟩).2.calls ∧
      ∃ seen state, ∃ poll ∈ Sample.polledOnce.upTo seen, Told poll.groups "billing" state ∧
        GroupState.hasMembers state = false := by
  have reached : Sample.operator.cluster "local" =
      .ok ⟨⟨"local", .all, []⟩, Session.Sample.cluster (some Sample.told)⟩ := rfl
  have asked : (1, KafkaCall.deleteGroup "billing") ∈
      (Sample.operator.write "local" (.deleteGroup "billing") ⟨0, []⟩).2.calls :=
    List.mem_cons_self
  obtain ⟨seen, _, state, poll, polled, _, _, _, _, _, told, idle⟩ :=
    displaces_only_stopped Sample.operator "local" _ 0 reached Sample.polledOnce
      (fun moment => (Sample.load_polledOnce moment).symm) 1 _ asked "billing" (.inl rfl)
  exact ⟨asked, seen, state, poll, polled, told, idle⟩

end Klens.App
