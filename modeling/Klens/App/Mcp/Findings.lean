import Klens.App.Findings
import Klens.App.Mcp.Untrusted

/-! What a description of a group finds about it: members without partitions, partitions
without members, and one member with most of the lag. -/
namespace Klens.App.Mcp
open Klens.Store Std

def lagWorthNaming : Int := 1000

def oneMemberSharePercent : Int := 80

def maxClientValueChars : Nat := 256

def shorten (text : String) : String :=
  match clip text maxClientValueChars with
  | (kept, true) => kept ++ "…"
  | (kept, false) => kept

inductive Finding where
  | noMembers
  | rebalancing
  | moreMembersThanPartitions (members partitions : Nat)
  | unassignedPartitions (topic : String) (partitions : List Int) (partitionsLeftOut : Option Nat)
  | lagOnOneMember (memberId clientId host : String) (lag totalLag : Int)
  deriving DecidableEq, Repr

namespace Finding

def holdPartitions (assigned : ExtTreeMap String (List Int)) (assignment : MemberAssignment) :
    ExtTreeMap String (List Int) :=
  assigned.insert assignment.topic
    ((assigned[assignment.topic]?.getD []) ++ assignment.partitions)

/-- The partitions of each topic that some member holds. -/
def assigned (members : List GroupMember) : ExtTreeMap String (List Int) :=
  (members.flatMap GroupMember.assignments).foldl holdPartitions ∅

/-- What the walk over the assigned topics gathers. -/
structure Survey where
  unassigned : List Finding
  partitions : Nat
  everyTopicKnown : Bool

def surveyTopic (topology : Topology) (survey : Survey) (entry : String × List Int) : Survey :=
  match topology.topics[entry.1]? with
  | none => { survey with everyTopicKnown := false }
  | some info =>
    let unassigned := info.partitionIds.filter fun id => !entry.2.contains id
    { survey with
      partitions := survey.partitions + info.partitions.length
      unassigned := if unassigned.isEmpty then survey.unassigned
        else survey.unassigned ++ [unassignedPartitions entry.1 unassigned none] }

def survey (topology : Topology) (members : List GroupMember) : Survey :=
  (assigned members).toList.foldl (surveyTopic topology) ⟨[], 0, true⟩

/-- Of several members with the most lag, `max_by_key` takes the last. -/
def findLagOnOneMember (group : GroupDetail) : Option Finding := do
  let total ← group.totalLag.filter fun _ => group.lagComplete
  if group.members.length < 2 ∨ total < lagWorthNaming then none
  else
    let known := (group.members.zip (memberLags group)).filterMap fun (member, lag) =>
      lag.map fun lag => (member, lag)
    let (member, lag) ← known.reverse.maxOn? Prod.snd
    if lag * 100 ≥ total * oneMemberSharePercent then
      some (lagOnOneMember (shorten member.id) (shorten member.clientId) (shorten member.host) lag
        total)
    else none

def all (group : GroupDetail) (topology : Topology) : List Finding :=
  if group.members.isEmpty then [noMembers]
  else
    match group.state with
    | .preparingRebalance | .completingRebalance | .assigning | .reconciling => [rebalancing]
    | .empty | .dead | .unknown => []
    | .stable =>
      let found := survey topology group.members
      let crowded := found.everyTopicKnown && !(assigned group.members).isEmpty &&
        decide (found.partitions < group.members.length)
      (if crowded then [moreMembersThanPartitions group.members.length found.partitions] else []) ++
        (findLagOnOneMember group).toList ++ found.unassigned

end Finding
end Klens.App.Mcp
