import Klens.App.Groups

/-! The consumer groups of a cluster: brokers list them, and those that may have members are
described one by one. -/
namespace Klens.Client
open Klens.App (GroupState.hasMembers)
open Klens.Store

structure ConsumerGroupListing where
  groupId : String
  state : Option String
  deriving DecidableEq, Repr

structure TopicPartitionAssignment where
  topicName : String
  partitions : List Int
  deriving DecidableEq, Repr

structure ConsumerGroupMember where
  memberId : String
  clientId : String
  clientHost : String
  assignment : Option (List TopicPartitionAssignment)
  deriving DecidableEq, Repr

structure ConsumerGroupDescription where
  groupId : String
  state : String
  assignor : Option String
  members : List ConsumerGroupMember
  deriving DecidableEq, Repr

def isInternalGroup (id : String) : Bool := "klens.internal.".toList.isPrefixOf id.toList

/-- A state's name as it is compared: its letters and digits, in lower case. -/
def normalized (raw : String) : String :=
  String.ofList ((raw.toList.filter Char.isAlphanum).map Char.toLower)

def parseState (raw : String) : GroupState :=
  match normalized raw with
  | "stable" => .stable
  | "empty" => .empty
  | "preparingrebalance" => .preparingRebalance
  | "completingrebalance" => .completingRebalance
  | "assigning" => .assigning
  | "reconciling" => .reconciling
  | "dead" => .dead
  | _ => .unknown

def memberAssignment (assignment : TopicPartitionAssignment) : Option MemberAssignment :=
  if assignment.topicName.isEmpty then none
  else some { topic := assignment.topicName, partitions := assignment.partitions }

def groupMember (member : ConsumerGroupMember) : GroupMember :=
  { id := member.memberId
    clientId := member.clientId
    host := String.ofList (member.clientHost.toList.dropWhile (· = '/'))
    assignments := (member.assignment.map (List.filterMap memberAssignment)).getD [] }

/-- `GroupSnapshot::from_krafka`. -/
def groupSnapshot (description : ConsumerGroupDescription) : GroupSnapshot :=
  { id := description.groupId
    state := parseState description.state
    protocol := description.assignor.getD ""
    members := description.members.map groupMember
    committed := [] }

structure ListedGroup where
  id : String
  state : Option GroupState
  deriving DecidableEq, Repr

namespace ListedGroup

def fromKrafka (listing : ConsumerGroupListing) : ListedGroup :=
  { id := listing.groupId, state := listing.state.map parseState }

def needsDescription (group : ListedGroup) : Bool := group.state.all GroupState.hasMembers

end ListedGroup

def listedSnapshot (id : String) (state : GroupState) : GroupSnapshot :=
  { id, state, protocol := "", members := [], committed := [] }

/-- A description that says its group is dead. -/
def ConsumerGroupDescription.dead (description : ConsumerGroupDescription) : Bool :=
  description.state.toList.map Char.toLower = "dead".toList

def groupIdNotFound : ErrorCode := .other 69

def described (id : String) : Except KrafkaError ConsumerGroupDescription → Option GroupSnapshot
  | .ok description => if description.dead then none else some (groupSnapshot description)
  | .error (.broker code _) =>
    if code = groupIdNotFound then none else some (listedSnapshot id .unknown)
  | .error (.other _) => some (listedSnapshot id .unknown)

def snapshotsFromDescriptions
    (descriptions : List (String × Except KrafkaError ConsumerGroupDescription)) :
    List GroupSnapshot :=
  (descriptions.filter fun answer => !isInternalGroup answer.1).filterMap fun answer =>
    described answer.1 answer.2

/-- The groups to describe, and those that have no members. -/
def splitEmptyGroups (listed : List ListedGroup) : List String × List GroupSnapshot :=
  let known := listed.filter fun group => !isInternalGroup group.id
  ((known.filter ListedGroup.needsDescription).map ListedGroup.id,
    (known.filter fun group => !group.needsDescription).map fun group =>
      listedSnapshot group.id .empty)

def listedGroups (listed : List (Except KrafkaError (List ConsumerGroupListing))) :
    Except KrafkaError (List ListedGroup) := do
  let listings ← listed.mapM id
  .ok (listings.flatten.map ListedGroup.fromKrafka)

/-- How Kafka answers: what each broker lists, and how it describes a group. The maps the
answers come in are walked in some order, and a description is of the group asked for. -/
structure GroupAnswers where
  listed : Except KrafkaError (List (Except KrafkaError (List ConsumerGroupListing)))
  describes : Except KrafkaError Unit
  describe : String → Except KrafkaError ConsumerGroupDescription
  walk : List String → List String
  once : ∀ asked, (walk asked).Nodup
  each : ∀ asked id, id ∈ walk asked ↔ id ∈ asked
  named : ∀ id description, describe id = .ok description → description.groupId = id

/-- `KafkaClient::groups`. -/
def GroupAnswers.groups (answers : GroupAnswers) : Except KrafkaError (List GroupSnapshot) := do
  let listed ← answers.listed
  let (active, empty) := splitEmptyGroups (← listedGroups listed)
  answers.describes
  .ok (empty ++ snapshotsFromDescriptions
    ((answers.walk active).map fun id => (id, answers.describe id)))

end Klens.Client
