import Klens.Lib.SortDedup
import Mathlib.Data.Finset.Basic
import Mathlib.Data.String.Basic
import Std.Data.ExtTreeMap
import Std.Data.ExtTreeSet

/-! Roles, the table they compile to and what a signed-in identity may do. A
`HashMap` is read by key only, so it stands as an ordered map here. -/
namespace Klens.Auth
open Klens.Lib Std

inductive Privilege where
  | records
  | topicConfigs
  | brokerConfigs
  | schemaText
  | acls
  | createTopics
  | deleteTopics
  | alterTopicConfigs
  | addPartitions
  | deleteRecords
  | produce
  | resetOffsets
  | deleteOffsets
  | deleteGroups
  | registerSchemas
  | setCompatibility
  | deleteSchemas
  | createAcls
  | deleteAcls
  | alterQuotas
  | setScramCredentials
  | deleteScramCredentials
  | alterBrokerConfigs
  deriving DecidableEq, Repr

/-- `Privilege::VARIANTS`, in declaration order. -/
def Privilege.variants : List Privilege :=
  [.records, .topicConfigs, .brokerConfigs, .schemaText, .acls, .createTopics, .deleteTopics,
    .alterTopicConfigs, .addPartitions, .deleteRecords, .produce, .resetOffsets, .deleteOffsets,
    .deleteGroups, .registerSchemas, .setCompatibility, .deleteSchemas, .createAcls, .deleteAcls,
    .alterQuotas, .setScramCredentials, .deleteScramCredentials, .alterBrokerConfigs]

abbrev PrivilegeSet := Finset Privilege

def PrivilegeSet.all : PrivilegeSet := Privilege.variants.toFinset

structure Binding where
  groups : List String
  clusters : Option (List String)
  deriving DecidableEq, Repr

structure Role where
  privileges : List Privilege
  bindings : List Binding
  deriving DecidableEq, Repr

/-- The configured roles by name, in the order of the file. -/
abbrev Roles := List (String × Role)

inductive ClusterScope where
  | all
  | only (names : ExtTreeSet String)
  deriving DecidableEq

namespace ClusterScope

def contains (scope : ClusterScope) (cluster : String) : Bool :=
  match scope with
  | .all => true
  | .only names => names.contains cluster

def fromList (clusters : Option (List String)) : ClusterScope :=
  match clusters with
  | none => .all
  | some names => .only (.ofList names)

end ClusterScope

structure Grant where
  roleName : String
  privileges : PrivilegeSet
  scope : ClusterScope
  deriving DecidableEq

/-- `Iterator::reduce`. -/
def reduce {α : Type} (combine : α → α → α) : List α → Option α
  | [] => none
  | first :: rest => some (rest.foldl combine first)

inductive AccessError where
  | unknownCluster (cluster : String)
  | forbidden (cluster : String) (privilege : Privilege)
  | readOnlyCluster (cluster : String)
  deriving DecidableEq, Repr

structure ClusterAccess where
  cluster : String
  privileges : PrivilegeSet
  grants : List Grant
  deriving DecidableEq

namespace ClusterAccess

def roleNames (access : ClusterAccess) : List String :=
  sortDedup ((access.grants.filter (·.scope.contains access.cluster)).map Grant.roleName)

def allows (access : ClusterAccess) (privilege : Privilege) : Bool :=
  decide (privilege ∈ access.privileges)

/-- The set's own order is the declaration order. -/
def listed (access : ClusterAccess) : List Privilege :=
  Privilege.variants.filter (· ∈ access.privileges)

def check (access : ClusterAccess) (privilege : Privilege) : Except AccessError Unit :=
  if access.allows privilege then .ok ()
  else .error (.forbidden access.cluster privilege)

end ClusterAccess

inductive EffectiveAccess where
  | unrestricted
  | granted (grants : List Grant)
  deriving DecidableEq

namespace EffectiveAccess

def privilegesFor (access : EffectiveAccess) (cluster : String) : Option PrivilegeSet :=
  match access with
  | .unrestricted => some .all
  | .granted grants =>
    reduce (· ∪ ·) ((grants.filter (·.scope.contains cluster)).map Grant.privileges)

def cluster (access : EffectiveAccess) (name : String) : Except AccessError ClusterAccess :=
  match access.privilegesFor name with
  | some privileges => .ok
      { cluster := name
        privileges
        grants := match access with
          | .unrestricted => []
          | .granted grants => grants }
  | none => .error (.unknownCluster name)

end EffectiveAccess

/-- Every grant of every binding, and where each group's grants stand. -/
structure RoleTable where
  grants : List Grant
  byGroup : ExtTreeMap String (List Nat)

namespace RoleTable

def empty : RoleTable := { grants := [], byGroup := ∅ }

/-- `by_group.entry(group).or_default().push(index)`. -/
def indexGroup (index : Nat) (byGroup : ExtTreeMap String (List Nat)) (group : String) :
    ExtTreeMap String (List Nat) :=
  byGroup.alter group fun held => some (held.getD [] ++ [index])

def compileBinding (name : String) (privileges : PrivilegeSet) (table : RoleTable)
    (binding : Binding) : RoleTable :=
  { byGroup := binding.groups.foldl (indexGroup table.grants.length) table.byGroup
    grants := table.grants ++
      [{ roleName := name, privileges, scope := .fromList binding.clusters }] }

def compileRole (table : RoleTable) (entry : String × Role) : RoleTable :=
  entry.2.bindings.foldl (compileBinding entry.1 entry.2.privileges.toFinset) table

def compile (roles : Roles) : RoleTable := roles.foldl compileRole empty

/-- The positions the groups are indexed under, ascending and once each. -/
def matched (table : RoleTable) (groups : List String) : ExtTreeSet Nat :=
  .ofList (groups.filterMap fun group => table.byGroup[group]?).flatten

def resolve (table : RoleTable) (groups : List String) : Option (List Grant) :=
  let grants := (table.matched groups).toList.filterMap (table.grants[·]?)
  if grants.isEmpty then none else some grants

end RoleTable

inductive AccessPolicy where
  | unbound
  | bound (table : RoleTable)

namespace AccessPolicy

def fromRoles (roles : Option Roles) : AccessPolicy :=
  match roles with
  | none => .unbound
  | some roles => .bound (.compile roles)

/-- What an identity with these groups may do, or nothing at all. -/
def admits (policy : AccessPolicy) (groups : List String) : Option EffectiveAccess :=
  match policy with
  | .unbound => some .unrestricted
  | .bound table => (table.resolve groups).map .granted

end AccessPolicy
end Klens.Auth
