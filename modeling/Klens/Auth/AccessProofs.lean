import Klens.Auth.Access

/-! The compiled table against the roles it was compiled from: each group finds
exactly the grants of the bindings that name it. -/
namespace Klens.Auth
open Klens.Lib Std

/-- The binding names one of the groups. -/
def Binding.Names (binding : Binding) (groups : List String) : Prop :=
  ∃ group ∈ groups, group ∈ binding.groups

/-- The binding reaches the cluster. -/
def Binding.Covers (binding : Binding) (cluster : String) : Prop :=
  ∀ names ∈ binding.clusters, cluster ∈ names

/-- A binding of the role names one of the groups and reaches the cluster. -/
def Role.Binds (role : Role) (groups : List String) (cluster : String) : Prop :=
  ∃ binding ∈ role.bindings, binding.Names groups ∧ binding.Covers cluster

theorem ClusterScope.contains_fromList (binding : Binding) (cluster : String) :
    (fromList binding.clusters).contains cluster = true ↔ binding.Covers cluster := by
  unfold fromList contains Binding.Covers
  cases binding.clusters with
  | none => simp
  | some names => simp

section Reduce
variable {grants : List PrivilegeSet} {held : PrivilegeSet}

theorem reduce_eq_none {α : Type} {combine : α → α → α} {items : List α} :
    reduce combine items = none ↔ items = [] := by
  cases items <;> simp [reduce]

private theorem mem_foldl_union (held : PrivilegeSet) (grants : List PrivilegeSet)
    (privilege : Privilege) : privilege ∈ grants.foldl (· ∪ ·) held ↔
      privilege ∈ held ∨ ∃ grant ∈ grants, privilege ∈ grant := by
  induction grants generalizing held with
  | nil => simp
  | cons grant grants ih =>
    rw [List.foldl_cons, ih, Finset.mem_union, or_assoc]
    simp

theorem mem_of_reduce (reduced : reduce (· ∪ ·) grants = some held) (privilege : Privilege) :
    privilege ∈ held ↔ ∃ grant ∈ grants, privilege ∈ grant := by
  cases grants with
  | nil => contradiction
  | cons grant grants =>
    obtain rfl := Option.some.inj reduced
    rw [mem_foldl_union]
    simp

end Reduce

namespace RoleTable

/-- A binding with the grant it compiles to. -/
abbrev Bound := Binding × Grant

def boundRole (entry : String × Role) : List Bound :=
  entry.2.bindings.map fun binding =>
    (binding, { roleName := entry.1, privileges := entry.2.privileges.toFinset,
                scope := .fromList binding.clusters })

/-- Every binding of every role in order, with its grant. -/
def boundRoles (roles : Roles) : List Bound := roles.flatMap boundRole

theorem mem_boundRoles {roles : Roles} {bound : Bound} : bound ∈ boundRoles roles ↔
    ∃ entry ∈ roles, ∃ binding ∈ entry.2.bindings,
      bound = (binding, { roleName := entry.1, privileges := entry.2.privileges.toFinset,
                          scope := .fromList binding.clusters }) := by
  simp only [boundRoles, boundRole, List.mem_flatMap, List.mem_map, eq_comm]

/-- The table holds the grants in order, and lists each under the groups its
binding names. -/
structure Indexes (table : RoleTable) (bounds : List Bound) : Prop where
  grants : table.grants = bounds.map Prod.snd
  index : ∀ (group : String) (position : Nat),
    (∃ held, table.byGroup[group]? = some held ∧ position ∈ held) ↔
      ∃ bound : Bound, bounds[position]? = some bound ∧ group ∈ bound.1.groups

theorem indexes_empty : empty.Indexes [] := ⟨rfl, by simp [empty]⟩

private theorem foldl_indexGroup (groups : List String) (position : Nat)
    (byGroup : ExtTreeMap String (List Nat)) (group : String) (other : Nat) :
    (∃ held, (groups.foldl (indexGroup position) byGroup)[group]? = some held ∧ other ∈ held) ↔
      (∃ held, byGroup[group]? = some held ∧ other ∈ held) ∨
        other = position ∧ group ∈ groups := by
  induction groups generalizing byGroup with
  | nil => simp
  | cons first groups ih =>
    rw [List.foldl_cons, ih, indexGroup, ExtTreeMap.getElem?_alter]
    by_cases same : first = group
    · subst same
      cases byGroup[first]? <;> simp <;> tauto
    · have apart : compare first group ≠ .eq := mt LawfulEqCmp.eq_of_compare same
      simp [apart, Ne.symm same]

private theorem Indexes.push {table : RoleTable} {bounds : List Bound}
    (indexes : table.Indexes bounds) (name : String) (privileges : PrivilegeSet)
    (binding : Binding) :
    (compileBinding name privileges table binding).Indexes (bounds ++
      [(binding, { roleName := name, privileges, scope := .fromList binding.clusters })]) := by
  refine ⟨by simp [compileBinding, indexes.grants], fun group position => ?_⟩
  have length : table.grants.length = bounds.length := by simp [indexes.grants]
  have grown := foldl_indexGroup binding.groups bounds.length table.byGroup group position
  rw [indexes.index] at grown
  simp only [compileBinding, length]
  rw [grown]
  constructor
  · rintro (⟨bound, found, named⟩ | ⟨rfl, named⟩)
    · have inside := (List.getElem?_eq_some_iff.mp found).1
      exact ⟨bound, by rwa [List.getElem?_append_left inside], named⟩
    · exact ⟨_, List.getElem?_concat_length, named⟩
  · rintro ⟨bound, found, named⟩
    by_cases inside : position < bounds.length
    · rw [List.getElem?_append_left inside] at found
      exact .inl ⟨bound, found, named⟩
    · have last : position = bounds.length := by
        have within := (List.getElem?_eq_some_iff.mp found).1
        simp only [List.length_append, List.length_singleton] at within
        omega
      subst last
      rw [List.getElem?_concat_length] at found
      obtain rfl := Option.some.inj found
      exact .inr ⟨rfl, named⟩

private theorem Indexes.role {table : RoleTable} {bounds : List Bound}
    (indexes : table.Indexes bounds) (entry : String × Role) :
    (compileRole table entry).Indexes (bounds ++ boundRole entry) := by
  unfold compileRole boundRole
  generalize entry.2.bindings = bindings
  induction bindings generalizing table bounds with
  | nil => simpa using indexes
  | cons binding bindings ih =>
    rw [List.foldl_cons, List.map_cons, List.append_cons]
    exact ih (indexes.push entry.1 entry.2.privileges.toFinset binding)

theorem indexes_compile (roles : Roles) : (compile roles).Indexes (boundRoles roles) := by
  suffices step : ∀ (table : RoleTable) (bounds : List Bound), table.Indexes bounds →
      (roles.foldl compileRole table).Indexes (bounds ++ boundRoles roles) by
    simpa [compile] using step empty [] indexes_empty
  induction roles with
  | nil => intro table bounds indexes; simpa [boundRoles] using indexes
  | cons entry roles ih =>
    intro table bounds indexes
    rw [List.foldl_cons, boundRoles, List.flatMap_cons, ← List.append_assoc]
    exact ih _ _ (indexes.role entry)

/-- A position is matched when the binding that stands there names a group. -/
theorem Indexes.mem_matched {table : RoleTable} {bounds : List Bound}
    (indexes : table.Indexes bounds) {groups : List String} {position : Nat} :
    position ∈ table.matched groups ↔
      ∃ bound : Bound, bounds[position]? = some bound ∧ bound.1.Names groups := by
  rw [matched, ExtTreeSet.mem_ofList, List.contains_iff_mem, List.mem_flatten]
  simp only [List.mem_filterMap]
  constructor
  · rintro ⟨held, ⟨group, asked, found⟩, member⟩
    obtain ⟨bound, there, named⟩ := (indexes.index group position).mp ⟨held, found, member⟩
    exact ⟨bound, there, group, asked, named⟩
  · rintro ⟨bound, there, group, asked, named⟩
    obtain ⟨held, found, member⟩ := (indexes.index group position).mpr ⟨bound, there, named⟩
    exact ⟨held, ⟨group, asked, found⟩, member⟩

/-- What the groups resolve to, before the empty answer is turned into a refusal. -/
def granted (table : RoleTable) (groups : List String) : List Grant :=
  (table.matched groups).toList.filterMap (table.grants[·]?)

theorem Indexes.mem_granted {table : RoleTable} {bounds : List Bound}
    (indexes : table.Indexes bounds) {groups : List String} {grant : Grant} :
    grant ∈ table.granted groups ↔ ∃ bound ∈ bounds, bound.1.Names groups ∧ bound.2 = grant := by
  simp only [granted, List.mem_filterMap, ExtTreeSet.mem_toList, indexes.mem_matched,
    indexes.grants, List.getElem?_map, Option.map_eq_some_iff]
  constructor
  · rintro ⟨position, ⟨_, found, named⟩, bound, there, rfl⟩
    have same := Option.some.inj (found.symm.trans there)
    exact ⟨bound, List.mem_of_getElem? there, same ▸ named, rfl⟩
  · rintro ⟨bound, member, named, rfl⟩
    obtain ⟨position, found⟩ := List.getElem?_of_mem member
    exact ⟨position, ⟨bound, found, named⟩, bound, found, rfl⟩

theorem resolve_eq (table : RoleTable) (groups : List String) : table.resolve groups =
    if table.granted groups = [] then none else some (table.granted groups) := by
  unfold resolve
  simp only [List.isEmpty_iff]
  rfl

/-- The answer depends on which groups there are, not on how they are listed. -/
theorem resolve_congr (table : RoleTable) {groups others : List String}
    (same : ∀ group, group ∈ groups ↔ group ∈ others) :
    table.resolve groups = table.resolve others := by
  have matched : table.matched groups = table.matched others := by
    refine ExtTreeSet.ext_mem fun position => ?_
    simp only [RoleTable.matched, ExtTreeSet.mem_ofList, List.contains_iff_mem, List.mem_flatten,
      List.mem_filterMap, same]
  unfold resolve
  rw [matched]

end RoleTable

section Policy
variable {roles : Roles} {groups : List String} {cluster : String} {access : EffectiveAccess}

private theorem admits_eq_some (admitted : (AccessPolicy.fromRoles (some roles)).admits groups =
    some access) : access = .granted ((RoleTable.compile roles).granted groups) := by
  obtain ⟨grants, resolved, rfl⟩ := Option.map_eq_some_iff.mp admitted
  rw [RoleTable.resolve_eq] at resolved
  split at resolved
  · contradiction
  · rw [← Option.some.inj resolved]

private theorem admits_eq_none :
    (AccessPolicy.fromRoles (some roles)).admits groups = none ↔
      ∀ entry ∈ roles, ∀ binding ∈ entry.2.bindings, ¬ binding.Names groups := by
  have indexes := RoleTable.indexes_compile roles
  have empty : (AccessPolicy.fromRoles (some roles)).admits groups = none ↔
      (RoleTable.compile roles).granted groups = [] := by
    unfold AccessPolicy.fromRoles AccessPolicy.admits
    rw [Option.map_eq_none_iff, RoleTable.resolve_eq]
    simp
  rw [empty, List.eq_nil_iff_forall_not_mem]
  simp only [indexes.mem_granted, RoleTable.mem_boundRoles]
  constructor
  · intro nothing entry listed binding held named
    exact nothing _ ⟨_, ⟨entry, listed, binding, held, rfl⟩, named, rfl⟩
  · rintro nothing _ ⟨_, ⟨entry, listed, binding, held, rfl⟩, named, -⟩
    exact nothing entry listed binding held named

/-- The grants that reach a cluster are those of the bindings that name a group
and cover it. -/
private theorem mem_reaching {grant : Grant} :
    grant ∈ ((RoleTable.compile roles).granted groups).filter (·.scope.contains cluster) ↔
      ∃ entry ∈ roles, ∃ binding ∈ entry.2.bindings, binding.Names groups ∧
        binding.Covers cluster ∧ grant = { roleName := entry.1
                                           privileges := entry.2.privileges.toFinset
                                           scope := .fromList binding.clusters } := by
  rw [List.mem_filter, (RoleTable.indexes_compile roles).mem_granted]
  simp only [RoleTable.mem_boundRoles]
  constructor
  · rintro ⟨⟨_, ⟨entry, listed, binding, held, rfl⟩, named, rfl⟩, covers⟩
    exact ⟨entry, listed, binding, held, named,
      (ClusterScope.contains_fromList binding cluster).mp covers, rfl⟩
  · rintro ⟨entry, listed, binding, held, named, covers, rfl⟩
    exact ⟨⟨_, ⟨entry, listed, binding, held, rfl⟩, named, rfl⟩,
      (ClusterScope.contains_fromList binding cluster).mpr covers⟩

private theorem cluster_granted {grants : List Grant} {cluster : String} {view : ClusterAccess}
    (seen : (EffectiveAccess.granted grants).cluster cluster = .ok view) :
    view.cluster = cluster ∧ view.grants = grants ∧
      reduce (· ∪ ·) ((grants.filter (·.scope.contains cluster)).map Grant.privileges) =
        some view.privileges := by
  unfold EffectiveAccess.cluster at seen
  split at seen
  · rename_i privileges held
    obtain rfl := Except.ok.inj seen
    exact ⟨rfl, rfl, held⟩
  · contradiction

private theorem sees_iff : (∃ view, (EffectiveAccess.granted
      ((RoleTable.compile roles).granted groups)).cluster cluster = .ok view) ↔
    ∃ entry ∈ roles, entry.2.Binds groups cluster := by
  have reached : (EffectiveAccess.granted ((RoleTable.compile roles).granted groups)).privilegesFor
      cluster = none ↔
      ((RoleTable.compile roles).granted groups).filter (·.scope.contains cluster) = [] := by
    simp only [EffectiveAccess.privilegesFor, reduce_eq_none, List.map_eq_nil_iff]
  constructor
  · rintro ⟨view, seen⟩
    obtain ⟨-, -, held⟩ := cluster_granted seen
    have reaching : ((RoleTable.compile roles).granted groups).filter (·.scope.contains cluster) ≠ [] := by
      intro nothing
      simp [nothing, reduce] at held
    obtain ⟨grant, member⟩ := List.exists_mem_of_ne_nil _ reaching
    obtain ⟨entry, listed, binding, held, named, covers, -⟩ := mem_reaching.mp member
    exact ⟨entry, listed, binding, held, named, covers⟩
  · rintro ⟨entry, listed, binding, held, named, covers⟩
    have member := mem_reaching.mpr ⟨entry, listed, binding, held, named, covers, rfl⟩
    unfold EffectiveAccess.cluster
    cases privileges : (EffectiveAccess.granted
        ((RoleTable.compile roles).granted groups)).privilegesFor cluster with
    | none => rw [reached.mp privileges] at member; contradiction
    | some privileges => exact ⟨_, rfl⟩

private theorem allows_iff {view : ClusterAccess} (seen : (EffectiveAccess.granted
      ((RoleTable.compile roles).granted groups)).cluster cluster = .ok view)
    (privilege : Privilege) : view.allows privilege = true ↔
      ∃ entry ∈ roles, privilege ∈ entry.2.privileges ∧ entry.2.Binds groups cluster := by
  obtain ⟨-, -, held⟩ := cluster_granted seen
  rw [ClusterAccess.allows, decide_eq_true_iff, mem_of_reduce held]
  simp only [List.mem_map]
  constructor
  · rintro ⟨_, ⟨grant, member, rfl⟩, allowed⟩
    obtain ⟨entry, listed, binding, held, named, covers, rfl⟩ := mem_reaching.mp member
    exact ⟨entry, listed, List.mem_toFinset.mp allowed, binding, held, named, covers⟩
  · rintro ⟨entry, listed, allowed, binding, held, named, covers⟩
    exact ⟨_, ⟨_, mem_reaching.mpr ⟨entry, listed, binding, held, named, covers, rfl⟩, rfl⟩,
      List.mem_toFinset.mpr allowed⟩

private theorem mem_roleNames {view : ClusterAccess} (seen : (EffectiveAccess.granted
      ((RoleTable.compile roles).granted groups)).cluster cluster = .ok view) (name : String) :
    name ∈ view.roleNames ↔ ∃ entry ∈ roles, entry.1 = name ∧ entry.2.Binds groups cluster := by
  obtain ⟨rfl, grants, -⟩ := cluster_granted seen
  rw [ClusterAccess.roleNames, mem_sortDedup, grants]
  simp only [List.mem_map]
  constructor
  · rintro ⟨grant, member, rfl⟩
    obtain ⟨entry, listed, binding, held, named, covers, rfl⟩ := mem_reaching.mp member
    exact ⟨entry, listed, rfl, binding, held, named, covers⟩
  · rintro ⟨entry, listed, rfl, binding, held, named, covers⟩
    exact ⟨_, mem_reaching.mpr ⟨entry, listed, binding, held, named, covers, rfl⟩, rfl⟩

private theorem Role.Binds.mono {role : Role} {others : List String}
    (binds : role.Binds groups cluster) (more : groups ⊆ others) : role.Binds others cluster := by
  obtain ⟨binding, held, ⟨group, asked, named⟩, covers⟩ := binds
  exact ⟨binding, held, ⟨group, more asked, named⟩, covers⟩

/-- The compiled table grants what the roles bind and nothing else. It refuses
whom no binding names, and otherwise answers for each cluster by the roles with
a binding that names a group and covers the cluster. -/
theorem policy_grants_what_roles_bind (roles : Roles) (groups : List String) (cluster : String) :
    let policy := AccessPolicy.fromRoles (some roles)
    (policy.admits groups = none ↔
      ∀ entry ∈ roles, ∀ binding ∈ entry.2.bindings, ¬ binding.Names groups) ∧
    (∀ access, policy.admits groups = some access →
      ((∃ view, access.cluster cluster = .ok view) ↔
        ∃ entry ∈ roles, entry.2.Binds groups cluster) ∧
      ∀ view, access.cluster cluster = .ok view →
        (∀ privilege, view.allows privilege = true ↔
          ∃ entry ∈ roles, privilege ∈ entry.2.privileges ∧ entry.2.Binds groups cluster) ∧
        view.roleNames.Pairwise (· < ·) ∧
        ∀ name, name ∈ view.roleNames ↔
          ∃ entry ∈ roles, entry.1 = name ∧ entry.2.Binds groups cluster) ∧
    (∀ others, (∀ group, group ∈ groups ↔ group ∈ others) →
      policy.admits others = policy.admits groups) ∧
    (∀ others, groups ⊆ others → ∀ access view, policy.admits groups = some access →
      access.cluster cluster = .ok view →
        ∃ wider wideView, policy.admits others = some wider ∧
          wider.cluster cluster = .ok wideView ∧
          ∀ privilege, view.allows privilege = true → wideView.allows privilege = true) := by
  intro policy
  refine ⟨admits_eq_none, ?_, ?_, ?_⟩
  · intro access admitted
    obtain rfl := admits_eq_some admitted
    exact ⟨sees_iff, fun view seen =>
      ⟨allows_iff seen, sortDedup_pairwise _, mem_roleNames seen⟩⟩
  · intro others same
    exact congrArg (Option.map EffectiveAccess.granted)
      (RoleTable.resolve_congr _ fun group => (same group).symm)
  · intro others more access view admitted seen
    obtain rfl := admits_eq_some admitted
    obtain ⟨entry, listed, binds⟩ := sees_iff.mp ⟨view, seen⟩
    cases wide : policy.admits others with
    | none =>
      obtain ⟨binding, held, named, -⟩ := binds.mono more
      exact absurd named (admits_eq_none.mp wide entry listed binding held)
    | some wider =>
      obtain rfl := admits_eq_some wide
      obtain ⟨wideView, seenWide⟩ := sees_iff.mpr ⟨entry, listed, binds.mono more⟩
      refine ⟨_, wideView, rfl, seenWide, fun privilege allowed => ?_⟩
      obtain ⟨entry, listed, held, binds⟩ := (allows_iff seen privilege).mp allowed
      exact (allows_iff seenWide privilege).mpr ⟨entry, listed, held, binds.mono more⟩

example : ((AccessPolicy.fromRoles (some
    [("viewer", ⟨[], [⟨["ops"], none⟩]⟩),
      ("admin", ⟨[.records], [⟨["dev", "ops"], some ["prod"]⟩]⟩)])).admits ["ops", "ops"]).map
        (fun access => ((access.cluster "prod").toOption.map (·.roleNames),
          (access.cluster "test").toOption.map (·.roleNames))) =
    some (some ["admin", "viewer"], some ["viewer"]) := by decide

end Policy
end Klens.Auth
