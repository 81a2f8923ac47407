import Klens.Store.Interest
import Mathlib.Data.List.Perm.Basic
import Mathlib.Tactic.Common

/-! What the registry stores for a group is read through two views, its count
and its touch. A removed entry counts nothing and was touched never, so neither
place that removes entries shows in the views except by a touch that expired. -/
namespace Klens.Store
open Std

namespace InterestRegistry
variable (registry : InterestRegistry) (id other : String) (now : Nat)

/-- The stored lease count. -/
def leasesOf : Nat := ((registry.groups[id]?).map InterestState.leases).getD 0

def touchOf : Option Nat := (registry.groups[id]?).bind InterestState.touchedAt

/-- A touch at `at` is younger than the ttl. -/
def Fresh (touch : Option Nat) : Prop := ∃ touched, touch = some touched ∧ now - touched < registry.ttl

theorem hot_iff (state : InterestState) (now ttl : Nat) : state.hot now ttl = true ↔
    0 < state.leases ∨ ∃ touched, state.touchedAt = some touched ∧ now - touched < ttl := by
  simp [InterestState.hot, Option.any_eq_true]

theorem leasesOf_leaseGroup : (registry.leaseGroup id).2.leasesOf other =
    registry.leasesOf other + if other = id then 1 else 0 := by
  by_cases same : other = id
  · subst same
    cases found : registry.groups[other]? <;> simp [leaseGroup, leasesOf, found]
  · simp [leaseGroup, leasesOf, ExtTreeMap.getElem?_insert, same, Ne.symm same]

theorem touchOf_leaseGroup : (registry.leaseGroup id).2.touchOf other = registry.touchOf other := by
  by_cases same : other = id
  · subst same
    cases found : registry.groups[other]? <;> simp [leaseGroup, touchOf, found]
  · simp [leaseGroup, touchOf, ExtTreeMap.getElem?_insert, Ne.symm same]

theorem leasesOf_touchGroup :
    (registry.touchGroup id now).leasesOf other = registry.leasesOf other := by
  by_cases same : other = id
  · subst same
    cases found : registry.groups[other]? <;> simp [touchGroup, leasesOf, found]
  · cases found : registry.groups[id]? <;>
      simp [touchGroup, leasesOf, found, ExtTreeMap.getElem?_insert, Ne.symm same]

theorem touchOf_touchGroup : (registry.touchGroup id now).touchOf other =
    if other = id then some now else registry.touchOf other := by
  by_cases same : other = id
  · subst same
    cases found : registry.groups[other]? <;> simp [touchGroup, touchOf, found]
  · cases found : registry.groups[id]? <;>
      simp [touchGroup, touchOf, found, ExtTreeMap.getElem?_insert, same, Ne.symm same]

theorem idle_iff (state : InterestState) :
    state.idle = true ↔ state.leases = 0 ∧ state.touchedAt = none := by
  simp [InterestState.idle]

theorem leasesOf_drop (lease : InterestLease) : (lease.drop registry).leasesOf other =
    registry.leasesOf other - if other = lease.group then 1 else 0 := by
  unfold InterestLease.drop
  cases found : registry.groups[lease.group]? with
  | none =>
    by_cases same : other = lease.group
    · simp [leasesOf, same, found]
    · simp [same]
  | some state =>
    dsimp only
    split
    · rename_i idle
      have none_left : state.leases - 1 = 0 := ((idle_iff _).mp idle).1
      by_cases same : other = lease.group
      · simp [leasesOf, same, found, none_left]
      · simp [leasesOf, ExtTreeMap.getElem?_erase, same, Ne.symm same]
    · by_cases same : other = lease.group
      · simp [leasesOf, same, found]
      · simp [leasesOf, ExtTreeMap.getElem?_insert, same, Ne.symm same]

theorem touchOf_drop (lease : InterestLease) :
    (lease.drop registry).touchOf other = registry.touchOf other := by
  unfold InterestLease.drop
  cases found : registry.groups[lease.group]? with
  | none => rfl
  | some state =>
    dsimp only
    split
    · rename_i idle
      have untouched : state.touchedAt = none := ((idle_iff _).mp idle).2
      by_cases same : other = lease.group
      · simp [touchOf, same, found, untouched]
      · simp [touchOf, ExtTreeMap.getElem?_erase, Ne.symm same]
    · by_cases same : other = lease.group
      · simp [touchOf, same, found]
      · simp [touchOf, ExtTreeMap.getElem?_insert, Ne.symm same]

/-- A sweep leaves an entry as it is or removes it, and what it removes is not
leased. -/
theorem getElem?_hotGroups : (registry.hotGroups now).2.groups[other]? =
    (registry.groups[other]?).filter fun state => state.hot now registry.ttl := by
  simp [hotGroups, ExtTreeMap.getElem?_filter]

theorem leasesOf_hotGroups : (registry.hotGroups now).2.leasesOf other = registry.leasesOf other := by
  rw [leasesOf, getElem?_hotGroups, leasesOf]
  cases found : registry.groups[other]? with
  | none => rfl
  | some state =>
    rw [Option.filter]
    split
    · rfl
    · rename_i cold
      rw [hot_iff, not_or] at cold
      have unleased : state.leases = 0 := by omega
      simp [unleased]

theorem touchOf_hotGroups : (registry.hotGroups now).2.touchOf other = registry.touchOf other ∨
    (registry.hotGroups now).2.touchOf other = none ∧ ¬ registry.Fresh now (registry.touchOf other) := by
  rw [touchOf, getElem?_hotGroups, touchOf]
  cases found : registry.groups[other]? with
  | none => exact .inl rfl
  | some state =>
    rw [Option.filter]
    split
    · exact .inl rfl
    · rename_i cold
      rw [hot_iff, not_or] at cold
      exact .inr ⟨rfl, cold.2⟩

/-- A sweep returns the groups that it keeps. -/
theorem mem_hotGroups_fst_iff :
    other ∈ (registry.hotGroups now).1 ↔ other ∈ (registry.hotGroups now).2.groups := by
  simp only [hotGroups, ExtTreeSet.mem_ofList, List.contains_iff_mem, ExtTreeMap.mem_keys]

/-- What a sweep finds, read through the views. -/
theorem mem_hotGroups_iff : other ∈ (registry.hotGroups now).1 ↔
    0 < registry.leasesOf other ∨ registry.Fresh now (registry.touchOf other) := by
  rw [mem_hotGroups_fst_iff, ExtTreeMap.mem_iff_isSome_getElem?, getElem?_hotGroups, leasesOf,
    touchOf, Fresh]
  cases found : registry.groups[other]? with
  | none => simp
  | some state =>
    simp only [Option.isSome_filter, Option.any_some, hot_iff, Option.map_some, Option.getD_some,
      Option.bind_some]

@[simp] theorem ttl_leaseGroup : (registry.leaseGroup id).2.ttl = registry.ttl := rfl

@[simp] theorem ttl_touchGroup : (registry.touchGroup id now).ttl = registry.ttl := by
  unfold touchGroup
  split <;> rfl

@[simp] theorem ttl_hotGroups : (registry.hotGroups now).2.ttl = registry.ttl := rfl

@[simp] theorem ttl_drop (lease : InterestLease) : (lease.drop registry).ttl = registry.ttl := by
  unfold InterestLease.drop
  split
  · rfl
  · dsimp only
    split <;> rfl

end InterestRegistry

namespace Interest
open InterestRegistry

/-- How many live leases a group has. -/
def leasesOn (self : Interest) (id : String) : Nat :=
  self.live.countP fun lease => decide (lease.group = id)

/-- The counts are those of the live leases, and only a touch that has expired
was forgotten. -/
structure Counted (state : Interest) : Prop where
  counts : ∀ id, state.registry.leasesOf id = state.leasesOn id
  touches : ∀ id, state.registry.touchOf id = state.touched id ∨
    state.registry.touchOf id = none ∧ ¬ state.registry.Fresh state.clock (state.touched id)

theorem counted_start (ttl : Nat) : (start ttl).Counted where
  counts id := by simp [start, InterestRegistry.new, leasesOf, leasesOn]
  touches id := .inl (by simp [start, InterestRegistry.new, touchOf])

theorem not_fresh_later {registry : InterestRegistry} {touch : Option Nat} {now : Nat}
    (expired : ¬ registry.Fresh now touch) (span : Nat) : ¬ registry.Fresh (now + span) touch := by
  rintro ⟨touched, known, young⟩
  exact expired ⟨touched, known, by omega⟩

theorem leasesOn_eraseIdx {state : Interest} {index : Nat} {lease : InterestLease}
    (found : state.live[index]? = some lease) (id : String) :
    (state.live.eraseIdx index).countP (fun lease => decide (lease.group = id)) =
      state.leasesOn id - if id = lease.group then 1 else 0 := by
  obtain ⟨bound, rfl⟩ := List.getElem?_eq_some_iff.mp found
  rw [leasesOn, ← (List.getElem_cons_eraseIdx_perm bound).countP_eq, List.countP_cons]
  by_cases same : id = state.live[index].group
  · simp [same]
  · simp [same, Ne.symm same]

theorem step_drop_of_none {state : Interest} {index : Nat} (found : state.live[index]? = none) :
    state.step (.drop index) = state := by
  simp only [Interest.step, found]

theorem step_drop_of_some {state : Interest} {index : Nat} {lease : InterestLease}
    (found : state.live[index]? = some lease) :
    state.step (.drop index) =
      { state with registry := lease.drop state.registry, live := state.live.eraseIdx index } := by
  simp only [Interest.step, found]

/-- No step miscounts a lease or forgets a touch too early. -/
theorem Counted.step {state : Interest} (counted : state.Counted) (event : InterestEvent) :
    (state.step event).Counted := by
  obtain ⟨counts, touches⟩ := counted
  cases event with
  | elapse span =>
    refine ⟨counts, fun id => (touches id).imp_right ?_⟩
    exact fun ⟨forgotten, expired⟩ => ⟨forgotten, not_fresh_later expired span⟩
  | lease id =>
    refine ⟨fun other => ?_, fun other => ?_⟩
    · have one := leasesOf_leaseGroup state.registry id other
      rw [counts other] at one
      simpa [Interest.step, leasesOn, leaseGroup, List.countP_cons, eq_comm] using one
    · have kept := touchOf_leaseGroup state.registry id other
      have known := touches other
      rw [← kept] at known
      exact known
  | drop index =>
    cases found : state.live[index]? with
    | none =>
      rw [step_drop_of_none found]
      exact ⟨counts, touches⟩
    | some lease =>
      rw [step_drop_of_some found]
      refine ⟨fun other => ?_, fun other => ?_⟩
      · dsimp only [leasesOn]
        rw [leasesOf_drop, counts other, leasesOn_eraseIdx found]
      · dsimp only
        rw [touchOf_drop, Fresh, ttl_drop]
        exact touches other
  | touch id =>
    refine ⟨fun other => (leasesOf_touchGroup ..).trans (counts other), fun other => ?_⟩
    unfold Interest.step
    dsimp only
    rw [touchOf_touchGroup, Fresh, ttl_touchGroup]
    split
    · exact .inl rfl
    · exact touches other
  | sweep =>
    refine ⟨fun other => (leasesOf_hotGroups ..).trans (counts other), fun other => ?_⟩
    unfold Interest.step
    dsimp only
    rcases touchOf_hotGroups state.registry other state.clock with kept | ⟨removed, expired⟩
    · rw [kept]
      exact touches other
    · rw [removed]
      rcases touches other with known | ⟨_, forgotten⟩
      · exact .inr ⟨rfl, known ▸ expired⟩
      · exact .inr ⟨rfl, forgotten⟩

theorem Counted.fold {state : Interest} (counted : state.Counted) (events : List InterestEvent) :
    (events.foldl Interest.step state).Counted := by
  induction events generalizing state with
  | nil => exact counted
  | cons event events ih => exact ih (counted.step event)

/-- A group is hot while it is leased or its last touch is young. -/
theorem Counted.hot_iff {state : Interest} (counted : state.Counted) (id : String) :
    id ∈ (state.registry.hotGroups state.clock).1 ↔
      0 < state.leasesOn id ∨ state.registry.Fresh state.clock (state.touched id) := by
  rw [mem_hotGroups_iff, counted.counts]
  rcases counted.touches id with known | ⟨removed, expired⟩
  · rw [known]
  · rw [removed]
    refine or_congr_right (iff_of_false ?_ expired)
    rintro ⟨_, known, _⟩
    contradiction

@[simp] theorem ttl_step (state : Interest) (event : InterestEvent) :
    (state.step event).registry.ttl = state.registry.ttl := by
  cases event with
  | drop index =>
    cases found : state.live[index]? with
    | none => rw [step_drop_of_none found]
    | some lease =>
      rw [step_drop_of_some found]
      exact ttl_drop ..
  | _ => simp [Interest.step]

theorem ttl_run (ttl : Nat) (events : List InterestEvent) : (run ttl events).registry.ttl = ttl := by
  have kept : ∀ state : Interest, (events.foldl Interest.step state).registry.ttl =
      state.registry.ttl := by
    induction events with
    | nil => exact fun _ => rfl
    | cons event events ih => exact fun state => (ih _).trans (ttl_step state event)
  exact kept (start ttl)

/-- Whatever was leased, dropped, touched and swept before, at times that never
go back: the counts are right, and a sweep finds and keeps the hot groups. -/
theorem leases_counted (ttl : Nat) (events : List InterestEvent) (id : String) :
    let state := run ttl events
    let swept := state.registry.hotGroups state.clock
    state.registry.leasesOf id = state.leasesOn id ∧
    ((∃ lease ∈ state.live, lease.group = id) → id ∈ swept.1) ∧
    ((∀ lease ∈ state.live, lease.group ≠ id) →
      (id ∈ swept.1 ↔ ∃ touched, state.touched id = some touched ∧ state.clock - touched < ttl)) ∧
    (id ∈ swept.2.groups ↔ id ∈ swept.1) := by
  intro state swept
  have counted : state.Counted := (counted_start ttl).fold events
  have young : state.registry.Fresh state.clock (state.touched id) ↔
      ∃ touched, state.touched id = some touched ∧ state.clock - touched < ttl := by
    rw [Fresh, ttl_run]
  refine ⟨counted.counts id, fun ⟨lease, held, named⟩ => ?_, fun unleased => ?_, ?_⟩
  · have leased : 0 < state.leasesOn id := List.countP_pos_iff.mpr ⟨lease, held, by simpa using named⟩
    exact (counted.hot_iff id).mpr (.inl leased)
  · have none_live : state.leasesOn id = 0 :=
      List.countP_eq_zero.mpr fun lease held => by simpa using unleased lease held
    rw [← young, counted.hot_iff, none_live]
    simp
  · exact (mem_hotGroups_fst_iff state.registry id state.clock).symm

end Interest
end Klens.Store
