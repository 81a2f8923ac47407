import Klens.Client.PoolCalls

/-! Leases and the calls that give them back. A lease that failed before its
consumer was on its way to the queue keeps it from there for good. -/
namespace Klens.Client
open Klens.Lib

namespace ScanPool
variable {tuning : ScanTuning} {pool next : ScanPool} {call lease : Nat}

/-- This call is about to give the lease and its consumer back. -/
def Releasing (pool : ScanPool) (call lease : Nat) (consumer : Consumer) : Prop :=
  ∃ topic, pool.calls[call]? = some (.releasing lease topic consumer)

/-- Some call brings the consumer of the lease to the queue. -/
def Parking (pool : ScanPool) (lease : Nat) : Prop :=
  ∃ topic consumer, .parking lease topic consumer ∈ pool.calls

/-- What a step leaves of leases and of the calls that give them back; `failed`
is the lease that it fails on. -/
structure Onward (failed : Option Nat) (pool next : ScanPool) : Prop where
  leases : ∀ index lease, pool.leases[index]? = some lease → ∃ after,
    next.leases[index]? = some after ∧ after.consumer = lease.consumer ∧
      (after.reusable = lease.reusable ∨ failed = some index ∧ after.reusable = false) ∧
      (after.released = lease.released ∨ ∃ call, next.Releasing call index lease.consumer)
  calls : ∀ call index consumer, pool.Releasing call index consumer →
    next.Releasing call index consumer ∨ ∃ lease, pool.leases[index]? = some lease ∧
      (lease.reusable = false → consumer ∈ next.retired)
  begun : ∀ call index consumer, next.Releasing call index consumer →
    pool.Releasing call index consumer ∨
      ∃ lease, pool.leases[index]? = some lease ∧ lease.consumer = consumer
  parking : ∀ index, next.Parking index → pool.Parking index ∨
    failed = none ∧ ∃ lease, pool.leases[index]? = some lease ∧ lease.reusable = true
  retired : pool.retired ⊆ next.retired
  returned : ∀ index, (index, true) ∈ next.returned →
    (index, true) ∈ pool.returned ∨ pool.Parking index

theorem lease_stays {failed : Option Nat} {index : Nat} {found : ScanLease}
    (here : next.leases[index]? = some found) :
    ∃ after, next.leases[index]? = some after ∧ after.consumer = found.consumer ∧
      (after.reusable = found.reusable ∨ failed = some index ∧ after.reusable = false) ∧
      (after.released = found.released ∨ ∃ call, next.Releasing call index found.consumer) :=
  ⟨found, here, rfl, .inl rfl, .inl rfl⟩

theorem not_releasing {calls : List Call} {call index : Nat} {new : Call} {topic : String}
    {consumer : Consumer} (silent : ∀ lease topic consumer, new ≠ .releasing lease topic consumer)
    (found : (calls ++ [new])[call]? = some (.releasing index topic consumer)) :
    calls[call]? = some (.releasing index topic consumer) := by
  rw [List.getElem?_append] at found
  split at found
  · exact found
  · exact absurd (List.mem_singleton.mp (List.mem_of_getElem? found)).symm (silent _ _ _)

theorem not_releasing_set {calls : List Call} {call changed index : Nat} {new : Call}
    {topic : String} {consumer : Consumer}
    (silent : ∀ lease topic consumer, new ≠ .releasing lease topic consumer)
    (found : (calls.set changed new)[call]? = some (.releasing index topic consumer)) :
    calls[call]? = some (.releasing index topic consumer) := by
  by_cases same : changed = call
  · subst same
    rw [List.getElem?_set_self'] at found
    obtain ⟨_, _, same⟩ := Option.map_eq_some_iff.mp found
    exact absurd same (silent _ _ _)
  · rwa [List.getElem?_set_ne same] at found

theorem ne_releasing {new : Call} (silent : new.returns = []) (lease : Nat) (topic : String)
    (consumer : Consumer) : new ≠ .releasing lease topic consumer := by
  rintro rfl
  cases silent

theorem ne_parking {new : Call} (silent : new.returns = []) (lease : Nat) (topic : String)
    (consumer : Consumer) : .parking lease topic consumer ≠ new := by
  rintro rfl
  cases silent

/-- A step that begins a call. -/
theorem Onward.begin (pool : ScanPool) (inner : ScanPoolInner) (clock : Nat) {new : Call}
    (silent : new.returns = []) :
    pool.Onward none { pool with inner, clock, calls := pool.calls ++ [new] } where
  leases _ _ here := lease_stays here
  calls call index consumer := by
    rintro ⟨topic, found⟩
    exact .inl ⟨topic, getElem?_of_longer (List.prefix_append ..) found⟩
  begun call index consumer := by
    rintro ⟨topic, found⟩
    exact .inl ⟨topic, not_releasing (ne_releasing silent) found⟩
  parking index := by
    rintro ⟨topic, consumer, member⟩
    rcases List.mem_append.mp member with before | new
    · exact .inl ⟨topic, consumer, before⟩
    · exact absurd (List.mem_singleton.mp new) (ne_parking silent _ _ _)
  retired := List.Subset.refl _
  returned _ := .inl

theorem parking_set {calls : List Call} {changed index : Nat} {new : Call} {topic : String}
    {consumer : Consumer} (silent : new.returns = [])
    (member : .parking index topic consumer ∈ calls.set changed new) :
    .parking index topic consumer ∈ calls :=
  (List.mem_or_eq_of_mem_set member).resolve_right (ne_parking silent _ _ _)

/-- A step of a call that gives no lease back. -/
theorem Onward.goOn {old new : Call} (found : pool.calls[call]? = some old)
    (other : old.returns = []) (silent : new.returns = []) {inner : ScanPoolInner}
    {clock built : Nat} {leases : List ScanLease} {retired : List Consumer}
    (more : pool.leases <+: leases) (further : pool.retired ⊆ retired) :
    pool.Onward none { pool with
      inner, clock, built, leases, retired, calls := pool.calls.set call new } where
  leases _ _ here := lease_stays (getElem?_of_longer more here)
  calls at_ index consumer := by
    rintro ⟨topic, there⟩
    refine .inl ⟨topic, ?_⟩
    rw [List.getElem?_set_ne]
    · exact there
    · rintro rfl
      exact ne_releasing other _ _ _ (Option.some.inj (found.symm.trans there))
  begun at_ index consumer := by
    rintro ⟨topic, there⟩
    exact .inl ⟨topic, not_releasing_set (ne_releasing silent) there⟩
  parking index := by
    rintro ⟨topic, consumer, member⟩
    exact .inl ⟨topic, consumer, parking_set silent member⟩
  retired := further
  returned _ := .inl

/-- A step of a lease, which may begin to give it back. -/
theorem Onward.setLease {failed : Option Nat} {old new : ScanLease}
    (found : pool.leases[lease]? = some old) (same : new.consumer = old.consumer)
    (reusable : new.reusable = old.reusable ∨ failed = some lease ∧ new.reusable = false)
    {calls : List Call} (more : pool.calls <+: calls)
    (released : new.released = old.released ∨
      ∃ (call : Nat) (topic : String),
        calls[call]? = some (Call.releasing lease topic old.consumer))
    (begun : ∀ (call index : Nat) (topic : String) (consumer : Consumer),
      calls[call]? = some (Call.releasing index topic consumer) →
        pool.calls[call]? = some (Call.releasing index topic consumer) ∨
          index = lease ∧ consumer = old.consumer)
    (parking : ∀ (index : Nat) (topic : String) (consumer : Consumer),
      Call.parking index topic consumer ∈ calls → Call.parking index topic consumer ∈ pool.calls) :
    pool.Onward failed { pool with leases := pool.leases.set lease new, calls } where
  leases index kept here := by
    by_cases this : lease = index
    · subst this
      obtain ⟨bound, _⟩ := List.getElem?_eq_some_iff.mp found
      obtain rfl := Option.some.inj (found.symm.trans here)
      exact ⟨new, List.getElem?_set_self bound, same, reusable, released⟩
    · refine lease_stays ?_
      rwa [List.getElem?_set_ne this]
  calls call index consumer := by
    rintro ⟨topic, there⟩
    exact .inl ⟨topic, getElem?_of_longer more there⟩
  begun call index consumer := by
    rintro ⟨topic, there⟩
    rcases begun call index topic consumer there with before | ⟨rfl, rfl⟩
    · exact .inl ⟨topic, before⟩
    · exact .inr ⟨old, found, rfl⟩
  parking index := by
    rintro ⟨topic, consumer, member⟩
    exact .inl ⟨topic, consumer, parking index topic consumer member⟩
  retired := List.Subset.refl _
  returned _ := .inl

theorem Onward.release {old found : ScanLease} (here : pool.leases[lease]? = some old)
    (same : found.consumer = old.consumer) (reusable : found.reusable = old.reusable)
    (released : found.released = old.released) :
    pool.Onward none (pool.release lease found) := by
  unfold ScanPool.release
  split
  · exact .setLease here same (.inl reusable) (List.prefix_refl _) (.inl released)
      (fun _ _ _ _ => .inl) fun _ _ _ => id
  · have begun : (pool.calls ++ [.releasing lease found.topic found.consumer])[pool.calls.length]? =
        some (.releasing lease found.topic old.consumer) := by
      rw [same, List.getElem?_concat_length]
    refine @Onward.setLease pool lease none old { found with released := true } here same
      (.inl reusable) _ (List.prefix_append ..) (.inr ⟨_, _, begun⟩)
      (fun call index topic consumer there => ?_) fun index topic consumer member => ?_
    · rw [List.getElem?_append] at there
      split at there
      · exact .inl there
      · cases List.mem_singleton.mp (List.mem_of_getElem? there)
        exact .inr ⟨rfl, same⟩
    · refine (List.mem_append.mp member).resolve_right fun last => ?_
      cases List.mem_singleton.mp last

/-- The call that gives a lease back, where `new` is what becomes of it. -/
theorem Onward.giveBack {given : ScanLease} {topic : String} {consumer : Consumer} {new : Call}
    (found : pool.calls[call]? = some (.releasing lease topic consumer))
    (here : pool.leases[lease]? = some given) {retired : List Consumer}
    {returned : List (Nat × Bool)}
    (leaves : ∀ lease topic consumer, new ≠ .releasing lease topic consumer)
    (parked : ∀ lease topic consumer, new = .parking lease topic consumer →
      pool.leases[lease]? = some given ∧ given.reusable = true)
    (further : pool.retired ⊆ retired) (closed : given.reusable = false → consumer ∈ retired)
    (back : ∀ index, (index, true) ∈ returned → (index, true) ∈ pool.returned) :
    pool.Onward none { pool with calls := pool.calls.set call new, retired, returned } where
  leases _ _ here := lease_stays here
  calls at_ index other := by
    rintro ⟨otherTopic, there⟩
    by_cases same : call = at_
    · subst same
      cases Option.some.inj (found.symm.trans there)
      exact .inr ⟨given, here, closed⟩
    · refine .inl ⟨otherTopic, ?_⟩
      rwa [List.getElem?_set_ne same]
  begun at_ index other := by
    rintro ⟨otherTopic, there⟩
    exact .inl ⟨otherTopic, not_releasing_set leaves there⟩
  parking index := by
    rintro ⟨otherTopic, other, member⟩
    rcases List.mem_or_eq_of_mem_set member with before | same
    · exact .inl ⟨otherTopic, other, before⟩
    · exact .inr ⟨rfl, given, parked index otherTopic other same.symm⟩
  retired := further
  returned index listed := .inl (back index listed)

theorem Onward.load (stepped : pool.load call = some next) : pool.Onward none next := by
  unfold ScanPool.load at stepped
  split at stepped
  · rename_i lease topic consumer found
    obtain ⟨given, here, stepped⟩ := Option.bind_eq_some_iff.mp stepped
    split at stepped
    · rename_i reusable
      obtain rfl := Option.some.inj stepped
      refine .giveBack found here (fun _ _ _ same => ?_) (fun _ _ _ same => ?_)
        (List.Subset.refl _) (fun failed => ?_) fun _ => id
      · cases same
      · cases same
        exact ⟨here, reusable⟩
      · rw [failed] at reusable
        contradiction
    · obtain rfl := Option.some.inj stepped
      refine .giveBack found here (ne_releasing rfl) (fun _ _ _ same => ?_)
        (List.subset_append_left ..) (fun _ => ?_) fun index listed => ?_
      · cases same
      · exact List.mem_append_right _ (List.mem_singleton_self _)
      · refine (List.mem_append.mp listed).resolve_right fun now => ?_
        cases List.mem_singleton.mp now
  · contradiction

theorem Onward.park {elapsed further : Nat} (stepped : pool.park call elapsed further = some next) :
    pool.Onward none next := by
  unfold ScanPool.park at stepped
  split at stepped
  · rename_i lease topic consumer found
    obtain rfl := Option.some.inj stepped
    refine ⟨fun _ _ here => lease_stays here, fun at_ index other => ?_,
      fun at_ index other => ?_, fun index => ?_, List.Subset.refl _, fun index listed => ?_⟩
    · rintro ⟨otherTopic, there⟩
      refine .inl ⟨otherTopic, ?_⟩
      rw [List.getElem?_set_ne]
      · exact there
      · rintro rfl
        cases Option.some.inj (found.symm.trans there)
    · rintro ⟨otherTopic, there⟩
      exact .inl ⟨otherTopic, not_releasing_set (ne_releasing rfl) there⟩
    · rintro ⟨otherTopic, other, member⟩
      exact .inl ⟨otherTopic, other, parking_set rfl member⟩
    · rcases List.mem_append.mp listed with before | now
      · exact .inl before
      · cases List.mem_singleton.mp now
        exact .inr ⟨topic, consumer, List.mem_of_getElem? found⟩
  · contradiction

end ScanPool

/-- The lease that an event fails on. -/
def Event.fails : Event → Option Nat
  | .poison lease => some lease
  | _ => none

namespace ScanPool
variable {tuning : ScanTuning} {pool next : ScanPool} {call lease : Nat}

theorem onward_of_step {event : Event} (stepped : pool.step event = some next) :
    pool.Onward event.fails next := by
  cases event with
  | acquire topic closed elapsed =>
    obtain rfl := Option.some.inj stepped
    exact .begin _ _ _ rfl
  | retireNext call =>
    simp only [step, retireNext] at stepped
    split at stepped
    · obtain rfl := Option.some.inj stepped
      exact .goOn ‹_› rfl rfl (List.prefix_refl _) (List.subset_append_left ..)
    · obtain rfl := Option.some.inj stepped
      exact .goOn ‹_› rfl rfl (List.prefix_refl _) (List.subset_append_left ..)
    · contradiction
  | build call built =>
    simp only [step, build] at stepped
    split at stepped
    · split at stepped
      · obtain rfl := Option.some.inj stepped
        exact .goOn ‹_› rfl rfl (List.prefix_refl _) (List.Subset.refl _)
      · obtain rfl := Option.some.inj stepped
        exact .goOn ‹_› rfl rfl (List.prefix_refl _) (List.Subset.refl _)
    · contradiction
  | assign call assigned =>
    simp only [step, assign] at stepped
    split at stepped
    · split at stepped
      · obtain rfl := Option.some.inj stepped
        exact .goOn ‹_› rfl rfl (List.prefix_append ..) (List.Subset.refl _)
      · obtain rfl := Option.some.inj stepped
        exact .goOn ‹_› rfl rfl (List.prefix_refl _) (List.subset_append_left ..)
    · contradiction
  | poison lease =>
    obtain ⟨found, here, same⟩ := Option.bind_eq_some_iff.mp stepped
    obtain rfl := Option.some.inj same
    exact @Onward.setLease pool lease (some lease) found { found with reusable := false }
      (lease?_eq_some here) rfl (.inr ⟨rfl, rfl⟩) _ (List.prefix_refl _) (.inl rfl)
      (fun _ _ _ _ => .inl) fun _ _ _ => id
  | close lease =>
    obtain ⟨found, here, same⟩ := Option.bind_eq_some_iff.mp stepped
    obtain rfl := Option.some.inj same
    exact .release (lease?_eq_some here) rfl rfl rfl
  | drop lease =>
    obtain ⟨found, here, same⟩ := Option.bind_eq_some_iff.mp stepped
    obtain rfl := Option.some.inj same
    exact .release (lease?_eq_some here) rfl rfl rfl
  | load call => exact .load stepped
  | park call elapsed further => exact .park stepped
  | tick elapsed =>
    obtain rfl := Option.some.inj stepped
    exact .begin _ _ _ rfl

/-- A lease that failed before its consumer was on its way to the queue: the
consumer is under it, on its way back, or closed. -/
structure Spoiled (index : Nat) (consumer : Consumer) (pool : ScanPool) : Prop where
  failed : ∃ lease, pool.leases[index]? = some lease ∧ lease.reusable = false ∧
    lease.consumer = consumer ∧ (lease.released = false ∨
      (∃ call, pool.Releasing call index consumer) ∨ consumer ∈ pool.retired)
  parking : ¬ pool.Parking index
  returned : (index, true) ∉ pool.returned

theorem Spoiled.onward {index : Nat} {consumer : Consumer} {failing : Option Nat}
    (spoiled : pool.Spoiled index consumer) (onward : pool.Onward failing next) :
    next.Spoiled index consumer := by
  obtain ⟨⟨lease, here, failed, rfl, place⟩, unparked, returned⟩ := spoiled
  obtain ⟨after, there, same, still, released⟩ := onward.leases index lease here
  have failedStill : after.reusable = false := by
    obtain same | ⟨_, failed⟩ := still
    · exact same.trans failed
    · exact failed
  refine ⟨⟨after, there, failedStill, same, ?_⟩, fun parking => ?_, fun listed => ?_⟩
  · rcases place with unreleased | ⟨call, giving⟩ | closed
    · rcases released with same | giving
      · exact .inl (same.trans unreleased)
      · exact .inr (.inl giving)
    · rcases onward.calls call index lease.consumer giving with on_ | ⟨given, found, closes⟩
      · exact .inr (.inl ⟨call, on_⟩)
      · obtain rfl := Option.some.inj (here.symm.trans found)
        exact .inr (.inr (closes failed))
    · exact .inr (.inr (onward.retired closed))
  · rcases onward.parking index parking with before | ⟨_, given, found, reusable⟩
    · exact unparked before
    · obtain rfl := Option.some.inj (here.symm.trans found)
      exact Bool.false_ne_true (failed.symm.trans reusable)
  · rcases onward.returned index listed with before | parking
    · exact returned before
    · exact unparked parking

theorem Spoiled.run {index : Nat} {consumer : Consumer} {events : List Event}
    (spoiled : pool.Spoiled index consumer) (ran : pool.run events = some next) :
    next.Spoiled index consumer :=
  foldlM_keeps (fun spoiled stepped => spoiled.onward (onward_of_step stepped)) spoiled ran

section Kept
variable {consumer : Consumer}

theorem Kept.places_le (kept : pool.Kept tuning) (consumer : Consumer) :
    pool.places consumer ≤ 1 := by
  rw [kept.custody]
  split <;> omega

theorem Kept.parked_once (kept : pool.Kept tuning) : pool.inner.consumers.Nodup := by
  refine List.nodup_iff_count_le_one.mpr fun consumer => ?_
  have once := kept.places_le consumer
  unfold places at once
  omega

theorem mem_held {found : ScanLease} (unreleased : found.released = false) :
    found.consumer ∈ found.held := by
  simp [ScanLease.held, unreleased]

/-- A consumer that is somewhere else is not parked. -/
theorem Kept.not_parked (kept : pool.Kept tuning)
    (elsewhere : consumer ∈ pool.leases.flatMap ScanLease.held ∨
      consumer ∈ pool.calls.flatMap Call.held ∨ consumer ∈ pool.retired) :
    consumer ∉ pool.inner.consumers := by
  intro parked
  have once := kept.places_le consumer
  have here := List.count_pos_iff.mpr parked
  unfold places at once
  rcases elsewhere with leased | called | closed
  · have there := List.count_pos_iff.mpr leased
    omega
  · have there := List.count_pos_iff.mpr called
    omega
  · have there := List.count_pos_iff.mpr closed
    omega

theorem Kept.spoiled_not_parked (kept : pool.Kept tuning) {index : Nat}
    (spoiled : pool.Spoiled index consumer) : consumer ∉ pool.inner.consumers := by
  obtain ⟨⟨lease, here, _, rfl, place⟩, _, _⟩ := spoiled
  refine kept.not_parked ?_
  rcases place with unreleased | ⟨call, topic, giving⟩ | closed
  · exact .inl (List.mem_flatMap.mpr ⟨lease, List.mem_of_getElem? here, mem_held unreleased⟩)
  · exact .inr (.inl (List.mem_flatMap.mpr
      ⟨_, List.mem_of_getElem? giving, List.mem_singleton_self _⟩))
  · exact .inr (.inr closed)

end Kept

/-- A call that gives a lease back holds the consumer of that lease. -/
def Agreed (pool : ScanPool) : Prop :=
  ∀ call index consumer, pool.Releasing call index consumer →
    ∃ lease, pool.leases[index]? = some lease ∧ lease.consumer = consumer

theorem Agreed.onward {failed : Option Nat} (agreed : pool.Agreed)
    (onward : pool.Onward failed next) : next.Agreed := by
  intro call index consumer releasing
  have known : ∃ lease, pool.leases[index]? = some lease ∧ lease.consumer = consumer := by
    rcases onward.begun call index consumer releasing with before | found
    · exact agreed call index consumer before
    · exact found
  obtain ⟨lease, here, rfl⟩ := known
  obtain ⟨after, there, same, _⟩ := onward.leases index lease here
  exact ⟨after, there, same⟩

theorem Agreed.run {events : List Event} (ran : (new tuning).run events = some pool) :
    pool.Agreed := by
  refine foldlM_keeps (fun agreed stepped => Agreed.onward agreed (onward_of_step stepped)) ?_ ran
  rintro call index consumer ⟨topic, found⟩
  simp [ScanPool.new] at found

/-- Nothing fails of a lease whose consumer is on its way to the queue. -/
def Admits (pool : ScanPool) (event : Event) : Prop :=
  ∀ lease ∈ event.fails, ¬ pool.Parking lease

/-- A run whose steps are all admitted. -/
def Careful : ScanPool → List Event → Prop
  | _, [] => True
  | pool, event :: events => pool.Admits event ∧ ∀ next ∈ pool.step event, Careful next events

theorem admits_of_none {event : Event} (none : event.fails = none) : pool.Admits event := by
  intro lease fails
  rw [none] at fails
  contradiction

theorem Careful.cons {event : Event} {events : List Event} (admitted : pool.Admits event)
    (stepped : pool.step event = some next) (careful : next.Careful events) :
    pool.Careful (event :: events) := by
  refine ⟨admitted, fun other here => ?_⟩
  obtain rfl := Option.some.inj (stepped.symm.trans here)
  exact careful

/-- Consumers on their way to the queue come from leases that did not fail. -/
def ParksReusable (pool : ScanPool) : Prop :=
  ∀ index, pool.Parking index → ∃ lease, pool.leases[index]? = some lease ∧ lease.reusable = true

theorem ParksReusable.step {event : Event} (parks : pool.ParksReusable)
    (admitted : pool.Admits event) (stepped : pool.step event = some next) :
    next.ParksReusable := by
  have onward := onward_of_step stepped
  intro index parking
  have known : ∃ lease, pool.leases[index]? = some lease ∧ lease.reusable = true ∧
      event.fails ≠ some index := by
    rcases onward.parking index parking with before | ⟨none, lease, here, reusable⟩
    · obtain ⟨lease, here, reusable⟩ := parks index before
      exact ⟨lease, here, reusable, fun fails => admitted index fails before⟩
    · exact ⟨lease, here, reusable, by simp [none]⟩
  obtain ⟨lease, here, reusable, apart⟩ := known
  obtain ⟨after, there, _, still, _⟩ := onward.leases index lease here
  refine ⟨after, there, ?_⟩
  obtain same | ⟨fails, _⟩ := still
  · exact same.trans reusable
  · exact absurd fails apart

theorem Careful.parks {events : List Event} (careful : pool.Careful events)
    (parks : pool.ParksReusable) (ran : pool.run events = some next) : next.ParksReusable := by
  induction events generalizing pool with
  | nil =>
    obtain rfl : pool = next := by simpa [ScanPool.run] using ran
    exact parks
  | cons event events ih =>
    rw [run_cons] at ran
    obtain ⟨after, stepped, rest⟩ := Option.bind_eq_some_iff.mp ran
    exact ih (careful.2 after stepped) (parks.step careful.1 stepped) rest

/-- A failed lease that has not been given back is spoiled. -/
theorem Kept.spoiled (kept : pool.Kept tuning) (agreed : pool.Agreed) (parks : pool.ParksReusable)
    {index : Nat} {lease : ScanLease} (here : pool.leases[index]? = some lease)
    (failed : lease.reusable = false) (unreturned : index ∉ pool.returned.map Prod.fst) :
    pool.Spoiled index lease.consumer := by
  have unparked : ¬ pool.Parking index := by
    intro parking
    obtain ⟨given, there, reusable⟩ := parks index parking
    obtain rfl := Option.some.inj (here.symm.trans there)
    exact Bool.false_ne_true (failed.symm.trans reusable)
  refine ⟨⟨lease, here, failed, rfl, ?_⟩, unparked,
    fun listed => unreturned (List.mem_map_of_mem listed)⟩
  cases released : lease.released with
  | false => exact .inl rfl
  | true =>
    have returns := kept.returned index
    rw [here, Option.any_some, released, if_pos rfl, ScanPool.returns,
      List.count_eq_zero_of_not_mem unreturned] at returns
    have giving : index ∈ pool.calls.flatMap Call.returns := List.count_pos_iff.mp (by omega)
    obtain ⟨call, member, gives⟩ := List.mem_flatMap.mp giving
    cases call with
    | releasing other topic consumer =>
      obtain rfl : index = other := List.mem_singleton.mp gives
      obtain ⟨at_, found⟩ := List.mem_iff_getElem?.mp member
      obtain ⟨given, there, rfl⟩ := agreed at_ index consumer ⟨topic, found⟩
      obtain rfl := Option.some.inj (here.symm.trans there)
      exact .inr (.inl ⟨at_, topic, found⟩)
    | parking other topic consumer =>
      obtain rfl : index = other := List.mem_singleton.mp gives
      exact absurd ⟨topic, consumer, member⟩ unparked
    | acquiring | retiring | done => cases gives

/-- Once no call is in progress, each lease has been returned just if it was released. -/
theorem Kept.count_returned (kept : pool.Kept tuning)
    (finished : ∀ call ∈ pool.calls, call.finished = true) (index : Nat) :
    (pool.returned.map Prod.fst).count index =
      if pool.leases[index]?.any ScanLease.released then 1 else 0 := by
  have total := kept.returned index
  have none_ : pool.calls.flatMap Call.returns = [] := List.flatMap_eq_nil_iff.mpr
    fun call member => Call.returns_of_finished (finished call member)
  rwa [returns, none_, List.count_nil, Nat.add_zero] at total

/-- A lease that was released stays so. -/
theorem Kept.released_onward (kept : next.Kept tuning) {failed : Option Nat}
    (onward : pool.Onward failed next) {index : Nat}
    (released : pool.leases[index]?.any ScanLease.released = true) :
    next.leases[index]?.any ScanLease.released = true := by
  obtain ⟨lease, here, gone⟩ := (Option.any_eq_true ..).mp released
  obtain ⟨after, there, _, _, same | ⟨call, topic, giving⟩⟩ := onward.leases index lease here
  · rw [there, Option.any_some, same]
    exact gone
  · by_contra held
    have none_ := kept.returned index
    have mine : index ∈ next.calls.flatMap Call.returns :=
      List.mem_flatMap.mpr ⟨_, List.mem_of_getElem? giving, List.mem_singleton_self _⟩
    have some_ := List.count_pos_iff.mpr mine
    rw [returns, if_neg held] at none_
    omega

theorem Kept.released_run (kept : pool.Kept tuning) {index : Nat}
    (released : pool.leases[index]?.any ScanLease.released = true) {events : List Event}
    (ran : pool.run events = some next) : next.leases[index]?.any ScanLease.released = true := by
  let Keeps (pool : ScanPool) : Prop :=
    pool.Kept tuning ∧ pool.leases[index]?.any ScanLease.released = true
  have step {pool next : ScanPool} {event : Event} (keeps : Keeps pool)
      (stepped : pool.step event = some next) : Keeps next := by
    have after := keeps.1.step stepped
    exact ⟨after, after.released_onward (onward_of_step stepped) keeps.2⟩
  have keeps : Keeps next := foldlM_keeps step ⟨kept, released⟩ ran
  exact keeps.2

theorem released_release {found old : ScanLease} (here : pool.leases[lease]? = some old) :
    (pool.release lease found).leases[lease]?.any ScanLease.released = true := by
  unfold ScanPool.release
  split
  · rename_i already
    rwa [released_set here, if_pos rfl]
  · rw [released_set here, if_pos rfl]

/-- `close` and `drop` both end a lease that is not gone, and whatever comes later its
consumer is given back once. -/
theorem Kept.closes (kept : pool.Kept tuning) {index : Nat} {found : ScanLease}
    (here : pool.leases[index]? = some found) (there : found.dropped = false) {event : Event}
    (ending : event = .close index ∨ event = .drop index) :
    ∃ next, pool.step event = some next ∧ ∀ later final, next.run later = some final →
      (∀ call ∈ final.calls, call.finished = true) →
        (final.returned.map Prod.fst).count index = 1 := by
  have listed : pool.lease? index = some found := by simp [lease?, here, there]
  obtain ⟨next, stepped, released⟩ : ∃ next, pool.step event = some next ∧
      next.leases[index]?.any ScanLease.released = true := by
    obtain rfl | rfl := ending
    · refine ⟨pool.release index found, ?_, released_release here⟩
      rw [ScanPool.step, ScanPool.close, listed]
      rfl
    · refine ⟨pool.release index { found with dropped := true }, ?_, released_release here⟩
      rw [ScanPool.step, ScanPool.drop, listed]
      rfl
  refine ⟨next, stepped, fun later final ran finished => ?_⟩
  have after := kept.step stepped
  rw [(after.run ran).count_returned finished, if_pos (after.released_run released ran)]

/-- What the pool promises of its consumers, of the leases on them and of the
calls in progress. -/
structure Sound (tuning : ScanTuning) (pool : ScanPool) : Prop where
  parked_once : pool.inner.consumers.Nodup
  parked_free : ∀ lease ∈ pool.leases, lease.released = false →
    lease.consumer ∉ pool.inner.consumers
  leased_once : ∀ (left right : Nat) (first second : ScanLease), pool.leases[left]? = some first →
    pool.leases[right]? = some second → first.released = false → second.released = false →
      first.consumer = second.consumer → left = right
  given_back : ∀ index lease, pool.leases[index]? = some lease →
    (pool.returned.map Prod.fst).count index ≤ if lease.released then 1 else 0
  dropped : ∀ lease ∈ pool.leases, lease.dropped = true → lease.released = true
  one_place : ∀ consumer < pool.built, pool.places consumer = 1
  ends : ∀ steps final, (∀ event ∈ steps, event.stepOf.isSome = true) →
    pool.run steps = some final → steps.length ≤ pool.left ∧
      ((∀ call ∈ final.calls, call.finished = true) ∨
        ∃ event next, event.stepOf.isSome = true ∧ final.step event = some next)
  settled : (∀ call ∈ pool.calls, call.finished = true) →
    (∀ index lease, pool.leases[index]? = some lease →
      (pool.returned.map Prod.fst).count index = if lease.released then 1 else 0) ∧
    ∀ consumer < pool.built,
      pool.inner.consumers.count consumer + (pool.leases.flatMap ScanLease.held).count consumer +
        pool.retired.count consumer = 1
  acquires : ∀ topic closed elapsed, ∃ steps final lease,
    (pool.acquire topic closed elapsed).run steps = some final ∧
      final.leases = pool.leases ++ [lease] ∧ lease.topic = topic ∧ lease.released = false ∧
        lease.reusable = true
  closes : ∀ index lease, pool.leases[index]? = some lease → lease.dropped = false →
    ∀ event, event = .close index ∨ event = .drop index → ∃ next, pool.step event = some next ∧
      ∀ later final, next.run later = some final →
        (∀ call ∈ final.calls, call.finished = true) →
          (final.returned.map Prod.fst).count index = 1
  bounded : pool.inner.Bounded tuning pool.clock
  expires : ∀ now, pool.inner.expire now [] =
    ({ pool.inner with
      parked := pool.inner.parked.filter fun parked => now - parked.since ≤ tuning.poolIdleTtl },
      (pool.inner.parked.filter fun parked => tuning.poolIdleTtl < now - parked.since).map
        Parked.consumer)
  taken : ∀ topic closed now consumer, (pool.inner.take topic closed now []).1 = some consumer →
    closed consumer = false ∧ ∃ parked ∈ pool.inner.parked, parked.consumer = consumer ∧
      parked.topic = topic ∧ now - parked.since ≤ tuning.poolIdleTtl
  missed : ∀ topic closed now, (pool.inner.take topic closed now []).1 = none →
    ∀ parked ∈ (pool.inner.take topic closed now []).2.1.parked, parked.topic ≠ topic

theorem Kept.sound (kept : pool.Kept tuning) : pool.Sound tuning where
  parked_once := kept.parked_once
  parked_free lease member unreleased :=
    kept.not_parked (.inl (List.mem_flatMap.mpr ⟨lease, member, mem_held unreleased⟩))
  leased_once left right first second here there unreleased still same := by
    have once := kept.places_le first.consumer
    unfold places at once
    refine holder_unique ScanLease.held (by omega) here there (mem_held unreleased) ?_
    rw [same]
    exact mem_held still
  given_back index lease here := by
    have total := kept.returned index
    rw [here, Option.any_some] at total
    exact (Nat.le_add_right _ _).trans total.le
  dropped := kept.dropped
  one_place consumer built := by
    rw [kept.custody, if_pos built]
  ends steps final own ran := kept.ends own ran
  settled finished := by
    refine ⟨fun index lease here => ?_, fun consumer built => ?_⟩
    · rw [kept.count_returned finished, here, Option.any_some]
    · have one := kept.custody consumer
      have none_ : pool.calls.flatMap Call.held = [] := List.flatMap_eq_nil_iff.mpr
        fun call member => Call.held_of_finished (finished call member)
      rw [if_pos built, places, none_, List.count_nil] at one
      omega
  acquires topic closed elapsed := by
    have found : (pool.acquire topic closed elapsed).calls[pool.calls.length]? =
        some (.acquiring topic (pool.inner.take topic closed (pool.clock + elapsed) []).2.2
          (pool.inner.take topic closed (pool.clock + elapsed) []).1) :=
      List.getElem?_concat_length
    obtain ⟨steps, final, consumer, _, ran, handed⟩ := acquiring_leases found
    exact ⟨steps, final, .new topic consumer, ran, handed, rfl, rfl, rfl⟩
  closes _ _ here there _ ending := kept.closes here there ending
  bounded := kept.bounded
  expires now := by
    rw [← kept.bounded.ttl, ScanPoolInner.expire_eq kept.bounded.ordered, List.nil_append]
  taken _ _ _ _ := kept.bounded.take_some
  missed _ _ _ := ScanPoolInner.take_none

/-- Whatever the calls and in whatever order their steps come, the pool is sound.
Where nothing fails of a lease whose consumer is on its way to the queue, a lease that
fails before it is given back never parks its consumer. -/
theorem run_sound (tuning : ScanTuning) (events : List Event) (pool : ScanPool)
    (ran : (new tuning).run events = some pool) :
    pool.Sound tuning ∧ ∀ index lease, pool.leases[index]? = some lease → lease.dropped = false →
      index ∉ pool.returned.map Prod.fst → (new tuning).Careful (events ++ [.poison index]) →
        ∃ next, pool.step (.poison index) = some next ∧ ∀ later final, next.run later = some final →
          lease.consumer ∉ final.inner.consumers ∧ (index, true) ∉ final.returned := by
  have kept := (Kept.new tuning).run ran
  refine ⟨kept.sound, fun index lease here there unreturned careful => ?_⟩
  let failed : ScanLease := { lease with reusable := false }
  let next : ScanPool := { pool with leases := pool.leases.set index failed }
  have stepped : pool.step (.poison index) = some next := by
    have listed : pool.lease? index = some lease := by simp [lease?, here, there]
    rw [step, poison, listed]
    rfl
  have reached : (new tuning).run (events ++ [.poison index]) = some next := by
    rw [run_append, ran, Option.bind_some, run_cons, stepped]
    rfl
  have spoils : next.leases[index]? = some failed :=
    List.getElem?_set_self (List.getElem?_eq_some_iff.mp here).1
  have parks : next.ParksReusable := by
    refine careful.parks (fun index parking => ?_) reached
    obtain ⟨_, _, member⟩ := parking
    cases member
  refine ⟨next, stepped, fun later final went => ?_⟩
  have spoiled := ((kept.step stepped).spoiled (Agreed.run reached) parks spoils rfl
    unreturned).run went
  exact ⟨((kept.step stepped).run went).spoiled_not_parked spoiled, spoiled.returned⟩

end ScanPool

namespace Sample

def tuning : ScanTuning := { poolPerTopic := 2, poolTotal := 16, poolIdleTtl := 60 }

/-- A scan under way. -/
def scanning : List Event :=
  [.acquire "orders" (fun _ => false) 0, .build 0 true, .assign 0 true]

def leased : ScanPool where
  inner := .new tuning
  leases := [.new "orders" 0]
  calls := [.done]
  built := 1
  retired := []
  returned := []
  clock := 0

/-- A scan that is closed while a poll of it is still out. -/
def closing : List Event := scanning ++ [.close 0, .load 1]

def parkingLate : ScanPool :=
  { leased with
    leases := [{ ScanLease.new "orders" 0 with released := true }]
    calls := [.done, .parking 0 "orders" 0] }

theorem careful_scanning : (ScanPool.new tuning).Careful (scanning ++ [.poison 0]) := by
  refine .cons (ScanPool.admits_of_none rfl) rfl (.cons (ScanPool.admits_of_none rfl) rfl
    (.cons (ScanPool.admits_of_none rfl) rfl (.cons ?_ rfl trivial)))
  rintro lease _ ⟨topic, consumer, member⟩
  cases List.mem_singleton.mp member

end Sample

/-- Whatever comes after it, the consumer of a failed scan is not parked. -/
theorem run_sound_failing : Sample.leased.Sound Sample.tuning ∧
    ∃ failed, Sample.leased.step (.poison 0) = some failed ∧
      ∀ later final, failed.run later = some final → 0 ∉ final.inner.consumers := by
  obtain ⟨sound, failing⟩ := ScanPool.run_sound Sample.tuning Sample.scanning Sample.leased rfl
  obtain ⟨failed, stepped, never⟩ := failing 0 _ rfl rfl (by simp [Sample.leased])
    Sample.careful_scanning
  exact ⟨sound, failed, stepped, fun later final went => (never later final went).1⟩

/-- What fails between the reading of `reusable` and the lock is parked all the same. -/
theorem run_parks_overtaken : ¬ ∀ (tuning : ScanTuning) (events : List Event) (pool : ScanPool),
    (ScanPool.new tuning).run events = some pool →
      ∀ index lease, pool.leases[index]? = some lease → lease.dropped = false →
        index ∉ pool.returned.map Prod.fst → ∀ next, pool.step (.poison index) = some next →
          ∀ later final, next.run later = some final → lease.consumer ∉ final.inner.consumers := by
  intro never
  refine never Sample.tuning Sample.closing Sample.parkingLate rfl 0 _ rfl rfl (by decide)
    _ rfl [.park 1 0 0] _ rfl ?_
  decide

end Klens.Client
