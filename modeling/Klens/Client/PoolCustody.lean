import Klens.Client.PoolQueue
import Klens.Lib.Holders

/-! Every consumer is in one place at a time: parked, with an `acquire`, under a
lease, on its way back, about to be closed, or closed. -/
namespace Klens.Client
open Klens.Lib

/-- The consumers a call in progress has to see to. -/
def Call.held : Call → List Consumer
  | .acquiring _ evicted consumer => evicted ++ consumer.toList
  | .releasing _ _ consumer => [consumer]
  | .parking _ _ consumer => [consumer]
  | .retiring evicted => evicted
  | .done => []

/-- The lease a call is about to give back. -/
def Call.returns : Call → List Nat
  | .releasing lease _ _ | .parking lease _ _ => [lease]
  | _ => []

def ScanLease.held (lease : ScanLease) : List Consumer :=
  if lease.released then [] else [lease.consumer]

namespace ScanPool
variable {tuning : ScanTuning} {pool next : ScanPool} {call lease : Nat}

/-- In how many places a consumer is. -/
def places (pool : ScanPool) (consumer : Consumer) : Nat :=
  pool.inner.consumers.count consumer + (pool.leases.flatMap ScanLease.held).count consumer +
    (pool.calls.flatMap Call.held).count consumer + pool.retired.count consumer

/-- How often a lease has been given back, the calls that are about to included. -/
def returns (pool : ScanPool) (lease : Nat) : Nat :=
  (pool.returned.map Prod.fst).count lease + (pool.calls.flatMap Call.returns).count lease

/-- What every step keeps. -/
structure Kept (tuning : ScanTuning) (pool : ScanPool) : Prop where
  bounded : pool.inner.Bounded tuning pool.clock
  custody : ∀ consumer, pool.places consumer = if consumer < pool.built then 1 else 0
  returned : ∀ lease,
    pool.returns lease = if pool.leases[lease]?.any ScanLease.released then 1 else 0
  dropped : ∀ lease ∈ pool.leases, lease.dropped = true → lease.released = true

theorem Kept.new (tuning : ScanTuning) : (new tuning).Kept tuning where
  bounded := ⟨rfl, rfl, rfl, .nil, by simp [ScanPool.new, ScanPoolInner.new],
    by simp [ScanPool.new, ScanPoolInner.new],
    by simp [ScanPool.new, ScanPoolInner.new, ScanPoolInner.ofTopic]⟩
  custody := by simp [ScanPool.new, ScanPoolInner.new, places, ScanPoolInner.consumers]
  returned := by simp [ScanPool.new, returns]
  dropped := by simp [ScanPool.new]

/-- A call that has begun, with what it has to see to. -/
theorem Kept.begin (kept : pool.Kept tuning) {inner : ScanPoolInner} {clock : Nat} {new : Call}
    (bounded : inner.Bounded tuning clock) (fresh : new.returns = [])
    (moved : ∀ consumer, new.held.count consumer + inner.consumers.count consumer =
      pool.inner.consumers.count consumer) :
    ({ pool with inner, clock, calls := pool.calls ++ [new] } : ScanPool).Kept tuning := by
  refine ⟨bounded, fun consumer => ?_, fun lease => ?_, kept.dropped⟩
  · refine Eq.trans ?_ (kept.custody consumer)
    have same := moved consumer
    simp only [places, List.flatMap_append, List.flatMap_singleton, List.count_append]
    omega
  · refine Eq.trans ?_ (kept.returned lease)
    simp only [returns, List.flatMap_append, List.flatMap_singleton, fresh, List.append_nil]

/-- A call that goes on, with some of its consumers closed. -/
theorem Kept.goOn (kept : pool.Kept tuning) {old new : Call} {retired : List Consumer}
    (found : pool.calls[call]? = some old) (returns_ : new.returns = old.returns)
    (moved : ∀ consumer, new.held.count consumer + retired.count consumer =
      old.held.count consumer + pool.retired.count consumer) :
    ({ pool with calls := pool.calls.set call new, retired } : ScanPool).Kept tuning := by
  refine ⟨kept.bounded, fun consumer => ?_, fun lease => ?_, kept.dropped⟩
  · refine Eq.trans ?_ (kept.custody consumer)
    have held := count_flatMap_set Call.held found new consumer
    have same := moved consumer
    simp only [places]
    omega
  · refine Eq.trans ?_ (kept.returned lease)
    have held := count_flatMap_set Call.returns found new lease
    rw [returns_] at held
    simp only [returns]
    omega

theorem Kept.acquire (kept : pool.Kept tuning) (topic : String) (closed : Consumer → Bool)
    (elapsed : Nat) : (pool.acquire topic closed elapsed).Kept tuning := by
  obtain ⟨moved, bounded⟩ := (kept.bounded.later (Nat.le_add_right pool.clock elapsed)).take topic
    closed (pool.clock + elapsed)
  generalize outcome : pool.inner.take topic closed (pool.clock + elapsed) [] = taken
    at moved bounded
  have begun : pool.acquire topic closed elapsed =
      { pool with
        inner := taken.2.1, clock := pool.clock + elapsed
        calls := pool.calls ++ [.acquiring topic taken.2.2 taken.1] } := by
    rw [← outcome]
    rfl
  rw [begun]
  refine kept.begin bounded rfl fun consumer => ?_
  have same := moved.count_eq consumer
  simp only [List.count_append] at same
  simp only [Call.held, List.count_append]
  omega

theorem Kept.tick (kept : pool.Kept tuning) (elapsed : Nat) : (pool.tick elapsed).Kept tuning := by
  have bounded := (kept.bounded.later (Nat.le_add_right pool.clock elapsed)).expire
    (pool.clock + elapsed) []
  have moved := pool.inner.expire_append (pool.clock + elapsed) []
  generalize outcome : pool.inner.expire (pool.clock + elapsed) [] = left at moved bounded
  have begun : pool.tick elapsed =
      { pool with
        inner := left.1, clock := pool.clock + elapsed
        calls := pool.calls ++ [.retiring left.2] } := by
    rw [← outcome]
    rfl
  rw [begun]
  refine kept.begin bounded rfl fun consumer => ?_
  rw [Call.held, ← List.count_append, moved, List.nil_append]

theorem Kept.retireNext (kept : pool.Kept tuning) (stepped : pool.retireNext call = some next) :
    next.Kept tuning := by
  unfold ScanPool.retireNext at stepped
  split at stepped
  · rename_i found
    obtain rfl := Option.some.inj stepped
    refine kept.goOn found rfl fun consumer => ?_
    simp only [Call.held, List.cons_append, List.count_cons, List.count_append, List.count_nil]
    omega
  · rename_i found
    obtain rfl := Option.some.inj stepped
    refine kept.goOn found rfl fun consumer => ?_
    simp only [Call.held, List.count_cons, List.count_append, List.count_nil]
    omega
  · contradiction

theorem Kept.build (kept : pool.Kept tuning) {built : Bool}
    (stepped : pool.build call built = some next) : next.Kept tuning := by
  unfold ScanPool.build at stepped
  split at stepped
  · rename_i topic found
    split at stepped
    · obtain rfl := Option.some.inj stepped
      refine ⟨kept.bounded, fun consumer => ?_, fun lease => ?_, kept.dropped⟩
      · have before := kept.custody consumer
        have held := count_flatMap_set Call.held found
          (.acquiring topic [] (some pool.built)) consumer
        simp only [Call.held, Option.toList_some, Option.toList_none, List.nil_append,
          List.count_nil, List.count_singleton, beq_iff_eq] at held
        change _ = if consumer < pool.built + 1 then 1 else 0
        simp only [places] at before ⊢
        rcases Nat.lt_trichotomy consumer pool.built with old | same | unbuilt
        · rw [if_pos old] at before
          rw [if_neg old.ne'] at held
          rw [if_pos (Nat.lt_succ_of_lt old)]
          omega
        · rw [if_neg (by simp [same])] at before
          rw [if_pos same.symm] at held
          rw [if_pos (by simp [same])]
          omega
        · rw [if_neg unbuilt.le.not_gt] at before
          rw [if_neg unbuilt.ne] at held
          rw [if_neg (Nat.succ_le_of_lt unbuilt).not_gt]
          omega
      · refine Eq.trans ?_ (kept.returned lease)
        have held := count_flatMap_set Call.returns found
          (.acquiring topic [] (some pool.built)) lease
        simp only [Call.returns, List.count_nil] at held
        simp only [returns]
        omega
    · obtain rfl := Option.some.inj stepped
      exact kept.goOn found rfl fun consumer => rfl
  · contradiction

theorem Kept.assign (kept : pool.Kept tuning) {assigned : Bool}
    (stepped : pool.assign call assigned = some next) : next.Kept tuning := by
  unfold ScanPool.assign at stepped
  split at stepped
  · rename_i topic consumer found
    split at stepped
    · obtain rfl := Option.some.inj stepped
      refine ⟨kept.bounded, fun token => ?_, fun lease => ?_, fun lease held => ?_⟩
      · refine Eq.trans ?_ (kept.custody token)
        have held := count_flatMap_set Call.held found .done token
        simp only [Call.held, Option.toList_some, List.nil_append, List.count_nil] at held
        simp only [places, List.flatMap_append, List.flatMap_singleton, List.count_append,
          ScanLease.held, ScanLease.new, Bool.false_eq_true, if_false]
        omega
      · have same : (pool.leases ++ [.new topic consumer])[lease]?.any ScanLease.released =
            pool.leases[lease]?.any ScanLease.released := by
          rw [List.getElem?_append]
          split
          · rfl
          · rename_i beyond
            rw [List.getElem?_eq_none (not_lt.mp beyond)]
            cases lease - pool.leases.length <;> rfl
        have before := kept.returned lease
        have held := count_flatMap_set Call.returns found .done lease
        simp only [Call.returns, List.count_nil] at held
        rw [same, ← before]
        simp only [returns]
        omega
      · rcases List.mem_append.mp held with older | new
        · exact kept.dropped lease older
        · rw [List.mem_singleton.mp new]
          exact id
    · obtain rfl := Option.some.inj stepped
      refine kept.goOn found rfl fun token => ?_
      simp only [Call.held, Option.toList_some, List.nil_append, List.count_append, List.count_nil]
      omega
  · contradiction

theorem lease?_eq_some {found : ScanLease} (here : pool.lease? lease = some found) :
    pool.leases[lease]? = some found := (Option.filter_eq_some_iff.mp here).1

theorem released_set {old : ScanLease} (found : pool.leases[lease]? = some old) (new : ScanLease)
    (index : Nat) : (pool.leases.set lease new)[index]?.any ScanLease.released =
      if index = lease then new.released else pool.leases[index]?.any ScanLease.released := by
  obtain ⟨bound, _⟩ := List.getElem?_eq_some_iff.mp found
  split
  · rename_i same
    rw [same, List.getElem?_set_self bound]
    rfl
  · rename_i other
    rw [List.getElem?_set_ne (Ne.symm other)]

/-- A lease that changes without being released. -/
theorem Kept.setLease (kept : pool.Kept tuning) {old new : ScanLease}
    (found : pool.leases[lease]? = some old) (released : new.released = old.released)
    (held : new.held = old.held) (dropped : new.dropped = true → new.released = true) :
    ({ pool with leases := pool.leases.set lease new } : ScanPool).Kept tuning := by
  refine ⟨kept.bounded, fun consumer => ?_, fun index => ?_, fun other member => ?_⟩
  · refine Eq.trans ?_ (kept.custody consumer)
    have same := count_flatMap_set ScanLease.held found new consumer
    rw [held] at same
    simp only [places]
    omega
  · rw [released_set found]
    refine (kept.returned index).trans ?_
    by_cases same : index = lease
    · rw [if_pos same, same, found, released]
      rfl
    · rw [if_neg same]
  · rcases List.mem_or_eq_of_mem_set member with before | rfl
    · exact kept.dropped other before
    · exact dropped

theorem Kept.poison (kept : pool.Kept tuning) (stepped : pool.poison lease = some next) :
    next.Kept tuning := by
  obtain ⟨found, here, same⟩ := Option.bind_eq_some_iff.mp stepped
  obtain rfl := Option.some.inj same
  exact kept.setLease (lease?_eq_some here) rfl rfl
    (kept.dropped found (List.mem_of_getElem? (lease?_eq_some here)))

/-- The first of `close` and `drop` to come gives the lease back. -/
theorem Kept.release (kept : pool.Kept tuning) {old found : ScanLease}
    (here : pool.leases[lease]? = some old) (released : found.released = old.released)
    (consumer : found.consumer = old.consumer) : (pool.release lease found).Kept tuning := by
  unfold ScanPool.release
  split
  · rename_i already
    refine kept.setLease here released ?_ fun _ => already
    simp only [ScanLease.held, released, consumer]
  · rename_i first
    rw [released] at first
    refine ⟨kept.bounded, fun token => ?_, fun index => ?_, fun other member => ?_⟩
    · refine Eq.trans ?_ (kept.custody token)
      have moved := count_flatMap_set ScanLease.held here
        { found with released := true } token
      simp only [ScanLease.held, if_true, first, if_false, Bool.false_eq_true, List.count_nil,
        consumer] at moved
      simp only [places, List.flatMap_append, List.flatMap_singleton, List.count_append, Call.held,
        consumer]
      omega
    · have before := kept.returned index
      rw [released_set here]
      simp only [returns, List.flatMap_append, List.flatMap_singleton, List.count_append,
        Call.returns] at before ⊢
      by_cases same : index = lease
      · subst same
        simp only [here, Option.any_some, first, if_false, Bool.false_eq_true] at before
        simp only [if_true, List.count_singleton_self]
        omega
      · rw [if_neg same, List.count_singleton, if_neg (by simpa using Ne.symm same)]
        omega
    · rcases List.mem_or_eq_of_mem_set member with before | rfl
      · exact kept.dropped other before
      · exact fun _ => rfl

theorem Kept.close (kept : pool.Kept tuning) (stepped : pool.close lease = some next) :
    next.Kept tuning := by
  obtain ⟨found, here, same⟩ := Option.bind_eq_some_iff.mp stepped
  obtain rfl := Option.some.inj same
  exact kept.release (lease?_eq_some here) rfl rfl

theorem Kept.drop (kept : pool.Kept tuning) (stepped : pool.drop lease = some next) :
    next.Kept tuning := by
  obtain ⟨found, here, same⟩ := Option.bind_eq_some_iff.mp stepped
  obtain rfl := Option.some.inj same
  exact kept.release (lease?_eq_some here) rfl rfl

/-- The call that ends a lease, with its consumer parked, evicted or closed. -/
theorem Kept.giveBack (kept : pool.Kept tuning) {old new : Call} {inner : ScanPoolInner}
    {clock : Nat} {retired : List Consumer} (found : pool.calls[call]? = some old)
    (returns_ : old.returns = [lease]) (silent : new.returns = []) (wentBack : Bool)
    (bounded : inner.Bounded tuning clock)
    (moved : ∀ token, inner.consumers.count token + new.held.count token + retired.count token =
      pool.inner.consumers.count token + old.held.count token + pool.retired.count token) :
    ({ pool with
      inner, clock, retired, calls := pool.calls.set call new
      returned := pool.returned ++ [(lease, wentBack)] } : ScanPool).Kept tuning := by
  refine ⟨bounded, fun token => ?_, fun index => ?_, kept.dropped⟩
  · refine Eq.trans ?_ (kept.custody token)
    have held := count_flatMap_set Call.held found new token
    have same := moved token
    simp only [places]
    omega
  · refine Eq.trans ?_ (kept.returned index)
    have held := count_flatMap_set Call.returns found new index
    rw [returns_, silent, List.count_nil] at held
    simp only [returns, List.map_append, List.map_singleton, List.count_append]
    omega

theorem Kept.load (kept : pool.Kept tuning) (stepped : pool.load call = some next) :
    next.Kept tuning := by
  unfold ScanPool.load at stepped
  split at stepped
  · rename_i lease topic consumer found
    obtain ⟨given, _, stepped⟩ := Option.bind_eq_some_iff.mp stepped
    split at stepped
    · obtain rfl := Option.some.inj stepped
      exact kept.goOn found rfl fun token => rfl
    · obtain rfl := Option.some.inj stepped
      refine kept.giveBack found rfl rfl _ kept.bounded fun token => ?_
      simp only [Call.held, List.count_append, List.count_nil]
      omega
  · contradiction

theorem Kept.park (kept : pool.Kept tuning) {elapsed further : Nat}
    (stepped : pool.park call elapsed further = some next) : next.Kept tuning := by
  unfold ScanPool.park at stepped
  split at stepped
  · rename_i lease topic consumer found
    obtain ⟨moved, bounded⟩ := kept.bounded.park topic consumer
      (Nat.le_add_right pool.clock elapsed) (Nat.le_add_right (pool.clock + elapsed) further)
    generalize outcome : pool.inner.park topic consumer (pool.clock + elapsed)
      (pool.clock + elapsed + further) [] = parked at moved bounded
    have parks : next = { pool with
        inner := parked.1, clock := pool.clock + elapsed + further
        calls := pool.calls.set call (.retiring parked.2)
        returned := pool.returned ++ [(lease, true)] } := by
      rw [← outcome]
      exact (Option.some.inj stepped).symm
    rw [parks]
    refine kept.giveBack found rfl rfl _ bounded fun token => ?_
    have same := moved.count_eq token
    rw [List.count_append, ← List.singleton_append, List.count_append] at same
    simp only [Call.held]
    omega
  · contradiction

theorem Kept.step (kept : pool.Kept tuning) {event : Event}
    (stepped : pool.step event = some next) : next.Kept tuning := by
  cases event with
  | acquire topic closed elapsed =>
    obtain rfl := Option.some.inj stepped
    exact kept.acquire topic closed elapsed
  | retireNext call => exact kept.retireNext stepped
  | build call built => exact kept.build stepped
  | assign call assigned => exact kept.assign stepped
  | poison lease => exact kept.poison stepped
  | close lease => exact kept.close stepped
  | drop lease => exact kept.drop stepped
  | load call => exact kept.load stepped
  | park call elapsed further => exact kept.park stepped
  | tick elapsed =>
    obtain rfl := Option.some.inj stepped
    exact kept.tick elapsed

theorem Kept.run (kept : pool.Kept tuning) {events : List Event}
    (ran : pool.run events = some next) : next.Kept tuning :=
  foldlM_keeps (fun kept stepped => Kept.step kept stepped) kept ran

end ScanPool
end Klens.Client
