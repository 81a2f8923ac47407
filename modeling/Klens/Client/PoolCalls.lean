import Klens.Client.PoolCustody

/-! Calls in progress come to an end. One always has a step of its own to take,
and every such step leaves fewer to come. -/
namespace Klens.Client
open Klens.Lib

def Event.stepOf : Event → Option Nat
  | .retireNext call | .build call _ | .assign call _ | .load call | .park call _ _ => some call
  | _ => none

/-- `with_idle` is over once it has closed what was evicted. -/
def Call.finished : Call → Bool
  | .retiring [] | .done => true
  | _ => false

/-- The steps a call takes at most, besides those for what it evicts on the way. -/
def Call.left : Call → Nat
  | .acquiring _ evicted none => evicted.length + 2
  | .acquiring _ evicted (some _) => evicted.length + 1
  | .releasing .. => 3
  | .parking .. => 2
  | .retiring evicted => evicted.length
  | .done => 0

theorem Call.held_of_finished {call : Call} (finished : call.finished = true) : call.held = [] := by
  cases call with
  | done => rfl
  | retiring evicted =>
    cases evicted with
    | nil => rfl
    | cons => contradiction
  | acquiring | releasing | parking => contradiction

theorem Call.returns_of_finished {call : Call} (finished : call.finished = true) :
    call.returns = [] := by
  cases call with
  | done | retiring => rfl
  | acquiring | releasing | parking => contradiction

namespace ScanPool
variable {tuning : ScanTuning} {pool next : ScanPool} {call : Nat}

/-- The steps that all calls take at most: each parked consumer may be evicted. -/
def left (pool : ScanPool) : Nat := pool.inner.parked.length + (pool.calls.map Call.left).sum

/-- A call that goes on, with as many parked as before. -/
theorem left_goOn {old new : Call} (found : pool.calls[call]? = some old)
    (less : new.left < old.left) {leases : List ScanLease} {retired : List Consumer}
    {returned : List (Nat × Bool)} {built : Nat} :
    ({ pool with calls := pool.calls.set call new, leases, retired, returned, built } :
      ScanPool).left < pool.left := by
  have sum := sum_map_set Call.left found new
  simp only [left]
  omega

theorem Kept.left_lt (kept : pool.Kept tuning) {event : Event} (own : event.stepOf = some call)
    (stepped : pool.step event = some next) : next.left < pool.left := by
  cases event with
  | retireNext call =>
    simp only [ScanPool.step, ScanPool.retireNext] at stepped
    split at stepped
    · rename_i topic consumer evicted taken found
      obtain rfl := Option.some.inj stepped
      refine left_goOn found ?_
      cases taken <;> simp [Call.left]
    · rename_i consumer evicted found
      obtain rfl := Option.some.inj stepped
      exact left_goOn found (by simp [Call.left])
    · contradiction
  | build call built =>
    simp only [ScanPool.step, ScanPool.build] at stepped
    split at stepped
    · rename_i topic found
      split at stepped
      · obtain rfl := Option.some.inj stepped
        exact left_goOn found (by simp [Call.left])
      · obtain rfl := Option.some.inj stepped
        exact left_goOn found (by simp [Call.left])
    · contradiction
  | assign call assigned =>
    simp only [ScanPool.step, ScanPool.assign] at stepped
    split at stepped
    · rename_i topic consumer found
      split at stepped
      · obtain rfl := Option.some.inj stepped
        exact left_goOn found (by simp [Call.left])
      · obtain rfl := Option.some.inj stepped
        exact left_goOn found (by simp [Call.left])
    · contradiction
  | load call =>
    simp only [ScanPool.step, ScanPool.load] at stepped
    split at stepped
    · rename_i lease topic consumer found
      obtain ⟨given, _, stepped⟩ := Option.bind_eq_some_iff.mp stepped
      split at stepped
      · obtain rfl := Option.some.inj stepped
        exact left_goOn found (by simp [Call.left])
      · obtain rfl := Option.some.inj stepped
        exact left_goOn found (by simp [Call.left])
    · contradiction
  | park call elapsed further =>
    simp only [ScanPool.step, ScanPool.park] at stepped
    split at stepped
    · rename_i lease topic consumer found
      obtain ⟨moved, _⟩ := kept.bounded.park topic consumer
        (Nat.le_add_right pool.clock elapsed) (Nat.le_add_right (pool.clock + elapsed) further)
      obtain rfl := Option.some.inj stepped
      have length := moved.length_eq
      have sum := sum_map_set Call.left found (.retiring (pool.inner.park topic consumer
        (pool.clock + elapsed) (pool.clock + elapsed + further) []).2)
      simp only [List.length_append, List.length_cons, ScanPoolInner.consumers,
        List.length_map] at length
      simp only [Call.left] at sum
      simp only [left]
      omega
    · contradiction
  | acquire | poison | close | drop | tick => contradiction

/-- A call that is not finished has a step to take. -/
theorem Kept.goes_on (kept : pool.Kept tuning) {found : Call}
    (here : pool.calls[call]? = some found) (pending : found.finished = false) :
    ∃ event next, event.stepOf = some call ∧ pool.step event = some next := by
  cases found with
  | acquiring topic evicted taken =>
    cases evicted with
    | cons consumer evicted =>
      exact ⟨.retireNext call, _, rfl, by rw [ScanPool.step, ScanPool.retireNext, here]⟩
    | nil =>
      cases taken with
      | none => exact ⟨.build call true, _, rfl, by rw [ScanPool.step, ScanPool.build, here]; rfl⟩
      | some consumer =>
        exact ⟨.assign call true, _, rfl, by rw [ScanPool.step, ScanPool.assign, here]; rfl⟩
  | releasing lease topic consumer =>
    -- The lease is one that was released, so it is there to read.
    have counted : 0 < pool.returns lease := by
      have mine : lease ∈ pool.calls.flatMap Call.returns :=
        List.mem_flatMap.mpr ⟨_, List.mem_of_getElem? here, List.mem_singleton_self _⟩
      have some := List.count_pos_iff.mpr mine
      rw [returns]
      omega
    cases there : pool.leases[lease]? with
    | none =>
      rw [kept.returned, there, Option.any_none, if_neg Bool.false_ne_true] at counted
      contradiction
    | some given =>
      cases reusable : given.reusable with
      | true => exact ⟨.load call, _, rfl, by
          rw [ScanPool.step, ScanPool.load, here]
          simp only [there, Option.bind_eq_bind, Option.bind_some, reusable]
          rfl⟩
      | false => exact ⟨.load call, _, rfl, by
          rw [ScanPool.step, ScanPool.load, here]
          simp only [there, Option.bind_eq_bind, Option.bind_some, reusable]
          rfl⟩
  | parking lease topic consumer =>
    exact ⟨.park call 0 0, _, rfl, by rw [ScanPool.step, ScanPool.park, here]⟩
  | retiring evicted =>
    cases evicted with
    | nil => contradiction
    | cons consumer evicted =>
      exact ⟨.retireNext call, _, rfl, by rw [ScanPool.step, ScanPool.retireNext, here]⟩
  | done => contradiction

theorem run_cons (pool : ScanPool) (event : Event) (events : List Event) :
    pool.run (event :: events) = (pool.step event).bind fun next => next.run events := by
  rw [run, List.foldlM_cons]
  rfl

theorem run_append (pool : ScanPool) (first second : List Event) :
    pool.run (first ++ second) = (pool.run first).bind fun next => next.run second := by
  rw [run, List.foldlM_append]
  rfl

/-- An `acquire` of which nothing fails hands out a lease. -/
theorem acquiring_leases {pool : ScanPool} {topic : String} {evicted : List Consumer}
    {taken : Option Consumer} (found : pool.calls[call]? = some (.acquiring topic evicted taken)) :
    ∃ steps final consumer, (∀ event ∈ steps, event.stepOf = some call) ∧
      pool.run steps = some final ∧ final.leases = pool.leases ++ [.new topic consumer] := by
  have bound : call < pool.calls.length := (List.getElem?_eq_some_iff.mp found).1
  induction evicted generalizing pool with
  | cons consumer evicted ih =>
    let next : ScanPool := { pool with
      calls := pool.calls.set call (.acquiring topic evicted taken)
      retired := pool.retired ++ [consumer] }
    have stepped : pool.step (.retireNext call) = some next := by
      rw [step, retireNext, found]
    obtain ⟨steps, final, leased, own, ran, handed⟩ := @ih next
      (List.getElem?_set_self bound) (by rwa [List.length_set])
    refine ⟨.retireNext call :: steps, final, leased, ?_, ?_, handed⟩
    · rintro event (_ | ⟨_, later⟩)
      · rfl
      · exact own event later
    · rw [run_cons, stepped]
      exact ran
  | nil =>
    have assigns {pool : ScanPool} {consumer : Consumer}
        (found : pool.calls[call]? = some (.acquiring topic [] (some consumer))) :
        ∃ final, pool.run [.assign call true] = some final ∧
          final.leases = pool.leases ++ [.new topic consumer] := by
      refine ⟨{ pool with
        calls := pool.calls.set call .done
        leases := pool.leases ++ [.new topic consumer] }, ?_, rfl⟩
      rw [run_cons, step, assign, found]
      rfl
    cases taken with
    | some consumer =>
      obtain ⟨final, ran, handed⟩ := assigns found
      exact ⟨[.assign call true], final, consumer, by simp [Event.stepOf], ran, handed⟩
    | none =>
      let next : ScanPool := { pool with
        calls := pool.calls.set call (.acquiring topic [] (some pool.built))
        built := pool.built + 1 }
      have stepped : pool.step (.build call true) = some next := by
        rw [step, build, found]
        rfl
      obtain ⟨final, ran, handed⟩ := @assigns next pool.built (List.getElem?_set_self bound)
      refine ⟨[.build call true, .assign call true], final, pool.built, by simp [Event.stepOf], ?_,
        handed⟩
      rw [run_cons, stepped]
      exact ran

/-- Steps of calls alone end: there are only so many, and until every call is
finished there is one more to take. -/
theorem Kept.ends (kept : pool.Kept tuning) {steps : List Event} {final : ScanPool}
    (own : ∀ event ∈ steps, event.stepOf.isSome = true) (ran : pool.run steps = some final) :
    steps.length ≤ pool.left ∧ ((∀ call ∈ final.calls, call.finished = true) ∨
      ∃ event next, event.stepOf.isSome = true ∧ final.step event = some next) := by
  have fewer : ∀ (steps : List Event) {pool : ScanPool}, pool.Kept tuning →
      (∀ event ∈ steps, event.stepOf.isSome = true) → pool.run steps = some final →
        steps.length + final.left ≤ pool.left := by
    intro steps
    induction steps with
    | nil =>
      intro pool _ _ ran
      obtain rfl : pool = final := by simpa [ScanPool.run] using ran
      exact (Nat.zero_add _).le
    | cons event steps ih =>
      intro pool kept own ran
      obtain ⟨here, later⟩ := List.forall_mem_cons.mp own
      rw [run_cons] at ran
      obtain ⟨next, stepped, rest⟩ := Option.bind_eq_some_iff.mp ran
      obtain ⟨call, one⟩ := Option.isSome_iff_exists.mp here
      have less := kept.left_lt one stepped
      have more := ih (kept.step stepped) later rest
      rw [List.length_cons]
      omega
  refine ⟨(Nat.le_add_right _ _).trans (fewer steps kept own ran), ?_⟩
  by_cases finished : ∀ call ∈ final.calls, call.finished = true
  · exact .inl finished
  · push Not at finished
    obtain ⟨call, member, pending⟩ := finished
    obtain ⟨index, here⟩ := List.mem_iff_getElem?.mp member
    obtain ⟨event, next, own, stepped⟩ :=
      (kept.run ran).goes_on here (by simpa using pending)
    exact .inr ⟨event, next, by rw [own]; rfl, stepped⟩

end ScanPool
end Klens.Client
