import Mathlib.Data.List.Basic

/-! The consumers scans are read with, parked between two pages of a topic. A
consumer is known by its number, in the order they were built. Calls interleave
wherever they wait or let go of the queue's lock. -/
namespace Klens.Client

abbrev Consumer := Nat

structure ScanTuning where
  poolPerTopic : Nat
  poolTotal : Nat
  poolIdleTtl : Nat
  deriving DecidableEq, Repr

structure Parked where
  topic : String
  consumer : Consumer
  since : Nat
  deriving DecidableEq, Repr

structure ScanPoolInner where
  parked : List Parked
  maxPerTopic : Nat
  maxTotal : Nat
  ttl : Nat
  deriving DecidableEq, Repr

namespace ScanPoolInner

def new (tuning : ScanTuning) : ScanPoolInner :=
  { parked := [], maxPerTopic := tuning.poolPerTopic, maxTotal := tuning.poolTotal,
    ttl := tuning.poolIdleTtl }

/-- The loop of `expire`, which stops at the first entry that is not too old. -/
def expireFront (ttl now : Nat) : List Parked → List Consumer → List Parked × List Consumer
  | [], evicted => ([], evicted)
  | parked :: rest, evicted =>
    if now - parked.since > ttl then expireFront ttl now rest (evicted ++ [parked.consumer])
    else (parked :: rest, evicted)

def expire (inner : ScanPoolInner) (now : Nat) (evicted : List Consumer) :
    ScanPoolInner × List Consumer :=
  let (parked, evicted) := expireFront inner.ttl now inner.parked evicted
  ({ inner with parked }, evicted)

/-- `rposition` of an entry for the topic. -/
def newestIndex (topic : String) : List Parked → Option Nat
  | [] => none
  | parked :: rest =>
    match newestIndex topic rest with
    | some index => some (index + 1)
    | none => if parked.topic = topic then some 0 else none

def removeNewest (inner : ScanPoolInner) (topic : String) : Option (Parked × ScanPoolInner) := do
  let index ← newestIndex topic inner.parked
  let parked ← inner.parked[index]?
  some (parked, { inner with parked := inner.parked.eraseIdx index })

/-- The loop of `take`. A turn takes an entry out of the queue, so it has at
most as many turns as there are entries. -/
def takeNewest (closed : Consumer → Bool) (topic : String) :
    Nat → ScanPoolInner → List Consumer → Option Consumer × ScanPoolInner × List Consumer
  | 0, inner, evicted => (none, inner, evicted)
  | turns + 1, inner, evicted =>
    match inner.removeNewest topic with
    | none => (none, inner, evicted)
    | some (candidate, inner) =>
      if closed candidate.consumer then
        takeNewest closed topic turns inner (evicted ++ [candidate.consumer])
      else (some candidate.consumer, inner, evicted)

/-- `closed` answers `is_closed` for the consumers that are looked at. -/
def take (inner : ScanPoolInner) (topic : String) (closed : Consumer → Bool) (now : Nat)
    (evicted : List Consumer) : Option Consumer × ScanPoolInner × List Consumer :=
  let (inner, evicted) := inner.expire now evicted
  takeNewest closed topic inner.parked.length inner evicted

/-- The clock is read twice: for what to expire, and for the new entry. -/
def park (inner : ScanPoolInner) (topic : String) (consumer : Consumer) (now since : Nat)
    (evicted : List Consumer) : ScanPoolInner × List Consumer :=
  let (inner, evicted) := inner.expire now evicted
  let sameTopic := (inner.parked.filter fun parked => parked.topic = topic).length
  if inner.parked.length ≥ inner.maxTotal ∨ sameTopic ≥ inner.maxPerTopic then
    (inner, evicted ++ [consumer])
  else ({ inner with parked := inner.parked ++ [{ topic, consumer, since }] }, evicted)

end ScanPoolInner

/-- `dropped` once its owner has let go of it, after which nothing calls it. -/
structure ScanLease where
  topic : String
  consumer : Consumer
  reusable : Bool
  released : Bool
  dropped : Bool
  deriving DecidableEq, Repr

def ScanLease.new (topic : String) (consumer : Consumer) : ScanLease :=
  { topic, consumer, reusable := true, released := false, dropped := false }

/-- A call between two of its steps. -/
inductive Call where
  /-- `acquire` outside the lock: what is still to be closed, and its consumer. -/
  | acquiring (topic : String) (evicted : List Consumer) (consumer : Option Consumer)
  /-- `ScanLease::release` after it has swapped `released`. -/
  | releasing (lease : Nat) (topic : String) (consumer : Consumer)
  /-- `ScanPool::release` of a consumer read as reusable, before it has the lock. -/
  | parking (lease : Nat) (topic : String) (consumer : Consumer)
  /-- `with_idle` outside the lock. -/
  | retiring (evicted : List Consumer)
  | done
  deriving DecidableEq, Repr

/-- The pool with the leases it handed out and the calls in progress. `retired`
lists the consumers in the order `retire` was called on them, and `returned` the
leases whose consumer `ScanPool::release` took back, each with whether it went to
the queue. -/
structure ScanPool where
  inner : ScanPoolInner
  leases : List ScanLease
  calls : List Call
  built : Nat
  retired : List Consumer
  returned : List (Nat × Bool)
  clock : Nat
  deriving DecidableEq, Repr

/-- What happens next. Time passes by what an event says has elapsed. -/
inductive Event where
  | acquire (topic : String) (closed : Consumer → Bool) (elapsed : Nat)
  | retireNext (call : Nat)
  | build (call : Nat) (built : Bool)
  | assign (call : Nat) (assigned : Bool)
  /-- A poll, a reassignment or a seek to the end of this lease failed. -/
  | poison (lease : Nat)
  | close (lease : Nat)
  | drop (lease : Nat)
  | load (call : Nat)
  | park (call : Nat) (elapsed further : Nat)
  | tick (elapsed : Nat)

namespace ScanPool

def new (tuning : ScanTuning) : ScanPool :=
  { inner := .new tuning, leases := [], calls := [], built := 0, retired := [], returned := [],
    clock := 0 }

/-- The lease, unless it is gone. -/
def lease? (pool : ScanPool) (lease : Nat) : Option ScanLease :=
  pool.leases[lease]?.filter fun found => !found.dropped

def acquire (pool : ScanPool) (topic : String) (closed : Consumer → Bool) (elapsed : Nat) :
    ScanPool :=
  let now := pool.clock + elapsed
  let (taken, inner, evicted) := pool.inner.take topic closed now []
  { pool with inner, clock := now, calls := pool.calls ++ [.acquiring topic evicted taken] }

def retireNext (pool : ScanPool) (call : Nat) : Option ScanPool :=
  match pool.calls[call]? with
  | some (.acquiring topic (consumer :: evicted) taken) =>
    some { pool with
      calls := pool.calls.set call (.acquiring topic evicted taken)
      retired := pool.retired ++ [consumer] }
  | some (.retiring (consumer :: evicted)) =>
    some { pool with
      calls := pool.calls.set call (.retiring evicted)
      retired := pool.retired ++ [consumer] }
  | _ => none

/-- How `build` ends in an `acquire` that took nothing. -/
def build (pool : ScanPool) (call : Nat) (built : Bool) : Option ScanPool :=
  match pool.calls[call]? with
  | some (.acquiring topic [] none) =>
    if built then
      some { pool with
        calls := pool.calls.set call (.acquiring topic [] (some pool.built))
        built := pool.built + 1 }
    else some { pool with calls := pool.calls.set call .done }
  | _ => none

/-- How `assign` ends in an `acquire`, and the `acquire` with it. -/
def assign (pool : ScanPool) (call : Nat) (assigned : Bool) : Option ScanPool :=
  match pool.calls[call]? with
  | some (.acquiring topic [] (some consumer)) =>
    if assigned then
      some { pool with
        calls := pool.calls.set call .done
        leases := pool.leases ++ [.new topic consumer] }
    else
      some { pool with
        calls := pool.calls.set call .done
        retired := pool.retired ++ [consumer] }
  | _ => none

def poison (pool : ScanPool) (lease : Nat) : Option ScanPool := do
  let found ← pool.lease? lease
  some { pool with leases := pool.leases.set lease { found with reusable := false } }

/-- `ScanLease::release` up to its swap of `released`. -/
def release (pool : ScanPool) (lease : Nat) (found : ScanLease) : ScanPool :=
  if found.released then { pool with leases := pool.leases.set lease found }
  else
    { pool with
      leases := pool.leases.set lease { found with released := true }
      calls := pool.calls ++ [.releasing lease found.topic found.consumer] }

def close (pool : ScanPool) (lease : Nat) : Option ScanPool := do
  let found ← pool.lease? lease
  some (pool.release lease found)

def drop (pool : ScanPool) (lease : Nat) : Option ScanPool := do
  let found ← pool.lease? lease
  some (pool.release lease { found with dropped := true })

/-- The rest of `ScanLease::release`, which reads `reusable` before
`ScanPool::release` has the lock. -/
def load (pool : ScanPool) (call : Nat) : Option ScanPool :=
  match pool.calls[call]? with
  | some (.releasing lease topic consumer) => do
    let found ← pool.leases[lease]?
    if found.reusable then
      some { pool with calls := pool.calls.set call (.parking lease topic consumer) }
    else
      some { pool with
        calls := pool.calls.set call .done
        retired := pool.retired ++ [consumer]
        returned := pool.returned ++ [(lease, false)] }
  | _ => none

def park (pool : ScanPool) (call elapsed further : Nat) : Option ScanPool :=
  match pool.calls[call]? with
  | some (.parking lease topic consumer) =>
    let now := pool.clock + elapsed
    let since := now + further
    let (inner, evicted) := pool.inner.park topic consumer now since []
    some { pool with
      inner, clock := since
      calls := pool.calls.set call (.retiring evicted)
      returned := pool.returned ++ [(lease, true)] }
  | _ => none

def tick (pool : ScanPool) (elapsed : Nat) : ScanPool :=
  let now := pool.clock + elapsed
  let (inner, evicted) := pool.inner.expire now []
  { pool with inner, clock := now, calls := pool.calls ++ [.retiring evicted] }

def step (pool : ScanPool) : Event → Option ScanPool
  | .acquire topic closed elapsed => some (pool.acquire topic closed elapsed)
  | .retireNext call => pool.retireNext call
  | .build call built => pool.build call built
  | .assign call assigned => pool.assign call assigned
  | .poison lease => pool.poison lease
  | .close lease => pool.close lease
  | .drop lease => pool.drop lease
  | .load call => pool.load call
  | .park call elapsed further => pool.park call elapsed further
  | .tick elapsed => some (pool.tick elapsed)

def run (pool : ScanPool) (events : List Event) : Option ScanPool := events.foldlM step pool

end ScanPool
end Klens.Client
