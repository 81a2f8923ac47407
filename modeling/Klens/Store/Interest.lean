import Std.Data.ExtTreeMap
import Std.Data.ExtTreeSet

/-! The groups someone is interested in: leased by an open stream, or touched a
short while ago. Instants are nanoseconds of one clock, and each operation is
what it does under the lock, at the time it read before. -/
namespace Klens.Store
open Std

structure InterestState where
  leases : Nat := 0
  touchedAt : Option Nat := none
  deriving DecidableEq, Repr

namespace InterestState

def hot (self : InterestState) (now ttl : Nat) : Bool :=
  decide (self.leases > 0) || self.touchedAt.any fun touched => decide (now - touched < ttl)

def idle (self : InterestState) : Bool := self.leases == 0 && self.touchedAt.isNone

end InterestState

abbrev InterestGroups := ExtTreeMap String InterestState

structure InterestLease where
  group : String
  deriving DecidableEq, Repr

structure InterestRegistry where
  groups : InterestGroups
  ttl : Nat

namespace InterestRegistry

def new (ttl : Nat) : InterestRegistry := { groups := ∅, ttl }

def leaseGroup (self : InterestRegistry) (id : String) : InterestLease × InterestRegistry :=
  let state := (self.groups[id]?).getD {}
  let groups := self.groups.insert id { state with leases := state.leases + 1 }
  ({ group := id }, { self with groups })

def touchGroup (self : InterestRegistry) (id : String) (now : Nat) : InterestRegistry :=
  match self.groups[id]? with
  | some state => { self with groups := self.groups.insert id { state with touchedAt := some now } }
  | none => { self with groups := self.groups.insert id { touchedAt := some now } }

def hotGroups (self : InterestRegistry) (now : Nat) : ExtTreeSet String × InterestRegistry :=
  let groups := self.groups.filter fun _ state => state.hot now self.ttl
  (.ofList groups.keys, { self with groups })

end InterestRegistry

/-- `Drop for InterestLease`; the lease shares its registry's groups. -/
def InterestLease.drop (self : InterestLease) (registry : InterestRegistry) : InterestRegistry :=
  match registry.groups[self.group]? with
  | none => registry
  | some state =>
    -- `saturating_sub`: a count that is zero already stays so.
    let state := { state with leases := state.leases - 1 }
    if state.idle then { registry with groups := registry.groups.erase self.group }
    else { registry with groups := registry.groups.insert self.group state }

/-- A registry, the leases in the hands of its callers and the time. `touched`
is when each group was last touched, which the registry may have forgotten. -/
structure Interest where
  registry : InterestRegistry
  live : List InterestLease
  touched : String → Option Nat
  clock : Nat

inductive InterestEvent where
  | elapse (span : Nat)
  | lease (id : String)
  /-- One of the live leases goes out of scope. -/
  | drop (index : Nat)
  | touch (id : String)
  | sweep
  deriving DecidableEq, Repr

namespace Interest

def start (ttl : Nat) : Interest :=
  { registry := .new ttl, live := [], touched := fun _ => none, clock := 0 }

def step (self : Interest) : InterestEvent → Interest
  | .elapse span => { self with clock := self.clock + span }
  | .lease id =>
    let (lease, registry) := self.registry.leaseGroup id
    { self with registry, live := lease :: self.live }
  | .drop index =>
    match self.live[index]? with
    | none => self
    | some lease =>
      { self with registry := lease.drop self.registry, live := self.live.eraseIdx index }
  | .touch id =>
    { self with
      registry := self.registry.touchGroup id self.clock
      touched := fun other => if other = id then some self.clock else self.touched other }
  | .sweep => { self with registry := (self.registry.hotGroups self.clock).2 }

def run (ttl : Nat) (events : List InterestEvent) : Interest := events.foldl step (start ttl)

end Interest
end Klens.Store
