import Mathlib.Logic.Function.Basic

/-! A cache whose entries expire a fixed time after they were stored, and may go before. -/
namespace Klens.Lib

structure TtlCache (K V : Type*) where
  ttl : Nat
  entries : K → Option (V × Nat)

namespace TtlCache
variable {K V : Type*}

def new (ttl : Nat) : TtlCache K V := { ttl, entries := fun _ => none }

/-- Where an entry has expired, nothing is found. -/
def get (cache : TtlCache K V) (now : Nat) (key : K) : Option V :=
  (cache.entries key).bind fun (value, stored) => if now < stored + cache.ttl then some value else none

/-- Each entry is of a value that its key had when it was stored. -/
def Stored (cache : TtlCache K V) (had : K → V → Nat → Prop) : Prop :=
  ∀ key value stored, cache.entries key = some (value, stored) → had key value stored

variable {cache : TtlCache K V} {had : K → V → Nat → Prop}

theorem stored_new (ttl : Nat) : (new ttl : TtlCache K V).Stored had := nofun

/-- What is found was stored, less than the cache's time before. -/
theorem Stored.get (holds : cache.Stored had) {now : Nat} {key : K} {value : V}
    (found : cache.get now key = some value) :
    ∃ stored, had key value stored ∧ now < stored + cache.ttl := by
  obtain ⟨⟨kept, stored⟩, entry, live⟩ := Option.bind_eq_some_iff.mp found
  obtain ⟨fresh, live⟩ := Option.ite_none_right_eq_some.mp live
  obtain rfl := Option.some.inj live
  exact ⟨stored, holds key kept stored entry, fresh⟩

variable [DecidableEq K]

def insert (cache : TtlCache K V) (now : Nat) (key : K) (value : V) : TtlCache K V :=
  { cache with entries := Function.update cache.entries key (some (value, now)) }

/-- An entry goes, for room or because it has expired. -/
def evict (cache : TtlCache K V) (key : K) : TtlCache K V :=
  { cache with entries := Function.update cache.entries key none }

@[simp]
theorem ttl_insert (now : Nat) (key : K) (value : V) : (cache.insert now key value).ttl = cache.ttl :=
  rfl

@[simp]
theorem ttl_evict (key : K) : (cache.evict key).ttl = cache.ttl := rfl

theorem Stored.insert (holds : cache.Stored had) {now : Nat} {key : K} {value : V}
    (has : had key value now) : (cache.insert now key value).Stored had := by
  intro other kept stored entry
  dsimp only [TtlCache.insert] at entry
  by_cases same : other = key
  · obtain rfl := same
    rw [Function.update_self] at entry
    obtain ⟨rfl, rfl⟩ := Prod.mk.inj (Option.some.inj entry)
    exact has
  · rw [Function.update_of_ne same] at entry
    exact holds other kept stored entry

theorem Stored.evict (holds : cache.Stored had) (key : K) : (cache.evict key).Stored had := by
  intro other kept stored entry
  dsimp only [TtlCache.evict] at entry
  by_cases same : other = key
  · rw [same, Function.update_self] at entry
    contradiction
  · rw [Function.update_of_ne same] at entry
    exact holds other kept stored entry

end TtlCache
end Klens.Lib
