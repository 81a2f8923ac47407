import Klens.Lib.Holdings
import Mathlib.Data.Finset.Basic
import Mathlib.Data.List.Nodup
import Mathlib.Order.Lattice

/-! Client quotas as Kafka keeps and describes them, and as they are listed. The
rates are of any type with equality. -/
namespace Klens.Kafka
open Klens.Lib

inductive QuotaEntityType where
  | user
  | clientId
  | ip
  deriving DecidableEq, Repr

/-- In declaration order. -/
instance : LinearOrder QuotaEntityType :=
  LinearOrder.lift' QuotaEntityType.ctorIdx fun one two same => by
    cases one <;> cases two <;> first | rfl | exact absurd same (by decide)

def QuotaEntityType.wire : QuotaEntityType → String
  | .user => "user"
  | .clientId => "client-id"
  | .ip => "ip"

def QuotaEntityType.parse (text : String) : Option QuotaEntityType :=
  if text = "user" then some .user
  else if text = "client-id" then some .clientId
  else if text = "ip" then some .ip
  else none

@[ext] structure QuotaEntity where
  entityType : QuotaEntityType
  name : Option String
  deriving DecidableEq, Repr

/-- `sort_by_key` by the entity type. -/
def QuotaEntity.sorted (entity : List QuotaEntity) : List QuotaEntity :=
  entity.mergeSort fun one two => one.entityType ≤ two.entityType

structure QuotaValues (V : Type) where
  producerByteRate : Option V
  consumerByteRate : Option V
  requestPercentage : Option V
  controllerMutationRate : Option V
  connectionCreationRate : Option V
  deriving DecidableEq, Repr

namespace QuotaValues
variable {V : Type}

def default : QuotaValues V := ⟨none, none, none, none, none⟩

def set (values : QuotaValues V) (key : String) (value : V) : QuotaValues V :=
  if key = "producer_byte_rate" then { values with producerByteRate := some value }
  else if key = "consumer_byte_rate" then { values with consumerByteRate := some value }
  else if key = "request_percentage" then { values with requestPercentage := some value }
  else if key = "controller_mutation_rate" then
    { values with controllerMutationRate := some value }
  else if key = "connection_creation_rate" then
    { values with connectionCreationRate := some value }
  else values

def entries (values : QuotaValues V) : List (String × Option V) :=
  [("producer_byte_rate", values.producerByteRate),
    ("consumer_byte_rate", values.consumerByteRate),
    ("request_percentage", values.requestPercentage),
    ("controller_mutation_rate", values.controllerMutationRate),
    ("connection_creation_rate", values.connectionCreationRate)]

end QuotaValues

structure ClientQuota (V : Type) where
  entity : List QuotaEntity
  values : QuotaValues V
  deriving DecidableEq, Repr

/-- An entry of Kafka's answer. -/
structure DescribedQuota (V : Type) where
  entity : List (String × Option String)
  values : List (String × V)

inductive QuotaListing (V : Type) where
  | described (quotas : List (ClientQuota V))
  | denied
  deriving DecidableEq, Repr

variable {V : Type}

/-- An entry with a part of an unknown type is dropped whole. -/
def ClientQuota.fromDescribed (described : DescribedQuota V) : Option (ClientQuota V) := do
  let entity ← described.entity.mapM fun part =>
    (QuotaEntityType.parse part.1).map fun entityType => { entityType, name := part.2 }
  some
    { entity := QuotaEntity.sorted entity
      values := described.values.foldl (fun values entry => values.set entry.1 entry.2) .default }

namespace QuotaListing

def values (listing : QuotaListing V) (entity : List QuotaEntity) : Option (QuotaValues V) :=
  match listing with
  | .described quotas => (quotas.find? fun quota => quota.entity = entity).map ClientQuota.values
  | .denied => none

def fromDescribe (entries : List (DescribedQuota V)) : QuotaListing V :=
  .described (entries.filterMap ClientQuota.fromDescribed)

end QuotaListing

/-- Kafka's name of an entity: each type with the name it has there. -/
abbrev EntityName := Finset (String × Option String)

def QuotaEntity.wired (entity : List QuotaEntity) : EntityName :=
  (entity.map fun part => (part.entityType.wire, part.name)).toFinset

/-- What each entity may use. -/
abbrev Quotas (V : Type) := Holdings EntityName String V

/-- `alter_client_quota`. -/
def ClientQuota.alteration (quota : ClientQuota V) : Alteration EntityName String V :=
  (QuotaEntity.wired quota.entity, quota.values.entries)

/-- Where the wait of `set_client_quota` ends. -/
def ClientQuota.settled [DecidableEq V] (quota : ClientQuota V) (listing : QuotaListing V) : Bool :=
  match listing.values quota.entity with
  | none => quota.values = .default
  | some values => values = quota.values

/-- A description lists each entity that has a quota once, its parts and values in any order. -/
structure Describes (quotas : Quotas V) (entries : List (DescribedQuota V)) : Prop where
  typed : ∀ entry ∈ entries, (entry.entity.map Prod.fst).Nodup
  keyed : ∀ entry ∈ entries, (entry.values.map Prod.fst).Nodup
  distinct : (entries.map fun entry => entry.entity.toFinset).Nodup
  held : ∀ entry ∈ entries, ∀ key value,
    (key, value) ∈ entry.values ↔ quotas entry.entity.toFinset key = some value
  complete : ∀ entity key value, quotas entity key = some value →
    ∃ entry ∈ entries, entry.entity.toFinset = entity

end Klens.Kafka
