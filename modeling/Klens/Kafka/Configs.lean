import Klens.Lib.Holdings
import Klens.Lib.Layers
import Klens.Store.Tables
import Mathlib.Order.Lattice

/-! Configs as Kafka keeps and describes them, and an edit of them. -/
namespace Klens.Store

theorem ConfigSource.ctorIdx_injective : Function.Injective ConfigSource.ctorIdx := by
  rintro one two same
  cases one <;> cases two <;> first | rfl | exact absurd same (by decide)

/-- In declaration order: an earlier source wins. -/
instance : LinearOrder ConfigSource :=
  LinearOrder.lift' ConfigSource.ctorIdx ConfigSource.ctorIdx_injective

instance : WellFoundedLT ConfigSource := ⟨InvImage.wf ConfigSource.ctorIdx wellFounded_lt⟩

/-- `ConfigSource::from_krafka`, of the code in Kafka's answer. -/
def ConfigSource.fromKrafka : Int → ConfigSource
  | 1 => .dynamicTopic
  | 2 => .dynamicBroker
  | 3 => .dynamicDefaultBroker
  | 4 => .staticBroker
  | _ => .default

/-- The code Kafka describes a source by. -/
def ConfigSource.code (source : ConfigSource) : Int := source.ctorIdx + 1

theorem ConfigSource.fromKrafka_code (source : ConfigSource) : fromKrafka source.code = source := by
  cases source <;> rfl

/-- An entry of Kafka's answer. -/
structure KrafkaConfigEntry where
  name : String
  value : Option String
  configSource : Int
  readOnly : Bool
  isSensitive : Bool
  deriving DecidableEq, Repr

def ConfigEntry.ofKrafka (entry : KrafkaConfigEntry) : ConfigEntry :=
  { name := entry.name
    value := entry.value
    source := .fromKrafka entry.configSource
    readOnly := entry.readOnly
    sensitive := entry.isSensitive }

end Klens.Store

namespace Klens.Kafka
open Klens.Lib Klens.Store Std

structure ConfigEdit where
  set : ExtTreeMap String String
  reset : ExtTreeSet String

/-- `ConfigEdit::shows_in`. -/
def ConfigEdit.showsIn (edit : ConfigEdit) (entries : List ConfigEntry) (source : ConfigSource) :
    Bool :=
  let entry := fun name => entries.find? fun entry => entry.name = name
  (edit.set.toList.all fun (name, value) => (entry name).any fun entry =>
    entry.source < source ||
      entry.source = source && (entry.sensitive || entry.value = some value)) &&
  edit.reset.toList.all fun name => (entry name).all fun entry => entry.source ≠ source

inductive BrokerScope where
  | broker (id : Int)
  | cluster
  deriving DecidableEq, Repr

def BrokerScope.source : BrokerScope → ConfigSource
  | .broker _ => .dynamicBroker
  | .cluster => .dynamicDefaultBroker

/-- What is altered and described. -/
inductive ConfigResource where
  | topic (name : String)
  | broker (id : Int)
  | brokerDefault
  deriving DecidableEq, Repr

def BrokerScope.toKrafka : BrokerScope → ConfigResource
  | .broker id => .broker id
  | .cluster => .brokerDefault

inductive ConfigOp where
  | set (name value : String)
  | delete (name : String)
  deriving DecidableEq, Repr

/-- What an operation makes of a config of its own resource. -/
def ConfigOp.change : ConfigOp → String × Option String
  | .set name value => (name, some value)
  | .delete name => (name, none)

def ConfigEdit.toKrafka (edit : ConfigEdit) : List ConfigOp :=
  edit.set.toList.map (fun (name, value) => .set name value) ++ edit.reset.toList.map .delete

/-- The alteration of one resource that an edit asks Kafka for. -/
def ConfigEdit.alteration (edit : ConfigEdit) (resource : ConfigResource) :
    Alteration ConfigResource String String :=
  (resource, edit.toKrafka.map ConfigOp.change)

/-- Whose configs an edit changes. -/
inductive ConfigTarget where
  | topic (name : String)
  | brokers (scope : BrokerScope)
  deriving DecidableEq, Repr

namespace ConfigTarget

def resource : ConfigTarget → ConfigResource
  | .topic name => .topic name
  | .brokers scope => scope.toKrafka

/-- Where `alter_topic_configs` and `alter_broker_configs` look for the edit. -/
def source : ConfigTarget → ConfigSource
  | .topic _ => .dynamicTopic
  | .brokers scope => scope.source

/-- Whose descriptions they read until it shows. -/
def readers (brokers : List Int) : ConfigTarget → List ConfigResource
  | .topic name => [.topic name]
  | .brokers (.broker id) => [.broker id]
  | .brokers .cluster => brokers.map .broker

end ConfigTarget

/-- What was set on each resource. `incremental_alter_configs` alters it as Kafka
documents: operation by operation. -/
abbrev Overrides := Holdings ConfigResource String String

/-- The layers Kafka decides a resource's configs by. What it falls back on where
nothing was set is its own affair, as is which configs it keeps to itself. -/
structure ConfigRules where
  fallback : Overrides → ConfigResource → Layers ConfigSource String (Option String)
  sensitive : String → Bool

namespace ConfigRules

def layers (rules : ConfigRules) (overrides : Overrides) (resource : ConfigResource) :
    Layers ConfigSource String (Option String) :=
  fun source name =>
    match resource, source with
    | .topic _, .dynamicTopic => (overrides resource name).map some
    | .broker _, .dynamicTopic => none
    | .broker _, .dynamicBroker => (overrides resource name).map some
    | .broker _, .dynamicDefaultBroker => (overrides .brokerDefault name).map some
    | _, _ => rules.fallback overrides resource source name

/-- A description names each config that some layer holds, once and as decided. -/
structure Describes (rules : ConfigRules) (overrides : Overrides) (resource : ConfigResource)
    (entries : List KrafkaConfigEntry) : Prop where
  distinct : (entries.map KrafkaConfigEntry.name).Nodup
  decided : ∀ entry ∈ entries, entry.isSensitive = rules.sensitive entry.name ∧
    ∃ source value, (rules.layers overrides resource).Wins entry.name source value ∧
      entry.configSource = source.code ∧
      entry.value = if rules.sensitive entry.name then none else value
  complete : ∀ name source, source ∈ (rules.layers overrides resource).holders name →
    ∃ entry ∈ entries, entry.name = name

end ConfigRules
end Klens.Kafka
