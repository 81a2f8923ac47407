import Klens.Store.Bus
import Klens.Store.Projections

/-! What goes over the change bus of a cluster. -/
namespace Klens.Store
open Klens.Lib Std

structure TopicRate (Rate : Type) where
  topic : String
  rate : Rate
  deriving DecidableEq, Repr

structure WatermarksTick (Rate : Type) where
  /-- Sorted by topic. -/
  rates : List (TopicRate Rate)
  deriving DecidableEq, Repr

/-- The binary search of the source, over topics that are listed once. -/
def WatermarksTick.rate {Rate : Type} (tick : WatermarksTick Rate) (topic : String) : Option Rate :=
  (tick.rates.find? fun rate => rate.topic = topic).map TopicRate.rate

structure GroupLagUpdate where
  group : String
  totalLag : Int
  lagComplete : Bool
  offsets : List GroupOffset
  deriving DecidableEq, Repr

structure GroupOffsetsWave where
  groups : List GroupLagUpdate
  deriving DecidableEq, Repr

def GroupOffsetsWave.group (wave : GroupOffsetsWave) (id : String) : Option GroupLagUpdate :=
  wave.groups.find? fun update => update.group = id

inductive Change (Rate : Type) where
  | topology (delta : TopologyDelta)
  | watermarks (tick : WatermarksTick Rate)
  | groupOffsets (wave : GroupOffsetsWave)
  | configs (delta : ConfigsDelta)
  | subjects (delta : SubjectsDelta)
  | logDirs (delta : LogDirsDelta)
  | acls
  | quotas
  | scramUsers
  deriving DecidableEq, Repr

end Klens.Store
