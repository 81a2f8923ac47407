import Mathlib.Order.Bounds.Basic
import Mathlib.Order.WellFounded

/-! Values kept in layers, where the least layer that holds a name decides it. -/
namespace Klens.Lib

abbrev Layers (L N V : Type*) := L → N → Option V

namespace Layers
variable {L N V : Type*} {layers : Layers L N V} {name : N} {layer : L} {value : V}

/-- The layers that hold a name. -/
def holders (layers : Layers L N V) (name : N) : Set L := {layer | (layers layer name).isSome}

/-- `layer` decides `name`, with `value`. -/
structure Wins [LE L] (layers : Layers L N V) (name : N) (layer : L) (value : V) : Prop where
  least : IsLeast (layers.holders name) layer
  held : layers layer name = some value

theorem mem_holders (held : layers layer name = some value) : layer ∈ layers.holders name :=
  Option.isSome_iff_exists.mpr ⟨value, held⟩

theorem Wins.unique [PartialOrder L] {first second : L} {one two : V}
    (wins : layers.Wins name first one) (also : layers.Wins name second two) :
    first = second ∧ one = two := by
  obtain rfl := wins.least.unique also.least
  exact ⟨rfl, Option.some.inj (wins.held.symm.trans also.held)⟩

/-- A name that some layer holds is decided, there or before. -/
theorem exists_wins [LinearOrder L] [WellFoundedLT L] (held : layer ∈ layers.holders name) :
    ∃ top value, layers.Wins name top value ∧ top ≤ layer := by
  obtain ⟨top, found, least⟩ := wellFounded_lt.has_min (layers.holders name) ⟨layer, held⟩
  obtain ⟨value, holds⟩ := Option.isSome_iff_exists.mp found
  have first : IsLeast (layers.holders name) top :=
    ⟨found, fun other member => not_lt.mp (least other member)⟩
  exact ⟨top, value, ⟨first, holds⟩, first.2 held⟩

/-- A layer before `layer` holds `name`, so what `layer` says of it does not count. -/
def Shadowed [LT L] (layers : Layers L N V) (layer : L) (name : N) : Prop :=
  ∃ above < layer, above ∈ layers.holders name

variable [LinearOrder L] {top : L}

theorem Wins.lt_iff_shadowed (wins : layers.Wins name top value) :
    top < layer ↔ layers.Shadowed layer name :=
  ⟨fun before => ⟨top, before, wins.least.1⟩,
    fun ⟨_, before, holds⟩ => lt_of_le_of_lt (wins.least.2 holds) before⟩

/-- A layer that holds the name with none before it decides it. -/
theorem Wins.eq_of_held {other : V} (wins : layers.Wins name top value)
    (clear : ¬ layers.Shadowed layer name) (held : layers layer name = some other) : top = layer :=
  le_antisymm (wins.least.2 (mem_holders held)) (not_lt.mp (mt wins.lt_iff_shadowed.mp clear))

theorem Wins.eq_iff (wins : layers.Wins name top value) :
    top = layer ↔ ¬ layers.Shadowed layer name ∧ layers layer name = some value := by
  refine ⟨?_, fun ⟨clear, held⟩ => wins.eq_of_held clear held⟩
  rintro rfl
  exact ⟨mt wins.lt_iff_shadowed.mpr (lt_irrefl _), wins.held⟩

end Layers
end Klens.Lib
