import Mathlib.Algebra.BigOperators.Group.List.Basic
import Mathlib.Algebra.Order.BigOperators.Group.List
import Mathlib.Algebra.Order.Ring.Int

/-! Signed machine integers that wrap: however a sum wraps on its way, what it
comes to is the sum of the integers, brought into the range once. -/
namespace Klens.Lib

/-- What a signed integer of `w` bits holds of a value. -/
def wrapped (w : Nat) (value : Int) : Int := value.bmod (2 ^ w)

def wrappingSum (w : Nat) (values : List Int) : Int :=
  values.foldl (fun total value => wrapped w (total + value)) 0

section
variable {w : Nat}

theorem wrapped_eq_self {value : Int} (lower : -2 ^ w ≤ value * 2) (upper : value * 2 < 2 ^ w) :
    wrapped w value = value :=
  Int.bmod_eq_of_le_mul_two (by push_cast; exact lower) (by push_cast; exact upper)

private theorem foldl_wrapped (values : List Int) (total : Int) :
    values.foldl (fun total value => wrapped w (total + value)) (wrapped w total) =
      wrapped w (total + values.sum) := by
  induction values generalizing total with
  | nil => simp
  | cons value values ih =>
    rw [List.foldl_cons, List.sum_cons, ← add_assoc, ← ih]
    congr 1
    exact Int.bmod_add_bmod

theorem wrappingSum_eq (values : List Int) : wrappingSum w values = wrapped w values.sum := by
  have start : wrapped w 0 = 0 := Int.zero_bmod
  have run := foldl_wrapped (w := w) values 0
  rwa [start, zero_add] at run

/-- What is added goes unseen exactly when it is whole turns of the range. -/
theorem wrapped_add_eq_left_iff {total extra : Int} :
    wrapped w (total + extra) = wrapped w total ↔ (2 ^ w : Int) ∣ extra := by
  have turn : (2 ^ w : Int) = ((2 ^ w : Nat) : Int) := by push_cast; rfl
  rw [turn, Int.dvd_iff_bmod_eq_zero, ← Int.zero_bmod (m := 2 ^ w), wrapped, wrapped,
    ← Int.bmod_add_cancel_left total (x := extra) (y := 0), add_zero]

/-- Less than a turn of what is not negative goes unseen only when there is
nothing of it. -/
theorem dvd_sum_iff {values : List Int} (nonneg : ∀ value ∈ values, 0 ≤ value)
    (small : values.sum < 2 ^ w) :
    (2 ^ w : Int) ∣ values.sum ↔ ∀ value ∈ values, value = 0 := by
  constructor
  · intro turns
    have zero := Int.eq_zero_of_dvd_of_nonneg_of_lt (List.sum_nonneg nonneg) small turns
    exact fun value member => List.all_zero_of_le_zero_le_of_sum_eq_zero nonneg zero member
  · intro zeros
    rw [List.sum_eq_zero zeros]
    exact Int.dvd_zero _

end
end Klens.Lib
