import Mathlib.Tactic.Common

/-! Bisection between a number that counts as good and one that is not. The
result is the last good number before a bad one; where good numbers are an
initial segment, that is the largest of them. -/
namespace Klens.Lib

/-- The good number a bisection ends at. `low` is taken to be good and `high`
not to be, and neither is probed. -/
def bisect (good : Nat → Bool) (low high : Nat) : Nat :=
  if high - low > 1 then
    let middle := low + (high - low) / 2
    if good middle then bisect good middle high else bisect good low middle
  else low
termination_by high - low

section
variable {good : Nat → Bool} {low high : Nat}

theorem le_bisect (good : Nat → Bool) (low high : Nat) : low ≤ bisect good low high := by
  fun_induction bisect good low high with
  | case1 low high wide middle probed ih => exact Nat.le_trans (Nat.le_add_right ..) ih
  | case2 low high wide middle probed ih => exact ih
  | case3 low high close => exact Nat.le_refl _

theorem bisect_le (ordered : low ≤ high) : bisect good low high ≤ high := by
  fun_induction bisect good low high with
  | case1 low high wide middle probed ih => exact ih (by omega)
  | case2 low high wide middle probed ih =>
    have below := ih (by omega)
    omega
  | case3 low high close => exact ordered

theorem good_bisect (moved : low < bisect good low high) : good (bisect good low high) = true := by
  fun_induction bisect good low high with
  | case1 low high wide middle probed ih =>
    rcases Nat.lt_or_eq_of_le (le_bisect good middle high) with further | here
    · exact ih further
    · exact here ▸ probed
  | case2 low high wide middle probed ih => exact ih moved
  | case3 low high close => exact absurd moved (Nat.lt_irrefl _)

/-- The number after the result is not good. -/
theorem not_good_bisect_succ (apart : low < high) (bad : good high = false) :
    good (bisect good low high + 1) = false := by
  fun_induction bisect good low high with
  | case1 low high wide middle probed ih => exact ih (by omega) bad
  | case2 low high wide middle probed ih => exact ih (by omega) (by simpa using probed)
  | case3 low high close =>
    obtain rfl : high = low + 1 := by omega
    exact bad

end
end Klens.Lib
