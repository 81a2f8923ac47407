import Mathlib.Data.List.Induction
import Mathlib.Logic.Function.Basic
import Mathlib.Tactic.Common

/-! Values by owner and key, and alterations of what one owner holds. -/
namespace Klens.Lib

abbrev Holdings (R K V : Type*) := R → K → Option V

/-- What one alteration changes of its owner's, in order: `none` removes. -/
abbrev Alteration (R K V : Type*) := R × List (K × Option V)

namespace Holdings
variable {R K V : Type*} [DecidableEq R] [DecidableEq K]

def put (owner : R) (holdings : Holdings R K V) (change : K × Option V) : Holdings R K V :=
  Function.update holdings owner (Function.update (holdings owner) change.1 change.2)

def alter (holdings : Holdings R K V) (alteration : Alteration R K V) : Holdings R K V :=
  alteration.2.foldl (put alteration.1) holdings

variable {holdings : Holdings R K V} {owner other : R} {key : K}

theorem put_self (holdings : Holdings R K V) (owner : R) (change : K × Option V) (key : K) :
    holdings.put owner change owner key = if key = change.1 then change.2 else holdings owner key := by
  simp only [put, Function.update_self, Function.update_apply]

theorem alter_of_ne (different : other ≠ owner) (changes : List (K × Option V)) :
    holdings.alter (other, changes) owner = holdings owner := by
  unfold alter
  induction changes generalizing holdings with
  | nil => rfl
  | cons change changes ih =>
    rw [List.foldl_cons, ih]
    exact Function.update_of_ne different.symm _ _

theorem alter_of_unnamed {changes : List (K × Option V)}
    (unnamed : ∀ change ∈ changes, change.1 ≠ key) :
    holdings.alter (owner, changes) owner key = holdings owner key := by
  unfold alter
  induction changes generalizing holdings with
  | nil => rfl
  | cons change changes ih =>
    obtain ⟨here, later⟩ := List.forall_mem_cons.mp unnamed
    rw [List.foldl_cons, ih later, put_self, if_neg here.symm]

/-- The one change of a key decides it. -/
theorem alter_of_named {changes : List (K × Option V)} {change : K × Option V}
    (member : change ∈ changes) (only : ∀ other ∈ changes, other.1 = change.1 → other = change) :
    holdings.alter (owner, changes) owner change.1 = change.2 := by
  unfold alter
  induction changes using List.reverseRecOn with
  | nil => contradiction
  | append_singleton changes last ih =>
    rw [List.foldl_append, List.foldl_cons, List.foldl_nil, put_self]
    by_cases same : change.1 = last.1
    · rw [if_pos same, only last (by simp) same.symm]
    · rw [if_neg same]
      have before : change ∈ changes := by
        refine (List.mem_append.mp member).resolve_right fun at_last => same ?_
        rw [List.mem_singleton.mp at_last]
      exact ih before fun other there => only other (List.mem_append_left _ there)

/-- What no alteration names stays as it is. -/
theorem foldl_alter {later : List (Alteration R K V)}
    (apart : ∀ alteration ∈ later, alteration.1 = owner →
      ∀ change ∈ alteration.2, change.1 ≠ key) :
    later.foldl alter holdings owner key = holdings owner key := by
  induction later generalizing holdings with
  | nil => rfl
  | cons alteration later ih =>
    obtain ⟨here, there⟩ := List.forall_mem_cons.mp apart
    obtain ⟨altered, changes⟩ := alteration
    rw [List.foldl_cons, ih there]
    by_cases same : altered = owner
    · obtain rfl := same
      exact alter_of_unnamed (here rfl)
    · rw [alter_of_ne same]

end Holdings
end Klens.Lib
