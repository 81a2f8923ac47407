import Mathlib.Algebra.GroupWithZero.Nat
import Mathlib.Data.List.Basic

/-! Tokens in the hands of a list of holders, and runs of a step that may be
refused. -/
namespace Klens.Lib

section Holders
variable {Holder Token : Type} [DecidableEq Token] (held : Holder → List Token)

/-- Another holder in its place: the tokens change by what the two hold. -/
theorem count_flatMap_set {holders : List Holder} {index : Nat} {old : Holder}
    (found : holders[index]? = some old) (new : Holder) (token : Token) :
    ((holders.set index new).flatMap held).count token + (held old).count token =
      (holders.flatMap held).count token + (held new).count token := by
  induction holders generalizing index with
  | nil => simp at found
  | cons holder holders ih =>
    cases index with
    | zero =>
      obtain rfl : holder = old := by simpa using found
      simp only [List.set_cons_zero, List.flatMap_cons, List.count_append]
      omega
    | succ index =>
      have rest := ih (by simpa using found)
      simp only [List.set_cons_succ, List.flatMap_cons, List.count_append]
      omega

/-- Another holder in its place: a total changes by what the two weigh. -/
theorem sum_map_set (weight : Holder → Nat) {holders : List Holder} {index : Nat} {old : Holder}
    (found : holders[index]? = some old) (new : Holder) :
    ((holders.set index new).map weight).sum + weight old =
      (holders.map weight).sum + weight new := by
  induction holders generalizing index with
  | nil => simp at found
  | cons holder holders ih =>
    cases index with
    | zero =>
      obtain rfl : holder = old := by simpa using found
      simp only [List.set_cons_zero, List.map_cons, List.sum_cons]
      omega
    | succ index =>
      have rest := ih (by simpa using found)
      simp only [List.set_cons_succ, List.map_cons, List.sum_cons]
      omega

theorem count_le_flatMap {holders : List Holder} {holder : Holder} (member : holder ∈ holders)
    (token : Token) : (held holder).count token ≤ (holders.flatMap held).count token := by
  obtain ⟨front, back, rfl⟩ := List.append_of_mem member
  simp only [List.flatMap_append, List.flatMap_cons, List.count_append]
  omega

/-- A token that occurs once has one holder. -/
theorem holder_unique {holders : List Holder} {token : Token}
    (once : (holders.flatMap held).count token ≤ 1) {left right : Nat} {first second : Holder}
    (atLeft : holders[left]? = some first) (atRight : holders[right]? = some second)
    (inFirst : token ∈ held first) (inSecond : token ∈ held second) : left = right := by
  induction holders generalizing left right with
  | nil => simp at atLeft
  | cons holder holders ih =>
    rw [List.flatMap_cons, List.count_append] at once
    have apart : ∀ {index : Nat} {other : Holder}, holders[index]? = some other →
        token ∈ held other → token ∉ held holder := by
      intro index other found inOther inHolder
      have rest := count_le_flatMap held (List.mem_of_getElem? found) token
      have some_ := List.count_pos_iff.mpr inOther
      have more := List.count_pos_iff.mpr inHolder
      omega
    cases left with
    | zero =>
      obtain rfl : holder = first := by simpa using atLeft
      cases right with
      | zero => rfl
      | succ right => exact absurd inFirst (apart (by simpa using atRight) inSecond)
    | succ left =>
      cases right with
      | zero =>
        obtain rfl : holder = second := by simpa using atRight
        exact absurd inSecond (apart (by simpa using atLeft) inFirst)
      | succ right =>
        exact congrArg (· + 1) (ih (by omega) (by simpa using atLeft) (by simpa using atRight))

end Holders

/-- What stood in a list stands there in a longer one. -/
theorem getElem?_of_longer {T : Type} {short long : List T} {index : Nat} {value : T}
    (longer : short <+: long) (here : short[index]? = some value) : long[index]? = some value := by
  obtain ⟨bound, rfl⟩ := List.getElem?_eq_some_iff.mp here
  exact List.prefix_iff_getElem?.mp longer index bound

section Runs
variable {State Event : Type} {step : State → Event → Option State}

/-- What every step keeps, every run keeps. -/
theorem foldlM_keeps {Keeps : State → Prop}
    (kept : ∀ {state event next}, Keeps state → step state event = some next → Keeps next)
    {events : List Event} {state final : State} (start : Keeps state)
    (ran : events.foldlM step state = some final) : Keeps final := by
  induction events generalizing state with
  | nil =>
    obtain rfl : state = final := by simpa using ran
    exact start
  | cons event events ih =>
    rw [List.foldlM_cons] at ran
    obtain ⟨next, stepped, rest⟩ := Option.bind_eq_some_iff.mp ran
    exact ih (kept start stepped) rest

end Runs
end Klens.Lib
