import Mathlib.Data.List.Forall2

/-! Computations that can fail, taken apart by how they ended. -/
namespace Klens.Lib

variable {ε α β : Type}

theorem Except.bind_ok {first : Except ε α} {next : α → Except ε β} {result : β}
    (done : first.bind next = .ok result) :
    ∃ value, first = .ok value ∧ next value = .ok result := by
  cases first with
  | error => contradiction
  | ok value => exact ⟨value, rfl, done⟩

theorem Except.bind_error {first : Except ε α} {next : α → Except ε β} {error : ε}
    (failed : first.bind next = .error error) :
    first = .error error ∨ ∃ value, first = .ok value ∧ next value = .error error := by
  cases first with
  | error other => exact .inl (congrArg Except.error (Except.error.inj failed))
  | ok value => exact .inr ⟨value, rfl, failed⟩

theorem Except.mapError_ok {ε' : Type} {first : Except ε α} {change : ε → ε'} {result : α}
    (done : first.mapError change = .ok result) : first = .ok result := by
  cases first with
  | error => contradiction
  | ok value => exact congrArg Except.ok (Except.ok.inj done)

theorem Except.mapError_error {ε' : Type} {first : Except ε α} {change : ε → ε'} {error : ε'}
    (failed : first.mapError change = .error error) : ∃ before, error = change before := by
  cases first with
  | error before => exact ⟨before, (Except.error.inj failed).symm⟩
  | ok value => contradiction

theorem Except.mapM_ok {f : α → Except ε β} {list : List α} {results : List β}
    (done : list.mapM f = .ok results) :
    List.Forall₂ (fun value result => f value = .ok result) list results := by
  induction list generalizing results with
  | nil =>
    obtain rfl := Except.ok.inj done
    exact .nil
  | cons value list ih =>
    rw [List.mapM_cons] at done
    obtain ⟨result, here, rest⟩ := Except.bind_ok done
    obtain ⟨others, later, rest⟩ := Except.bind_ok rest
    obtain rfl := Except.ok.inj rest
    exact .cons here (ih later)

theorem Except.mapM_error {f : α → Except ε β} {list : List α} {error : ε}
    (failed : list.mapM f = .error error) : ∃ value ∈ list, f value = .error error := by
  induction list with
  | nil => contradiction
  | cons value list ih =>
    rw [List.mapM_cons] at failed
    rcases Except.bind_error failed with here | ⟨result, -, rest⟩
    · exact ⟨value, List.mem_cons_self, here⟩
    · rcases Except.bind_error rest with later | ⟨others, -, rest⟩
      · obtain ⟨other, listed, stops⟩ := ih later
        exact ⟨other, List.mem_cons_of_mem value listed, stops⟩
      · contradiction

/-- Each result comes from a value, where it stands. -/
theorem Except.mem_mapM_ok {f : α → Except ε β} {list : List α} {results : List β}
    (done : list.mapM f = .ok results) {result : β} (held : result ∈ results) :
    ∃ value ∈ list, f value = .ok result := by
  obtain ⟨index, bound, rfl⟩ := List.mem_iff_getElem.mp held
  have pairs := Except.mapM_ok done
  have within : index < list.length := pairs.length_eq ▸ bound
  exact ⟨list[index], List.getElem_mem within, pairs.get within bound⟩

/-- Each value has come through. -/
theorem Except.forall_mapM_ok {f : α → Except ε β} {list : List α} {results : List β}
    (done : list.mapM f = .ok results) {value : α} (listed : value ∈ list) :
    ∃ result, f value = .ok result := by
  obtain ⟨index, bound, rfl⟩ := List.mem_iff_getElem.mp listed
  have pairs := Except.mapM_ok done
  exact ⟨_, pairs.get bound (pairs.length_eq ▸ bound)⟩

theorem Except.map_mapM_ok {f : α → Except ε β} {back : β → α} {list : List α} {results : List β}
    (done : list.mapM f = .ok results)
    (same : ∀ value result, f value = .ok result → back result = value) :
    results.map back = list := by
  have pairs := Except.mapM_ok done
  clear done
  induction pairs with
  | nil => rfl
  | cons here _ ih => rw [List.map_cons, same _ _ here, ih]

end Klens.Lib
