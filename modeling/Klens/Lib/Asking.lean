/-! Programs that read a world while it changes and make calls to it: each read and each
call has a moment of its own, and a call is logged with its moment. -/
namespace Klens.Lib

structure Asked (C : Type) where
  moment : Nat
  calls : List (Nat × C)

def Asking (E C α : Type) : Type := Asked C → Except E α × Asked C

namespace Asking
variable {E C α β : Type}

instance : Monad (Asking E C) where
  pure value asked := (.ok value, asked)
  bind program next asked :=
    match program asked with
    | (.ok value, later) => next value later
    | (.error error, later) => (.error error, later)

def lift (result : Except E α) : Asking E C α := fun asked => (result, asked)

def read (look : Nat → Except E α) : Asking E C α := fun asked =>
  (look asked.moment, { asked with moment := asked.moment + 1 })

def send (call : C) (answers : Nat → Except E α) : Asking E C α := fun asked =>
  (answers asked.moment,
    { moment := asked.moment + 1, calls := asked.calls ++ [(asked.moment, call)] })

/-- From any moment on that is not before `first`: the program ends without a call, and
`idle` holds of when and what it ends with, or it makes one call, and `made` holds of
the call. -/
def Makes (first : Nat) (program : Asking E C α) (idle : Nat → Except E α → Prop)
    (made : Nat → C → Except E α → Prop) : Prop :=
  ∀ asked : Asked C, first ≤ asked.moment →
    ((program asked).2.calls = asked.calls ∧ idle (program asked).2.moment (program asked).1) ∨
    ∃ moment call, asked.moment ≤ moment ∧
      (program asked).2.calls = asked.calls ++ [(moment, call)] ∧
      made moment call (program asked).1

variable {first : Nat} {idle : Nat → Except E β → Prop} {made : Nat → C → Except E β → Prop}

theorem makes_pure {value : β} (ends : ∀ last, first ≤ last → idle last (.ok value)) :
    Makes first (pure value : Asking E C β) idle made :=
  fun asked after => .inl ⟨rfl, ends asked.moment after⟩

theorem Makes.mono {program : Asking E C β} {rests : Nat → Except E β → Prop}
    {more : Nat → C → Except E β → Prop} (makes : Makes first program idle made)
    (still : ∀ last result, idle last result → rests last result)
    (weaker : ∀ moment call result, first ≤ moment → made moment call result →
      more moment call result) : Makes first program rests more := by
  intro asked after
  obtain ⟨quiet, ends⟩ | ⟨moment, call, later, calls, holds⟩ := makes asked after
  · exact .inl ⟨quiet, still _ _ ends⟩
  · exact .inr ⟨moment, call, later, calls, weaker moment call _ (Nat.le_trans after later) holds⟩

theorem makes_lift_bind {result : Except E α} {next : α → Asking E C β}
    (fails : ∀ last error, result = .error error → idle last (.error error))
    (rest : ∀ value, result = .ok value → Makes first (next value) idle made) :
    Makes first (lift result >>= next) idle made := by
  intro asked after
  cases found : result with
  | error error => exact .inl ⟨rfl, fails asked.moment error found⟩
  | ok value => exact rest value found asked after

theorem makes_read_bind {look : Nat → Except E α} {next : α → Asking E C β}
    (fails : ∀ moment error, look moment = .error error → idle (moment + 1) (.error error))
    (rest : ∀ moment value, first ≤ moment → look moment = .ok value →
      Makes (moment + 1) (next value) idle made) :
    Makes first (read look >>= next) idle made := by
  intro asked after
  have step : (read look >>= next) asked = match look asked.moment with
      | .ok value => next value { asked with moment := asked.moment + 1 }
      | .error error => (.error error, { asked with moment := asked.moment + 1 }) := by
    cases found : look asked.moment <;> simp only [bind, read, found]
  rw [step]
  cases found : look asked.moment with
  | error error => exact .inl ⟨rfl, fails asked.moment error found⟩
  | ok value =>
    obtain quiet | ⟨moment, call, later, calls, holds⟩ :=
      rest asked.moment value after found { asked with moment := asked.moment + 1 } (Nat.le_refl _)
    · exact .inl quiet
    · exact .inr ⟨moment, call, Nat.le_of_succ_le later, calls, holds⟩

/-- The call is the last one: what follows makes an answer of it without another. -/
theorem makes_send_bind {call : C} {answers : Nat → Except E α} {next : α → Asking E C β}
    (silent : ∀ value asked, (next value asked).2.calls = asked.calls)
    (fails : ∀ moment error, first ≤ moment → answers moment = .error error →
      made moment call (.error error))
    (holds : ∀ moment value asked, first ≤ moment → answers moment = .ok value →
      made moment call (next value asked).1) :
    Makes first (send call answers >>= next) idle made := by
  intro asked after
  refine .inr ⟨asked.moment, call, Nat.le_refl _, ?_⟩
  have step : (send call answers >>= next) asked = match answers asked.moment with
      | .ok value => next value
        { moment := asked.moment + 1, calls := asked.calls ++ [(asked.moment, call)] }
      | .error error => (.error error,
        { moment := asked.moment + 1, calls := asked.calls ++ [(asked.moment, call)] }) := by
    cases found : answers asked.moment <;> simp only [bind, send, found]
  rw [step]
  cases found : answers asked.moment with
  | error error => exact ⟨rfl, fails asked.moment error after found⟩
  | ok value => exact ⟨silent value _, holds asked.moment value _ after found⟩

theorem bind_assoc {γ : Type} (program : Asking E C α) (next : α → Asking E C β)
    (last : β → Asking E C γ) :
    program >>= next >>= last = program >>= fun value => next value >>= last := by
  funext asked
  simp only [bind]
  cases program asked with
  | mk result later => cases result <;> rfl

theorem pure_bind (value : α) (next : α → Asking E C β) :
    (pure value : Asking E C α) >>= next = next value := rfl

/-- From any moment on the program makes this one call. -/
def Asks (program : Asking E C α) (call : C) : Prop :=
  ∀ asked : Asked C, ∃ moment, (program asked).2.calls = asked.calls ++ [(moment, call)]

theorem asks_lift_bind {result : Except E α} {value : α} {next : α → Asking E C β} {call : C}
    (done : result = .ok value) (rest : Asks (next value) call) :
    Asks (lift result >>= next) call := by
  intro asked
  rw [done]
  exact rest asked

theorem asks_read_bind {look : Nat → Except E α} {value : α} {next : α → Asking E C β} {call : C}
    (found : ∀ moment, look moment = .ok value) (rest : Asks (next value) call) :
    Asks (read look >>= next) call := by
  intro asked
  have step : (read look >>= next) asked = next value { asked with moment := asked.moment + 1 } := by
    simp only [bind, read, found]
  rw [step]
  exact rest { asked with moment := asked.moment + 1 }

theorem asks_send_map {call : C} {answers : Nat → Except E α} {answer : α → β} :
    Asks (send call answers >>= fun value => pure (answer value)) call := by
  intro asked
  refine ⟨asked.moment, ?_⟩
  simp only [bind, send]
  cases answers asked.moment <;> rfl

end Asking
end Klens.Lib
