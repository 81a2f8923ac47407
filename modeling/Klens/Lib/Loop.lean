import Mathlib.Tactic.Common

/-! Loops that run until a turn breaks them, and the rule by which they end. -/
namespace Klens.Lib.Loop

/-- What a turn of a loop comes to. -/
inductive Turn (State Result : Type*) where
  | next (state : State)
  | done (result : Result)

def Turn.map {State Result State' Result' : Type*} (read : State → State')
    (finish : Result → Result') : Turn State Result → Turn State' Result'
  | .next state => .next (read state)
  | .done result => .done (finish result)

variable {State Result : Type*} {turn : State → Turn State Result}

/-- The result of a loop that ends within `fuel` turns. -/
def run (turn : State → Turn State Result) : Nat → State → Option Result
  | 0, _ => none
  | fuel + 1, state =>
    match turn state with
    | .next state => run turn fuel state
    | .done result => some result

/-- More fuel changes nothing. -/
theorem run_mono {fuel more : Nat} {state : State} {result : Result} (enough : fuel ≤ more)
    (ended : run turn fuel state = some result) : run turn more state = some result := by
  induction fuel generalizing more state with
  | zero => contradiction
  | succ fuel ih =>
    obtain ⟨more, rfl⟩ : ∃ rest, more = rest + 1 := ⟨more - 1, by omega⟩
    unfold run at ended ⊢
    cases turned : turn state with
    | next state =>
      rw [turned] at ended
      exact ih (by omega) ended
    | done result =>
      rw [turned] at ended
      exact ended

/-- A loop whose turns keep a property and lower a bound ends, in a state with
that property. -/
theorem ends {Keeps : State → Prop} (bound : State → Nat)
    (kept : ∀ {state next}, Keeps state → turn state = .next next →
      Keeps next ∧ bound next < bound state) {state : State} (start : Keeps state) :
    ∃ last result, Keeps last ∧ turn last = .done result ∧
      run turn (bound state + 1) state = some result := by
  induction size : bound state using Nat.strongRecOn generalizing state with
  | ind size ih =>
    subst size
    unfold run
    cases turned : turn state with
    | done result => exact ⟨state, result, start, turned, rfl⟩
    | next state' =>
      obtain ⟨keeps, lower⟩ := kept start turned
      obtain ⟨last, result, final, broke, ran⟩ := ih _ lower keeps rfl
      exact ⟨last, result, final, broke, run_mono (by omega) ran⟩

/-- A loop that follows another turn by turn ends as it does. -/
theorem run_map {State' Result' : Type*} {turn' : State' → Turn State' Result'}
    {read : State → State'} {finish : Result → Result'}
    (follows : ∀ state, turn' (read state) = (turn state).map read finish) (fuel : Nat)
    (state : State) : run turn' fuel (read state) = (run turn fuel state).map finish := by
  induction fuel generalizing state with
  | zero => rfl
  | succ fuel ih =>
    unfold run
    rw [follows]
    cases turn state with
    | next state => exact ih state
    | done result => rfl

end Klens.Lib.Loop
