import Klens.Store.Follower

/-! A follower marks before it loads and a commit notifies after it stores, so a
follower that is not about to load knows what is stored or is going to be told. -/
namespace Klens.Store

namespace SharedLane
variable {T C : Type} [DecidableEq C]

/-- The steps of a commit nothing comes between are `Lane::commit`. -/
theorem store_bump_notify (shared : SharedLane T C) (committer : C) (next : T) (now : Int)
    (free : shared.phases committer = .idle) :
    ((shared.store committer next).bump committer now).notify committer =
      { shared with lane := shared.lane.commit now next, notices := shared.notices + 1 } := by
  simp only [store, bump, notify, setPhase, Lane.commit, mk.injEq, Function.update_idem, true_and]
  rw [← free, Function.update_eq_self]

/-- What a step can do to the table and the notices. -/
theorem Step.cases {shared next : SharedLane T C} (step : shared.Step next) :
    next.InFlight ∧ next.notices = shared.notices ∨
      next.lane.table = shared.lane.table ∧ next.notices = shared.notices + 1 := by
  cases step with
  | store committer table free =>
    exact .inl ⟨⟨committer, by simp [SharedLane.store, setPhase]⟩, rfl⟩
  | bump committer now stored =>
    exact .inl ⟨⟨committer, by simp [SharedLane.bump, setPhase]⟩, rfl⟩
  | notify committer bumped => exact .inr ⟨rfl, rfl⟩

end SharedLane

namespace Follower
variable {T C : Type} [DecidableEq C]

/-- The follower took a change, or marked, and has yet to load. -/
def Awake (follower : Follower T C) : Prop :=
  follower.phase = .woken ∨ follower.phase = .marked

/-- What the follower last loaded is what is stored, or it is going to hear of
the difference. -/
def Informed (follower : Follower T C) : Prop :=
  ∀ answer, follower.loaded = some answer → answer ≠ follower.shared.lane.table →
    follower.Changed ∨ follower.shared.InFlight

/-- What every step keeps. -/
structure Invariant (follower : Follower T C) : Prop where
  seen : follower.seen ≤ follower.shared.notices
  informed : ¬ follower.Awake → follower.Informed

omit [DecidableEq C] in
theorem invariant_follow (shared : SharedLane T C) : (follow shared).Invariant :=
  ⟨Nat.le_refl _, fun _ _ loaded => nomatch loaded⟩

private theorem Invariant.lane {follower : Follower T C} {shared : SharedLane T C}
    (invariant : follower.Invariant) (step : follower.shared.Step shared) :
    ({ follower with shared } : Follower T C).Invariant := by
  have seen := invariant.seen
  rcases step.cases with ⟨flying, same⟩ | ⟨kept, told⟩
  · exact ⟨same ▸ seen, fun _ _ _ _ => .inr flying⟩
  · refine ⟨by simp only; omega, fun _ _ _ _ => .inl ?_⟩
    -- The notice is one the follower has not seen.
    simp only [Changed]
    omega

theorem Invariant.step {follower next : Follower T C} (invariant : follower.Invariant)
    (step : follower.Step next) : next.Invariant := by
  cases step with
  | lane step => exact invariant.lane step
  | table idle | commit idle =>
    exact ⟨invariant.seen, fun _ => invariant.informed (by simp [Awake, idle])⟩
  | changed waits change => exact ⟨Nat.le_refl _, fun asleep => absurd (.inl rfl) asleep⟩
  | mark awake => exact ⟨Nat.le_refl _, fun asleep => absurd (.inr rfl) asleep⟩
  | load marked =>
    refine ⟨invariant.seen, fun _ answer loaded differs => absurd ?_ differs⟩
    exact (Option.some.inj loaded).symm
  | dropped waits =>
    refine ⟨invariant.seen, fun _ => invariant.informed ?_⟩
    rcases waits with waits | waits <;> simp [Awake, waits]

theorem Reaches.invariant {first last : Follower T C} (run : first.Reaches last)
    (invariant : first.Invariant) : last.Invariant := by
  induction run with
  | refl => exact invariant
  | tail _ step ih => exact ih.step step

end Follower
end Klens.Store
