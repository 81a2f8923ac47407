import Klens.Auth.SessionProofs

/-! A session that is over stays over: no login takes up its id again. -/
namespace Klens.Auth
open Std

namespace Sessions
variable {H : Type} {sessions : Sessions H}

/-- Every session on record was handed its id. -/
def Known (sessions : Sessions H) : Prop :=
  ∀ id (record : Record H), sessions.records[id]? = some record → id < sessions.issued

structure Over (sessions : Sessions H) (id : Nat) : Prop where
  unloaded : sessions.load id = none
  issued : id < sessions.issued

theorem Known.load_lt (known : sessions.Known) {id : Nat} {record : Record H}
    (loaded : sessions.load id = some record) : id < sessions.issued :=
  known id record (Option.filter_eq_some_iff.mp loaded).1

theorem Known.delete (known : sessions.Known) (id : Nat) : (sessions.delete id).Known := by
  intro other record stored
  simp only [Sessions.delete, ExtTreeMap.getElem?_erase] at stored
  split at stored
  · contradiction
  · exact known other record stored

theorem Known.login (known : sessions.Known) (auth : AuthState H) (id : Nat) (user : SessionUser) :
    (auth.login sessions id user).Known := by
  intro other record stored
  simp only [AuthState.login, ExtTreeMap.getElem?_insert, Nat.compare_eq_eq] at stored ⊢
  split at stored
  · omega
  · have := known other record stored
    omega

theorem Over.delete {id : Nat} (past : sessions.Over id) (other : Nat) :
    (sessions.delete other).Over id := by
  refine ⟨?_, past.issued⟩
  rw [load_delete, past.unloaded, ite_self]

theorem Over.advance {id : Nat} (past : sessions.Over id) (seconds : Nat) :
    Over { sessions with now := sessions.now + seconds } id := by
  refine ⟨?_, past.issued⟩
  rw [Option.eq_none_iff_forall_ne_some]
  intro record loaded
  have before := load_of_load_advance loaded
  rw [past.unloaded] at before
  contradiction

/-- The id of a login is one that loads or one that is new. -/
theorem Over.login {id : Nat} (past : sessions.Over id) (auth : AuthState H)
    (browser : Option Nat) (user : SessionUser) :
    (auth.login sessions (sessions.loginId browser) user).Over id := by
  have apart : id ≠ sessions.loginId browser := by
    unfold loginId
    have := past.issued
    cases browser with
    | none => exact Nat.ne_of_lt this
    | some carried =>
      dsimp only
      split
      · rintro rfl
        simp_all [past.unloaded]
      · exact Nat.ne_of_lt this
  refine ⟨?_, ?_⟩
  · rw [load_login, if_neg apart, past.unloaded]
  · have := past.issued
    simp only [AuthState.login]
    omega

end Sessions

namespace AuthState
variable {H : Type} [DecidableEq H] {auth : AuthState H} {sessions : Sessions H}
open Sessions

/-- A step deletes sessions, moves the clock, signs a browser in, or leaves the
records as they are. -/
theorem step_keeps (auth : AuthState H) (P : Sessions H → Prop)
    (delete : ∀ sessions id, P sessions → P (sessions.delete id))
    (login : ∀ sessions browser user, P sessions →
      P (auth.login sessions (sessions.loginId browser) user))
    (advance : ∀ sessions (seconds : Nat), P sessions →
      P { sessions with now := sessions.now + seconds })
    (guards : ∀ (sessions : Sessions H) guards, P sessions → P { sessions with guards })
    (holds : P sessions) (event : Event) : P (auth.step sessions event) := by
  have verify (id : Nat) : P (auth.verify sessions id) := by
    rcases verify_cases auth sessions id with same | deleted
    · rwa [same]
    · rw [deleted]
      exact delete sessions id holds
  cases event with
  | logout id => exact delete sessions id holds
  | advance seconds => exact advance sessions seconds holds
  | request id =>
    simp only [AuthState.step, requireSession]
    split
    · exact guards sessions _ holds
    · exact verify id
  | callback browser pending query answer =>
    have opened : P (auth.verified sessions browser) := by
      cases browser with
      | none => exact holds
      | some id => exact verify id
    simp only [AuthState.step, completeLogin]
    split
    · split
      · cases browser with
        | none => exact opened
        | some id => exact delete _ id opened
      · exact login _ browser _ opened
    · exact holds

theorem over_step {id : Nat} (past : sessions.Over id) (event : Event) :
    (auth.step sessions event).Over id :=
  step_keeps auth (Over · id) (fun _ other past => past.delete other)
    (fun _ browser user past => past.login auth browser user)
    (fun _ seconds past => past.advance seconds) (fun _ _ past => ⟨past.unloaded, past.issued⟩)
    past event

omit [DecidableEq H] in
theorem revalidate_over {id : Nat} (past : sessions.Over id) (subject : String) :
    auth.revalidate sessions (.session id subject) = none := by
  simp [revalidate, past.unloaded]

end AuthState
end Klens.Auth
