import Klens.Auth.Session

/-! A stream's guard answers as the request gate does, as long as no login
changes what another open session of its subject was hashed from. -/
namespace Klens.Auth
open Std

namespace Sessions
variable {H : Type} {sessions : Sessions H}

theorem load_delete (sessions : Sessions H) (id other : Nat) :
    (sessions.delete id).load other = if other = id then none else sessions.load other := by
  simp only [load, delete, ExtTreeMap.getElem?_erase, Nat.compare_eq_eq, eq_comm (a := id)]
  split <;> rfl

theorem load_of_load_advance {seconds : Nat} {id : Nat} {record : Record H}
    (loaded : load { sessions with now := sessions.now + seconds } id = some record) :
    sessions.load id = some record := by
  simp only [load, Option.filter_eq_some_iff, decide_eq_true_eq] at loaded ⊢
  exact ⟨loaded.1, by omega⟩

theorem liveUser_of_liveUser_advance {seconds : Nat} {subject : String} {user : SessionUser}
    (live : liveUser { sessions with now := sessions.now + seconds } subject = some user) :
    sessions.liveUser subject = some user := by
  simp only [liveUser, Option.map_eq_some_iff, Option.filter_eq_some_iff,
    decide_eq_true_eq] at live ⊢
  obtain ⟨cached, ⟨stored, ahead⟩, named⟩ := live
  exact ⟨cached, ⟨stored, by omega⟩, named⟩

theorem load_login (auth : AuthState H) (sessions : Sessions H) (id other : Nat)
    (user : SessionUser) :
    (auth.login sessions id user).load other =
      if other = id then some (Record.mk user.sub (auth.sessionAuthHash user)
        (sessions.now + max (user.exp - sessions.now) 1))
      else sessions.load other := by
  simp only [load, AuthState.login, remember, ExtTreeMap.getElem?_insert, Nat.compare_eq_eq,
    eq_comm (a := id)]
  split
  · have ahead : sessions.now < sessions.now + max (user.exp - sessions.now) 1 := by omega
    simp only [Option.filter_some, ahead, decide_true, if_true]
  · rfl

theorem liveUser_login (auth : AuthState H) (sessions : Sessions H) (id : Nat)
    (user : SessionUser) (subject : String) :
    (auth.login sessions id user).liveUser subject =
      if subject = user.sub then if sessions.now < user.exp then some user else none
      else sessions.liveUser subject := by
  simp only [liveUser, AuthState.login, remember, ExtTreeMap.getElem?_insert,
    LawfulEqCmp.compare_eq_iff_eq, eq_comm (a := user.sub)]
  split
  · by_cases ahead : sessions.now < user.exp
    · have remembered : sessions.now < sessions.now + max (user.exp - sessions.now) 0 := by omega
      simp only [Option.filter_some, remembered, decide_true, if_true, if_pos ahead,
        Option.map_some]
    · have forgotten : ¬ sessions.now < sessions.now + max (user.exp - sessions.now) 0 := by omega
      simp only [Option.filter_some, forgotten, decide_false, Bool.false_eq_true, if_false,
        if_neg ahead, Option.map_none]
  · rfl

end Sessions

namespace AuthState
variable {H : Type} (auth : AuthState H)

/-- A login under `id` leaves a guard alone: a guard of that session is of the
login's own subject, and another open session of the subject carries the hash
that the subject is remembered with from now on. -/
def Undisturbed (sessions : Sessions H) (id : Nat) (user : SessionUser) : Holder → Prop
  | .session other subject =>
    if other = id then subject = user.sub
    else subject = user.sub → sessions.now < user.exp →
      ∀ record ∈ sessions.load other, record.authHash = auth.sessionAuthHash user
  | .nobody => True
  | .fixed _ => True

/-- Every guard follows its session: while the record stands it is of the guard's
subject, and it was hashed from the claims the subject is remembered with. -/
def Follows (sessions : Sessions H) (id : Nat) : Holder → Prop
  | .nobody => auth.enabled = false
  | .session own subject => auth.enabled = true ∧ own = id ∧ id < sessions.issued ∧
      ∀ record, sessions.load id = some record → record.subject = subject ∧
        ∀ user, sessions.liveUser subject = some user →
          record.authHash = auth.sessionAuthHash user
  | .fixed _ => False

structure Consistent (sessions : Sessions H) : Prop where
  keyed : ∀ subject (cached : CachedUser), sessions.users[subject]? = some cached → cached.user.sub = subject
  known : ∀ id (record : Record H), sessions.records[id]? = some record → id < sessions.issued
  follows : ∀ taken ∈ sessions.guards, auth.Follows sessions taken.1 taken.2

variable {auth} {sessions : Sessions H}

theorem Consistent.liveUser_sub (consistent : auth.Consistent sessions) {subject : String}
    {user : SessionUser} (live : sessions.liveUser subject = some user) : user.sub = subject := by
  simp only [Sessions.liveUser, Option.map_eq_some_iff, Option.filter_eq_some_iff] at live
  obtain ⟨cached, ⟨stored, _⟩, rfl⟩ := live
  exact consistent.keyed subject cached stored

theorem Consistent.load_lt (consistent : auth.Consistent sessions) {id : Nat} {record : Record H}
    (loaded : sessions.load id = some record) : id < sessions.issued :=
  consistent.known id record (Option.filter_eq_some_iff.mp loaded).1

theorem consistent_start (now : Int) : auth.Consistent (Sessions.start now) := by
  constructor
  · intro subject cached stored
    simp [Sessions.start] at stored
  · intro id record stored
    simp [Sessions.start] at stored
  · intro taken member
    contradiction

/-- A guard keeps following its session while entries only go. -/
theorem Follows.of_sub {next : Sessions H} {id : Nat} {holder : Holder}
    (follows : auth.Follows sessions id holder) (issued : next.issued = sessions.issued)
    (records : ∀ record, next.load id = some record → sessions.load id = some record)
    (users : ∀ subject user, next.liveUser subject = some user →
      sessions.liveUser subject = some user) : auth.Follows next id holder := by
  cases holder with
  | nobody => exact follows
  | fixed access => exact follows
  | session own subject =>
    obtain ⟨enabled, rfl, known, hashed⟩ := follows
    refine ⟨enabled, rfl, issued ▸ known, ?_⟩
    intro record loaded
    obtain ⟨named, matching⟩ := hashed record (records record loaded)
    exact ⟨named, fun user live => matching user (users subject user live)⟩

theorem Consistent.delete (consistent : auth.Consistent sessions) (id : Nat) :
    auth.Consistent (sessions.delete id) := by
  refine ⟨consistent.keyed, ?_, ?_⟩
  · intro other record stored
    simp only [Sessions.delete, ExtTreeMap.getElem?_erase] at stored
    split at stored
    · contradiction
    · exact consistent.known other record stored
  · intro taken member
    refine (consistent.follows taken member).of_sub rfl ?_ fun _ _ live => live
    intro record loaded
    rw [Sessions.load_delete] at loaded
    split at loaded
    · contradiction
    · exact loaded

theorem Consistent.advance (consistent : auth.Consistent sessions) (seconds : Nat) :
    auth.Consistent { sessions with now := sessions.now + seconds } := by
  refine ⟨consistent.keyed, consistent.known, ?_⟩
  intro taken member
  exact (consistent.follows taken member).of_sub rfl
    (fun _ loaded => Sessions.load_of_load_advance loaded)
    (fun _ _ live => Sessions.liveUser_of_liveUser_advance live)

theorem Consistent.login (consistent : auth.Consistent sessions) {id : Nat} {user : SessionUser}
    (undisturbed : ∀ taken ∈ sessions.guards, auth.Undisturbed sessions id user taken.2) :
    auth.Consistent (auth.login sessions id user) := by
  refine ⟨?_, ?_, ?_⟩
  · intro subject cached stored
    simp only [AuthState.login, Sessions.remember, ExtTreeMap.getElem?_insert] at stored
    split at stored
    · rename_i same
      obtain rfl := Option.some.inj stored
      exact LawfulEqCmp.compare_eq_iff_eq.mp same
    · exact consistent.keyed subject cached stored
  · intro other record stored
    simp only [AuthState.login, ExtTreeMap.getElem?_insert, Nat.compare_eq_eq] at stored ⊢
    split at stored
    · omega
    · have := consistent.known other record stored
      omega
  · rintro ⟨source, holder⟩ member
    have follows := consistent.follows _ member
    have quiet := undisturbed _ member
    cases holder with
    | nobody => exact follows
    | fixed access => exact follows
    | session own subject =>
      obtain ⟨enabled, rfl, known, hashed⟩ := follows
      refine ⟨enabled, rfl, lt_max_of_lt_left known, ?_⟩
      intro record loaded
      rw [Sessions.load_login] at loaded
      simp only [Undisturbed] at quiet
      split at loaded
      · -- The guard's own session: its record was just written for this user.
        rename_i same
        rw [if_pos same] at quiet
        obtain rfl := Option.some.inj loaded
        refine ⟨quiet.symm, ?_⟩
        intro found live
        rw [Sessions.liveUser_login, if_pos quiet] at live
        split at live
        · rw [Option.some.inj live]
        · contradiction
      · rename_i different
        rw [if_neg different] at quiet
        obtain ⟨named, matching⟩ := hashed record loaded
        refine ⟨named, ?_⟩
        intro found live
        rw [Sessions.liveUser_login] at live
        split at live
        · rename_i same
          split at live
          · rename_i ahead
            rw [← Option.some.inj live]
            exact quiet same ahead record loaded
          · contradiction
        · exact matching found live

variable [DecidableEq H]

theorem sessionUser_eq_some {id : Nat} {user : SessionUser}
    (found : auth.sessionUser sessions id = some user) :
    ∃ record, sessions.load id = some record ∧ sessions.liveUser record.subject = some user ∧
      record.authHash = auth.sessionAuthHash user := by
  simp only [sessionUser, Option.bind_eq_bind, Option.bind_eq_some_iff] at found
  obtain ⟨record, loaded, live, stored, chosen⟩ := found
  split at chosen
  · rename_i same
    obtain rfl := Option.some.inj chosen
    exact ⟨record, loaded, stored, same⟩
  · contradiction

theorem verify_cases (auth : AuthState H) (sessions : Sessions H) (id : Nat) :
    auth.verify sessions id = sessions ∨ auth.verify sessions id = sessions.delete id := by
  unfold verify
  split
  · exact .inl rfl
  · split
    · exact .inl rfl
    · split
      · exact .inl rfl
      · exact .inr rfl

theorem Consistent.verify (consistent : auth.Consistent sessions) (id : Nat) :
    auth.Consistent (auth.verify sessions id) := by
  rcases verify_cases auth sessions id with same | deleted
  · rw [same]
    exact consistent
  · rw [deleted]
    exact consistent.delete id

theorem Consistent.verified (consistent : auth.Consistent sessions) (browser : Option Nat) :
    auth.Consistent (auth.verified sessions browser) := by
  cases browser with
  | none => exact consistent
  | some id => exact consistent.verify id

/-- A guard follows the session of the request it is taken from. -/
theorem Consistent.guard_follows (consistent : auth.Consistent sessions) {id : Nat}
    {access : EffectiveAccess} (admitted : auth.accessFromSession sessions id = some access) :
    auth.Follows sessions id (auth.guard sessions id) := by
  cases enabled : auth.enabled with
  | false =>
    unfold guard
    rw [enabled]
    split <;> exact enabled
  | true =>
    rw [accessFromSession, if_pos enabled, Option.bind_eq_some_iff] at admitted
    obtain ⟨user, found, _⟩ := admitted
    obtain ⟨record, loaded, live, hashed⟩ := sessionUser_eq_some found
    have named := consistent.liveUser_sub live
    rw [guard, found]
    simp only [enabled, if_true]
    refine ⟨enabled, rfl, consistent.load_lt loaded, ?_⟩
    intro other again
    obtain rfl := Option.some.inj (loaded.symm.trans again)
    refine ⟨named.symm, ?_⟩
    intro found current
    rw [named] at current
    rw [← Option.some.inj (live.symm.trans current)]
    exact hashed

theorem Consistent.requireSession (consistent : auth.Consistent sessions) (id : Nat) :
    auth.Consistent (auth.requireSession sessions id).1 := by
  unfold AuthState.requireSession
  split
  · rename_i access admitted
    refine ⟨consistent.keyed, consistent.known, ?_⟩
    intro taken member
    rcases List.mem_cons.mp member with rfl | before
    · exact consistent.guard_follows admitted
    · exact consistent.follows taken before
  · exact consistent.verify id

/-- What a step must not do to the guards that are out. Only a login can. -/
def Steady (auth : AuthState H) (sessions : Sessions H) : Event → Prop
  | .callback browser pending query answer =>
    auth.enabled = true → ∀ user ∈ (auth.identify pending query answer).toOption,
      let opened := auth.verified sessions browser
      ∀ taken ∈ opened.guards, auth.Undisturbed opened (opened.loginId browser) user taken.2
  | .logout _ => True
  | .request _ => True
  | .advance _ => True

/-- Every event of a run is steady in the state it meets. -/
def SteadyRun (auth : AuthState H) : Sessions H → List Event → Prop
  | _, [] => True
  | sessions, event :: events =>
    auth.Steady sessions event ∧ SteadyRun auth (auth.step sessions event) events

instance (sessions : Sessions H) (id : Nat) (user : SessionUser) :
    (holder : Holder) → Decidable (auth.Undisturbed sessions id user holder)
  | .session _ _ => inferInstanceAs (Decidable (ite _ _ _))
  | .nobody => inferInstanceAs (Decidable True)
  | .fixed _ => inferInstanceAs (Decidable True)

instance (sessions : Sessions H) : (event : Event) → Decidable (auth.Steady sessions event)
  | .callback _ _ _ _ => inferInstanceAs (Decidable (_ → ∀ user ∈ Except.toOption _, ∀ taken ∈ _, _))
  | .logout _ => inferInstanceAs (Decidable True)
  | .request _ => inferInstanceAs (Decidable True)
  | .advance _ => inferInstanceAs (Decidable True)

instance decidableSteadyRun (auth : AuthState H) :
    (sessions : Sessions H) → (events : List Event) → Decidable (auth.SteadyRun sessions events)
  | _, [] => .isTrue trivial
  | sessions, event :: events =>
    have := decidableSteadyRun auth (auth.step sessions event) events
    inferInstanceAs (Decidable (_ ∧ _))

theorem Consistent.step (consistent : auth.Consistent sessions) {event : Event}
    (steady : auth.Steady sessions event) : auth.Consistent (auth.step sessions event) := by
  cases event with
  | logout id => exact consistent.delete id
  | request id => exact consistent.requireSession id
  | advance seconds => exact consistent.advance seconds
  | callback browser pending query answer =>
    simp only [AuthState.step, completeLogin]
    split
    · rename_i enabled
      have opened := consistent.verified browser
      split
      · cases browser with
        | none => exact opened
        | some id => exact opened.delete id
      · rename_i user identified
        exact opened.login (steady enabled user (by rw [identified]; rfl))
    · exact consistent

theorem Consistent.run (consistent : auth.Consistent sessions) {events : List Event}
    (steady : auth.SteadyRun sessions events) : auth.Consistent (auth.run sessions events) := by
  induction events generalizing sessions with
  | nil => exact consistent
  | cons event events ih => exact ih (consistent.step steady.1) steady.2

theorem Follows.revalidate_eq {id : Nat} {holder : Holder}
    (follows : auth.Follows sessions id holder) :
    auth.revalidate sessions holder = auth.accessFromSession sessions id := by
  cases holder with
  | fixed access => exact follows.elim
  | nobody =>
    have disabled : auth.enabled = false := follows
    simp [revalidate, accessFromSession, disabled]
  | session own subject =>
    obtain ⟨enabled, rfl, _, hashed⟩ := follows
    simp only [revalidate, accessFromSession, enabled, if_true, sessionUser, Option.bind_eq_bind]
    cases loaded : sessions.load own with
    | none => rfl
    | some record =>
      obtain ⟨rfl, matching⟩ := hashed record loaded
      simp only [Option.isNone_some, Bool.false_eq_true, if_false, Option.bind_some]
      cases live : sessions.liveUser record.subject with
      | none => rfl
      | some user => simp [matching user live]

/-- The other half of what a steady login asks for: a login that changes the
hash of another open session's subject parts that session's guard from the gate. -/
theorem revalidate_ne_accessFromSession (enabled : auth.enabled = true) {id other : Nat}
    {user : SessionUser} {record : Record H} (admitted : (auth.accessFromUser user).isSome)
    (different : other ≠ id) (loaded : sessions.load other = some record)
    (named : record.subject = user.sub) (ahead : sessions.now < user.exp)
    (changed : record.authHash ≠ auth.sessionAuthHash user) :
    auth.revalidate (auth.login sessions id user) (.session other user.sub) ≠
      auth.accessFromSession (auth.login sessions id user) other := by
  have kept : (auth.login sessions id user).load other = some record := by
    rw [Sessions.load_login, if_neg different, loaded]
  have live : (auth.login sessions id user).liveUser user.sub = some user := by
    rw [Sessions.liveUser_login, if_pos rfl, if_pos ahead]
  have refused : auth.accessFromSession (auth.login sessions id user) other = none := by
    simp [accessFromSession, sessionUser, enabled, kept, named, live, changed]
  have answered : auth.revalidate (auth.login sessions id user) (.session other user.sub) =
      auth.accessFromUser user := by
    simp [revalidate, kept, live]
  rw [refused, answered]
  exact Option.isSome_iff_ne_none.mp admitted

/-- At every point of a run whose logins are steady, a guard's answer and the
answer to a new request of its session are the same. -/
theorem revalidate_eq_accessFromSession (auth : AuthState H) (now : Int) (events : List Event)
    (steady : auth.SteadyRun (.start now) events) (id : Nat) (holder : Holder)
    (taken : (id, holder) ∈ (auth.run (.start now) events).guards) :
    auth.revalidate (auth.run (.start now) events) holder =
      (auth.requireSession (auth.run (.start now) events) id).2 := by
  have consistent := (consistent_start now).run steady
  have same := (consistent.follows _ taken).revalidate_eq
  rw [same, AuthState.requireSession]
  split
  · assumption
  · assumption

/-- A callback that brings back the login it was started with. -/
private def returned (browser : Option Nat) (user : SessionUser) : Event :=
  .callback browser (some { state := "s", nonce := "n", pkceVerifier := "v" })
    { code := some "code", state := some "s", error := none } (some user)

private def opened : AuthState String := { enabled := true, policy := .unbound, sha256 := id }

private def alice (groups : List String) : SessionUser :=
  { sub := "alice", email := none, name := none, exp := 3600, groups }

theorem revalidate_eq_accessFromSession_two_browsers :
    opened.SteadyRun (.start 0)
        [returned none (alice ["ops"]), .request 0, returned none (alice ["ops"]), .request 1,
          .logout 1, .advance 60] ∧
      opened.revalidate (opened.run (.start 0)
          [returned none (alice ["ops"]), .request 0, returned none (alice ["ops"]), .request 1,
            .logout 1, .advance 60]) (.session 0 "alice") =
        (opened.requireSession (opened.run (.start 0)
          [returned none (alice ["ops"]), .request 0, returned none (alice ["ops"]), .request 1,
            .logout 1, .advance 60]) 0).2 := by
  refine ⟨by decide, ?_⟩
  exact revalidate_eq_accessFromSession opened 0 _ (by decide) 0 _ (by decide)

/-- A second login of the subject with other groups locks the first session out
at the gate, while the stream it opened goes on under the new groups. -/
theorem revalidate_outlives_session :
    ¬ ∀ (auth : AuthState String) (now : Int) (events : List Event) (id : Nat) (holder : Holder),
      (id, holder) ∈ (auth.run (.start now) events).guards →
      auth.revalidate (auth.run (.start now) events) holder =
        (auth.requireSession (auth.run (.start now) events) id).2 := by
  intro agree
  have taken := agree opened 0
    [returned none (alice ["ops"]), .request 0, returned none (alice ["ops", "dev"])]
    0 (.session 0 "alice") (by decide)
  revert taken
  decide

end AuthState
end Klens.Auth
