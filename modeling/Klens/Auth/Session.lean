import Klens.Auth.Access

/-! Signed-in sessions: the users remembered by subject, the session records, and
the guards that streams keep from the requests that opened them. A clock of whole
seconds drives both caches. -/
namespace Klens.Auth
open Std

structure SessionUser where
  sub : String
  email : Option String
  name : Option String
  exp : Int
  groups : List String
  deriving DecidableEq, Repr

def sessionCookieKeyPrefix : String := "klens-session-v1"

/-- The text that the hash of a user is taken of. -/
def SessionUser.boundClaims (user : SessionUser) : String :=
  sessionCookieKeyPrefix ++ "|" ++ user.sub ++ "|" ++ toString user.exp ++ "|" ++
    "\x00".intercalate user.groups

/-- What stays fixed while the process runs. `sha256` is the digest the hashes
are taken with. -/
structure AuthState (H : Type) where
  enabled : Bool
  policy : AccessPolicy
  sha256 : String → H

/-- `UntilExp` gives each user the second at which the cache forgets it. -/
structure CachedUser where
  user : SessionUser
  expires : Int
  deriving DecidableEq, Repr

structure Record (H : Type) where
  subject : String
  authHash : H
  expiryDate : Int
  deriving DecidableEq, Repr

inductive Holder where
  | nobody
  | session (id : Nat) (subject : String)
  | fixed (access : EffectiveAccess)
  deriving DecidableEq

/-- The two caches, the session ids handed out so far, and every guard together
with the session of the request it was taken from. -/
structure Sessions (H : Type) where
  now : Int
  users : ExtTreeMap String CachedUser
  records : ExtTreeMap Nat (Record H)
  issued : Nat
  guards : List (Nat × Holder)

namespace Sessions
variable {H : Type}

def start (now : Int) : Sessions H := { now, users := ∅, records := ∅, issued := 0, guards := [] }

def remember (sessions : Sessions H) (user : SessionUser) : Sessions H :=
  { sessions with
    users := sessions.users.insert user.sub
      { user, expires := sessions.now + max (user.exp - sessions.now) 0 } }

def liveUser (sessions : Sessions H) (subject : String) : Option SessionUser :=
  (sessions.users[subject]?.filter (sessions.now < ·.expires)).map CachedUser.user

/-- `ExpiringStore::load`; `contains` is whether it answers. -/
def load (sessions : Sessions H) (id : Nat) : Option (Record H) :=
  sessions.records[id]?.filter (sessions.now < ·.expiryDate)

def delete (sessions : Sessions H) (id : Nat) : Sessions H :=
  { sessions with records := sessions.records.erase id }

/-- The id a login is kept under: a session that already carries a login keeps
its own, any other gets a new one. -/
def loginId (sessions : Sessions H) (browser : Option Nat) : Nat :=
  match browser with
  | some id => if (sessions.load id).isSome then id else sessions.issued
  | none => sessions.issued

end Sessions

structure LoginPending where
  state : String
  nonce : String
  pkceVerifier : String
  deriving DecidableEq, Repr

structure CallbackQuery where
  code : Option String
  state : Option String
  error : Option String
  deriving DecidableEq, Repr

inductive LoginFail where
  | auth
  | forbidden
  deriving DecidableEq, Repr

def LoginFail.location : LoginFail → String
  | .auth => "/login?error=auth"
  | .forbidden => "/login?error=forbidden"

/-- What reaches the server, or a pause. `answer` is what the provider makes of
the code; `browser` is the session the callback carries, when it carries one. -/
inductive Event where
  | callback (browser : Option Nat) (pending : Option LoginPending) (query : CallbackQuery)
      (answer : Option SessionUser)
  | logout (id : Nat)
  | request (id : Nat)
  | advance (seconds : Nat)
  deriving DecidableEq, Repr

namespace AuthState
variable {H : Type} (auth : AuthState H)

def sessionAuthHash (user : SessionUser) : H := auth.sha256 user.boundClaims

def accessFromUser (user : SessionUser) : Option EffectiveAccess := auth.policy.admits user.groups

def revalidate (sessions : Sessions H) : Holder → Option EffectiveAccess
  | .nobody => if auth.enabled then none else some .unrestricted
  -- Logout deletes the session record but leaves the user cached by subject.
  | .session id subject =>
    if (sessions.load id).isNone then none
    else (sessions.liveUser subject).bind auth.accessFromUser
  | .fixed access => some access

/-- The checks of a callback, in their order, up to the user it may sign in. -/
def identify (pending : Option LoginPending) (query : CallbackQuery)
    (answer : Option SessionUser) : Except LoginFail SessionUser := do
  if query.error.isSome then throw .auth
  let some pending := pending | throw .auth
  let some stateParam := query.state | throw .auth
  if pending.state ≠ stateParam then throw .auth
  let some _ := query.code | throw .auth
  let some user := answer | throw .auth
  if (auth.accessFromUser user).isNone then throw .forbidden
  return user

def login (sessions : Sessions H) (id : Nat) (user : SessionUser) : Sessions H :=
  let ttl := max (user.exp - sessions.now) 1
  { sessions.remember user with
    records := sessions.records.insert id
      { subject := user.sub
        authHash := auth.sessionAuthHash user
        expiryDate := sessions.now + ttl }
    issued := max sessions.issued (id + 1) }

variable [DecidableEq H]

/-- The user `axum_login` finds for a request that carries the session. -/
def sessionUser (sessions : Sessions H) (id : Nat) : Option SessionUser := do
  let record ← sessions.load id
  let user ← sessions.liveUser record.subject
  if record.authHash = auth.sessionAuthHash user then some user else none

/-- `axum_login` ends a session whose hash its live user no longer has. -/
def verify (sessions : Sessions H) (id : Nat) : Sessions H :=
  match sessions.load id with
  | none => sessions
  | some record =>
    match sessions.liveUser record.subject with
    | none => sessions
    | some user =>
      if record.authHash = auth.sessionAuthHash user then sessions else sessions.delete id

def accessFromSession (sessions : Sessions H) (id : Nat) : Option EffectiveAccess :=
  if auth.enabled then (auth.sessionUser sessions id).bind auth.accessFromUser
  else some .unrestricted

def guard (sessions : Sessions H) (id : Nat) : Holder :=
  match auth.sessionUser sessions id with
  | some user => if auth.enabled then .session id user.sub else .nobody
  | none => .nobody

/-- Admits a request with its access and takes the guard that its stream keeps. -/
def requireSession (sessions : Sessions H) (id : Nat) : Sessions H × Option EffectiveAccess :=
  match auth.accessFromSession sessions id with
  | some access =>
    ({ sessions with guards := (id, auth.guard sessions id) :: sessions.guards }, some access)
  | none => (auth.verify sessions id, none)

/-- The session of the callback as its handler finds it. -/
def verified (sessions : Sessions H) (browser : Option Nat) : Sessions H :=
  match browser with
  | some id => auth.verify sessions id
  | none => sessions

/-- The state after a callback and where its response sends the browser; without
a provider there is no such page. -/
def completeLogin (sessions : Sessions H) (browser : Option Nat) (pending : Option LoginPending)
    (query : CallbackQuery) (answer : Option SessionUser) : Sessions H × Option String :=
  if auth.enabled then
    let opened := auth.verified sessions browser
    match auth.identify pending query answer with
    | .error fail =>
      (match browser with
        | some id => opened.delete id
        | none => opened, some fail.location)
    | .ok user => (auth.login opened (opened.loginId browser) user, some "/login?from=callback")
  else (sessions, none)

def step (sessions : Sessions H) : Event → Sessions H
  | .callback browser pending query answer =>
    (auth.completeLogin sessions browser pending query answer).1
  | .logout id => sessions.delete id
  | .request id => (auth.requireSession sessions id).1
  | .advance seconds => { sessions with now := sessions.now + seconds }

def run (sessions : Sessions H) (events : List Event) : Sessions H :=
  events.foldl auth.step sessions

end AuthState
end Klens.Auth
