import Klens.App.Error
import Klens.Auth.Session
import Klens.Scan.Tail

/-! The two responses that go on reading records after their request was let in:
following a topic, and exporting it. Both ask again whether the session may read. -/
namespace Klens.App
open Klens.Auth Klens.Kafka Klens.Scan

/-- `records::denied`. -/
def denied {H : Type} (auth : AuthState H) (sessions : Sessions H) (guard : Holder)
    (cluster : String) : Option ApiError :=
  match auth.revalidate sessions guard with
  | none => some .sessionExpired
  | some access =>
    match (access.cluster cluster).bind fun cluster => cluster.check .records with
    | .ok () => none
    | .error error => some (.access error)

inductive TailEvent where
  | ready (start : List TailPosition) (obfuscated : Bool)
  | records (batch : TailBatch)
  | error (error : ApiError)
  deriving DecidableEq, Repr

/-- The body of `tail`: what it follows the topic for. -/
structure Follow where
  guard : Holder
  cluster : String
  done : Bool

inductive FollowTurn where
  | ended
  | again
  | yield (event : TailEvent) (follow : Follow)

namespace Follow

def «end» (follow : Follow) (error : ApiError) : FollowTurn :=
  .yield (.error error) { follow with done := true }

/-- One turn of the loop, with what `tail.next()` came back with. -/
def turn {H : Type} (auth : AuthState H) (sessions : Sessions H) (follow : Follow)
    (read : Except Kafka.KafkaError TailBatch) : FollowTurn :=
  if follow.done then .ended
  else match read with
    | .error error => follow.end (.kafka error)
    | .ok batch =>
      match denied auth sessions follow.guard follow.cluster with
      | some error => follow.end error
      | none => if batch.isEmpty then .again else .yield (.records batch) follow

end Follow

/-- A tail among the sessions that come and go. `follow` is gone once it has ended. -/
structure Following (H : Type) where
  sessions : Sessions H
  follow : Option Follow
  sent : List TailEvent

inductive FollowAct where
  | auth (event : Auth.Event)
  | read (answer : Except Kafka.KafkaError TailBatch)

namespace Following
variable {H : Type}

/-- The response of a request that was let in, which begins with `ready`. -/
def opened (guard : Holder) (cluster : String) (tail : Tail) (sessions : Sessions H) :
    Following H :=
  { sessions, follow := some { guard, cluster, done := false }
    sent := [.ready tail.start tail.obfuscated] }

variable [DecidableEq H] (auth : AuthState H)

def step (following : Following H) : FollowAct → Following H
  | .auth event => { following with sessions := auth.step following.sessions event }
  | .read answer =>
    match following.follow with
    | none => following
    | some follow =>
      match follow.turn auth following.sessions answer with
      | .ended => { following with follow := none }
      | .again => following
      | .yield event follow =>
        { following with follow := some follow, sent := following.sent ++ [event] }

def run (following : Following H) (acts : List FollowAct) : Following H :=
  acts.foldl (step auth) following

end Following

/-- The body of `export`, between two chunks or while it reads the next. -/
structure Lines where
  guard : Holder
  cluster : String
  reading : Bool

/-- An export among the sessions that come and go. What it has sent are chunks of
records, each line a record, and last the error it broke off with. -/
structure Exporting (H : Type) where
  sessions : Sessions H
  lines : Option Lines
  sent : List (Except ApiError (List Record))

inductive ExportAct where
  | auth (event : Auth.Event)
  /-- The response body asks for the next chunk. -/
  | ask
  | read (answer : Except Kafka.KafkaError (Option (List Record)))

namespace Exporting
variable {H : Type}

def opened (guard : Holder) (cluster : String) (sessions : Sessions H) : Exporting H :=
  { sessions, lines := some { guard, cluster, reading := false }, sent := [] }

def broken (exporting : Exporting H) (error : ApiError) : Exporting H :=
  { exporting with lines := none, sent := exporting.sent ++ [.error error] }

variable [DecidableEq H] (auth : AuthState H)

def step (exporting : Exporting H) : ExportAct → Exporting H
  | .auth event => { exporting with sessions := auth.step exporting.sessions event }
  | .ask =>
    match exporting.lines with
    | none => exporting
    | some lines =>
      if lines.reading then exporting
      else match denied auth exporting.sessions lines.guard lines.cluster with
        | some error => exporting.broken error
        | none => { exporting with lines := some { lines with reading := true } }
  | .read answer =>
    match exporting.lines with
    | none => exporting
    | some lines =>
      if lines.reading then
        match answer with
        | .error error => exporting.broken (.kafka error)
        | .ok none => { exporting with lines := none }
        | .ok (some records) =>
          { exporting with
            lines := some { lines with reading := false }
            sent := exporting.sent ++ [.ok records] }
      else exporting

def run (exporting : Exporting H) (acts : List ExportAct) : Exporting H :=
  acts.foldl (step auth) exporting

end Exporting
end Klens.App
