import Klens.App.Error
import Klens.App.Updates
import Klens.Auth.Session
import Klens.Lib.Broadcast

/-! The stream behind the `updates` route of a cluster: it listens to the
cluster's change bus for as long as its session may see the cluster. -/
namespace Klens.App
open Klens.Auth Klens.Lib Klens.Store

def busCapacity : Nat := 256

/-- `ChangeBus`: its receivers are told of what was published after they came. -/
abbrev ChangeBus (Rate : Type) := Broadcast (Change Rate)

inductive SseEvent (Rate : Type) where
  | update (update : Update Rate)
  | error (error : ApiError)
  deriving DecidableEq, Repr

/-- `next` is where its receiver stands on the bus. -/
structure Stream (Rate : Type) where
  cluster : String
  guard : Holder
  scope : Scope
  next : Nat
  pending : List (Update Rate)
  done : Bool

/-- What one turn of the stream's loop comes to. -/
inductive Turn (Rate : Type) where
  | ended
  | waiting
  | yield (event : SseEvent Rate) (stream : Stream Rate)
  | again (stream : Stream Rate)

namespace Stream
variable {Rate H : Type}

/-- The stream of a request that was let in, on the bus as it finds it. -/
def opened (cluster : String) (guard : Holder) (scope : Scope) (bus : ChangeBus Rate) :
    Stream Rate :=
  { cluster, guard, scope, next := bus.sent.length, pending := [], done := false }

def denied (auth : AuthState H) (sessions : Sessions H) (stream : Stream Rate) : Option ApiError :=
  match auth.revalidate sessions stream.guard with
  | none => some .sessionExpired
  | some access =>
    match access.cluster stream.cluster with
    | .ok _ => none
    | .error error => some (.access error)

def turn (auth : AuthState H) (sessions : Sessions H) (bus : ChangeBus Rate)
    (stream : Stream Rate) : Turn Rate :=
  if stream.done then .ended
  else match stream.pending with
    | update :: pending => .yield (.update update) { stream with pending }
    | [] =>
      match bus.recv stream.next with
      | (.closed, _) => .ended
      | (.empty, _) => .waiting
      | (.lagged _, next) => .yield (.update .resync) { stream with next }
      | (.value change, next) =>
        match stream.denied auth sessions with
        | some error => .yield (.error error) { stream with next, done := true }
        | none => .again { stream with next, pending := stream.scope.updates change }

end Stream

/-- A stream among whatever else goes on: the lanes that publish, the sessions
that come and go. `stream` is gone once it has ended. -/
structure Listening (Rate H : Type) where
  bus : ChangeBus Rate
  sessions : Sessions H
  stream : Option (Stream Rate)
  sent : List (SseEvent Rate)

/-- What can happen next. The response body asks the stream for a turn. -/
inductive Act (Rate : Type) where
  | publish (change : Change Rate)
  | shutDown
  | auth (event : Auth.Event)
  | turn

namespace Listening
variable {Rate H : Type}

def opened (cluster : String) (guard : Holder) (scope : Scope) (bus : ChangeBus Rate)
    (sessions : Sessions H) : Listening Rate H :=
  { bus, sessions, stream := some (.opened cluster guard scope bus), sent := [] }

/-- What the stream holds back of a change it already heard. -/
def pending (listening : Listening Rate H) : List (SseEvent Rate) :=
  match listening.stream with
  | some stream => stream.pending.map .update
  | none => []

/-- Whether the bus still keeps all that the stream has not heard. -/
def keepsUp (listening : Listening Rate H) : Bool :=
  listening.stream.all fun stream =>
    decide (listening.bus.behind stream.next ≤ listening.bus.capacity)

variable [DecidableEq H] (auth : AuthState H)

def take (listening : Listening Rate H) : Turn Rate → Listening Rate H
  | .ended => { listening with stream := none }
  | .waiting => listening
  | .yield event stream =>
    { listening with stream := some stream, sent := listening.sent ++ [event] }
  | .again stream => { listening with stream := some stream }

def step (listening : Listening Rate H) : Act Rate → Listening Rate H
  | .publish change => { listening with bus := listening.bus.send change }
  | .shutDown => { listening with bus := listening.bus.close }
  | .auth event => { listening with sessions := auth.step listening.sessions event }
  | .turn =>
    match listening.stream with
    | none => listening
    | some stream => listening.take (stream.turn auth listening.sessions listening.bus)

def run (listening : Listening Rate H) (acts : List (Act Rate)) : Listening Rate H :=
  acts.foldl (step auth) listening

end Listening
end Klens.App
