import Klens.App.Stream
import Klens.Auth.RevocationProofs

/-! What a stream has sent, over every order of publishes, sessions and turns. -/
namespace Klens.App
open Klens.Auth Klens.Lib Klens.Store

/-- What a stream tells of what it heard. -/
def Scope.tell {Rate : Type} (scope : Scope) : Heard (Change Rate) → List (SseEvent Rate)
  | .value change => (scope.updates change).map .update
  | .missed _ => [.update .resync]

namespace Stream
variable {Rate H : Type} {auth : AuthState H} {sessions : Sessions H} {bus : ChangeBus Rate}
  {stream : Stream Rate}

/-- Everything a turn can come to. -/
theorem turn_cases (auth : AuthState H) (sessions : Sessions H) (bus : ChangeBus Rate)
    (stream : Stream Rate) :
    (stream.turn auth sessions bus = .ended ∧ (stream.done = true ∨ stream.pending = [])) ∨
    stream.turn auth sessions bus = .waiting ∨
    (∃ update pending, stream.done = false ∧ stream.pending = update :: pending ∧
      stream.turn auth sessions bus = .yield (.update update) { stream with pending }) ∨
    (∃ missed, 0 < missed ∧ stream.done = false ∧ stream.pending = [] ∧
      bus.capacity < bus.behind stream.next ∧ stream.next + missed ≤ bus.sent.length ∧
      stream.turn auth sessions bus =
        .yield (.update .resync) { stream with next := stream.next + missed }) ∨
    (∃ change error, stream.done = false ∧ stream.pending = [] ∧
      bus.sent[stream.next]? = some change ∧ stream.denied auth sessions = some error ∧
      stream.turn auth sessions bus =
        .yield (.error error) { stream with next := stream.next + 1, done := true }) ∨
    (∃ change, stream.done = false ∧ stream.pending = [] ∧ bus.sent[stream.next]? = some change ∧
      stream.denied auth sessions = none ∧ stream.turn auth sessions bus =
        .again { stream with next := stream.next + 1, pending := stream.scope.updates change }) := by
  unfold turn
  cases done : stream.done with
  | true => exact .inl ⟨rfl, .inl rfl⟩
  | false =>
    cases pending : stream.pending with
    | cons update rest => exact .inr (.inr (.inl ⟨update, rest, rfl, rfl, rfl⟩))
    | nil =>
      obtain ⟨change, found, answer⟩ | ⟨missed, positive, behind, answer, within⟩ |
        ⟨_, answer⟩ := bus.recv_cases stream.next
      · cases denied : stream.denied auth sessions with
        | some error =>
          refine .inr (.inr (.inr (.inr (.inl ⟨change, error, rfl, rfl, found, rfl, ?_⟩))))
          simp [answer]
        | none =>
          refine .inr (.inr (.inr (.inr (.inr ⟨change, rfl, rfl, found, rfl, ?_⟩))))
          simp [answer]
      · refine .inr (.inr (.inr (.inl ⟨missed, positive, rfl, rfl, behind, within, ?_⟩)))
        simp [answer]
      · cases closed : bus.closed with
        | true => exact .inl ⟨by simp [answer, closed], .inr rfl⟩
        | false => exact .inr (.inl (by simp [answer, closed]))

end Stream

namespace Listening
variable {Rate H : Type}

/-- What was sent and is still pending tells of all that `account` says was
heard since `start`; a stream that was turned away says so and nothing more. -/
structure Faithful (guard : Holder) (scope : Scope) (start next : Nat)
    (account : List (Heard (Change Rate))) (refusal : Option ApiError) (listening : Listening Rate H) : Prop where
  accounts : listening.bus.Accounts start next account
  told : listening.sent ++ listening.pending =
    account.flatMap scope.tell ++ refusal.toList.map .error
  hears : ∀ stream ∈ listening.stream, (stream.guard = guard ∧ stream.scope = scope) ∧
    (stream.done = false → stream.next = next ∧ refusal = none) ∧
    (stream.done = true → stream.pending = [])

variable {guard : Holder} {scope : Scope} {start next : Nat} {account : List (Heard (Change Rate))}
  {refusal : Option ApiError} {listening : Listening Rate H}

/-- The account of what a listener heard, one act later. -/
def Hears (guard : Holder) (scope : Scope) (start : Nat) (account : List (Heard (Change Rate)))
    (before after : Listening Rate H) : Prop :=
  ∃ next account' refusal, Faithful guard scope start next account' refusal after ∧
    (before.keepsUp = true → ∀ missed, Heard.missed missed ∈ account' → .missed missed ∈ account)

/-- One turn of the stream. -/
theorem Faithful.take (faithful : Faithful guard scope start next account refusal listening)
    (auth : AuthState H) {stream : Stream Rate} (listens : listening.stream = some stream) :
    Hears guard scope start account listening
      (listening.take (stream.turn auth listening.sessions listening.bus)) := by
  obtain ⟨accounts, told, hears⟩ := faithful
  obtain ⟨named, at_next, quiet⟩ := hears stream listens
  simp only [pending, listens] at told
  obtain ⟨turn, past⟩ | turn | ⟨update, rest, going, held, turn⟩ |
    ⟨missed, positive, going, held, behind, within, turn⟩ |
    ⟨change, error, going, held, found, _, turn⟩ | ⟨change, going, held, found, _, turn⟩ :=
    stream.turn_cases auth listening.sessions listening.bus
  all_goals rw [turn]; simp only [Listening.take]
  · have nothing : stream.pending = [] := past.elim quiet id
    refine ⟨next, account, refusal, ⟨accounts, ?_, nofun⟩, fun _ _ => id⟩
    simpa [pending, nothing] using told
  · refine ⟨next, account, refusal, ⟨accounts, ?_, hears⟩, fun _ _ => id⟩
    simpa [pending, listens] using told
  · refine ⟨next, account, refusal, ⟨accounts, ?_, ?_⟩, fun _ _ => id⟩
    · simpa [pending, held] using told
    · rintro _ ⟨⟩
      exact ⟨named, at_next, fun ended => absurd ended (by simp [going])⟩
  · obtain ⟨rfl, rfl⟩ := at_next going
    refine ⟨_, _, none, ⟨accounts.missed positive within, ?_, ?_⟩, ?_⟩
    · simpa [pending, held, Scope.tell] using told
    · rintro _ ⟨⟩
      exact ⟨named, fun _ => ⟨rfl, rfl⟩, fun _ => held⟩
    · intro up
      simp only [keepsUp, listens, Option.all_some, decide_eq_true_eq] at up
      omega
  · obtain ⟨rfl, rfl⟩ := at_next going
    refine ⟨_, account, some error, ⟨accounts, ?_, ?_⟩, fun _ _ => id⟩
    · simp only [held, List.map_nil, List.append_nil, Option.toList_none] at told
      simp [pending, held, told]
    · rintro _ ⟨⟩
      exact ⟨named, nofun, fun _ => held⟩
  · obtain ⟨rfl, rfl⟩ := at_next going
    refine ⟨_, _, none, ⟨accounts.value found, ?_, ?_⟩, ?_⟩
    · simp only [held, List.map_nil, List.append_nil, Option.toList_none] at told
      simp [pending, told, Scope.tell, named.2]
    · rintro _ ⟨⟩
      refine ⟨named, fun _ => ⟨rfl, rfl⟩, fun ended => absurd ended (by simp [going])⟩
    · intro _ missed
      simp

/-- What a stream of session `id` can still say after `told`, once the session is
over: that it missed something, and last that the session expired. -/
structure Silent (id : Nat) (told : List (SseEvent Rate)) (listening : Listening Rate H) :
    Prop where
  past : listening.sessions.Over id
  said : ∃ missed expired, listening.sent ++ listening.pending =
      told ++ List.replicate missed (.update .resync) ++
        List.replicate expired (.error .sessionExpired) ∧ expired ≤ 1 ∧
      ∀ stream ∈ listening.stream, stream.done = false → expired = 0
  hears : ∀ stream ∈ listening.stream, (∃ subject, stream.guard = .session id subject) ∧
    (stream.done = true → stream.pending = [])

theorem Silent.take {id : Nat} {told : List (SseEvent Rate)} (silent : listening.Silent id told)
    (auth : AuthState H) {stream : Stream Rate} (listens : listening.stream = some stream) :
    (listening.take (stream.turn auth listening.sessions listening.bus)).Silent id told := by
  obtain ⟨past, ⟨missed, expired, said, once, going⟩, hears⟩ := silent
  obtain ⟨⟨subject, guarded⟩, quiet⟩ := hears stream listens
  have fresh := going stream listens
  simp only [pending, listens] at said
  have denied : stream.denied auth listening.sessions = some .sessionExpired := by
    rw [Stream.denied, guarded, AuthState.revalidate_over past]
  obtain ⟨turn, ended⟩ | turn | ⟨update, rest, open_, held, turn⟩ |
    ⟨more, _, open_, held, _, _, turn⟩ | ⟨change, error, open_, held, _, refused, turn⟩ |
    ⟨change, _, _, _, admitted, _⟩ := stream.turn_cases auth listening.sessions listening.bus
  · have nothing : stream.pending = [] := ended.elim quiet fun nothing => nothing
    rw [turn]
    refine ⟨past, ⟨missed, expired, ?_, once, nofun⟩, nofun⟩
    simpa [Listening.take, pending, nothing] using said
  · rw [turn]
    exact ⟨past, ⟨missed, expired, by simpa [Listening.take, pending, listens] using said, once,
      going⟩, hears⟩
  · rw [turn]
    refine ⟨past, ⟨missed, expired, ?_, once, ?_⟩, ?_⟩
    · simpa [Listening.take, pending, held] using said
    · rintro _ ⟨⟩
      exact fresh
    · rintro _ ⟨⟩
      exact ⟨⟨subject, guarded⟩, fun done => absurd done (by simp [open_])⟩
  · obtain rfl := fresh open_
    rw [turn]
    refine ⟨past, ⟨missed + 1, 0, ?_, Nat.zero_le 1, fun _ _ _ => rfl⟩, ?_⟩
    · simp only [held, List.map_nil, List.append_nil, List.replicate_zero] at said
      simp [Listening.take, pending, held, said, List.replicate_succ']
    · rintro _ ⟨⟩
      exact ⟨⟨subject, guarded⟩, fun _ => held⟩
  · obtain rfl := fresh open_
    obtain rfl := Option.some.inj (denied.symm.trans refused)
    rw [turn]
    refine ⟨past, ⟨missed, 1, ?_, Nat.le_refl 1, ?_⟩, ?_⟩
    · simp only [held, List.map_nil, List.append_nil, List.replicate_zero] at said
      simp [Listening.take, pending, held, said]
    · rintro _ ⟨⟩
      exact nofun
    · rintro _ ⟨⟩
      exact ⟨⟨subject, guarded⟩, fun _ => held⟩
  · rw [denied] at admitted
    contradiction

variable [DecidableEq H]

theorem Silent.step {id : Nat} {told : List (SseEvent Rate)} (silent : listening.Silent id told)
    (auth : AuthState H) (act : Act Rate) : (listening.step auth act).Silent id told := by
  have ⟨past, said, hears⟩ := silent
  cases act with
  | publish change => exact ⟨past, said, hears⟩
  | shutDown => exact ⟨past, said, hears⟩
  | auth event => exact ⟨AuthState.over_step past event, said, hears⟩
  | turn =>
    unfold Listening.step
    cases listens : listening.stream with
    | none => exact silent
    | some stream => exact silent.take auth listens

theorem Silent.run {id : Nat} {told : List (SseEvent Rate)} (silent : listening.Silent id told)
    (auth : AuthState H) (acts : List (Act Rate)) : (listening.run auth acts).Silent id told := by
  induction acts generalizing listening with
  | nil => exact silent
  | cons act acts ih => exact ih (silent.step auth act)

theorem Faithful.step (faithful : Faithful guard scope start next account refusal listening)
    (auth : AuthState H) (act : Act Rate) :
    Hears guard scope start account listening (listening.step auth act) := by
  have ⟨accounts, told, hears⟩ := faithful
  cases act with
  | publish change =>
    exact ⟨next, account, refusal, ⟨accounts.send change, told, hears⟩, fun _ _ => id⟩
  | shutDown => exact ⟨next, account, refusal, ⟨accounts.close, told, hears⟩, fun _ _ => id⟩
  | auth event => exact ⟨next, account, refusal, ⟨accounts, told, hears⟩, fun _ _ => id⟩
  | turn =>
    unfold Listening.step
    cases listens : listening.stream with
    | none => exact ⟨next, account, refusal, faithful, fun _ _ => id⟩
    | some stream => exact faithful.take auth listens

end Listening

end Klens.App
