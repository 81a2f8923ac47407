import Klens.App.RecordStreams
import Klens.Auth.RevocationProofs
import Mathlib.Data.List.Induction

/-! What a tail and an export have sent, over every order of reads and sessions. -/
namespace Klens.App
open Klens.Auth Klens.Kafka Klens.Scan

theorem denied_over {H : Type} {auth : AuthState H} {sessions : Sessions H} {id : Nat}
    (past : sessions.Over id) (subject cluster : String) :
    denied auth sessions (.session id subject) cluster = some .sessionExpired := by
  rw [denied, AuthState.revalidate_over past]

namespace Following
variable {H : Type} [DecidableEq H] {following : Following H}

/-- What was read by an act. -/
def answer : FollowAct → Option (Except Kafka.KafkaError TailBatch)
  | .read answer => some answer
  | .auth _ => none

/-- What a tail tells of an answer, unless it ends there. -/
def tell : Except Kafka.KafkaError TailBatch → Option TailEvent
  | .ok batch => if batch.isEmpty then none else some (.records batch)
  | .error _ => none

/-- What an answer ends a tail with, with the sessions as they are then. -/
def ends (auth : AuthState H) (guard : Holder) (cluster : String) (sessions : Sessions H) :
    Except Kafka.KafkaError TailBatch → Option ApiError
  | .error error => some (.kafka error)
  | .ok _ => denied auth sessions guard cluster

/-- What an act does to the sessions. -/
def event : FollowAct → Option Auth.Event
  | .auth event => some event
  | .read _ => none

/-- The sessions after `acts`. -/
def sessionsAfter (auth : AuthState H) (sessions : Sessions H) (acts : List FollowAct) :
    Sessions H :=
  auth.run sessions (acts.filterMap event)

/-- Each answer is let through when it is read. -/
def Passes (auth : AuthState H) (guard : Holder) (cluster : String) (sessions : Sessions H)
    (acts : List FollowAct) : Prop :=
  ∀ before found after, acts = before ++ .read found :: after →
    ends auth guard cluster (sessionsAfter auth sessions before) found = none

/-- How far a tail has come: what it took of its reads, what it was refused and whether
it goes on. It goes on while each answer is let through, and ends at the first that is not. -/
inductive Came (auth : AuthState H) (guard : Holder) (cluster : String) (sessions : Sessions H)
    (acts : List FollowAct) : List (Except Kafka.KafkaError TailBatch) → Option ApiError →
      Option Follow → Prop where
  | on (passes : Passes auth guard cluster sessions acts) :
      Came auth guard cluster sessions acts (acts.filterMap answer) none
        (some { guard, cluster, done := false })
  | ended {before after : List FollowAct} {found : Except Kafka.KafkaError TailBatch}
      {error : ApiError} {follow : Option Follow} (split : acts = before ++ .read found :: after)
      (passes : Passes auth guard cluster sessions before)
      (refused : ends auth guard cluster (sessionsAfter auth sessions before) found = some error)
      (done : ∀ rest ∈ follow, rest.done = true) :
      Came auth guard cluster sessions acts (before.filterMap answer) (some error) follow

section
variable {auth : AuthState H} {guard : Holder} {cluster : String} {sessions : Sessions H}
  {acts : List FollowAct}

theorem sessionsAfter_concat (acts : List FollowAct) (act : FollowAct) :
    sessionsAfter auth sessions (acts ++ [act]) =
      auth.run (sessionsAfter auth sessions acts) (event act).toList := by
  rw [sessionsAfter, sessionsAfter, AuthState.run, AuthState.run, AuthState.run,
    List.filterMap_append, List.foldl_append]
  cases act <;> rfl

theorem Passes.concat (passes : Passes auth guard cluster sessions acts) {act : FollowAct}
    (through : ∀ found ∈ answer act,
      ends auth guard cluster (sessionsAfter auth sessions acts) found = none) :
    Passes auth guard cluster sessions (acts ++ [act]) := by
  intro before found after split
  rcases List.eq_nil_or_concat after with rfl | ⟨others, last, rfl⟩
  · obtain ⟨rfl, same⟩ := List.append_inj' split rfl
    obtain rfl := (List.cons.inj same).1
    exact through found rfl
  · have inner : acts ++ [act] = (before ++ .read found :: others) ++ [last] := by
      simpa using split
    exact passes before found others (List.append_inj' inner rfl).1

/-- What a tail has sent, and how far it has come. -/
structure Faithful (auth : AuthState H) (guard : Holder) (cluster : String) (ready : TailEvent)
    (sessions : Sessions H) (acts : List FollowAct) (following : Following H) : Prop where
  current : following.sessions = sessionsAfter auth sessions acts
  came : ∃ taken refusal, Came auth guard cluster sessions acts taken refusal following.follow ∧
    following.sent = ready :: taken.filterMap tell ++ refusal.toList.map .error

theorem Came.later {taken : List (Except Kafka.KafkaError TailBatch)} {error : ApiError}
    {follow rest : Option Follow} (act : FollowAct)
    (came : Came auth guard cluster sessions acts taken (some error) follow)
    (done : ∀ other ∈ rest, other.done = true) :
    Came auth guard cluster sessions (acts ++ [act]) taken (some error) rest := by
  cases came with
  | @ended before after found _ _ split passes refused _ =>
    have longer : acts ++ [act] = before ++ .read found :: (after ++ [act]) := by
      rw [split, List.append_assoc, List.cons_append]
    exact .ended longer passes refused done

theorem Came.event {taken : List (Except Kafka.KafkaError TailBatch)} {refusal : Option ApiError}
    {follow : Option Follow} (came : Came auth guard cluster sessions acts taken refusal follow)
    (happens : Auth.Event) :
    Came auth guard cluster sessions (acts ++ [.auth happens]) taken refusal follow := by
  cases came with
  | on passes =>
    have same : (acts ++ [FollowAct.auth happens]).filterMap answer = acts.filterMap answer := by
      simp [answer]
    rw [← same]
    exact .on (passes.concat nofun)
  | ended split passes refused done =>
    exact Came.later _ (.ended split passes refused done) done

/-- A tail that goes on takes a batch that is let through. -/
theorem Passes.takes (passes : Passes auth guard cluster sessions acts) {batch : TailBatch}
    (through : denied auth (sessionsAfter auth sessions acts) guard cluster = none) :
    Came auth guard cluster sessions (acts ++ [.read (.ok batch)])
      (acts.filterMap answer ++ [.ok batch]) none (some { guard, cluster, done := false }) := by
  have same : (acts ++ [FollowAct.read (.ok batch)]).filterMap answer =
      acts.filterMap answer ++ [.ok batch] := by
    simp [answer]
  rw [← same]
  refine .on (passes.concat ?_)
  rintro _ ⟨⟩
  exact through

theorem Passes.stops (passes : Passes auth guard cluster sessions acts) {error : ApiError}
    {found : Except Kafka.KafkaError TailBatch}
    (refused : ends auth guard cluster (sessionsAfter auth sessions acts) found = some error) :
    Came auth guard cluster sessions (acts ++ [.read found]) (acts.filterMap answer) (some error)
      (some { guard, cluster, done := true }) := by
  refine .ended rfl passes refused ?_
  rintro _ ⟨⟩
  rfl

omit [DecidableEq H] in
theorem turn_refused {sessions : Sessions H} {found : Except Kafka.KafkaError TailBatch}
    {error : ApiError} (refused : ends auth guard cluster sessions found = some error) :
    Follow.turn auth sessions { guard, cluster, done := false } found =
      .yield (.error error) { guard, cluster, done := true } := by
  cases found with
  | error failure =>
    obtain rfl := Option.some.inj refused
    rfl
  | ok batch =>
    have denied : denied auth sessions guard cluster = some error := refused
    simp [Follow.turn, Follow.end, denied]

omit [DecidableEq H] in
theorem turn_through {sessions : Sessions H} {batch : TailBatch}
    (through : denied auth sessions guard cluster = none) :
    Follow.turn auth sessions { guard, cluster, done := false } (.ok batch) =
      if batch.isEmpty then .again
      else .yield (.records batch) { guard, cluster, done := false } := by
  simp [Follow.turn, through]

theorem Faithful.step {ready : TailEvent}
    (faithful : Faithful auth guard cluster ready sessions acts following) (act : FollowAct) :
    Faithful auth guard cluster ready sessions (acts ++ [act]) (following.step auth act) := by
  obtain ⟨now, follow, sent⟩ := following
  obtain ⟨rfl, taken, refusal, came, rfl⟩ := faithful
  cases act with
  | auth happens =>
    exact ⟨(sessionsAfter_concat acts (.auth happens)).symm, taken, refusal, came.event happens,
      rfl⟩
  | read found =>
    have still : sessionsAfter auth sessions (acts ++ [.read found]) =
        sessionsAfter auth sessions acts := sessionsAfter_concat acts (.read found)
    cases came with
    | on passes =>
      cases refused : ends auth guard cluster (sessionsAfter auth sessions acts) found with
      | some error =>
        simp only [Following.step, turn_refused refused]
        exact ⟨still.symm, _, some error, passes.stops refused, by simp⟩
      | none =>
        cases found with
        | error error => contradiction
        | ok batch =>
          simp only [Following.step, turn_through refused]
          by_cases empty : batch.isEmpty = true
          · simp only [if_pos empty]
            exact ⟨still.symm, _, none, passes.takes refused, by simp [tell, empty]⟩
          · simp only [if_neg empty]
            exact ⟨still.symm, _, none, passes.takes refused, by simp [tell, empty]⟩
    | ended split passes refused done =>
      cases follow with
      | none =>
        exact ⟨still.symm, _, _, .later _ (.ended split passes refused done) nofun, rfl⟩
      | some follow =>
        have turn : follow.turn auth (sessionsAfter auth sessions acts) found = .ended :=
          if_pos (done follow rfl)
        simp only [Following.step, turn]
        exact ⟨still.symm, _, _, .later _ (.ended split passes refused done) nofun, rfl⟩

end

/-- What a tail of session `id` can still say after `told`, once the session is over. -/
structure Silent (id : Nat) (told : List TailEvent) (following : Following H) : Prop where
  past : following.sessions.Over id
  said : ∃ refusal : Option ApiError, following.sent = told ++ refusal.toList.map .error ∧
    ∀ follow ∈ following.follow, follow.done = false → refusal = none
  guarded : ∀ follow ∈ following.follow, follow.done = false →
    ∃ subject, follow.guard = .session id subject

theorem Silent.step {id : Nat} {told : List TailEvent} (silent : following.Silent id told)
    (auth : AuthState H) (act : FollowAct) : (following.step auth act).Silent id told := by
  obtain ⟨past, ⟨refusal, said, going⟩, guarded⟩ := silent
  cases act with
  | auth event => exact ⟨AuthState.over_step past event, ⟨refusal, said, going⟩, guarded⟩
  | read found =>
    unfold Following.step
    cases follows : following.follow with
    | none => exact ⟨past, ⟨refusal, said, going⟩, guarded⟩
    | some follow =>
      have stops (error : ApiError) (goes : follow.done = false) :
          Silent id told { following with
            follow := some { follow with done := true }
            sent := following.sent ++ [.error error] } := by
        obtain rfl := going follow follows goes
        refine ⟨past, ⟨some error, by simpa using said, ?_⟩, ?_⟩
        · rintro _ ⟨⟩
          exact nofun
        · rintro _ ⟨⟩
          exact nofun
      dsimp only
      unfold Follow.turn
      by_cases done : follow.done = true
      · rw [if_pos done]
        exact ⟨past, ⟨refusal, said, nofun⟩, nofun⟩
      · have goes := Bool.eq_false_iff.mpr done
        obtain ⟨subject, held⟩ := guarded follow follows goes
        rw [if_neg done, held, denied_over past]
        cases found <;> exact stops _ goes

theorem Silent.run {id : Nat} {told : List TailEvent} (silent : following.Silent id told)
    (auth : AuthState H) (acts : List FollowAct) : (following.run auth acts).Silent id told := by
  induction acts generalizing following with
  | nil => exact silent
  | cons act acts ih => exact ih (silent.step auth act)

end Following

namespace Exporting
variable {H : Type} [DecidableEq H] {exporting : Exporting H}

/-- What the response body is asked of, while it is there. -/
def Guarded (guard : Holder) (exporting : Exporting H) : Prop :=
  ∀ lines ∈ exporting.lines, lines.guard = guard

theorem Guarded.step {guard : Holder} (guarded : exporting.Guarded guard) (auth : AuthState H)
    (act : ExportAct) :
    (exporting.step auth act).Guarded guard := by
  cases act with
  | auth event => exact guarded
  | ask =>
    simp only [Exporting.step]
    cases open_ : exporting.lines with
    | none => exact guarded
    | some lines =>
      dsimp only
      split
      · exact guarded
      · split
        · exact nofun
        · rintro _ ⟨⟩
          exact guarded lines open_
  | read found =>
    simp only [Exporting.step]
    cases open_ : exporting.lines with
    | none => exact guarded
    | some lines =>
      dsimp only
      split
      · split
        · exact nofun
        · exact nofun
        · rintro _ ⟨⟩
          exact guarded lines open_
      · exact guarded

theorem Guarded.run {guard : Holder} (guarded : exporting.Guarded guard) (auth : AuthState H)
    (acts : List ExportAct) :
    (exporting.run auth acts).Guarded guard := by
  induction acts generalizing exporting with
  | nil => exact guarded
  | cons act acts ih => exact ih (guarded.step auth act)

def isReading (exporting : Exporting H) : Bool := exporting.lines.any Lines.reading

/-- What an export of session `id` can still send after `told`, once the session is
over: the chunk it was reading, if `reading`, and the error it breaks off with. -/
structure Ending (id : Nat) (told : List (Except ApiError (List Record))) (reading : Bool)
    (exporting : Exporting H) : Prop where
  past : exporting.sessions.Over id
  guarded : ∃ subject, exporting.Guarded (.session id subject)
  said : ∃ (chunk : Option (List Record)) (refusal : Option ApiError),
    exporting.sent = told ++ chunk.toList.map .ok ++ refusal.toList.map .error ∧
      (exporting.lines.isSome → refusal = none) ∧
      (chunk.isSome ∨ exporting.isReading = true → reading = true) ∧
      (exporting.isReading = true → chunk = none)

theorem Ending.step {id : Nat} {told : List (Except ApiError (List Record))} {reading : Bool}
    (ending : exporting.Ending id told reading) (auth : AuthState H) (act : ExportAct) :
    (exporting.step auth act).Ending id told reading := by
  have same := ending
  obtain ⟨past, ⟨subject, guarded⟩, chunk, refusal, said, going, within, first⟩ := ending
  cases act with
  | auth event =>
    exact ⟨AuthState.over_step past event, same.guarded, chunk, refusal, said, going, within, first⟩
  | ask =>
    simp only [Exporting.step]
    cases open_ : exporting.lines with
    | none => exact same
    | some lines =>
      dsimp only
      rw [guarded lines open_, denied_over past]
      split
      · exact same
      · obtain rfl := going (by simp [open_])
        refine ⟨past, ⟨subject, nofun⟩, chunk, some .sessionExpired, ?_, nofun, ?_, nofun⟩
        · simp [broken, said]
        · rintro (sent | reads)
          · exact within (.inl sent)
          · contradiction
  | read found =>
    simp only [Exporting.step]
    cases open_ : exporting.lines with
    | none => exact same
    | some lines =>
      dsimp only
      split
      · rename_i reads
        have under_way : exporting.isReading = true := by simp [isReading, open_, reads]
        obtain rfl := going (by simp [open_])
        obtain rfl := first under_way
        have was := within (.inr under_way)
        simp only [Option.toList_none, List.map_nil, List.append_nil] at said
        split
        · rename_i error
          exact ⟨past, ⟨subject, nofun⟩, none, some (.kafka error), by simp [broken, said], nofun,
            fun _ => was, nofun⟩
        · exact ⟨past, ⟨subject, nofun⟩, none, none, by simp [said], nofun, fun _ => was, nofun⟩
        · rename_i records
          refine ⟨past, ⟨subject, ?_⟩, some records, none, by simp [said], fun _ => rfl,
            fun _ => was, nofun⟩
          rintro _ ⟨⟩
          exact guarded lines open_
      · exact same

theorem Ending.run {id : Nat} {told : List (Except ApiError (List Record))} {reading : Bool}
    (ending : exporting.Ending id told reading) (auth : AuthState H) (acts : List ExportAct) :
    (exporting.run auth acts).Ending id told reading := by
  induction acts generalizing exporting with
  | nil => exact ending
  | cons act acts ih => exact ih (ending.step auth act)

end Exporting

end Klens.App
