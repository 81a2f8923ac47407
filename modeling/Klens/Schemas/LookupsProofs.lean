import Klens.Schemas.Lookups

/-! What a lookup comes to is the registry's word: given while the call waited, or
remembered for no longer than its cache remembers. One call at a time compiles a key. -/
namespace Klens.Schemas
open Klens.Lib Klens.Scan Klens.Store
variable {C S : Type} {registered : Registered S}

namespace Registered

/-- The registry's answer for `key` is a schema that has to be compiled. -/
def Names (registered : Registered S) (key : SchemaKey) (schemaType : SchemaType) (schema : S)
    (asked : Nat) : Prop :=
  registered.answers asked key (.found schema) ∧ registered.schemaType schema = .ok schemaType ∧
    schemaType ≠ .json

/-- A schema that the registry gave for `key` was compiled. -/
def CompiledAt (registered : Registered S) (key : SchemaKey) (result : Except DecodeError Resolved)
    (time : Nat) : Prop :=
  ∃ schemaType schema asked, asked ≤ time ∧ registered.Names key schemaType schema asked ∧
    registered.compiles time schemaType schema result

/-- A lookup of `key` failed: at the registry, at the schema's type or in its compilation. -/
inductive FailsAt (registered : Registered S) (key : SchemaKey) : DecodeError → Nat → Prop where
  | answered {message : String} {time : Nat}
      (answered : registered.answers time key (.failed message)) :
      FailsAt registered key (.failed message) time
  | untyped {message : String} {time : Nat} {schema : S}
      (answered : registered.answers time key (.found schema))
      (untyped : registered.schemaType schema = .error message) :
      FailsAt registered key (.failed message) time
  | uncompiled {error : DecodeError} {time : Nat}
      (compiled : registered.CompiledAt key (.error error) time) :
      FailsAt registered key error time

/-- What a call that was made at `began` may be told by `now`. -/
inductive Told (registered : Registered S) (missingTtl : Nat) (key : SchemaKey) (began now : Nat) :
    Except DecodeError Resolved → Prop where
  | missing {asked stored : Nat} (answered : registered.answers asked key .notFound)
      (after : asked ≤ stored) (past : stored ≤ now)
      (recent : began ≤ asked ∨ began < stored + missingTtl) :
      Told registered missingTtl key began now (.ok .missing)
  | failed {error : DecodeError} {time stored : Nat} (fails : registered.FailsAt key error time)
      (after : time ≤ stored) (past : stored ≤ now)
      (recent : began ≤ time ∨ began < stored + failedLookupTtl) :
      Told registered missingTtl key began now (.error error)
  | json {asked : Nat} {schema : S} (answered : registered.answers asked key (.found schema))
      (typed : registered.schemaType schema = .ok .json) (recent : began ≤ asked)
      (past : asked ≤ now) :
      Told registered missingTtl key began now (.ok .json)
  | codec {resolved : Resolved} {schemaType : SchemaType} {schema : S} {asked time : Nat}
      (named : registered.Names key schemaType schema asked) (recent : began ≤ asked)
      (past : asked ≤ now) (compiled : registered.CompiledAt key (.ok resolved) time)
      (ended : time ≤ now) :
      Told registered missingTtl key began now (.ok resolved)

end Registered
open Registered

def LookupPhase.Computes : LookupPhase S → Prop
  | .computing _ _ => True
  | _ => False

def LookupPhase.Waits : LookupPhase S → Prop
  | .joined _ _ => True
  | _ => False

/-- What is known of a call by its phase. -/
def LookupPhase.Holds (registered : Registered S) (missingTtl : Nat) (key : SchemaKey)
    (began now : Nat) : LookupPhase S → Prop
  | .storingMissing => ∃ asked, began ≤ asked ∧ asked ≤ now ∧ registered.answers asked key .notFound
  | .compiling schemaType schema | .computing schemaType schema | .joined schemaType schema =>
    ∃ asked, began ≤ asked ∧ asked ≤ now ∧ registered.Names key schemaType schema asked
  | .storingFailed error => ∃ time, began ≤ time ∧ time ≤ now ∧ registered.FailsAt key error time
  | .returned result => registered.Told missingTtl key began now result
  | _ => True

theorem Registered.Told.later {missingTtl : Nat} {key : SchemaKey} {began now later : Nat}
    {result : Except DecodeError Resolved} (told : registered.Told missingTtl key began now result)
    (le : now ≤ later) : registered.Told missingTtl key began later result := by
  cases told with
  | missing answered after past recent => exact .missing answered after (past.trans le) recent
  | failed fails after past recent => exact .failed fails after (past.trans le) recent
  | json answered typed recent past => exact .json answered typed recent (past.trans le)
  | codec named recent past compiled ended =>
    exact .codec named recent (past.trans le) compiled (ended.trans le)

theorem LookupPhase.Holds.later {missingTtl : Nat} {key : SchemaKey} {began now later : Nat}
    {phase : LookupPhase S} (holds : phase.Holds registered missingTtl key began now)
    (le : now ≤ later) : phase.Holds registered missingTtl key began later := by
  cases phase with
  | storingMissing | compiling _ _ | computing _ _ | joined _ _ | storingFailed _ =>
    obtain ⟨time, after, past, known⟩ := holds
    exact ⟨time, after, past.trans le, known⟩
  | returned result => exact Told.later holds le
  | checking | checkingFailed | asking | dropped => trivial

namespace Decoder

theorem outcome_holds {missingTtl : Nat} {key : SchemaKey} {schemaType : SchemaType} {schema : S}
    {began now : Nat} {result : Except DecodeError Resolved}
    (named : (LookupPhase.joined schemaType schema).Holds registered missingTtl key began now)
    (compiled : registered.CompiledAt key result now) (le : began ≤ now) :
    (outcome result : LookupPhase S).Holds registered missingTtl key began now := by
  cases result with
  | ok resolved =>
    obtain ⟨asked, recent, past, named⟩ := named
    exact .codec named recent past compiled (Nat.le_refl now)
  | error error => exact ⟨now, le, Nat.le_refl now, .uncompiled compiled⟩

theorem received_holds {missingTtl : Nat} {key : SchemaKey} {began now : Nat} {answer : Answer S}
    (answered : registered.answers now key answer) (le : began ≤ now) :
    (received registered answer).Holds registered missingTtl key began now := by
  cases answer with
  | notFound => exact ⟨now, le, Nat.le_refl now, answered⟩
  | failed message => exact ⟨now, le, Nat.le_refl now, .answered answered⟩
  | found schema =>
    dsimp only [received]
    split
    · rename_i message untyped
      exact ⟨now, le, Nat.le_refl now, .untyped answered untyped⟩
    · rename_i typed
      exact .json answered typed le (Nat.le_refl now)
    · rename_i schemaType compiled typed
      exact ⟨now, le, Nat.le_refl now, answered, typed, compiled⟩

theorem received_idle (answer : Answer S) :
    ¬(received registered answer).Computes ∧ ¬(received registered answer).Waits := by
  cases answer with
  | notFound | failed _ => exact ⟨id, id⟩
  | found schema =>
    dsimp only [received]
    split <;> exact ⟨id, id⟩

theorem outcome_idle (result : Except DecodeError Resolved) :
    ¬(outcome result : LookupPhase S).Computes ∧ ¬(outcome result : LookupPhase S).Waits := by
  cases result <;> exact ⟨id, id⟩

theorem Lookup.joins_eq_some {key : SchemaKey} {lookup : Lookup S} {waiting : SchemaType × S}
    (joins : lookup.joins key = some waiting) :
    lookup.phase = .joined waiting.1 waiting.2 ∧ lookup.key = key := by
  unfold Lookup.joins at joins
  split at joins
  · rename_i joined
    obtain ⟨same, waits⟩ := Option.ite_none_right_eq_some.mp joins
    obtain rfl := Option.some.inj waits
    exact ⟨joined, same⟩
  · contradiction

theorem Lookup.key_ne_of_waits {key : SchemaKey} {lookup : Lookup S}
    (alone : lookup.joins key = none) (waits : lookup.phase.Waits) : lookup.key ≠ key := by
  rintro same
  unfold Lookup.joins at alone
  split at alone
  · rw [if_pos same] at alone
    contradiction
  · rename_i other
    cases phase : lookup.phase with
    | joined schemaType schema => exact other schemaType schema phase
    | _ => rw [phase] at waits; exact waits

theorem Lookup.joins_of_computes {lookup : Lookup S} (computes : lookup.phase.Computes)
    (key : SchemaKey) : lookup.joins key = none := by
  cases joins : lookup.joins key with
  | none => rfl
  | some waiting =>
    rw [(joins_eq_some joins).1] at computes
    exact computes.elim

variable [DecidableEq C] {decoder : Decoder C S} {call : C} {lookup : Lookup S}

theorem calls_move {phase : LookupPhase S} {other : C} {moved : Lookup S}
    (calls : (decoder.move call lookup phase).calls other = some moved) :
    other = call ∧ moved = { lookup with phase } ∨ other ≠ call ∧ decoder.calls other = some moved := by
  dsimp only [move] at calls
  by_cases same : other = call
  · rw [same, Function.update_self] at calls
    exact .inl ⟨same, (Option.some.inj calls).symm⟩
  · rw [Function.update_of_ne same] at calls
    exact .inr ⟨same, calls⟩

omit [DecidableEq C] in
theorem calls_release {key : SchemaKey} {phase : SchemaType × S → LookupPhase S} {moved : Lookup S}
    (calls : (decoder.release key phase).calls call = some moved) :
    (decoder.calls call = some moved ∧ moved.joins key = none) ∨
      ∃ lookup waiting, decoder.calls call = some lookup ∧ lookup.joins key = some waiting ∧
        moved = { lookup with phase := phase waiting } := by
  obtain ⟨lookup, before, calls⟩ := Option.map_eq_some_iff.mp calls
  split at calls
  · rename_i waiting joins
    exact .inr ⟨lookup, waiting, before, joins, calls.symm⟩
  · rename_i alone
    obtain rfl := calls
    exact .inl ⟨before, alone⟩

/-- The calls that compile own their keys, and who waits for a key waits for its owner. -/
structure SingleFlight (calls : C → Option (Lookup S)) (computing : SchemaKey → Option C) :
    Prop where
  owned : ∀ {key owner}, computing key = some owner →
    ∃ lookup, calls owner = some lookup ∧ lookup.key = key ∧ lookup.phase.Computes
  owns : ∀ {call lookup}, calls call = some lookup → lookup.phase.Computes →
    computing lookup.key = some call
  waited : ∀ {call lookup}, calls call = some lookup → lookup.phase.Waits →
    (computing lookup.key).isSome

namespace SingleFlight

/-- A call that does not compile moves to a phase that asks nothing of the others. -/
theorem move (flight : SingleFlight decoder.calls decoder.computing)
    (idle : ∀ before, decoder.calls call = some before → ¬before.phase.Computes)
    {phase : LookupPhase S} (alone : ¬phase.Computes)
    (waits : phase.Waits → (decoder.computing lookup.key).isSome) :
    SingleFlight (decoder.move call lookup phase).calls decoder.computing where
  owned {key owner} computing := by
    obtain ⟨kept, calls, same, computes⟩ := flight.owned computing
    refine ⟨kept, ?_, same, computes⟩
    have apart : owner ≠ call := by
      rintro rfl
      exact idle kept calls computes
    exact (Function.update_of_ne apart _ _).trans calls
  owns {other moved} calls computes := by
    obtain ⟨_, rfl⟩ | ⟨_, calls⟩ := calls_move calls
    · exact absurd computes alone
    · exact flight.owns calls computes
  waited {other moved} calls joined := by
    obtain ⟨_, rfl⟩ | ⟨_, calls⟩ := calls_move calls
    · exact waits joined
    · exact flight.waited calls joined

/-- A call becomes the owner of a key that none owned. -/
theorem own (flight : SingleFlight decoder.calls decoder.computing)
    (calls : decoder.calls call = some lookup) (idle : ¬lookup.phase.Computes)
    (free : decoder.computing lookup.key = none) {phase : LookupPhase S} (alone : ¬phase.Waits) :
    phase.Computes → SingleFlight (decoder.move call lookup phase).calls
      (Function.update decoder.computing lookup.key (some call)) := by
  intro computes
  refine ⟨?_, ?_, ?_⟩
  · intro key owner computing
    by_cases same : key = lookup.key
    · rw [same, Function.update_self] at computing
      obtain rfl := Option.some.inj computing
      exact ⟨_, Function.update_self .., same.symm, computes⟩
    · rw [Function.update_of_ne same] at computing
      obtain ⟨kept, before, named, busy⟩ := flight.owned computing
      refine ⟨kept, ?_, named, busy⟩
      have apart : owner ≠ call := by
        rintro rfl
        obtain rfl := Option.some.inj (calls.symm.trans before)
        exact idle busy
      exact (Function.update_of_ne apart _ _).trans before
  · intro other moved after busy
    obtain ⟨rfl, rfl⟩ | ⟨_, before⟩ := calls_move after
    · exact Function.update_self ..
    · have owner := flight.owns before busy
      rw [Function.update_of_ne]
      · exact owner
      · rintro same
        rw [same, free] at owner
        contradiction
  · intro other moved after waits
    obtain ⟨rfl, rfl⟩ | ⟨_, before⟩ := calls_move after
    · exact absurd waits alone
    · have owner := flight.waited before waits
      rw [Function.update_of_ne]
      · exact owner
      · rintro same
        rw [same, free] at owner
        contradiction

/-- An owner is done with its key, and with it those who waited for it. -/
theorem settle (flight : SingleFlight decoder.calls decoder.computing)
    (calls : decoder.calls call = some lookup) (computes : lookup.phase.Computes)
    {own : LookupPhase S} {others : SchemaType × S → LookupPhase S}
    (idle : ¬own.Computes ∧ ¬own.Waits)
    (idles : ∀ waiting, ¬(others waiting).Computes ∧ ¬(others waiting).Waits) :
    SingleFlight ((decoder.move call lookup own).release lookup.key others).calls
      (Function.update decoder.computing lookup.key none) where
  owned {key owner} computing := by
    by_cases same : key = lookup.key
    · rw [same, Function.update_self] at computing
      contradiction
    · rw [Function.update_of_ne same] at computing
      obtain ⟨kept, before, named, busy⟩ := flight.owned computing
      refine ⟨kept, ?_, named, busy⟩
      have apart : owner ≠ call := by
        rintro rfl
        obtain rfl := Option.some.inj (calls.symm.trans before)
        exact same named.symm
      have moved : (decoder.move call lookup own).calls owner = some kept :=
        (Function.update_of_ne apart _ _).trans before
      simp only [release, moved, Option.map_some, Lookup.joins_of_computes busy]
  owns {other kept} after busy := by
    obtain ⟨moved, alone⟩ | ⟨_, waiting, _, _, rfl⟩ := calls_release after
    · obtain ⟨rfl, rfl⟩ | ⟨apart, before⟩ := calls_move moved
      · exact absurd busy idle.1
      · have owner := flight.owns before busy
        rw [Function.update_of_ne]
        · exact owner
        · rintro same
          rw [same, flight.owns calls computes] at owner
          exact apart (Option.some.inj owner).symm
    · exact absurd busy (idles waiting).1
  waited {other kept} after waits := by
    obtain ⟨moved, alone⟩ | ⟨_, waiting, _, _, rfl⟩ := calls_release after
    · obtain ⟨rfl, rfl⟩ | ⟨apart, before⟩ := calls_move moved
      · exact absurd waits idle.2
      · rw [Function.update_of_ne (Lookup.key_ne_of_waits alone waits)]
        exact flight.waited before waits
    · exact absurd waits (idles waiting).2

end SingleFlight

/-- What the caches hold and where each call is follow from the registry's answers. -/
structure Sound (registered : Registered S) (missingTtl : Nat) (decoder : Decoder C S) : Prop where
  missingExpires : decoder.missing.ttl = missingTtl
  failedExpires : decoder.failed.ttl = failedLookupTtl
  missing : decoder.missing.Stored fun key _ stored =>
    stored ≤ decoder.now ∧ ∃ asked ≤ stored, registered.answers asked key .notFound
  failed : decoder.failed.Stored fun key error stored =>
    stored ≤ decoder.now ∧ ∃ time ≤ stored, registered.FailsAt key error time
  codecs : ∀ key resolved, decoder.codecs key = some resolved →
    ∃ time ≤ decoder.now, registered.CompiledAt key (.ok resolved) time
  calls : ∀ call lookup, decoder.calls call = some lookup → lookup.began ≤ decoder.now ∧
    lookup.phase.Holds registered missingTtl lookup.key lookup.began decoder.now
  flight : SingleFlight decoder.calls decoder.computing

variable {missingTtl : Nat}

omit [DecidableEq C] in
theorem sound_new (registered : Registered S) (missingTtl : Nat) :
    Sound registered missingTtl (new missingTtl : Decoder C S) where
  missingExpires := rfl
  failedExpires := rfl
  missing := TtlCache.stored_new _
  failed := TtlCache.stored_new _
  codecs := nofun
  calls := nofun
  flight := ⟨nofun, nofun, nofun⟩

omit [DecidableEq C] in
theorem Sound.tick (sound : Sound registered missingTtl decoder) (seconds : Nat) :
    Sound registered missingTtl { decoder with now := decoder.now + seconds } where
  missingExpires := sound.missingExpires
  failedExpires := sound.failedExpires
  missing key value stored entry :=
    (sound.missing key value stored entry).imp_left (Nat.le_add_right_of_le ·)
  failed key error stored entry :=
    (sound.failed key error stored entry).imp_left (Nat.le_add_right_of_le ·)
  codecs key resolved cached := by
    obtain ⟨time, past, compiled⟩ := sound.codecs key resolved cached
    exact ⟨time, Nat.le_add_right_of_le past, compiled⟩
  calls call lookup calls := by
    obtain ⟨began, holds⟩ := sound.calls call lookup calls
    exact ⟨Nat.le_add_right_of_le began, holds.later (Nat.le_add_right _ _)⟩
  flight := sound.flight

/-- A call moves to a phase that holds of it. -/
theorem Sound.move (sound : Sound registered missingTtl decoder)
    (idle : ∀ before, decoder.calls call = some before → ¬before.phase.Computes)
    (began : lookup.began ≤ decoder.now) {phase : LookupPhase S}
    (holds : phase.Holds registered missingTtl lookup.key lookup.began decoder.now)
    (alone : ¬phase.Computes)
    (waits : phase.Waits → (decoder.computing lookup.key).isSome) :
    Sound registered missingTtl (decoder.move call lookup phase) :=
  { sound with
    calls := by
      intro other moved calls
      obtain ⟨_, rfl⟩ | ⟨_, calls⟩ := calls_move calls
      · exact ⟨began, holds⟩
      · exact sound.calls other moved calls
    flight := sound.flight.move idle alone waits }

/-- A call that does not compile goes on. -/
theorem Sound.goOn (sound : Sound registered missingTtl decoder)
    (calls : decoder.calls call = some lookup) (idle : ¬lookup.phase.Computes)
    {phase : LookupPhase S}
    (holds : phase.Holds registered missingTtl lookup.key lookup.began decoder.now)
    (alone : ¬phase.Computes)
    (waits : phase.Waits → (decoder.computing lookup.key).isSome) :
    Sound registered missingTtl (decoder.move call lookup phase) := by
  apply sound.move _ (sound.calls call lookup calls).1 holds alone waits
  rintro before same
  obtain rfl := Option.some.inj (calls.symm.trans same)
  exact idle

/-- The calls after an owner settled its key, where what each is given holds. -/
theorem Sound.calls_settle (sound : Sound registered missingTtl decoder)
    (calls : decoder.calls call = some lookup) {own : LookupPhase S}
    {others : SchemaType × S → LookupPhase S}
    (holds : own.Holds registered missingTtl lookup.key lookup.began decoder.now)
    (told : ∀ schemaType schema began, began ≤ decoder.now →
      (LookupPhase.joined schemaType schema).Holds registered missingTtl lookup.key began decoder.now →
      (others (schemaType, schema)).Holds registered missingTtl lookup.key began decoder.now)
    (other : C) (kept : Lookup S)
    (after : ((decoder.move call lookup own).release lookup.key others).calls other = some kept) :
    kept.began ≤ decoder.now ∧
      kept.phase.Holds registered missingTtl kept.key kept.began decoder.now := by
  obtain ⟨moved, _⟩ | ⟨before, waiting, moved, joins, rfl⟩ := calls_release after
  · obtain ⟨_, rfl⟩ | ⟨_, same⟩ := calls_move moved
    · exact ⟨(sound.calls call lookup calls).1, holds⟩
    · exact sound.calls other kept same
  · obtain ⟨joined, same⟩ := Lookup.joins_eq_some joins
    have known : before.began ≤ decoder.now ∧
        before.phase.Holds registered missingTtl before.key before.began decoder.now := by
      obtain ⟨_, rfl⟩ | ⟨_, kept⟩ := calls_move moved
      · exact ⟨(sound.calls call lookup calls).1, holds⟩
      · exact sound.calls other before kept
    rw [joined, same] at known
    refine ⟨known.1, ?_⟩
    rw [same]
    exact told waiting.1 waiting.2 before.began known.1 known.2

/-- What a step keeps of a sound decoder. -/
theorem Sound.step {later : Decoder C S} (sound : Sound registered missingTtl decoder)
    (step : Step registered decoder later) : Sound registered missingTtl later := by
  cases step with
  | tick seconds => exact sound.tick seconds
  | evictMissing key => exact { sound with missing := sound.missing.evict key }
  | evictFailed key => exact { sound with failed := sound.failed.evict key }
  | evictCodec key =>
    refine { sound with codecs := ?_ }
    intro other resolved cached
    dsimp only at cached
    by_cases same : other = key
    · rw [same, Function.update_self] at cached
      contradiction
    · rw [Function.update_of_ne same] at cached
      exact sound.codecs other resolved cached
  | call call key fresh =>
    refine sound.move ?_ (Nat.le_refl decoder.now) trivial id nofun
    rintro before calls
    rw [fresh] at calls
    contradiction
  | @check call lookup calls checks =>
    have began := (sound.calls call lookup calls).1
    have idle : ¬lookup.phase.Computes := by rw [checks]; exact id
    split
    · rename_i found
      obtain ⟨⟨⟩, found⟩ := Option.isSome_iff_exists.mp found
      obtain ⟨stored, ⟨past, asked, after, answered⟩, live⟩ := sound.missing.get found
      rw [sound.missingExpires] at live
      refine sound.goOn calls idle ?_ id nofun
      exact .missing answered after past (.inr (began.trans_lt live))
    · exact sound.goOn calls idle trivial id nofun
  | @checkFailed call lookup calls checks =>
    have began := (sound.calls call lookup calls).1
    have idle : ¬lookup.phase.Computes := by rw [checks]; exact id
    split
    · rename_i error found
      obtain ⟨stored, ⟨past, time, after, fails⟩, live⟩ := sound.failed.get found
      rw [sound.failedExpires] at live
      refine sound.goOn calls idle ?_ id nofun
      exact .failed fails after past (.inr (began.trans_lt live))
    · exact sound.goOn calls idle trivial id nofun
  | @receive call lookup calls asks answer answered =>
    have began := (sound.calls call lookup calls).1
    have idle : ¬lookup.phase.Computes := by rw [asks]; exact id
    exact sound.goOn calls idle (received_holds answered began) (received_idle answer).1
      fun waits => absurd waits (received_idle answer).2
  | @storeMissing call lookup calls stores =>
    obtain ⟨began, holds⟩ := sound.calls call lookup calls
    have idle : ¬lookup.phase.Computes := by rw [stores]; exact id
    rw [stores] at holds
    obtain ⟨asked, recent, past, answered⟩ := holds
    have moved : Sound registered missingTtl (decoder.move call lookup (.returned (.ok .missing))) := by
      refine sound.goOn calls idle ?_ id nofun
      exact .missing answered past (Nat.le_refl _) (.inl recent)
    exact { moved with
      missing := sound.missing.insert ⟨Nat.le_refl _, asked, past, answered⟩ }
  | @storeFailed call lookup error calls stores =>
    obtain ⟨began, holds⟩ := sound.calls call lookup calls
    have idle : ¬lookup.phase.Computes := by rw [stores]; exact id
    rw [stores] at holds
    obtain ⟨time, recent, past, fails⟩ := holds
    have moved : Sound registered missingTtl (decoder.move call lookup (.returned (.error error))) := by
      refine sound.goOn calls idle ?_ id nofun
      exact .failed fails past (Nat.le_refl _) (.inl recent)
    exact { moved with
      failed := sound.failed.insert ⟨Nat.le_refl _, time, past, fails⟩ }
  | @hit call lookup schemaType schema resolved calls wants cached =>
    obtain ⟨began, holds⟩ := sound.calls call lookup calls
    have idle : ¬lookup.phase.Computes := by rw [wants]; exact id
    rw [wants] at holds
    obtain ⟨asked, recent, past, named⟩ := holds
    obtain ⟨time, ended, compiled⟩ := sound.codecs lookup.key resolved cached
    exact sound.goOn calls idle (.codec named recent past compiled ended) id nofun
  | @own call lookup schemaType schema calls wants uncached free =>
    obtain ⟨began, holds⟩ := sound.calls call lookup calls
    have idle : ¬lookup.phase.Computes := by rw [wants]; exact id
    rw [wants] at holds
    refine { sound with calls := ?_, flight := sound.flight.own calls idle free id trivial }
    intro other moved after
    obtain ⟨_, rfl⟩ | ⟨_, before⟩ := calls_move after
    · exact ⟨began, holds⟩
    · exact sound.calls other moved before
  | @join call lookup schemaType schema calls wants busy =>
    obtain ⟨began, holds⟩ := sound.calls call lookup calls
    have idle : ¬lookup.phase.Computes := by rw [wants]; exact id
    rw [wants] at holds
    exact sound.goOn calls idle holds id fun _ => busy
  | @finish call lookup schemaType schema calls computes result compiled =>
    obtain ⟨began, holds⟩ := sound.calls call lookup calls
    rw [computes] at holds
    have ended : registered.CompiledAt lookup.key result decoder.now := by
      obtain ⟨asked, _, past, named⟩ := holds
      exact ⟨schemaType, schema, asked, past, named, compiled⟩
    refine { sound with codecs := ?_, calls := ?_, flight := ?_ }
    · intro key resolved cached
      cases result with
      | error error => exact sound.codecs key resolved cached
      | ok made =>
        by_cases same : key = lookup.key
        · dsimp only [finish] at cached
          rw [same, Function.update_self] at cached
          obtain rfl := Option.some.inj cached
          exact ⟨decoder.now, Nat.le_refl _, same ▸ ended⟩
        · dsimp only [finish] at cached
          rw [Function.update_of_ne same] at cached
          exact sound.codecs key resolved cached
    · exact sound.calls_settle calls (outcome_holds holds ended began)
        fun _ _ _ began named => outcome_holds named ended began
    · exact sound.flight.settle calls (by rw [computes]; trivial) (outcome_idle result)
        fun _ => outcome_idle result
  | @abandon call lookup schemaType schema calls computes =>
    refine { sound with calls := ?_, flight := ?_ }
    · exact sound.calls_settle calls trivial fun _ _ _ _ named => named
    · exact sound.flight.settle calls (by rw [computes]; trivial) ⟨id, id⟩ fun _ => ⟨id, id⟩
  | @drop call lookup calls other going =>
    refine sound.goOn calls ?_ trivial id nofun
    cases phase : lookup.phase with
    | computing schemaType schema => exact absurd phase (other schemaType schema)
    | _ => exact id

/-- What a run keeps of a sound decoder. -/
theorem Sound.run {later : Decoder C S} (sound : Sound registered missingTtl decoder)
    (reached : Reaches registered decoder later) : Sound registered missingTtl later := by
  induction reached with
  | refl => exact sound
  | tail _ step sound => exact sound.step step

/-- Whatever the calls do meanwhile: what a call of `resolved` is told the registry said
while the call was on, or no longer before it than the cache that remembered it remembers.
One call compiles a key, and those who wait for it wait for that one. -/
theorem lookups_told (registered : Registered S) (missingTtl : Nat)
    (reached : Reaches registered (new missingTtl) decoder)
    (calls : decoder.calls call = some lookup) :
    (∀ result, lookup.phase = .returned result →
      registered.Told missingTtl lookup.key lookup.began decoder.now result) ∧
    (lookup.phase.Computes → ∀ other otherLookup, decoder.calls other = some otherLookup →
      otherLookup.phase.Computes → otherLookup.key = lookup.key → other = call) ∧
    (lookup.phase.Waits → ∃ owner ownerLookup, decoder.calls owner = some ownerLookup ∧
      ownerLookup.key = lookup.key ∧ ownerLookup.phase.Computes) := by
  have sound := (sound_new registered missingTtl).run reached
  refine ⟨?_, ?_, ?_⟩
  · intro result returned
    have holds := (sound.calls call lookup calls).2
    rw [returned] at holds
    exact holds
  · intro computes other otherLookup others busy same
    have owner := sound.flight.owns others busy
    rw [same, sound.flight.owns calls computes] at owner
    exact (Option.some.inj owner).symm
  · intro waits
    obtain ⟨owner, owns⟩ := Option.isSome_iff_exists.mp (sound.flight.waited calls waits)
    obtain ⟨ownerLookup, found, same, busy⟩ := sound.flight.owned owns
    exact ⟨owner, ownerLookup, found, same, busy⟩

namespace Sample

/-- A registry that knows no schema. -/
def unknown : Registered Unit where
  answers := fun _ _ answer => answer = .notFound
  schemaType := fun _ => .ok .avro
  compiles := fun _ _ _ _ => False

/-- The first of two calls asks the registry; the second, a minute later, is told from the cache. -/
theorem reaches_unknown :
    ∃ decoder : Decoder Bool Unit, Reaches unknown (new 300) decoder ∧
      decoder.calls true = some { key := .id 7, began := 60, phase := .returned (.ok .missing) } := by
  have called := Relation.ReflTransGen.single
    (@Step.call Bool Unit _ unknown (new 300) false (.id 7) rfl)
  have checked := called.tail (@Step.check Bool Unit _ unknown _ false _ rfl rfl)
  have asking := checked.tail (@Step.checkFailed Bool Unit _ unknown _ false _ rfl rfl)
  have answered := asking.tail (@Step.receive Bool Unit _ unknown _ false _ rfl rfl .notFound rfl)
  have stored := answered.tail (@Step.storeMissing Bool Unit _ unknown _ false _ rfl rfl)
  have again := (stored.tail (.tick 60)).tail (.call true (.id 7) rfl)
  exact ⟨_, again.tail (@Step.check Bool Unit _ unknown _ true _ rfl rfl), rfl⟩

end Sample

/-- The second call is told of an answer less than the cache's time before. -/
theorem lookups_told_unknown :
    ∃ decoder : Decoder Bool Unit, Reaches Sample.unknown (new 300) decoder ∧
      Sample.unknown.Told 300 (.id 7) 60 decoder.now (.ok .missing) := by
  obtain ⟨decoder, reached, calls⟩ := Sample.reaches_unknown
  exact ⟨decoder, reached, (lookups_told Sample.unknown 300 reached calls).1 _ rfl⟩

end Decoder
end Klens.Schemas
