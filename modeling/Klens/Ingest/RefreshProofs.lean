import Klens.Ingest.Refresh
import Klens.Ingest.RunnerProofs
import Klens.Ingest.Watermarks

/-! A call that waits is not forgotten, and once the fetches show its change it
asks for no more than two polls. -/
namespace Klens.Ingest
open Klens.Store

namespace Refreshing
variable {T D R : Type} {diff : Nat → Option T → T → Option D} {takes : Bool} {done : R → T → Bool}
  {answers : Nat → Except String T → Prop} {state next : Refreshing T R}

/-- What is kept for a call: the runner has its request before it, or is at work
on a poll that answers it; a fetch begun since the request reads everything. -/
structure Remembers (takes : Bool) (state : Refreshing T R) (refresher : Refresher) : Prop where
  seen : refresher.seen ≤ state.polls
  full : refresher.phase = .kicking ∨ refresher.phase = .waiting → refresher.seen = state.polls →
    (state.runner = .waiting ∨ state.runner = .starting → state.refresh = true) ∧
    ∀ number full, state.runner = .fetching number full → refresher.since ≤ number → full = takes
  kicked : refresher.phase = .waiting → refresher.seen = state.polls →
    state.kicked = true ∨ state.runner ≠ .waiting

structure Served (takes : Bool) (state : Refreshing T R) : Prop where
  begun : ∀ number full, state.runner = .fetching number full → number < state.fetches
  ended : ∀ number error, state.runner = .fetched number error → number < state.fetches
  remembers : ∀ call, state.Remembers takes (state.calls call)

theorem served_start : (start : Refreshing T R).Served takes := by
  refine ⟨nofun, nofun, fun call => ⟨Nat.le_refl _, ?_, nofun⟩⟩
  rintro (phase | phase) <;> contradiction

/-- Another phase than those a call is waited for in asks for nothing. -/
theorem Remembers.idle {refresher : Refresher} (seen : refresher.seen ≤ state.polls)
    (kicking : refresher.phase ≠ .kicking) (waiting : refresher.phase ≠ .waiting) :
    state.Remembers takes refresher :=
  ⟨seen, fun asked => (asked.elim kicking waiting).elim, fun waits => absurd waits waiting⟩

theorem Served.flagged (served : state.Served takes) :
    ({ state with refresh := true } : Refreshing T R).Served takes := by
  refine ⟨served.begun, served.ended, fun call => ⟨(served.remembers call).seen, fun asked seen => ?_,
    (served.remembers call).kicked⟩⟩
  exact ⟨fun _ => rfl, ((served.remembers call).full asked seen).2⟩

theorem Served.kicked (served : state.Served takes) :
    ({ state with kicked := true } : Refreshing T R).Served takes :=
  ⟨served.begun, served.ended, fun call => ⟨(served.remembers call).seen, (served.remembers call).full,
    fun _ _ => .inl rfl⟩⟩

variable [DecidableEq R]

theorem Served.setCall (served : state.Served takes) (call : R) {refresher : Refresher}
    (remembers : state.Remembers takes refresher) :
    (state.setCall call refresher).Served takes := by
  refine ⟨served.begun, served.ended, fun other => ?_⟩
  by_cases same : other = call
  · subst same
    simp only [Refreshing.setCall, Function.update_self]
    exact ⟨remembers.seen, remembers.full, remembers.kicked⟩
  · simp only [Refreshing.setCall, Function.update_of_ne same]
    exact ⟨(served.remembers other).seen, (served.remembers other).full,
      (served.remembers other).kicked⟩

theorem Served.step (served : state.Served takes) (step : Step diff takes done answers state next) :
    next.Served takes := by
  have ⟨begun, ended, remembers⟩ := served
  cases step with
  | notified waits kicked =>
    refine ⟨nofun, nofun, fun call => ⟨(remembers call).seen, fun asked seen => ⟨fun _ => ?_, nofun⟩,
      fun _ _ => .inr nofun⟩⟩
    exact ((remembers call).full asked seen).1 (.inl waits)
  | elapsed waits =>
    refine ⟨nofun, nofun, fun call => ⟨(remembers call).seen, fun asked seen => ⟨fun _ => ?_, nofun⟩,
      fun _ _ => .inr nofun⟩⟩
    exact ((remembers call).full asked seen).1 (.inl waits)
  | fetch starts =>
    refine ⟨?_, nofun, fun call =>
      ⟨(remembers call).seen, fun asked seen => ⟨?_, ?_⟩, fun _ _ => .inr nofun⟩⟩
    · rintro _ _ ⟨⟩
      exact Nat.lt_succ_self _
    · rintro (waits | starts) <;> contradiction
    · rintro _ _ ⟨⟩ _
      rw [((remembers call).full asked seen).1 (.inr starts), Bool.and_true]
  | commit result now fetches answered =>
    refine ⟨nofun, ?_, fun call =>
      ⟨(remembers call).seen, fun _ _ => ⟨?_, nofun⟩, fun _ _ => .inr nofun⟩⟩
    · rintro _ _ ⟨⟩
      exact begun _ _ fetches
    · rintro (waits | starts) <;> contradiction
  | record now elapsedMs fetched =>
    -- Whoever waits has not seen this poll.
    have unseen (call : R) : (state.calls call).seen ≠ state.polls + 1 :=
      Nat.ne_of_lt (Nat.lt_succ_of_le (remembers call).seen)
    exact ⟨nofun, nofun, fun call => ⟨Nat.le_succ_of_le (remembers call).seen,
      fun _ seen => absurd seen (unseen call), fun _ seen => absurd seen (unseen call)⟩⟩
  | check call checks =>
    refine served.setCall call (.idle (remembers call).seen ?_ ?_) <;> dsimp only <;> split <;> nofun
  | mark call marks => exact served.setCall call (.idle (Nat.le_refl _) nofun nofun)
  | flag call flags =>
    refine served.flagged.setCall call ⟨(remembers call).seen, fun _ _ => ⟨fun _ => rfl, ?_⟩, nofun⟩
    intro number full fetches since
    exact absurd (begun number full fetches) (Nat.not_lt.mpr since)
  | kick call kicks =>
    refine served.kicked.setCall call ⟨(remembers call).seen, fun _ seen => ?_, fun _ _ => .inl rfl⟩
    exact (remembers call).full (.inl kicks) seen
  | changed call waits change => exact served.setCall call (.idle (Nat.le_refl _) nofun nofun)
  | health call woken =>
    refine served.setCall call (.idle (remembers call).seen ?_ ?_) <;> dsimp only <;> split <;> nofun
  | recheck call rechecks =>
    refine served.setCall call (.idle (remembers call).seen ?_ ?_) <;> dsimp only <;> split <;> nofun
  | slept call sleeps => exact served.setCall call (.idle (remembers call).seen nofun nofun)
  | drop call awaits => exact served.setCall call (.idle (remembers call).seen nofun nofun)
  | call call past => exact served.setCall call (.idle (Nat.le_refl _) nofun nofun)

theorem Reaches.served (reached : Reaches diff takes done answers state next)
    (served : state.Served takes) : next.Served takes := by
  induction reached with
  | refl => exact served
  | tail _ step ih => exact ih.step step

/-- The runner alone can come to the end of a poll. -/
def Completes (diff : Nat → Option T → T → Option D) (takes : Bool) (done : R → T → Bool)
    (answers : Nat → Except String T → Prop) (state : Refreshing T R) : Prop :=
  ∃ later, Reaches diff takes done answers state later ∧ later.calls = state.calls ∧
    later.polls = state.polls + 1

theorem completes_fetching {number : Nat} {full : Bool} (answered : ∃ result, answers number result)
    (fetches : state.runner = .fetching number full) :
    Completes diff takes done answers state := by
  obtain ⟨result, answer⟩ := answered
  have commit : Step diff takes done answers state _ := .commit result 0 fetches answer
  exact ⟨_, .head commit (.single (.record 0 0 rfl)), rfl, rfl⟩

theorem completes_starting (answered : ∀ number, ∃ result, answers number result)
    (starts : state.runner = .starting) : Completes diff takes done answers state := by
  have fetching : Completes diff takes done answers (state.takeRefresh takes) :=
    completes_fetching (answered state.fetches) rfl
  obtain ⟨later, run, same, more⟩ := fetching
  exact ⟨later, .head (.fetch starts) run, same, more⟩

/-- A call that waits is not forgotten: the runner is kicked, or is at work on a
poll already; a fetch begun since the call asked takes its flag; and as long as
Kafka answers in some way, the runner alone comes to wake the call. -/
theorem refresher_served (answered : ∀ number, ∃ result, answers number result)
    (reached : Reaches diff takes done answers start state) (call : R)
    (waits : (state.calls call).phase = .waiting)
    (unseen : (state.calls call).seen = state.polls) :
    (state.kicked = true ∨ state.runner ≠ .waiting) ∧
    (state.runner = .waiting ∨ state.runner = .starting → state.refresh = true) ∧
    (∀ number full, state.runner = .fetching number full → (state.calls call).since ≤ number →
      full = takes) ∧
    ∃ later, Reaches diff takes done answers state later ∧ later.calls call = state.calls call ∧
      (later.calls call).seen ≠ later.polls := by
  obtain ⟨_, full, kicked⟩ := (reached.served served_start).remembers call
  obtain ⟨flagged, reads⟩ := full (.inr waits) unseen
  refine ⟨kicked waits unseen, flagged, reads, ?_⟩
  suffices completes : Completes diff takes done answers state by
    obtain ⟨later, run, same, more⟩ := completes
    refine ⟨later, run, congrFun same call, ?_⟩
    rw [same, unseen, more]
    exact Nat.ne_of_lt (Nat.lt_succ_self _)
  cases runner : state.runner with
  | waiting =>
    have permit := (kicked waits unseen).resolve_right (absurd runner)
    have starting : Completes diff takes done answers
        { state with runner := .starting, kicked := false } := completes_starting answered rfl
    obtain ⟨later, run, same, more⟩ := starting
    exact ⟨later, .head (.notified runner permit) run, same, more⟩
  | starting => exact completes_starting answered runner
  | fetching number full => exact completes_fetching (answered number) runner
  | fetched number error => exact ⟨_, .single (.record 0 0 runner), rfl, rfl⟩

section Bounded
variable {first : Refreshing T R} {call : R}

/-- How often a call has asked, against the polls recorded since `earlier` of them
were. -/
def Asks (earlier polls : Nat) (refresher : Refresher) : Prop :=
  refresher.seen ≤ polls ∧ match refresher.phase with
    | .checking | .woken | .rechecking =>
      earlier + refresher.asked ≤ polls ∧ refresher.asked ≤ 2
    | .marking | .sleeping => earlier + refresher.asked ≤ polls ∧ refresher.asked ≤ 1
    | .flagging | .kicking => earlier + refresher.asked ≤ refresher.seen ∧ refresher.asked ≤ 1
    | .waiting => earlier + refresher.asked ≤ refresher.seen + 1 ∧ refresher.asked ≤ 2
    | .returned | .dropped => refresher.asked ≤ 2

theorem Asks.le {earlier polls : Nat} {refresher : Refresher}
    (asks : Asks earlier polls refresher) : refresher.asked ≤ 2 := by
  obtain ⟨_, asks⟩ := asks
  split at asks <;> omega

theorem Asks.mono {earlier polls later : Nat} {refresher : Refresher}
    (asks : Asks earlier polls refresher) (more : polls ≤ later) :
    Asks earlier later refresher := by
  obtain ⟨seen, asks⟩ := asks
  refine ⟨Nat.le_trans seen more, ?_⟩
  split at asks <;> omega

/-- What the runs from `first` keep, where every fetch begun since shows the
change. At most one fetch was under way at `first`, so of the polls recorded since
only the first can miss it. -/
structure Bounded (done : T → Bool) (call : R) (first state : Refreshing T R) : Prop where
  fetches : first.fetches ≤ state.fetches
  polls : first.polls ≤ state.polls
  fetching : ∀ number full, state.runner = .fetching number full → first.polls < state.polls →
    first.fetches ≤ number
  fetched : ∀ number error, state.runner = .fetched number error →
    (first.polls < state.polls → first.fetches ≤ number) ∧
    (first.fetches ≤ number → state.shows done = true)
  shown : first.polls + 2 ≤ state.polls → state.shows done = true
  asks : Asks first.polls state.polls (state.calls call)

/-- Another call's step, or one of the call that asks for no more. -/
theorem Bounded.setCall {done : T → Bool} (bounded : Bounded done call first state) {other : R}
    {refresher : Refresher} (asks : other = call → Asks first.polls state.polls refresher) :
    Bounded done call first (state.setCall other refresher) := by
  refine ⟨bounded.fetches, bounded.polls, bounded.fetching, bounded.fetched, bounded.shown, ?_⟩
  by_cases same : call = other
  · subst same
    simpa [Refreshing.setCall] using asks rfl
  · simpa [Refreshing.setCall, Function.update_of_ne same] using bounded.asks

/-- Where a source finds no difference, the table is the one that was there. -/
def Tells (diff : Nat → Option T → T → Option D) (Fetched : T → Prop) : Prop :=
  ∀ number previous next, Fetched previous → Fetched next →
    diff number (some previous) next = none → previous = next

theorem tells_of_exact {compares : Option T → T → Option D} {Fetched : T → Prop} {empty : T}
    (faithful : Exact compares Fetched empty) : Tells (fun _ => compares) Fetched := by
  intro _ previous next held fetched same
  refine (faithful (some previous) next ?_ fetched).mp same
  rintro _ ⟨⟩
  exact held

/-- A lane only ever holds what was fetched. -/
theorem Reaches.held {Fetched : T → Prop}
    (brings : ∀ number table, answers number (.ok table) → Fetched table)
    (reached : Reaches diff takes done answers state next)
    (held : ∀ table ∈ state.lane.load, Fetched table) :
    ∀ table ∈ next.lane.load, Fetched table := by
  induction reached with
  | refl => exact held
  | tail _ step ih =>
    cases step with
    | commit result now fetches answered =>
      intro table loads
      unfold fetchedLane at loads
      split at loads
      · split at loads
        · obtain rfl := Option.some.inj loads
          exact brings _ _ answered
        · exact ih table loads
      · exact ih table loads
    | _ => exact ih

/-- A table that shows the change is in the lane after its commit: where nothing
is committed, it is the one that was there. -/
theorem shows_fetchedLane {done : T → Bool} {compares : Option T → T → Option D} {lane : Lane T}
    {now : Int} {table : T}
    (same : ∀ previous ∈ lane.load, compares (some previous) table = none → previous = table)
    (shown : done table = true) :
    (fetchedLane compares lane now (.ok table)).load.any done = true := by
  simp only [fetchedLane]
  split
  · exact shown
  · rename_i kept
    cases held : lane.load with
    | none => simp [held] at kept
    | some previous =>
      simp only [held, Option.isNone_some, Bool.or_false, Bool.not_eq_true,
        Option.isSome_eq_false_iff, Option.isNone_iff_eq_none] at kept
      exact same previous held kept ▸ shown

theorem Bounded.step {Fetched : T → Prop} (tells : Tells diff Fetched)
    (brings : ∀ number table, answers number (.ok table) → Fetched table)
    (held : ∀ table ∈ state.lane.load, Fetched table)
    (shown : ∀ number result, first.fetches ≤ number → answers number result →
      ∃ table, result = .ok table ∧ done call table = true)
    (bounded : Bounded (done call) call first state)
    (step : Step diff takes done answers state next) : Bounded (done call) call first next := by
  have ⟨fetches, polls, fetching, fetched, shows, asks⟩ := bounded
  have ⟨seen, phased⟩ := asks
  -- A call that has asked twice finds its change, so one that goes on has asked once at most.
  have looked (further : RefreshPhase) (goes : further = .marking ∨ further = .sleeping)
      (asked : first.polls + (state.calls call).asked ≤ state.polls ∧
        (state.calls call).asked ≤ 2) :
      Asks first.polls state.polls { state.calls call with
        phase := if state.shows (done call) then .returned else further } := by
    refine ⟨seen, ?_⟩
    by_cases found : state.shows (done call) = true
    · simp only [found, if_true]
      exact asked.2
    · have once : (state.calls call).asked ≤ 1 := by
        by_contra more
        exact found (shows (by omega))
      rcases goes with rfl | rfl <;> simp only [found] <;> exact ⟨asked.1, once⟩
  cases step with
  | notified waits kicked => exact ⟨fetches, polls, nofun, nofun, shows, asks⟩
  | elapsed waits => exact ⟨fetches, polls, nofun, nofun, shows, asks⟩
  | fetch starts =>
    refine ⟨Nat.le_succ_of_le fetches, polls, ?_, nofun, shows, asks⟩
    rintro _ _ ⟨⟩ _
    exact fetches
  | @commit number full result now under answered =>
    have fresh : first.fetches ≤ number →
        (fetchedLane (diff number) state.lane now result).load.any (done call) = true := by
      intro later
      obtain ⟨table, rfl, done⟩ := shown number result later answered
      refine shows_fetchedLane (fun previous loads same => ?_) done
      exact tells number previous table (held previous loads) (brings number table answered) same
    refine ⟨fetches, polls, nofun, ?_, ?_, asks⟩
    · rintro _ _ ⟨⟩
      exact ⟨fetching number full under, fresh⟩
    · intro (more : first.polls + 2 ≤ state.polls)
      exact fresh (fetching number full under (by omega))
  | @record number error now elapsedMs past =>
    obtain ⟨later, visible⟩ := fetched number error past
    refine ⟨fetches, Nat.le_succ_of_le polls, nofun, nofun, ?_, asks.mono (Nat.le_succ _)⟩
    intro (more : first.polls + 2 ≤ state.polls + 1)
    exact visible (later (by omega))
  | check other checks =>
    refine bounded.setCall ?_
    rintro rfl
    simp only [checks] at phased
    exact looked .marking (.inl rfl) phased
  | mark other marks =>
    refine bounded.setCall ?_
    rintro rfl
    simp only [marks] at phased
    exact ⟨Nat.le_refl _, phased⟩
  | flag other flags =>
    have flagged : Bounded (done call) call first { state with refresh := true } :=
      ⟨fetches, polls, fetching, fetched, shows, asks⟩
    refine flagged.setCall ?_
    rintro rfl
    simp only [flags] at phased
    exact ⟨seen, phased⟩
  | kick other kicks =>
    have kicked : Bounded (done call) call first { state with kicked := true } :=
      ⟨fetches, polls, fetching, fetched, shows, asks⟩
    refine kicked.setCall ?_
    rintro rfl
    simp only [kicks] at phased
    exact ⟨seen, by dsimp only; omega⟩
  | changed other waits change =>
    refine bounded.setCall ?_
    rintro rfl
    simp only [waits] at phased
    exact ⟨Nat.le_refl _, by dsimp only; omega⟩
  | health other woken =>
    refine bounded.setCall ?_
    rintro rfl
    simp only [woken] at phased
    refine ⟨seen, ?_⟩
    cases state.lane.health.lastError with
    | none => exact phased
    | some error => exact phased.2
  | recheck other rechecks =>
    refine bounded.setCall ?_
    rintro rfl
    simp only [rechecks] at phased
    exact looked .sleeping (.inr rfl) phased
  | slept other sleeps =>
    refine bounded.setCall ?_
    rintro rfl
    simp only [sleeps] at phased
    exact ⟨seen, by dsimp only; omega⟩
  | drop other awaits =>
    refine bounded.setCall ?_
    rintro rfl
    exact ⟨seen, asks.le⟩
  | call other past =>
    refine bounded.setCall ?_
    rintro rfl
    exact ⟨Nat.le_refl _, by simpa [begun] using polls⟩

end Bounded

/-- In every run of a lane's runner and of the calls on it: where every fetch begun since a
call began shows its change, the call asks for at most two polls. -/
def AsksTwice (diff : Nat → Option T → T → Option D) (Fetched : T → Prop) : Prop :=
  ∀ (R : Type) [DecidableEq R] (takes : Bool) (done : R → T → Bool)
    (answers : Nat → Except String T → Prop) (call : R) (first last : Refreshing T R),
    (∀ number table, answers number (.ok table) → Fetched table) →
    Reaches diff takes done answers start first → first.calls call = first.begun →
    (∀ number result, first.fetches ≤ number → answers number result →
      ∃ table, result = .ok table ∧ done call table = true) →
    Reaches diff takes done answers first last → (last.calls call).asked ≤ 2

theorem asksTwice {Fetched : T → Prop} (tells : Tells diff Fetched) : AsksTwice diff Fetched := by
  intro R _ takes done answers call first last brings reached begun shown run
  suffices bounded : Bounded (done call) call first last from bounded.asks.le
  have held {state : Refreshing T R} (run : Reaches diff takes done answers first state) :
      ∀ table ∈ state.lane.load, Fetched table := by
    refine Reaches.held brings (reached.trans run) ?_
    intro table loads
    contradiction
  induction run with
  | tail before step ih => exact ih.step tells brings (held before) shown step
  | refl =>
    have served := reached.served served_start
    refine ⟨Nat.le_refl _, Nat.le_refl _, fun _ _ _ later => absurd later (Nat.lt_irrefl _), ?_,
      fun more => absurd more (by omega), ?_⟩
    · intro number error past
      have earlier := served.ended number error past
      exact ⟨fun later => absurd later (Nat.lt_irrefl _),
        fun later => absurd earlier (Nat.not_lt.mpr later)⟩
    · rw [begun]
      simp [Asks, Refreshing.begun]

theorem watermarks_tells (lanes : Nat → WatermarkLane) (now : Nat → Nat) :
    Tells (fun number => (lanes number).diff (now number)) fun _ => True := by
  intro number previous next _ _ same
  dsimp only [WatermarkLane.diff] at same
  split at same
  · contradiction
  · rename_i marks
    simp only [Option.map_some, Option.some.injEq, not_not] at marks
    cases previous
    cases next
    rw [WatermarkTable.mk.injEq]
    exact marks

theorem listing_tells [DecidableEq T] :
    Tells (fun _ : Nat => listingDiff (T := T)) fun _ => True := by
  intro _ previous next _ _ same
  dsimp only [listingDiff] at same
  split at same
  · contradiction
  · rename_i equal
    exact Option.some.inj (not_not.mp equal)

/-- On each lane that has a runner of its own, where every fetch begun since a call of
`refresh_until` began shows its change, the call asks for at most two polls, whatever the
other calls do: one may have been under way that began too early. -/
theorem refresher_asks_twice :
    AsksTwice (fun _ => TopologyDelta.between) Topology.Assembled ∧
    AsksTwice (fun _ => ConfigsDelta.between) (fun _ => True) ∧
    AsksTwice (fun _ => LogDirsDelta.between) (fun _ => True) ∧
    AsksTwice (fun _ => SubjectsDelta.between) (fun _ => True) ∧
    AsksTwice (fun _ => SubjectsDelta.ofIds) (fun _ => True) ∧
    (∀ (lanes : Nat → WatermarkLane) (now : Nat → Nat),
      AsksTwice (fun number => (lanes number).diff (now number)) fun _ => True) ∧
    ∀ (T : Type) [DecidableEq T], AsksTwice (fun _ : Nat => listingDiff (T := T)) fun _ => True :=
  ⟨asksTwice (tells_of_exact topology_exact), asksTwice (tells_of_exact configs_exact),
    asksTwice (tells_of_exact logDirs_exact), asksTwice (tells_of_exact subjects_exact),
    asksTwice (tells_of_exact schemaIds_exact),
    fun lanes now => asksTwice (watermarks_tells lanes now), fun _ => asksTwice listing_tells⟩

private abbrev FindsTwo : Refreshing Nat Unit → Refreshing Nat Unit → Prop :=
  Reaches (fun _ => listingDiff) true (fun _ table => table = 2) (fun _ result => result = .ok 2)

private def called : Refreshing Nat Unit :=
  let fresh : Refreshing Nat Unit := start
  fresh.setCall () fresh.begun

/-- The first call has kicked the lane, whose runner has not fetched yet. -/
private def asking : Refreshing Nat Unit :=
  { called with
    kicked := true
    refresh := true
    calls := fun _ => { phase := .waiting, seen := 0, since := 0, asked := 1 } }

private theorem start_called : FindsTwo start called := .single (.call () (.inl rfl))

private theorem called_asking : FindsTwo called asking := by
  refine .head (.check () rfl) (.head (.mark () rfl) (.head (.flag () rfl) (.single ?_)))
  exact .kick () rfl

theorem refresher_served_first_call :
    (asking.kicked = true ∨ asking.runner ≠ .waiting) ∧
    (asking.runner = .waiting ∨ asking.runner = .starting → asking.refresh = true) ∧
    (∀ number full, asking.runner = .fetching number full → (asking.calls ()).since ≤ number →
      full = true) ∧
    ∃ later, FindsTwo asking later ∧ later.calls () = asking.calls () ∧
      (later.calls ()).seen ≠ later.polls := by
  have answered : ∀ _ : Nat, ∃ result, result = (.ok 2 : Except String Nat) := fun _ => ⟨_, rfl⟩
  exact refresher_served answered (start_called.trans called_asking) () rfl rfl

theorem refresher_asks_twice_first_call : ∃ last : Refreshing Nat Unit,
    FindsTwo called last ∧ (last.calls ()).phase = .returned ∧ (last.calls ()).asked ≤ 2 := by
  have polled : FindsTwo asking _ :=
    .head (.fetch rfl) (.head (.commit (.ok 2) 0 rfl rfl) (.single (.record 0 0 rfl)))
  have returned : FindsTwo asking _ :=
    ((polled.tail (.changed () rfl (by decide))).tail (.health () rfl)).tail (.recheck () rfl)
  have run := called_asking.trans returned
  refine ⟨_, run, rfl, ?_⟩
  refine refresher_asks_twice.2.2.2.2.2.2 Nat Unit true _ _ () called _ (fun _ _ _ => trivial)
    start_called rfl ?_ run
  rintro number result _ rfl
  exact ⟨2, rfl, rfl⟩

end Refreshing
end Klens.Ingest
