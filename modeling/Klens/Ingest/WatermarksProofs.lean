import Klens.Ingest.Watermarks
import Klens.Lib.Except

/-! Where the lows of the store come from: an answer of Kafka, in this poll or
in an earlier one, as long as Kafka answers for each low that is looked up. -/
namespace Klens.Ingest
open Klens.Lib Klens.Store Klens.Client

theorem found_at (lookup : OffsetLookup) (topic : String) (partition : Int) :
    Found.at lookup.found topic partition = (lookup.offsets topic)[partition]? := by
  unfold Found.at OffsetLookup.offsets
  cases lookup.found[topic]? <;> simp

theorem Found.at_insert (lows : Found) (topic other : String) (partition number offset : Int) :
    Found.at (lows.insert topic ((lows[topic]?.getD ∅).insert partition offset)) other number =
      if (topic, partition) = (other, number) then some offset else lows.at other number := by
  unfold Found.at
  rw [Std.ExtTreeMap.getElem?_insert]
  by_cases here : topic = other
  · subst here
    simp only [Std.ReflCmp.compare_self, if_true, Option.bind_some, Std.ExtTreeMap.getElem?_insert,
      compare_eq_iff_eq, Prod.mk.injEq, true_and]
    split
    · rfl
    · cases lows[topic]? <;> simp
  · simp [here]

/-- A topic that is left out for want of marks has none to show. -/
theorem bind_nonempty (marks : Std.ExtTreeMap Int Watermarks) (partition : Int) :
    (if marks.isEmpty then none else some marks).bind (·[partition]?) = marks[partition]? := by
  split
  · rename_i empty
    rw [Std.ExtTreeMap.isEmpty_iff.mp empty]
    simp
  · rfl

theorem get_mergeMarks {lows highs : Found} {topic : String} {partition : Int}
    {marks : Watermarks} :
    (WatermarkTable.mk (mergeMarks lows highs)).get topic partition = some marks ↔
      highs.at topic partition = some marks.high ∧
        marks.low = (lows.at topic partition).getD marks.high ∧ marks.low ≤ marks.high := by
  obtain ⟨low, high⟩ := marks
  unfold WatermarkTable.get mergeMarks
  rw [Std.ExtTreeMap.getElem?_filterMap']
  cases known : highs[topic]? with
  | none => simp [Found.at, known]
  | some partitions =>
    have shown : highs.at topic partition = partitions[partition]? := by simp [Found.at, known]
    rw [Option.bind_some, bind_nonempty, Std.ExtTreeMap.getElem?_filterMap', ← shown]
    cases highs.at topic partition with
    | none => simp
    | some found =>
      simp only [Option.bind_some, Option.ite_none_right_eq_some, Option.some.injEq,
        Scan.Watermarks.mk.injEq]
      constructor
      · rintro ⟨ordered, rfl, rfl⟩
        exact ⟨rfl, rfl, ordered⟩
      · rintro ⟨rfl, rfl, ordered⟩
        exact ⟨ordered, rfl, rfl⟩

theorem at_knownLows (previous : WatermarkTable) (highs : Found) (topic : String) (partition : Int) :
    (knownLows previous highs).at topic partition =
      (highs.at topic partition).bind (cachedLow previous topic partition) := by
  unfold Found.at knownLows
  rw [Std.ExtTreeMap.getElem?_map]
  cases highs[topic]? with
  | none => rfl
  | some partitions =>
    simp only [Option.map_some, Option.bind_some, Std.ExtTreeMap.getElem?_filterMap']

/-- Every offset that is found, with its topic and partition. -/
def Found.entries (found : Found) : List (String × Int × Int) :=
  found.toList.flatMap fun entry => entry.2.toList.map fun low => (entry.1, low)

theorem Found.mem_entries {found : Found} {topic : String} {partition low : Int} :
    (topic, partition, low) ∈ found.entries ↔ found.at topic partition = some low := by
  simp only [Found.entries, List.mem_flatMap, List.mem_map, Prod.mk.injEq, Prod.exists,
    Std.ExtTreeMap.mem_toList_iff_getElem?_eq_some, Found.at, Option.bind_eq_some_iff]
  constructor
  · rintro ⟨name, partitions, held, number, offset, found, rfl, rfl, rfl⟩
    exact ⟨partitions, held, found⟩
  · rintro ⟨partitions, held, found⟩
    exact ⟨topic, partitions, held, partition, low, found, rfl, rfl, rfl⟩

/-- Lows that are read come from what was found or from what was known before. -/
theorem at_extendLows {lows found : Found} {topic : String} {partition low : Int}
    (held : (extendLows lows found).at topic partition = some low) :
    found.at topic partition = some low ∨ lows.at topic partition = some low := by
  rw [← Found.mem_entries]
  change (found.entries.foldl _ lows : Found).at topic partition = some low at held
  generalize found.entries = listed at held ⊢
  induction listed generalizing lows with
  | nil => exact .inr held
  | cons next listed ih =>
    rcases ih held with later | before
    · exact .inl (List.mem_cons_of_mem next later)
    · rw [Found.at_insert] at before
      split at before
      · rename_i same
        obtain ⟨rfl, rfl⟩ := Prod.mk.inj same
        obtain rfl := Option.some.inj before
        exact .inl List.mem_cons_self
      · exact .inr before

theorem isSome_at_extendLows {lows found : Found} {topic : String} {partition : Int}
    (given : (found.at topic partition).isSome ∨ (lows.at topic partition).isSome) :
    ((extendLows lows found).at topic partition).isSome := by
  replace given : (∃ low, (topic, partition, low) ∈ found.entries) ∨
      (lows.at topic partition).isSome :=
    given.imp_left fun held => by
      simpa only [Found.mem_entries] using Option.isSome_iff_exists.mp held
  change ((found.entries.foldl _ lows : Found).at topic partition).isSome
  generalize found.entries = listed at given ⊢
  induction listed generalizing lows with
  | nil =>
    rcases given with ⟨low, listed⟩ | held
    · contradiction
    · exact held
  | cons next listed ih =>
    -- Once there is a low for the partition, later ones can only replace it.
    refine ih ?_
    rw [Found.at_insert]
    rcases given with ⟨low, here⟩ | before
    · rcases List.mem_cons.mp here with rfl | later
      · exact .inr (by simp)
      · exact .inl ⟨low, later⟩
    · refine .inr ?_
      split
      · rfl
      · exact before

theorem cachedLow_eq_some {previous : WatermarkTable} {topic : String} {partition high low : Int}
    (cached : cachedLow previous topic partition high = some low) :
    ∃ marks, previous.get topic partition = some marks ∧ marks.low = low := by
  unfold cachedLow at cached
  split at cached
  · rename_i marks held
    split at cached
    · exact ⟨marks, held, Option.some.inj cached⟩
    · contradiction
  · contradiction

/-- With nothing to look up, every low is cached. -/
theorem isSome_cachedLow {previous : WatermarkTable} {highs : Found}
    (nothing : uncached previous highs = []) {topic : String} {partition high : Int}
    (held : highs.at topic partition = some high) :
    (cachedLow previous topic partition high).isSome := by
  obtain ⟨partitions, known, found⟩ := Option.bind_eq_some_iff.mp held
  have listed := Std.ExtTreeMap.mem_toList_iff_getElem?_eq_some.mpr known
  have missing := List.filterMap_eq_nil_iff.mp nothing _ listed
  dsimp only at missing
  split at missing
  · rename_i none_
    by_contra unknown
    have within : partition ∈ (partitions.filter fun partition high =>
        (cachedLow previous topic partition high).isNone).keys := by
      rw [Std.ExtTreeMap.mem_keys, Std.ExtTreeMap.mem_iff_isSome_getElem?,
        Std.ExtTreeMap.getElem?_filter', found]
      simpa [Option.filter] using unknown
    rw [List.isEmpty_iff.mp none_] at within
    contradiction
  · contradiction

/-- The lows that Kafka answers one lookup with. -/
def answeredLows (listed : List TopicPartition → OffsetSpec → Except String (List Listed))
    (wanted : Wanted) : List (TopicPartition × Int) :=
  if (offsetSpecs wanted).isEmpty then []
  else match listed (offsetSpecs wanted) .earliest with
    | .ok entries => entries.filterMap fun entry =>
        entry.2.toOption.map fun low => (entry.1, low.1)
    | .error _ => []

theorem mem_answeredLows {listed : List TopicPartition → OffsetSpec → Except String (List Listed)}
    {wanted : Wanted} {lookup : OffsetLookup} (found : listOffsets listed wanted .earliest = .ok lookup)
    {topic : String} {partition low : Int}
    (held : Found.at lookup.found topic partition = some low) :
    ((topic, partition), low) ∈ answeredLows listed wanted := by
  rw [found_at] at held
  unfold listOffsets at found
  dsimp only at found
  unfold answeredLows
  split at found
  · obtain rfl := Except.ok.inj found
    simp [OffsetLookup.offsets, OffsetLookup.default] at held
  · rename_i asked
    rw [if_neg asked]
    cases answered : listed (offsetSpecs wanted) .earliest with
    | error error => rw [answered] at found; contradiction
    | ok entries =>
      rw [answered] at found
      obtain rfl := Except.ok.inj found
      obtain ⟨value, rfl, within⟩ := mem_of_logOffsets held
      exact List.mem_filterMap.mpr ⟨_, within, rfl⟩

namespace WatermarkState

/-- The table whose lows the next poll goes by. -/
def cache (state : WatermarkState) (next : WatermarkPoll) : Option WatermarkTable :=
  state.lane.cache next state.watermarks.load

/-- The low that the next poll has for a partition before it asks Kafka. -/
def knownLow (state : WatermarkState) (next : WatermarkPoll) (topic : String)
    (partition high : Int) : Option Int :=
  (state.cache next).bind fun previous => cachedLow previous topic partition high

/-- The partitions whose lows the next poll looks up, if it comes to that. -/
def lowWanted (state : WatermarkState) (next : WatermarkPoll) : Option Wanted :=
  match state.cache next with
  | none => some next.wanted
  | some previous =>
    match listOffsets next.listed next.wanted .latest with
    | .ok highs =>
      let missing := uncached previous highs.found
      if missing.isEmpty then none else some missing
    | .error _ => none

/-- The lows that Kafka answers the next poll with. -/
def answered (state : WatermarkState) (next : WatermarkPoll) : List (TopicPartition × Int) :=
  ((state.lowWanted next).map (answeredLows next.listed)).getD []

/-- Kafka answers for each low that the next poll needs: where it answers for the
end of a log and the poll has no start for it, it answers for the start too. -/
def LowsAnswered (state : WatermarkState) (next : WatermarkPoll) : Prop :=
  ∀ wanted lows highs, state.lowWanted next = some wanted →
    listOffsets next.listed wanted .earliest = .ok lows →
    listOffsets next.listed next.wanted .latest = .ok highs →
    ∀ topic partition high, Found.at highs.found topic partition = some high →
      state.knownLow next topic partition high = none →
      (Found.at lows.found topic partition).isSome

/-- What the next poll shows of a partition, by the lows that it has. -/
inductive Fetched (state : WatermarkState) (next : WatermarkPoll) (table : WatermarkTable) : Prop where
  | all {lows highs : OffsetLookup} (full : state.cache next = none)
      (low : listOffsets next.listed next.wanted .earliest = .ok lows)
      (high : listOffsets next.listed next.wanted .latest = .ok highs)
      (merged : table = ⟨mergeMarks lows.found highs.found⟩)
  | cached {previous : WatermarkTable} {highs : OffsetLookup}
      (held : state.cache next = some previous)
      (high : listOffsets next.listed next.wanted .latest = .ok highs)
      (nothing : uncached previous highs.found = [])
      (merged : table = ⟨mergeMarks (knownLows previous highs.found) highs.found⟩)
  | topped {previous : WatermarkTable} {lows highs : OffsetLookup}
      (held : state.cache next = some previous)
      (high : listOffsets next.listed next.wanted .latest = .ok highs)
      (missing : uncached previous highs.found ≠ [])
      (low : listOffsets next.listed (uncached previous highs.found) .earliest = .ok lows)
      (merged : table =
        ⟨mergeMarks (extendLows (knownLows previous highs.found) lows.found) highs.found⟩)

variable {state : WatermarkState} {next : WatermarkPoll} {table : WatermarkTable}

theorem fetched (read : (state.lane.fetch next state.watermarks.load).2 = .ok table) :
    state.Fetched next table := by
  unfold WatermarkLane.fetch at read
  cases held : state.lane.cache next state.watermarks.load with
  | none =>
    rw [held] at read
    dsimp only at read
    split at read
    · rename_i marks both
      obtain ⟨lows, low, rest⟩ := Except.bind_ok both
      obtain ⟨highs, high, rest⟩ := Except.bind_ok rest
      obtain rfl := Except.ok.inj read
      obtain rfl := Except.ok.inj rest
      exact .all held low high rfl
    · contradiction
  | some previous =>
    rw [held] at read
    dsimp only at read
    cases marked : next.readHigh previous with
    | error error => rw [marked] at read; contradiction
    | ok marks =>
      rw [marked] at read
      obtain rfl := Except.ok.inj read
      obtain ⟨highs, high, rest⟩ := Except.bind_ok marked
      obtain ⟨lows, low, rest⟩ := Except.bind_ok rest
      obtain rfl := Except.ok.inj rest
      unfold WatermarkPoll.readLows at low
      split at low
      · rename_i nothing
        obtain rfl := Except.ok.inj low
        exact .cached held high (List.isEmpty_iff.mp nothing) rfl
      · rename_i missing
        cases looked : listOffsets next.listed (uncached previous highs.found) .earliest with
        | error error => rw [looked] at low; contradiction
        | ok lookup =>
          rw [looked] at low
          obtain rfl := Except.ok.inj low
          exact .topped held high (by simpa using missing) looked rfl

theorem load_of_cache {previous : WatermarkTable} (held : state.cache next = some previous) :
    state.watermarks.load = some previous :=
  (Option.filter_eq_some_iff.mp held).1

theorem lowWanted_topped {previous : WatermarkTable} {highs : OffsetLookup}
    (held : state.cache next = some previous)
    (high : listOffsets next.listed next.wanted .latest = .ok highs)
    (missing : uncached previous highs.found ≠ []) :
    state.lowWanted next = some (uncached previous highs.found) := by
  rw [lowWanted, held]
  dsimp only
  rw [high]
  exact if_neg (by simpa using missing)

theorem mem_answered {wanted : Wanted} {lows : OffsetLookup}
    (wants : state.lowWanted next = some wanted)
    (low : listOffsets next.listed wanted .earliest = .ok lows) {topic : String}
    {partition offset : Int} (held : Found.at lows.found topic partition = some offset) :
    ((topic, partition), offset) ∈ state.answered next := by
  rw [answered, wants]
  exact mem_answeredLows low held

/-- The low is an answer of this poll, or that of the table before. -/
def Stems (state : WatermarkState) (next : WatermarkPoll) (topic : String)
    (partition low : Int) : Prop :=
  ((topic, partition), low) ∈ state.answered next ∨
    ∃ previous cached, state.watermarks.load = some previous ∧
      previous.get topic partition = some cached ∧ cached.low = low

theorem stems_of_cachedLow {previous : WatermarkTable} (held : state.cache next = some previous)
    {topic : String} {partition high low : Int}
    (cached : cachedLow previous topic partition high = some low) :
    state.Stems next topic partition low := by
  obtain ⟨marks, found, same⟩ := cachedLow_eq_some cached
  exact .inr ⟨previous, marks, load_of_cache held, found, same⟩

/-- One poll: where Kafka answers for each low that is needed, each low shown
stems from an answer. -/
theorem Fetched.stems (fetched : state.Fetched next table) (answers : state.LowsAnswered next)
    {topic : String} {partition : Int} {marks : Watermarks}
    (shown : table.get topic partition = some marks) :
    marks.low ≤ marks.high ∧ state.Stems next topic partition marks.low := by
  cases fetched with
  | all full low high merged =>
    subst merged
    obtain ⟨held, fallen, ordered⟩ := get_mergeMarks.mp shown
    have wants : state.lowWanted next = some next.wanted := by rw [lowWanted, full]
    have unknown : state.knownLow next topic partition marks.high = none := by
      rw [knownLow, full]
      rfl
    obtain ⟨offset, found⟩ := Option.isSome_iff_exists.mp
      (answers _ _ _ wants low high topic partition marks.high held unknown)
    rw [found, Option.getD_some] at fallen
    exact ⟨ordered, .inl (mem_answered wants low (fallen ▸ found))⟩
  | cached before high nothing merged =>
    subst merged
    obtain ⟨held, fallen, ordered⟩ := get_mergeMarks.mp shown
    obtain ⟨offset, cached⟩ := Option.isSome_iff_exists.mp (isSome_cachedLow nothing held)
    rw [at_knownLows, held, Option.bind_some, cached, Option.getD_some] at fallen
    exact ⟨ordered, stems_of_cachedLow before (fallen ▸ cached)⟩
  | @topped previous lows highs before high missing low merged =>
    subst merged
    obtain ⟨held, fallen, ordered⟩ := get_mergeMarks.mp shown
    have wants := lowWanted_topped before high missing
    have known : (knownLows previous highs.found).at topic partition =
        cachedLow previous topic partition marks.high := by
      rw [at_knownLows, held, Option.bind_some]
    have some_ : (Found.at lows.found topic partition).isSome ∨
        ((knownLows previous highs.found).at topic partition).isSome := by
      cases cached : cachedLow previous topic partition marks.high with
      | some offset => exact .inr (by rw [known, cached]; rfl)
      | none =>
        refine .inl (answers _ _ _ wants low high topic partition marks.high held ?_)
        rw [knownLow, before, Option.bind_some, cached]
    obtain ⟨offset, found⟩ := Option.isSome_iff_exists.mp (isSome_at_extendLows some_)
    rw [found, Option.getD_some] at fallen
    rw [fallen]
    refine ⟨fallen ▸ ordered, ?_⟩
    rcases at_extendLows found with read | cached
    · exact .inl (mem_answered wants low read)
    · exact stems_of_cachedLow before (known.symm.trans cached)

/-- Where Kafka does not answer for a low that is needed, the partition is shown
as empty. -/
theorem Fetched.empty (fetched : state.Fetched next table) {wanted : Wanted}
    {lows highs : OffsetLookup} (wants : state.lowWanted next = some wanted)
    (low : listOffsets next.listed wanted .earliest = .ok lows)
    (high : listOffsets next.listed next.wanted .latest = .ok highs) {topic : String}
    {partition offset : Int} (held : Found.at highs.found topic partition = some offset)
    (unknown : state.knownLow next topic partition offset = none)
    (unanswered : Found.at lows.found topic partition = none) :
    table.get topic partition = some ⟨offset, offset⟩ := by
  cases fetched with
  | all full low' high' merged =>
    subst merged
    rw [lowWanted, full] at wants
    obtain rfl := Option.some.inj wants
    obtain rfl := Except.ok.inj (low.symm.trans low')
    obtain rfl := Except.ok.inj (high.symm.trans high')
    exact get_mergeMarks.mpr ⟨held, by rw [unanswered, Option.getD_none], le_rfl⟩
  | cached before high' nothing merged =>
    obtain rfl := Except.ok.inj (high.symm.trans high')
    rw [knownLow, before, Option.bind_some] at unknown
    exact absurd (isSome_cachedLow nothing held) (by simp [unknown])
  | @topped previous lows' highs' before high' missing low' merged =>
    subst merged
    obtain rfl := Except.ok.inj (high.symm.trans high')
    obtain rfl := Option.some.inj ((lowWanted_topped before high missing).symm.trans wants)
    obtain rfl := Except.ok.inj (low.symm.trans low')
    have nothing : (extendLows (knownLows previous highs.found) lows.found).at topic partition =
        none := by
      refine Option.eq_none_iff_forall_ne_some.mpr fun found read => ?_
      rcases at_extendLows read with answered | known
      · exact absurd (answered.symm.trans unanswered) (by simp)
      · rw [at_knownLows, held, Option.bind_some] at known
        rw [knownLow, before, Option.bind_some] at unknown
        exact absurd (known.symm.trans unknown) (by simp)
    exact get_mergeMarks.mpr ⟨held, by rw [nothing, Option.getD_none], le_rfl⟩

theorem table_poll (polled : (state.poll next).watermarks.load = some table) :
    state.Fetched next table ∨ state.watermarks.load = some table := by
  have committed : (state.poll next).watermarks = (Ingest.poll (WatermarkLane.diff
      (state.lane.fetch next state.watermarks.load).1 next.comparedAt) state.watermarks
      (.untimed (state.lane.fetch next state.watermarks.load).2)).1 := rfl
  rw [committed] at polled
  exact (load_poll _ polled).imp_left WatermarkState.fetched

end WatermarkState

section Runs
variable (lowInterval idleHeartbeat : Nat)

/-- The lows that Kafka has answered with, in any poll so far. -/
def lowsReturned : List WatermarkPoll → List (TopicPartition × Int)
  | [] => []
  | next :: earlier =>
    (watermarkPolls lowInterval idleHeartbeat earlier).answered next ++ lowsReturned earlier

/-- Each poll of the run has its lows answered. -/
def EveryLowAnswered : List WatermarkPoll → Prop
  | [] => True
  | next :: earlier =>
    (watermarkPolls lowInterval idleHeartbeat earlier).LowsAnswered next ∧ EveryLowAnswered earlier

/-- Every mark of the table has a low that Kafka answered with. -/
def Genuine (polls : List WatermarkPoll) : Prop :=
  ∀ table topic partition marks,
    (watermarkPolls lowInterval idleHeartbeat polls).watermarks.load = some table →
    table.get topic partition = some marks →
    marks.low ≤ marks.high ∧
      ((topic, partition), marks.low) ∈ lowsReturned lowInterval idleHeartbeat polls

theorem genuine_of_everyLowAnswered (polls : List WatermarkPoll)
    (answered : EveryLowAnswered lowInterval idleHeartbeat polls) :
    Genuine lowInterval idleHeartbeat polls := by
  induction polls with
  | nil =>
    intro table topic partition marks held
    contradiction
  | cons next earlier ih =>
    obtain ⟨here, before⟩ := answered
    intro table topic partition marks held shown
    rcases WatermarkState.table_poll held with fetched | kept
    · obtain ⟨ordered, stems⟩ := fetched.stems here shown
      refine ⟨ordered, List.mem_append.mpr ?_⟩
      rcases stems with now | ⟨previous, cached, load, found, same⟩
      · exact .inl now
      · rw [← same]
        exact .inr (ih before previous topic partition cached load found).2
    · obtain ⟨ordered, returned⟩ := ih before table topic partition marks kept shown
      exact ⟨ordered, List.mem_append_right _ returned⟩

end Runs

/-- A poll of one partition, that answers for the end of its log and, unless it
is denied, for its start. -/
def marksPoll (now : Nat) (low : Except KrafkaError I64) (high : I64) : WatermarkPoll where
  topology := .assemble ⟨[], [⟨"orders", false, [⟨0, 1, [1], [1]⟩]⟩]⟩ []
  offsets := none
  refresh := false
  now
  comparedAt := now
  publishedAt := now
  listed partitions spec := .ok (partitions.map fun partition =>
    (partition, if spec = .earliest then low else .ok high))

def denied : KrafkaError := .broker (.other 29) "TopicAuthorizationFailed"

/-- The low of a growing log, read once and shown as it was read. -/
theorem answered_low_stays_shown :
    let polls := [marksPoll 5 (.ok ⟨10, by decide⟩) ⟨60, by decide⟩,
      marksPoll 0 (.ok ⟨10, by decide⟩) ⟨50, by decide⟩]
    EveryLowAnswered 60 10 polls ∧ Genuine 60 10 polls ∧
      (watermarkPolls 60 10 polls).watermarks.load.bind (·.get "orders" 0) = some ⟨10, 60⟩ := by
  intro polls
  have answered : EveryLowAnswered 60 10 polls := by
    refine ⟨?_, ?_, trivial⟩
    · intro wanted lows highs wants
      have nothing : (watermarkPolls 60 10 [marksPoll 0 (.ok ⟨10, by decide⟩) ⟨50, by decide⟩]).lowWanted
          (marksPoll 5 (.ok ⟨10, by decide⟩) ⟨60, by decide⟩) = none := by
        decide +kernel
      rw [nothing] at wants
      contradiction
    · intro wanted lows highs wants low high topic partition offset held _
      have asked : (watermarkPolls 60 10 []).lowWanted
          (marksPoll 0 (.ok ⟨10, by decide⟩) ⟨50, by decide⟩) = some [("orders", [0])] := by
        decide
      obtain rfl := Option.some.inj (asked.symm.trans wants)
      let first := marksPoll 0 (.ok ⟨10, by decide⟩) ⟨50, by decide⟩
      have ends : (listOffsets first.listed first.wanted .latest).map
          (fun lookup => Found.entries lookup.found) = .ok [("orders", 0, 50)] := by
        decide
      have starts : (listOffsets first.listed [("orders", [0])] .earliest).map
          (fun lookup => Found.entries lookup.found) = .ok [("orders", 0, 10)] := by
        decide
      rw [high] at ends
      rw [low] at starts
      have ending : Found.entries highs.found = [("orders", 0, 50)] := Except.ok.inj ends
      have starting : Found.entries lows.found = [("orders", 0, 10)] := Except.ok.inj starts
      have within := Found.mem_entries.mpr held
      rw [ending] at within
      obtain ⟨rfl, rfl, -⟩ : topic = "orders" ∧ partition = 0 ∧ offset = 50 := by
        simpa using within
      have start : Found.at lows.found "orders" 0 = some 10 :=
        Found.mem_entries.mp (by rw [starting]; exact List.mem_singleton_self _)
      rw [start]
      rfl
  exact ⟨answered, genuine_of_everyLowAnswered 60 10 polls answered, by decide +kernel⟩

/-- One denied lookup of a low shows the log as empty up to where it ended then,
also once it has grown. -/
theorem denied_low_stays_shown :
    ¬ ∀ (lowInterval idleHeartbeat : Nat) (polls : List WatermarkPoll),
      Genuine lowInterval idleHeartbeat polls := by
  intro genuine
  let polls := [marksPoll 5 (.error denied) ⟨60, by decide⟩, marksPoll 0 (.error denied) ⟨50, by decide⟩]
  have shown : (watermarkPolls 60 10 polls).watermarks.load.bind (·.get "orders" 0) =
      some ⟨50, 60⟩ := by
    decide +kernel
  have nothing : lowsReturned 60 10 polls = [] := by decide +kernel
  obtain ⟨table, held, mark⟩ := Option.bind_eq_some_iff.mp shown
  have returned := (genuine 60 10 polls table "orders" 0 ⟨50, 60⟩ held mark).2
  rw [nothing] at returned
  contradiction

end Klens.Ingest
