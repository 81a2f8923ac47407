import Klens.Ingest.Offsets
import Klens.Lib.Maps

/-! Over any run of sweeps, every group holds what was last read for it, and
what was last published of it is its lag. -/
namespace Klens.Ingest
open Klens.Lib Klens.Store Std

section Sorting
variable (previous : Option OffsetTable)

/-- What a group holds once its answer, if any, is sorted in. -/
def outcome (answer : Option (Option (List CommittedOffset))) (id : String) :
    Option GroupOffsets :=
  match answer with
  | some (some committed) => some { committed }
  | _ => previous.bind (·.get id)

namespace Sorted

private theorem getElem?_insert_eq (groups : ExtTreeMap String GroupOffsets) (id other : String)
    (offsets : GroupOffsets) : (groups.insert id offsets)[other]? =
      if other = id then some offsets else groups[other]? := by
  rw [ExtTreeMap.getElem?_insert]
  rcases eq_or_ne other id with rfl | apart
  · simp
  · simp [apart, Ne.symm apart]

private theorem keep_fields (sorted : Sorted) (id : String) :
    (sorted.keep previous id).fetched = sorted.fetched ∧
    (sorted.keep previous id).refreshed = sorted.refreshed ∧
    (sorted.keep previous id).failed = sorted.failed ∧
    ∀ other, (sorted.keep previous id).groups[other]? =
      if other = id then (previous.bind (·.get id)).or sorted.groups[id]?
      else sorted.groups[other]? := by
  unfold keep
  cases previous.bind (·.get id) with
  | none =>
    refine ⟨rfl, rfl, rfl, fun other => ?_⟩
    split <;> simp_all
  | some kept => exact ⟨rfl, rfl, rfl, fun other => getElem?_insert_eq _ _ _ _⟩

/-- What one group of the loop adds. -/
private theorem sort_fields (sorted : Sorted) (id : String) :
    (sort previous sorted id).fetched = sorted.fetched.erase id ∧
    (sort previous sorted id).refreshed =
      sorted.refreshed ++ (if (sorted.fetched[id]?.getD none).isSome then [id] else []) ∧
    (sort previous sorted id).failed =
      sorted.failed ++ (if sorted.fetched[id]? = some none then [id] else []) ∧
    ∀ other, (sort previous sorted id).groups[other]? =
      if other = id then (outcome previous sorted.fetched[id]? id).or sorted.groups[id]?
      else sorted.groups[other]? := by
  unfold sort
  rcases answer : sorted.fetched[id]? with _ | _ | committed
  · obtain ⟨fetched, refreshed, failed, groups⟩ :=
      keep_fields previous { sorted with fetched := sorted.fetched.erase id } id
    simp [fetched, refreshed, failed, groups, outcome]
  · obtain ⟨fetched, refreshed, failed, groups⟩ := keep_fields previous
      { sorted with fetched := sorted.fetched.erase id, failed := sorted.failed ++ [id] } id
    simp [fetched, refreshed, failed, groups, outcome]
  · exact ⟨rfl, by simp, by simp, fun other => getElem?_insert_eq _ _ _ _⟩

/-- The loop over distinct groups that nothing was sorted in for. -/
private theorem foldl_sort (ids : List String) (distinct : ids.Nodup) (sorted : Sorted)
    (fresh : ∀ id ∈ ids, sorted.groups[id]? = none) :
    (ids.foldl (sort previous) sorted).refreshed =
      sorted.refreshed ++ ids.filter (fun id => (sorted.fetched[id]?.getD none).isSome) ∧
    (ids.foldl (sort previous) sorted).failed =
      sorted.failed ++ ids.filter (fun id => decide (sorted.fetched[id]? = some none)) ∧
    ∀ id, (ids.foldl (sort previous) sorted).groups[id]? =
      if id ∈ ids then outcome previous sorted.fetched[id]? id else sorted.groups[id]? := by
  induction ids generalizing sorted with
  | nil => simp
  | cons head ids ih =>
    obtain ⟨apart, rest⟩ := List.nodup_cons.mp distinct
    obtain ⟨fetched, refreshed, failed, groups⟩ := sort_fields previous sorted head
    have other : ∀ id ∈ ids, id ≠ head := by
      rintro _ listed rfl
      exact apart listed
    have untouched : ∀ id ∈ ids, (sorted.fetched.erase head)[id]? = sorted.fetched[id]? := by
      intro id listed
      rw [ExtTreeMap.getElem?_erase, if_neg (mt LawfulEqCmp.eq_of_compare (other id listed).symm)]
    have later : ∀ id ∈ ids, (sort previous sorted head).groups[id]? = none := by
      intro id listed
      rw [groups, if_neg (other id listed)]
      exact fresh id (.tail _ listed)
    obtain ⟨one, two, three⟩ := ih rest (sort previous sorted head) later
    rw [fetched] at one two three
    rw [List.foldl_cons, one, two, refreshed, failed]
    refine ⟨?_, ?_, fun id => ?_⟩
    · rw [List.filter_congr fun id listed => by rw [untouched id listed], List.append_assoc,
        List.filter_cons]
      split <;> rfl
    · rw [List.filter_congr fun id listed => by rw [untouched id listed], List.append_assoc,
        List.filter_cons]
      simp only [decide_eq_true_eq]
      split <;> rfl
    · rw [three, groups]
      by_cases listed : id ∈ ids
      · simp [listed, untouched id listed]
      · by_cases same : id = head
        · subst same
          simp [apart, fresh id (by simp)]
        · simp [listed, same]

end Sorted
end Sorting

section Publishing
variable {F : Type} [DecidableEq F] (fingerprint : GroupLagUpdate → F)
  (topology : Topology) (watermarks : Option WatermarkTable) (offsets : OffsetTable)

/-- The update of a group that says something else than the last one. -/
def movedUpdate (published : ExtTreeMap String F) (id : String) : Option GroupLagUpdate :=
  (OffsetLane.lagUpdate topology watermarks offsets id).filter fun update =>
    decide (published[id]? ≠ some (fingerprint update))

private theorem movedUpdate_eq {published : ExtTreeMap String F} {id : String}
    {update : GroupLagUpdate}
    (said : OffsetLane.lagUpdate topology watermarks offsets id = some update) :
    movedUpdate fingerprint topology watermarks offsets published id =
      if published[id]? = some (fingerprint update) then none else some update := by
  rw [movedUpdate, said]
  by_cases repeated : published[id]? = some (fingerprint update)
  · simp [repeated, Option.filter]
  · simp [repeated, Option.filter]

private theorem foldl_publishGroup (ids : List String) (distinct : ids.Nodup)
    (published : ExtTreeMap String F) (updates : List GroupLagUpdate) :
    (∀ id, (ids.foldl (OffsetLane.publishGroup fingerprint topology watermarks offsets)
        (published, updates)).1[id]? =
      if id ∈ ids then
        ((OffsetLane.lagUpdate topology watermarks offsets id).map fingerprint).or published[id]?
      else published[id]?) ∧
    (ids.foldl (OffsetLane.publishGroup fingerprint topology watermarks offsets)
        (published, updates)).2 =
      updates ++ ids.filterMap (movedUpdate fingerprint topology watermarks offsets published) := by
  induction ids generalizing published updates with
  | nil => simp
  | cons head ids ih =>
    obtain ⟨apart, rest⟩ := List.nodup_cons.mp distinct
    rw [List.foldl_cons, OffsetLane.publishGroup]
    cases said : OffsetLane.lagUpdate topology watermarks offsets head with
    | none =>
      obtain ⟨one, two⟩ := ih rest published updates
      refine ⟨fun id => ?_, ?_⟩
      · rw [one]
        by_cases same : id = head
        · subst same
          simp [apart, said]
        · simp [same]
      · rw [two, List.filterMap_cons]
        simp [movedUpdate, said]
    | some update =>
      dsimp only
      have elsewhere : ∀ id, id ≠ head → (published.insert head (fingerprint update))[id]? =
          published[id]? := by
        intro id other
        rw [ExtTreeMap.getElem?_insert, if_neg (mt LawfulEqCmp.eq_of_compare other.symm)]
      obtain ⟨one, two⟩ := ih rest (published.insert head (fingerprint update))
        (if published[head]? = some (fingerprint update) then updates else updates ++ [update])
      refine ⟨fun id => ?_, ?_⟩
      · rw [one]
        by_cases same : id = head
        · subst same
          simp [apart, said]
        · simp [same, elsewhere id same]
      · have tail : ids.filterMap (movedUpdate fingerprint topology watermarks offsets
            (published.insert head (fingerprint update))) =
            ids.filterMap (movedUpdate fingerprint topology watermarks offsets published) := by
          refine List.filterMap_congr fun id listed => ?_
          rw [movedUpdate, movedUpdate, elsewhere id fun same => apart (same ▸ listed)]
        rw [two, tail, List.filterMap_cons, movedUpdate_eq fingerprint _ _ _ said]
        by_cases repeated : published[head]? = some (fingerprint update)
        · simp [repeated]
        · simp [repeated]

private theorem lagUpdate_group {id : String} {update : GroupLagUpdate}
    (said : OffsetLane.lagUpdate topology watermarks offsets id = some update) :
    update.group = id := by
  unfold OffsetLane.lagUpdate at said
  simp only [Option.bind_eq_bind, Option.bind_eq_some_iff] at said
  obtain ⟨group, -, total, -, same⟩ := said
  exact (Option.some.inj same) ▸ rfl

/-- A group is in the updates at most once. -/
private theorem find?_moved (published : ExtTreeMap String F) (ids : List String) (id : String) :
    (ids.filterMap (movedUpdate fingerprint topology watermarks offsets published)).find?
        (fun update => update.group = id) =
      if id ∈ ids then movedUpdate fingerprint topology watermarks offsets published id
      else none := by
  have named : ∀ {id update}, movedUpdate fingerprint topology watermarks offsets published id =
      some update → update.group = id := by
    intro id update moved
    exact lagUpdate_group topology watermarks offsets (Option.filter_eq_some_iff.mp moved).1
  induction ids with
  | nil => rfl
  | cons head ids ih =>
    cases moved : movedUpdate fingerprint topology watermarks offsets published head with
    | none =>
      rw [List.filterMap_cons_none moved, ih]
      by_cases same : id = head
      · subst same
        simp [moved]
      · simp [same]
    | some update =>
      rw [List.filterMap_cons_some moved, List.find?_cons]
      by_cases same : id = head
      · subst same
        simp [named moved, moved]
      · have other : update.group ≠ id := fun equal => same (equal.symm.trans (named moved))
        simp [other, ih, same]

end Publishing

section Sweeping
variable {F : Type}

namespace OffsetState

/-- The groups a sweep reads. -/
def due (state : OffsetState F) (sweep : Sweep) : List String :=
  (state.lane.retain sweep.topology).dueGroups sweep.topology sweep.hot sweep.refresh sweep.pickedAt

/-- How Kafka answers when a sweep reads a group. -/
def answer (state : OffsetState F) (sweep : Sweep) (id : String) : Option (List CommittedOffset) :=
  (sweep.committedOffsets id
    (offsetFetchPartitions sweep.topology state.offsets.load id)).toOption

/-- What the store holds for a group. -/
def held (state : OffsetState F) (id : String) : Option GroupOffsets :=
  state.offsets.load.bind (·.get id)

/-- What a sweep leaves a group with. -/
def holds (state : OffsetState F) (sweep : Sweep) (id : String) : Option GroupOffsets :=
  if id ∈ sweep.topology.groups then
    outcome state.offsets.load (if id ∈ state.due sweep then some (state.answer sweep id) else none)
      id
  else none

end OffsetState

theorem mem_due {state : OffsetState F} {sweep : Sweep} {id : String}
    (due : id ∈ state.due sweep) : id ∈ sweep.topology.groups :=
  ExtTreeMap.mem_keys.mp (List.mem_of_mem_filter due)

private theorem due_nodup (state : OffsetState F) (sweep : Sweep) : (state.due sweep).Nodup :=
  ExtTreeMap.nodup_keys.filter _

/-- Every group read either answered or failed. -/
private theorem answered_perm (state : OffsetState F) (sweep : Sweep) :
    ((state.due sweep).filter (fun id => (state.answer sweep id).isSome) ++
      (state.due sweep).filter (fun id => (state.answer sweep id).isNone)).Perm
      (state.due sweep) := by
  have split := List.filter_append_perm (fun id => (state.answer sweep id).isSome) (state.due sweep)
  simpa only [Option.not_isSome] using split

private theorem staleGroups_nodup (topology : Topology) (previous : Option OffsetTable) :
    (staleGroups topology previous).Nodup := by
  cases previous with
  | none => exact .nil
  | some table => exact ExtTreeMap.nodup_keys.filter _

private theorem mem_staleGroups {topology : Topology} {previous : Option OffsetTable}
    {id : String} : id ∈ staleGroups topology previous ↔
      (previous.bind (·.get id)).isSome ∧ id ∉ topology.groups := by
  cases previous with
  | none => simp [staleGroups]
  | some table =>
    simp [staleGroups, OffsetTable.get, ← ExtTreeMap.contains_iff_mem]

private theorem staleGroups_eq_nil {topology : Topology} {table : OffsetTable}
    (none : staleGroups topology (some table) = []) {id : String} (member : id ∈ table.groups) :
    id ∈ topology.groups := by
  simp only [staleGroups, Option.map_some, Option.getD_some, List.filter_eq_nil_iff] at none
  have kept := none id (ExtTreeMap.mem_keys.mpr member)
  simpa using kept

variable [DecidableEq F] (fingerprint : GroupLagUpdate → F)

/-- All a sweep does, whether or not it had something to do. -/
structure Performs (state : OffsetState F) (sweep : Sweep) (swept : Swept F) (table : OffsetTable) :
    Prop where
  committed : swept.state.offsets.load = some table
  entries : ∀ id, table.get id = state.holds sweep id
  refreshed : swept.wave.refreshed =
    (state.due sweep).filter fun id => (state.answer sweep id).isSome
  failed : swept.wave.failed = (state.due sweep).filter fun id => (state.answer sweep id).isNone
  dropped : swept.wave.dropped = staleGroups sweep.topology state.offsets.load
  attempted : ∀ id, swept.state.lane.attemptedAt[id]? =
    if id ∈ state.due sweep then some sweep.markedAt
    else (state.lane.retain sweep.topology).attemptedAt[id]?
  published : ∀ id, swept.state.lane.published[id]? =
    if id ∈ swept.wave.refreshed then
      ((OffsetLane.lagUpdate sweep.topology sweep.watermarks table id).map fingerprint).or
        (state.lane.retain sweep.topology).published[id]?
    else (state.lane.retain sweep.topology).published[id]?
  updates : swept.updates = swept.wave.refreshed.filterMap (movedUpdate fingerprint sweep.topology
    sweep.watermarks table (state.lane.retain sweep.topology).published)

/-- A sweep with nothing to do leaves everything as it is described. -/
private theorem performs_idle {state : OffsetState F} {sweep : Sweep} {table : OffsetTable}
    (previous : state.offsets.load = some table) (due : state.due sweep = [])
    (dropped : staleGroups sweep.topology state.offsets.load = []) :
    Performs fingerprint state sweep
      { state := { state with lane := state.lane.retain sweep.topology }
        wave := .empty
        updates := [] } table := by
  refine ⟨previous, fun id => ?_, by simp [due, Wave.empty], by simp [due, Wave.empty],
    by simp [dropped, Wave.empty], fun id => by simp [due], fun id => by simp [Wave.empty],
    by simp [Wave.empty]⟩
  rw [OffsetState.holds]
  split
  · simp [due, outcome, previous]
  · next absent =>
    rw [previous] at dropped
    rw [OffsetTable.get, ExtTreeMap.getElem?_eq_none]
    exact fun member => absent (staleGroups_eq_nil dropped member)

omit [DecidableEq F] in
private theorem getElem?_fetch (state : OffsetState F) (sweep : Sweep) (id : String) :
    (OffsetLane.fetch sweep state.offsets.load (state.due sweep))[id]? =
      if id ∈ state.due sweep then some (state.answer sweep id) else none :=
  Maps.getElem?_ofList_map _ (state.answer sweep) id

omit [DecidableEq F] in
private theorem filter_due (state : OffsetState F) (sweep : Sweep) {keep keep' : String → Bool}
    (inside : ∀ id, id ∈ state.due sweep → keep id = keep' id)
    (outside : ∀ id, id ∉ state.due sweep → keep id = false) :
    sweep.topology.groups.keys.filter keep = (state.due sweep).filter keep' := by
  rw [← List.filter_congr inside, OffsetState.due, OffsetLane.dueGroups, List.filter_filter]
  refine List.filter_congr fun id listed => ?_
  by_cases due : id ∈ state.due sweep
  · rw [(List.mem_filter.mp due).2, Bool.and_true]
  · simp [outside id due]

/-- Where the loop over the topology's groups ends. -/
private def sortedBy (state : OffsetState F) (sweep : Sweep) : Sorted :=
  sweep.topology.groups.keys.foldl (Sorted.sort state.offsets.load)
    { fetched := OffsetLane.fetch sweep state.offsets.load (state.due sweep)
      groups := ∅, refreshed := [], failed := [] }

omit [DecidableEq F] in
private theorem sortedBy_fields (state : OffsetState F) (sweep : Sweep) :
    (sortedBy state sweep).refreshed =
      (state.due sweep).filter (fun id => (state.answer sweep id).isSome) ∧
    (sortedBy state sweep).failed =
      (state.due sweep).filter (fun id => (state.answer sweep id).isNone) ∧
    ∀ id, (sortedBy state sweep).groups[id]? = state.holds sweep id := by
  obtain ⟨refreshed, failed, groups⟩ := Sorted.foldl_sort state.offsets.load
    sweep.topology.groups.keys ExtTreeMap.nodup_keys
    { fetched := OffsetLane.fetch sweep state.offsets.load (state.due sweep)
      groups := ∅, refreshed := [], failed := [] } (by simp)
  simp only [getElem?_fetch] at refreshed failed groups
  refine ⟨refreshed.trans ?_, failed.trans ?_, fun id => (groups id).trans ?_⟩
  · exact filter_due state sweep (fun id due => by simp [due]) (fun id idle => by simp [idle])
  · exact filter_due state sweep (fun id due => by
      cases state.answer sweep id <;> simp [due]) (fun id idle => by simp [idle])
  · simp [OffsetState.holds]

private theorem foldl_attempt (ids : List String) (now : Nat) (attempted : ExtTreeMap String Nat)
    (id : String) : (ids.foldl (fun attempted id => attempted.insert id now) attempted)[id]? =
      if id ∈ ids then some now else attempted[id]? := by
  induction ids generalizing attempted with
  | nil => simp
  | cons head ids ih =>
    rw [List.foldl_cons, ih, ExtTreeMap.getElem?_insert]
    by_cases same : id = head
    · subst same
      simp
    · simp [same, Ne.symm same]

/-- Everything a sweep does is described, with the table it leaves. -/
theorem sweep_performs (state : OffsetState F) (sweep : Sweep) :
    ∃ table, Performs fingerprint state sweep (state.sweep fingerprint sweep) table := by
  have split : state.sweep fingerprint sweep = if (state.due sweep).isEmpty &&
      (staleGroups sweep.topology state.offsets.load).isEmpty && state.offsets.load.isSome then _
      else _ := rfl
  rw [split]
  by_cases idle : ((state.due sweep).isEmpty &&
      (staleGroups sweep.topology state.offsets.load).isEmpty && state.offsets.load.isSome) = true
  · rw [if_pos idle]
    simp only [Bool.and_eq_true, List.isEmpty_iff, Option.isSome_iff_exists] at idle
    obtain ⟨⟨due, dropped⟩, table, previous⟩ := idle
    exact ⟨table, performs_idle fingerprint previous due dropped⟩
  · rw [if_neg idle]
    obtain ⟨refreshed, failed, groups⟩ := sortedBy_fields state sweep
    have distinct : (sortedBy state sweep).refreshed.Nodup := by
      rw [refreshed]
      exact (due_nodup state sweep).filter _
    obtain ⟨published, updates⟩ := foldl_publishGroup fingerprint sweep.topology sweep.watermarks
      { groups := (sortedBy state sweep).groups } (sortedBy state sweep).refreshed distinct
      (state.lane.retain sweep.topology).published []
    refine ⟨{ groups := (sortedBy state sweep).groups }, rfl, groups, refreshed, failed, rfl,
      fun id => ?_, published, updates⟩
    exact foldl_attempt _ _ _ _

/-- The last update published for a group since it last appeared in the
topology, over sweeps listed latest first. -/
def lastUpdate (fast slow : Nat) (id : String) : List Sweep → Option GroupLagUpdate
  | [] => none
  | sweep :: earlier =>
    if id ∈ sweep.topology.groups then
      (((sweeps fingerprint fast slow earlier).sweep fingerprint sweep).updates.find? fun update =>
        update.group = id).or (lastUpdate fast slow id earlier)
    else none

/-- What holds once a sweep is over: of its table, its wave, and what is known
of each group it refreshed. `last` is the sweep before it. -/
structure RightAfter (last : Option Sweep) (before : OffsetState F) (sweep : Sweep)
    (swept : Swept F) (lastUpdate : String → Option GroupLagUpdate) : Prop where
  keys : ∀ id, (swept.state.held id).isSome → id ∈ sweep.topology.groups
  fetched : ∀ id ∈ before.due sweep, ∀ committed, before.answer sweep id = some committed →
    swept.state.held id = some { committed }
  kept : ∀ id ∈ sweep.topology.groups,
    (id ∉ before.due sweep ∨ before.answer sweep id = none) → swept.state.held id = before.held id
  returned : ∀ id ∈ sweep.topology.groups, (∀ earlier ∈ last, id ∉ earlier.topology.groups) →
    id ∈ before.due sweep
  partition : (swept.wave.refreshed ++ swept.wave.failed).Perm (before.due sweep)
  distinct : (swept.wave.refreshed ++ swept.wave.failed).Nodup
  dropped : swept.wave.dropped.Nodup ∧ ∀ id, id ∈ swept.wave.dropped ↔
    (before.held id).isSome ∧ id ∉ sweep.topology.groups
  published : ∀ id ∈ swept.wave.refreshed, ∃ group table total,
    sweep.topology.groups[id]? = some group ∧ swept.state.offsets.load = some table ∧
    (GroupLag.project group (table.get id) sweep.watermarks).total = some total ∧
    lastUpdate id = some
      { group := id
        totalLag := total
        lagComplete := (GroupLag.project group (table.get id) sweep.watermarks).complete
        offsets := (GroupLag.project group (table.get id) sweep.watermarks).offsets }

private theorem getElem?_retain {V : Type} (map : ExtTreeMap String V) (topology : Topology)
    (id : String) : (map.filter fun id _ => topology.groups.contains id)[id]? =
      if id ∈ topology.groups then map[id]? else none := by
  rw [ExtTreeMap.getElem?_filter']
  by_cases member : id ∈ topology.groups
  · cases map[id]? <;> simp [member, Option.filter]
  · simp [member, Option.filter_eq_none_iff]

/-- A group whose offsets were read has a lag, and its update says it. -/
private theorem lagUpdate_read {topology : Topology} {offsets : OffsetTable} {id : String}
    (watermarks : Option WatermarkTable) {group : GroupInfo}
    (listed : topology.groups[id]? = some group) (read : (offsets.get id).isSome) :
    ∃ total, (GroupLag.project group (offsets.get id) watermarks).total = some total ∧
      OffsetLane.lagUpdate topology watermarks offsets id = some
        { group := id
          totalLag := total
          lagComplete := (GroupLag.project group (offsets.get id) watermarks).complete
          offsets := (GroupLag.project group (offsets.get id) watermarks).offsets } := by
  obtain ⟨total, known⟩ : ∃ total,
      (GroupLag.project group (offsets.get id) watermarks).total = some total := by
    simp only [GroupLag.project, lagTotals, read, if_true, Option.some.injEq, exists_eq']
  refine ⟨total, known, ?_⟩
  rw [OffsetLane.lagUpdate, listed]
  simp only [Option.bind_eq_bind, Option.bind_some, known]

/-- What is remembered as published is the fingerprint of the last update. -/
private theorem published_sweeps (fast slow : Nat) (earlier : List Sweep) (id : String) :
    (sweeps fingerprint fast slow earlier).lane.published[id]? =
      (lastUpdate fingerprint fast slow id earlier).map fingerprint := by
  induction earlier with
  | nil => simp [sweeps, OffsetState.new, OffsetLane.new, lastUpdate]
  | cons sweep earlier ih =>
    obtain ⟨table, performs⟩ :=
      sweep_performs fingerprint (sweeps fingerprint fast slow earlier) sweep
    have retained := getElem?_retain (sweeps fingerprint fast slow earlier).lane.published
      sweep.topology id
    rw [sweeps, performs.published, lastUpdate, performs.updates, find?_moved]
    by_cases member : id ∈ sweep.topology.groups
    · rw [if_pos member] at retained ⊢
      by_cases refreshed : id ∈ ((sweeps fingerprint fast slow earlier).sweep fingerprint
        sweep).wave.refreshed
      · rw [if_pos refreshed, if_pos refreshed]
        -- The last update is this one, or an earlier one with its fingerprint.
        cases said : OffsetLane.lagUpdate sweep.topology sweep.watermarks table id with
        | none =>
          rw [movedUpdate, said, Option.filter_none, Option.none_or, Option.map_none,
            Option.none_or, ← ih]
          exact retained
        | some update =>
          rw [movedUpdate_eq fingerprint _ _ _ said, Option.map_some, Option.some_or]
          split
          · next repeated =>
            rw [Option.none_or, ← ih, ← retained]
            exact repeated.symm
          · rfl
      · rw [if_neg refreshed, if_neg refreshed, Option.none_or, ← ih]
        exact retained
    · have idle : id ∉ ((sweeps fingerprint fast slow earlier).sweep fingerprint
          sweep).wave.refreshed := by
        rw [performs.refreshed]
        exact fun listed => member (mem_due (List.mem_of_mem_filter listed))
      rw [if_neg idle, if_neg member]
      exact retained.trans (if_neg member)

/-- A group the last sweep did not see has no attempt on record. -/
private theorem attempted_sweeps (fast slow : Nat) (earlier : List Sweep) {id : String}
    (unseen : ∀ last ∈ earlier.head?, id ∉ last.topology.groups) :
    (sweeps fingerprint fast slow earlier).lane.attemptedAt[id]? = none := by
  cases earlier with
  | nil => simp [sweeps, OffsetState.new, OffsetLane.new]
  | cons last earlier =>
    obtain ⟨table, performs⟩ :=
      sweep_performs fingerprint (sweeps fingerprint fast slow earlier) last
    have gone := unseen last rfl
    rw [sweeps, performs.attempted, if_neg fun due => gone (mem_due due)]
    exact (getElem?_retain _ _ _).trans (if_neg gone)

/-- The offset lane keeps one right entry per group, over any run of sweeps. -/
theorem offset_lane_keeps_right_entries (injective : Function.Injective fingerprint)
    (fast slow : Nat) (earlier : List Sweep) (sweep : Sweep) :
    RightAfter earlier.head? (sweeps fingerprint fast slow earlier) sweep
      ((sweeps fingerprint fast slow earlier).sweep fingerprint sweep)
      (fun id => lastUpdate fingerprint fast slow id (sweep :: earlier)) := by
  obtain ⟨table, performs⟩ :=
    sweep_performs fingerprint (sweeps fingerprint fast slow earlier) sweep
  have holds : ∀ id, ((sweeps fingerprint fast slow earlier).sweep fingerprint sweep).state.held id =
      (sweeps fingerprint fast slow earlier).holds sweep id := by
    intro id
    rw [OffsetState.held, performs.committed, Option.bind_some, performs.entries]
  refine ⟨fun id known => ?_, fun id due committed answered => ?_, fun id member unread => ?_,
    fun id member unseen => ?_, ?_, ?_, ⟨?_, fun id => ?_⟩, fun id refreshed => ?_⟩
  · by_contra absent
    rw [holds, OffsetState.holds, if_neg absent] at known
    simp at known
  · rw [holds, OffsetState.holds, if_pos (mem_due due), if_pos due, answered, outcome]
  · rw [holds, OffsetState.holds, if_pos member]
    rcases unread with idle | failed
    · rw [if_neg idle, outcome, OffsetState.held]
      simp
    · rw [failed]
      split <;> simp [outcome, OffsetState.held]
  · have fresh := attempted_sweeps fingerprint fast slow earlier unseen
    refine List.mem_filter.mpr ⟨ExtTreeMap.mem_keys.mpr member, ?_⟩
    have forgotten : ((sweeps fingerprint fast slow earlier).lane.retain
        sweep.topology).attemptedAt[id]? = none := by
      rw [OffsetLane.retain, getElem?_retain, if_pos member, fresh]
    simp [OffsetLane.due, forgotten]
  · rw [performs.refreshed, performs.failed]
    exact answered_perm _ sweep
  · rw [performs.refreshed, performs.failed]
    exact (answered_perm _ sweep).nodup_iff.mpr (due_nodup _ sweep)
  · rw [performs.dropped]
    exact staleGroups_nodup _ _
  · rw [performs.dropped]
    exact mem_staleGroups
  · have read := refreshed
    rw [performs.refreshed, List.mem_filter] at read
    obtain ⟨due, answered⟩ := read
    obtain ⟨committed, answered⟩ := Option.isSome_iff_exists.mp answered
    obtain ⟨group, listed⟩ := Option.isSome_iff_exists.mp
      (ExtTreeMap.isSome_getElem?_iff_mem.mpr (mem_due due))
    have known : (table.get id).isSome := by
      rw [performs.entries, OffsetState.holds, if_pos (mem_due due), if_pos due, answered, outcome]
      rfl
    obtain ⟨total, told, said⟩ := lagUpdate_read sweep.watermarks listed known
    have remembered := published_sweeps fingerprint fast slow (sweep :: earlier) id
    rw [sweeps, performs.published, if_pos refreshed, said, Option.map_some, Option.some_or]
      at remembered
    obtain ⟨last, published, same⟩ := Option.map_eq_some_iff.mp remembered.symm
    refine ⟨group, table, total, listed, performs.committed, told, ?_⟩
    rw [published, injective same]

end Sweeping

section Examples

private def billing : GroupSnapshot :=
  { id := "billing", state := .empty, protocol := "", members := [], committed := [] }

/-- Kafka answers each read with one committed offset. -/
private def sweepOf (groups : List GroupSnapshot) (offset : Int) (now : Nat) : Sweep :=
  { topology := .assemble ⟨[], []⟩ groups
    hot := []
    refresh := false
    pickedAt := now
    markedAt := now
    committedOffsets := fun _ _ => .ok [{ topic := "orders", partition := 0, offset }]
    committedAt := now
    watermarks := none }

/-- The group goes and comes back before it would be due. -/
theorem offset_lane_keeps_right_entries_returned :
    ((sweeps id 2 30 [sweepOf [] 0 1, sweepOf [billing] 4 0]).sweep id
      (sweepOf [billing] 7 2)).state.held "billing" =
        some { committed := [{ topic := "orders", partition := 0, offset := 7 }] } ∧
    (lastUpdate id 2 30 "billing"
      [sweepOf [billing] 7 2, sweepOf [] 0 1, sweepOf [billing] 4 0]).isSome := by
  have right := offset_lane_keeps_right_entries id Function.injective_id 2 30
    [sweepOf [] 0 1, sweepOf [billing] 4 0] (sweepOf [billing] 7 2)
  refine ⟨right.fetched "billing" (by decide +kernel) _ rfl, ?_⟩
  obtain ⟨_, _, _, _, _, _, said⟩ := right.published "billing" (by decide +kernel)
  rw [said]
  rfl

end Examples
end Klens.Ingest
