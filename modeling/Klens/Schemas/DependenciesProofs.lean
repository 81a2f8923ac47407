import Klens.Schemas.Dependencies
import Mathlib.Data.Finset.Card

/-! What `dependencies` comes to: every schema that is reached is asked for once
and listed once, behind those it references when there is no cycle. -/
namespace Klens.Schemas
open Klens.Lib Klens.Store Std

/-- The schemas of a map by their references. -/
abbrev referenceGraph (schemas : SchemaMap) : Graph SchemaReference SubjectVersion Schema :=
  { key := SchemaReference.key
    node := fun key => schemas[key]?
    items := Schema.references }

namespace Crawl

section Waves
variable {seen : Finset SubjectVersion} {pending : List SchemaReference}

/-- A wave has what is pending and new, each key once. -/
structure Wave (seen : Finset SubjectVersion) (pending wave : List SchemaReference)
    (after : Finset SubjectVersion) : Prop where
  within : ∀ reference ∈ wave, reference ∈ pending
  once : (wave.map SchemaReference.key).Nodup
  fresh : ∀ key ∈ wave.map SchemaReference.key, key ∉ seen
  grows : ∀ key, key ∈ after ↔ key ∈ seen ∨ key ∈ wave.map SchemaReference.key
  all : ∀ reference ∈ pending, reference.key ∈ after

theorem takeWave_spec (seen : Finset SubjectVersion) (pending : List SchemaReference) :
    Wave seen pending (takeWave seen pending).1 (takeWave seen pending).2 := by
  induction pending generalizing seen with
  | nil => exact ⟨by simp [takeWave], by simp [takeWave], by simp [takeWave], by simp [takeWave],
      by simp⟩
  | cons reference pending ih =>
    unfold takeWave
    split
    · next known =>
      obtain ⟨within, once, fresh, grows, all⟩ := ih seen
      refine ⟨fun other held => .tail _ (within other held), once, fresh, grows, ?_⟩
      rintro other (_ | ⟨_, held⟩)
      · exact (grows _).mpr (.inl known)
      · exact all other held
    · next new =>
      obtain ⟨within, once, fresh, grows, all⟩ := ih (insert reference.key seen)
      refine ⟨?_, ?_, ?_, fun key => ?_, ?_⟩
      · rintro other (_ | ⟨_, held⟩)
        · exact .head _
        · exact .tail _ (within other held)
      · refine List.nodup_cons.mpr ⟨fun again => ?_, once⟩
        exact fresh _ again (Finset.mem_insert_self _ _)
      · rintro key (_ | ⟨_, held⟩)
        · exact new
        · exact fun known => fresh key held (Finset.mem_insert_of_mem known)
      · rw [grows, Finset.mem_insert, List.map_cons, List.mem_cons]
        tauto
      · rintro other (_ | ⟨_, held⟩)
        · exact (grows _).mpr (.inl (Finset.mem_insert_self _ _))
        · exact all other held

end Waves

section Answers
variable {served : SchemaMap}

/-- The answers of some references, in order. -/
structure Answers (served : SchemaMap) (before after : List SchemaReference × SchemaMap)
    (wave : List SchemaReference) : Prop where
  pending : ∀ reference, reference ∈ after.1 ↔ reference ∈ before.1 ∨
    ∃ parent ∈ wave, ∃ schema, served[parent.key]? = some schema ∧ reference ∈ schema.references
  fetched : ∀ key, after.2[key]? =
    if key ∈ wave.map SchemaReference.key then served[key]? else before.2[key]?

theorem foldlM_receive {wave : List SchemaReference}
    (all : ∀ reference ∈ wave, reference.key ∈ served) (state : List SchemaReference × SchemaMap) :
    ∃ after, wave.foldlM (receive served) state = .ok after ∧ Answers served state after wave := by
  induction wave generalizing state with
  | nil => exact ⟨state, rfl, by simp, by simp⟩
  | cons reference wave ih =>
    obtain ⟨schema, held⟩ := Option.isSome_iff_exists.mp
      (ExtTreeMap.mem_iff_isSome_getElem?.mp (all reference (.head _)))
    have answered : receive served state reference =
        .ok (state.1 ++ schema.references, state.2.insert reference.key schema) := by
      have got : getSchemaByVersion served reference.subject reference.version = .ok schema := by
        rw [getSchemaByVersion]
        rw [SchemaReference.key] at held
        rw [held]
      rw [receive, got]
      rfl
    obtain ⟨after, ran, pending, fetched⟩ := ih (fun other listed => all other (.tail _ listed))
      (state.1 ++ schema.references, state.2.insert reference.key schema)
    refine ⟨after, ?_, fun other => ?_, fun key => ?_⟩
    · rw [List.foldlM_cons, answered]
      exact ran
    · rw [pending, List.mem_append, or_assoc]
      simp only [List.mem_cons, exists_eq_or_imp, held, Option.some.injEq, exists_eq_left']
    · rw [fetched]
      simp only [List.map_cons, List.mem_cons, ExtTreeMap.getElem?_insert]
      by_cases later : key ∈ wave.map SchemaReference.key
      · simp [later]
      · by_cases here : reference.key = key
        · subst here
          simp [held]
        · have apart : tupleOrder reference.key key ≠ .eq := mt LawfulEqCmp.eq_of_compare here
          simp [later, apart, Ne.symm here]

end Answers

section Invariant
variable (served : SchemaMap) (references : List SchemaReference)

/-- What the crawl keeps from wave to wave. -/
structure Kept (crawl : Crawl) : Prop where
  pending : ∀ reference ∈ crawl.pending, (referenceGraph served).Met references reference
  reached : ∀ key ∈ crawl.seen, (referenceGraph served).Reached references key
  asked : ∀ key, key ∈ crawl.asked ↔ key ∈ crawl.seen
  once : crawl.asked.Nodup
  fetched : ∀ key, crawl.fetched[key]? = if key ∈ crawl.seen then served[key]? else none
  owed : ∀ reference, (reference ∈ references ∨ ∃ key schema, key ∈ crawl.seen ∧
    served[key]? = some schema ∧ reference ∈ schema.references) →
      reference.key ∈ crawl.seen ∨ reference ∈ crawl.pending

variable {served references}

theorem kept_start : Kept served references (start references) where
  pending := fun _ listed => .root listed
  reached := by simp [start]
  asked := by simp [start]
  once := List.nodup_nil
  fetched := by simp [start]
  owed := by
    rintro reference (listed | ⟨key, schema, inside, -⟩)
    · exact .inr listed
    · simp [start] at inside

/-- What a turn does where all that is asked for is served. -/
inductive Step (served : SchemaMap) (crawl : Crawl) :
    Loop.Turn Crawl (List SubjectVersion × Except String SchemaMap) → Prop
  | wave {wave : List SchemaReference} {seen : Finset SubjectVersion}
      {state : List SchemaReference × SchemaMap} (taken : Wave crawl.seen crawl.pending wave seen)
      (some_ : wave ≠ []) (answers : Answers served ([], crawl.fetched) state wave) :
      Step served crawl (.next
        { pending := state.1
          seen := seen
          fetched := state.2
          asked := crawl.asked ++ wave.map SchemaReference.key })
  | last (known : ∀ reference ∈ crawl.pending, reference.key ∈ crawl.seen) :
      Step served crawl (.done (crawl.asked, .ok crawl.fetched))

theorem Answers.of_perm {before after : List SchemaReference × SchemaMap}
    {wave arrived : List SchemaReference} (same : arrived.Perm wave)
    (answers : Answers served before after arrived) : Answers served before after wave where
  pending := fun reference => by
    rw [answers.pending]
    simp only [same.mem_iff]
  fetched := fun key => by
    rw [answers.fetched]
    simp only [(same.map _).mem_iff]

theorem step_turn {arrive : List SchemaReference → List SchemaReference}
    (arrives : ∀ wave, (arrive wave).Perm wave)
    (all : ∀ key, (referenceGraph served).Reached references key → key ∈ served) {crawl : Crawl}
    (kept : Kept served references crawl) : Step served crawl (turn served arrive crawl) := by
  have taken := takeWave_spec crawl.seen crawl.pending
  unfold turn
  generalize takeWave crawl.seen crawl.pending = parts at taken ⊢
  obtain ⟨wave, seen⟩ := parts
  dsimp only at taken ⊢
  split
  · next empty =>
    obtain rfl := List.isEmpty_iff.mp empty
    refine .last fun reference held => ?_
    simpa using (taken.grows _).mp (taken.all reference held)
  · next some_ =>
    have served_ : ∀ reference ∈ arrive wave, reference.key ∈ served := fun reference held =>
      all _ ⟨reference, kept.pending _ (taken.within _ ((arrives wave).mem_iff.mp held)), rfl⟩
    obtain ⟨state, ran, answers⟩ := foldlM_receive served_ ([], crawl.fetched)
    rw [ran]
    exact .wave taken (by simpa using some_) (answers.of_perm (arrives wave))

theorem Kept.step {crawl next : Crawl} (kept : Kept served references crawl)
    (step : Step served crawl (.next next)) : Kept served references next := by
  cases step with
  | @wave wave seen state taken _ answers =>
    have met : ∀ reference ∈ wave, (referenceGraph served).Met references reference :=
      fun reference held => kept.pending _ (taken.within _ held)
    refine ⟨fun reference held => ?_, fun key inside => ?_, fun key => ?_, ?_, fun key => ?_,
      fun reference owed => ?_⟩
    · rcases (answers.pending reference).mp held with never | ⟨parent, listed, schema, here, child⟩
      · contradiction
      · exact .child (met parent listed) here child
    · rcases (taken.grows key).mp inside with before | new
      · exact kept.reached key before
      · obtain ⟨reference, held, rfl⟩ := List.mem_map.mp new
        exact ⟨reference, met reference held, rfl⟩
    · rw [List.mem_append, kept.asked, taken.grows]
    · refine List.nodup_append.mpr ⟨kept.once, taken.once, fun key before other new same => ?_⟩
      subst same
      exact taken.fresh key new ((kept.asked key).mp before)
    · rw [answers.fetched, kept.fetched]
      simp only [taken.grows]
      by_cases new : key ∈ wave.map SchemaReference.key
      · simp [new]
      · simp [new]
    · have before : reference.key ∈ crawl.seen ∨ reference ∈ crawl.pending →
          reference.key ∈ seen ∨ reference ∈ state.1 := by
        rintro (known | pending)
        · exact .inl ((taken.grows _).mpr (.inl known))
        · exact .inl (taken.all reference pending)
      rcases owed with listed | ⟨key, schema, inside, here, child⟩
      · exact before (kept.owed reference (.inl listed))
      · rcases (taken.grows key).mp inside with known | new
        · exact before (kept.owed reference (.inr ⟨key, schema, known, here, child⟩))
        · obtain ⟨parent, held, rfl⟩ := List.mem_map.mp new
          exact .inr ((answers.pending reference).mpr (.inr ⟨parent, held, schema, here, child⟩))

/-- The served keys that are still unseen. -/
def unseen (served : SchemaMap) (crawl : Crawl) : Nat := (served.keys.toFinset \ crawl.seen).card

theorem unseen_lt {crawl next : Crawl} (kept : Kept served references crawl)
    (all : ∀ key, (referenceGraph served).Reached references key → key ∈ served)
    (step : Step served crawl (.next next)) : unseen served next < unseen served crawl := by
  cases step with
  | @wave wave seen state taken some_ answers =>
    obtain ⟨reference, held⟩ := List.exists_mem_of_ne_nil _ some_
    have new : reference.key ∈ wave.map SchemaReference.key := List.mem_map_of_mem held
    have known : reference.key ∈ served :=
      all _ ⟨reference, kept.pending _ (taken.within _ held), rfl⟩
    refine Finset.card_lt_card (Finset.ssubset_iff_of_subset (fun key inside => ?_) |>.mpr
      ⟨reference.key, ?_, ?_⟩)
    · obtain ⟨listed, later⟩ := Finset.mem_sdiff.mp inside
      exact Finset.mem_sdiff.mpr ⟨listed, fun before => later ((taken.grows key).mpr (.inl before))⟩
    · refine Finset.mem_sdiff.mpr ⟨?_, taken.fresh _ new⟩
      rw [List.mem_toFinset, ExtTreeMap.mem_keys]
      exact known
    · exact fun inside => (Finset.mem_sdiff.mp inside).2 ((taken.grows _).mpr (.inr new))

/-- The crawl ends with everything that is reached, asked for once. -/
theorem crawl_spec {arrive : List SchemaReference → List SchemaReference}
    (arrives : ∀ wave, (arrive wave).Perm wave)
    (all : ∀ key, (referenceGraph served).Reached references key → key ∈ served) :
    ∃ crawl, Loop.run (turn served arrive) (unseen served (start references) + 1)
      (start references) = some (crawl.asked, .ok crawl.fetched) ∧
      Kept served references crawl ∧
      ∀ key, key ∈ crawl.seen ↔ (referenceGraph served).Reached references key := by
  have further : ∀ {crawl next : Crawl}, Kept served references crawl →
      turn served arrive crawl = .next next →
      Kept served references next ∧ unseen served next < unseen served crawl := by
    intro crawl next kept turned
    have step := step_turn arrives all kept
    rw [turned] at step
    exact ⟨kept.step step, unseen_lt kept all step⟩
  obtain ⟨crawl, result, kept, broke, ran⟩ := Loop.ends (unseen served) further kept_start
  have step := step_turn arrives all kept
  rw [broke] at step
  cases step with
  | last known =>
    refine ⟨crawl, ran, kept, fun key => ⟨kept.reached key, ?_⟩⟩
    rintro ⟨reference, met, rfl⟩
    induction met with
    | root listed => exact (kept.owed _ (.inl listed)).elim id (known _)
    | child _ here child ih => exact (kept.owed _ (.inr ⟨_, _, ih, here, child⟩)).elim id (known _)

end Invariant
end Crawl

namespace Walk
variable (fetched : SchemaMap)

/-- A listed schema, as `in_dependency_order` returns it. -/
def output (entry : SchemaReference × Schema) : String × String := (entry.1.name, entry.2.schema)

def visitOf : DepthFirst.Visit SchemaReference Schema → Visit
  | .enter reference => .enter reference
  | .leave reference schema => .leave reference.name schema

/-- A walk is a depth-first search that has forgotten which references it left. -/
def ofSearch (search : DepthFirst.Search SchemaReference SubjectVersion Schema) : Walk :=
  { visits := search.visits.map visitOf
    entered := search.entered
    ordered := search.ordered.map output }

theorem turn_ofSearch (search : DepthFirst.Search SchemaReference SubjectVersion Schema) :
    turn fetched (ofSearch search) =
      (DepthFirst.turn (referenceGraph fetched) search).map ofSearch (List.map output) := by
  obtain ⟨visits, entered, ordered⟩ := search
  cases visits with
  | nil => rfl
  | cons visit visits =>
    cases visit with
    | enter reference =>
      simp only [turn, DepthFirst.turn, ofSearch, List.map_cons, visitOf]
      cases fetched[reference.key]? with
      | none => rfl
      | some schema =>
        dsimp only
        split
        · rfl
        · simp [Loop.Turn.map, ofSearch, visitOf, Function.comp_def]
    | leave reference schema =>
      simp [turn, DepthFirst.turn, ofSearch, visitOf, Loop.Turn.map, output]

/-- `in_dependency_order` ends, with every fetched schema that is reached. -/
theorem inDependencyOrder_lists (roots : List SchemaReference) :
    ∃ enough order, (∀ fuel, enough ≤ fuel →
      inDependencyOrder roots fetched fuel = some (order.map output)) ∧
      DepthFirst.Lists (referenceGraph fetched) roots order := by
  have covers : ∀ key, ((referenceGraph fetched).node key).isSome → key ∈ fetched.keys.toFinset := by
    intro key here
    rw [List.mem_toFinset, ExtTreeMap.mem_keys]
    exact ExtTreeMap.mem_iff_isSome_getElem?.mpr here
  obtain ⟨enough, order, ran, lists⟩ := DepthFirst.search_lists roots covers
  refine ⟨enough, order, fun fuel more => ?_, lists⟩
  have first : Walk.start roots = ofSearch (DepthFirst.start roots) := by
    simp [Walk.start, ofSearch, DepthFirst.start, visitOf, Function.comp_def]
  rw [inDependencyOrder, first, Loop.run_map (turn_ofSearch fetched), ran fuel more,
    Option.map_some]

end Walk

section Dependencies
variable {served : SchemaMap} {arrive : List SchemaReference → List SchemaReference}
  {references : List SchemaReference}

/-- Where all that is reached is served, `dependencies` ends with it, in whatever
order the answers come. -/
theorem dependencies_lists (arrives : ∀ wave, (arrive wave).Perm wave)
    (serves : ∀ key, (referenceGraph served).Reached references key → key ∈ served) :
    ∃ enough asked order,
      (∀ fuel, enough ≤ fuel → dependencies served arrive references fuel =
        some { asked, result := .ok (order.map Walk.output) }) ∧
      (asked.Nodup ∧ ∀ key, key ∈ asked ↔ (referenceGraph served).Reached references key) ∧
      DepthFirst.Lists (referenceGraph served) references order := by
  obtain ⟨crawl, crawled, kept, seen⟩ := Crawl.crawl_spec arrives serves
  obtain ⟨turns, order, ordered, lists⟩ := Walk.inDependencyOrder_lists crawl.fetched references
  have agree : ∀ key, (referenceGraph served).Reached references key →
      crawl.fetched[key]? = served[key]? := by
    intro key reached
    rw [kept.fetched, if_pos ((seen key).mpr reached)]
  refine ⟨max (Crawl.unseen served (.start references) + 1) turns, crawl.asked, order,
    fun fuel enough => ?_, ⟨kept.once, fun key => (kept.asked key).trans (seen key)⟩,
    lists.of_restrict agree⟩
  rw [dependencies, Loop.run_mono (le_of_max_le_left enough) crawled]
  dsimp only [Option.bind_eq_bind, Option.bind_some]
  rw [ordered fuel (le_of_max_le_right enough)]
  rfl

/-- More fuel changes nothing. -/
theorem dependencies_mono {fuel more : Nat} {result : Dependencies} (enough : fuel ≤ more)
    (ended : dependencies served arrive references fuel = some result) :
    dependencies served arrive references more = some result := by
  unfold dependencies at ended ⊢
  obtain ⟨⟨asked, crawled⟩, ran, ended⟩ := Option.bind_eq_some_iff.mp ended
  rw [Loop.run_mono enough ran]
  cases crawled with
  | error error => exact ended
  | ok fetched =>
    obtain ⟨ordered, walked, ended⟩ := Option.bind_eq_some_iff.mp ended
    rw [inDependencyOrder] at walked
    dsimp only [Option.bind_eq_bind, Option.bind_some]
    rw [inDependencyOrder, Loop.run_mono enough walked]
    exact ended

/-- For every graph of references that is served, shared nodes and cycles
included, `dependencies` ends, has asked once for each schema that is reached and
lists each of them once, and without a cycle every schema comes after those it
references. -/
theorem dependencies_complete_in_order (arrives : ∀ wave, (arrive wave).Perm wave)
    (serves : ∀ key, (referenceGraph served).Reached references key → key ∈ served) :
    ∃ enough asked, ∃ order : List (SchemaReference × Schema),
      (∀ fuel, enough ≤ fuel → dependencies served arrive references fuel =
        some { asked, result := .ok (order.map fun entry => (entry.1.name, entry.2.schema)) }) ∧
      (asked.Nodup ∧ ∀ key, key ∈ asked ↔ (referenceGraph served).Reached references key) ∧
      (∀ entry ∈ order, served[entry.1.key]? = some entry.2) ∧
      ((order.map fun entry => entry.1.key).Nodup ∧ ∀ key,
        key ∈ order.map (fun entry => entry.1.key) ↔
          (referenceGraph served).Reached references key) ∧
      ((referenceGraph served).Acyclic references → ∀ before entry after,
        order = before ++ entry :: after → ∀ reference ∈ entry.2.references,
          reference.key ∈ before.map fun entry => entry.1.key) := by
  obtain ⟨enough, asked, order, ran, requests, lists⟩ := dependencies_lists arrives serves
  have held : ∀ key, (referenceGraph served).Reached references key → served[key]?.isSome :=
    fun key reached => ExtTreeMap.mem_iff_isSome_getElem?.mp (serves key reached)
  refine ⟨enough, asked, order, ran, requests, fun entry listed => (lists.found entry listed).2,
    ⟨lists.once, fun key => ?_⟩, fun acyclic before entry after parts reference listed => ?_⟩
  · exact (lists.complete key).trans (and_iff_left_of_imp (held key))
  · have inside : entry ∈ order := parts ▸ List.mem_append_right _ (.head _)
    obtain ⟨met, here⟩ := lists.found entry inside
    exact lists.behind acyclic before entry after parts reference listed
      (held _ ⟨reference, .child met here listed, rfl⟩)

/-- All that a registry and some roots reference. -/
def allReferences (served : SchemaMap) (references : List SchemaReference) : List SchemaReference :=
  references ++ served.toList.flatMap fun entry => entry.2.references

theorem mem_allReferences {reference : SchemaReference}
    (met : (referenceGraph served).Met references reference) :
    reference ∈ allReferences served references := by
  apply List.mem_append.mpr
  cases met with
  | root listed => exact .inl listed
  | child _ here listed =>
    exact .inr (List.mem_flatMap.mpr
      ⟨(_, _), ExtTreeMap.mem_toList_iff_getElem?_eq_some.mpr here, listed⟩)

/-- A registry that serves all that is referenced serves all that is reached. -/
theorem serves_of_closed
    (closed : ∀ reference ∈ allReferences served references, reference.key ∈ served)
    (key : SubjectVersion) (reached : (referenceGraph served).Reached references key) :
    key ∈ served := by
  obtain ⟨reference, met, rfl⟩ := reached
  exact closed reference (mem_allReferences met)

theorem edge_mem_toList {one two : SubjectVersion} (edge : (referenceGraph served).Edge one two) :
    ∃ entry ∈ served.toList, entry.1 = one ∧ ∃ reference ∈ entry.2.references, reference.key = two := by
  obtain ⟨schema, here, reference, listed, rfl⟩ := edge
  exact ⟨(one, schema), ExtTreeMap.mem_toList_iff_getElem?_eq_some.mpr here, rfl, reference, listed,
    rfl⟩

end Dependencies

/-- A registry with a line and the status it needs. -/
def shipments : SchemaMap :=
  .ofList
    [ (("status", 1), { schema := "enum Status", references := [] }),
      (("line", 1), { schema := "record Line", references := [⟨"Status", "status", 1⟩] }) ]
    tupleOrder

/-- What a shipment references: the line, and the status again. -/
def shipment : List SchemaReference := [⟨"Line", "line", 1⟩, ⟨"Status", "status", 1⟩]

theorem dependencies_of_shipment :
    ∃ enough asked, ∃ order : List (SchemaReference × Schema),
      (∀ fuel, enough ≤ fuel → dependencies shipments List.reverse shipment fuel =
        some { asked, result := .ok (order.map fun entry => (entry.1.name, entry.2.schema)) }) ∧
      asked.Nodup ∧ (order.map fun entry => entry.1.key).Nodup ∧
      ∀ before entry after, order = before ++ entry :: after →
        ∀ reference ∈ entry.2.references, reference.key ∈ before.map fun entry => entry.1.key := by
  have serves : ∀ key, (referenceGraph shipments).Reached shipment key → key ∈ shipments :=
    serves_of_closed (by decide)
  have acyclic : (referenceGraph shipments).Acyclic shipment := by
    refine Graph.acyclic_of_rank (fun key => if key.1 = "line" then 1 else 0) fun one two edge => ?_
    obtain ⟨entry, held, rfl, reference, listed, rfl⟩ := edge_mem_toList edge
    clear edge
    revert entry reference
    decide
  obtain ⟨enough, asked, order, ran, ⟨requested, -⟩, -, ⟨once, -⟩, behind⟩ :=
    dependencies_complete_in_order List.reverse_perm serves
  exact ⟨enough, asked, order, ran, requested, once, behind acyclic⟩

end Klens.Schemas
