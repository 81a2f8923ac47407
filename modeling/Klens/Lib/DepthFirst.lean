import Klens.Lib.Loop
import Mathlib.Algebra.BigOperators.Group.Finset.Basic
import Mathlib.Data.List.Nodup
import Mathlib.Logic.Relation

/-! Depth-first search over a graph whose edges are items, with the visits still
to be made on a stack: it ends, and lists each node that is reached once, behind
the nodes that it needs when there is no cycle. -/
namespace Klens.Lib

/-- A graph: each item leads to the node under its key, if there is one, and a
node has items of its own. -/
structure Graph (Item Key Node : Type*) where
  key : Item → Key
  node : Key → Option Node
  items : Node → List Item

namespace Graph
variable {Item Key Node : Type*} (graph : Graph Item Key Node) (roots : List Item)

/-- The items that are met from some roots on. -/
inductive Met : Item → Prop
  | root {item : Item} (listed : item ∈ roots) : Met item
  | child {parent item : Item} {node : Node} (met : Met parent)
      (here : graph.node (graph.key parent) = some node) (listed : item ∈ graph.items node) :
      Met item

def Reached (key : Key) : Prop := ∃ item, graph.Met roots item ∧ graph.key item = key

/-- An item of the first node leads to the second. -/
def Edge (one two : Key) : Prop :=
  ∃ node, graph.node one = some node ∧ ∃ item ∈ graph.items node, graph.key item = two

/-- No node that is reached leads back to itself. -/
def Acyclic : Prop := ∀ key, graph.Reached roots key → ¬Relation.TransGen graph.Edge key key

variable {graph roots}

theorem Reached.child {key : Key} {node : Node} (reached : graph.Reached roots key)
    (here : graph.node key = some node) {item : Item} (listed : item ∈ graph.items node) :
    graph.Met roots item := by
  obtain ⟨parent, met, rfl⟩ := reached
  exact .child met here listed

/-- A graph whose edges all lower a rank has no cycle. -/
theorem acyclic_of_rank (rank : Key → Nat)
    (lower : ∀ one two, graph.Edge one two → rank two < rank one) : graph.Acyclic roots := by
  intro key _ round
  have path : ∀ {one two : Key}, Relation.TransGen graph.Edge one two → rank two < rank one := by
    intro one two edges
    induction edges with
    | single edge => exact lower _ _ edge
    | tail _ edge ih => exact (lower _ _ edge).trans ih
  exact lt_irrefl _ (path round)

section Restrict
variable {node : Key → Option Node}
  (agree : ∀ key, graph.Reached roots key → node key = graph.node key)
include agree

/-- A graph that has the nodes that are reached is as good as the whole. -/
theorem met_restrict {item : Item} :
    Met { graph with node := node } roots item ↔ graph.Met roots item := by
  constructor
  · intro met
    induction met with
    | root listed => exact .root listed
    | child _ here listed ih => exact .child ih ((agree _ ⟨_, ih, rfl⟩).symm.trans here) listed
  · intro met
    induction met with
    | root listed => exact .root listed
    | child met here listed ih => exact .child ih ((agree _ ⟨_, met, rfl⟩).trans here) listed

theorem reached_restrict {key : Key} :
    Reached { graph with node := node } roots key ↔ graph.Reached roots key :=
  exists_congr fun _ => and_congr_left fun _ => met_restrict agree

theorem acyclic_restrict (acyclic : graph.Acyclic roots) :
    Acyclic { graph with node := node } roots := by
  have path : ∀ {one two : Key}, graph.Reached roots one →
      Relation.TransGen (Edge { graph with node := node }) one two →
      Relation.TransGen graph.Edge one two ∧ graph.Reached roots two := by
    intro one two reached edges
    have step : ∀ {from_ into : Key}, graph.Reached roots from_ →
        Edge { graph with node := node } from_ into →
        graph.Edge from_ into ∧ graph.Reached roots into := by
      rintro from_ into reached ⟨found, here, item, listed, rfl⟩
      have held := (agree from_ reached).symm.trans here
      exact ⟨⟨found, held, item, listed, rfl⟩, item, reached.child held listed, rfl⟩
    induction edges with
    | single edge => exact (step reached edge).imp_left .single
    | tail _ edge ih => exact (step ih.2 edge).imp_left ih.1.tail
  intro key reached round
  have reached := (reached_restrict agree).mp reached
  exact acyclic key reached (path reached round).1

end Restrict
end Graph

namespace DepthFirst

/-- What is still to be done with an item: look at it, or list the node it led
to once all behind it is listed. -/
inductive Visit (Item Node : Type*) where
  | enter (item : Item)
  | leave (item : Item) (node : Node)

def Visit.item {Item Node : Type*} : Visit Item Node → Item
  | .enter item => item
  | .leave item _ => item

/-- The last visit pushed comes first. -/
structure Search (Item Key Node : Type*) where
  visits : List (Visit Item Node)
  entered : Finset Key
  ordered : List (Item × Node)

variable {Item Key Node : Type*} [DecidableEq Key] (graph : Graph Item Key Node)
  (roots : List Item)

def start : Search Item Key Node :=
  { visits := (roots.map .enter).reverse, entered := ∅, ordered := [] }

def turn (search : Search Item Key Node) :
    Loop.Turn (Search Item Key Node) (List (Item × Node)) :=
  match search.visits with
  | [] => .done search.ordered
  | .enter item :: rest =>
    match graph.node (graph.key item) with
    | some node =>
      if graph.key item ∈ search.entered then .next { search with visits := rest }
      else
        .next
          { search with
            visits := ((graph.items node).map .enter).reverse ++ .leave item node :: rest
            entered := insert (graph.key item) search.entered }
    | none => .next { search with visits := rest }
  | .leave item node :: rest =>
    .next { search with visits := rest, ordered := search.ordered ++ [(item, node)] }

/-- The keys of some listed nodes. -/
def keys (ordered : List (Item × Node)) : List Key := ordered.map fun entry => graph.key entry.1

def Visit.leaves : Visit Item Node → Option Key
  | .enter _ => none
  | .leave item _ => some (graph.key item)

/-- The keys of the nodes that are entered and not left yet, the last one first. -/
def leaving (visits : List (Visit Item Node)) : List Key := visits.filterMap (Visit.leaves graph)

/-- What a search does in a turn. -/
inductive Step (search : Search Item Key Node) : Search Item Key Node → Prop
  | skip {item : Item} {rest : List (Visit Item Node)} (top : search.visits = .enter item :: rest)
      (known : graph.node (graph.key item) = none ∨ graph.key item ∈ search.entered) :
      Step search { search with visits := rest }
  | enter {item : Item} {node : Node} {rest : List (Visit Item Node)}
      (top : search.visits = .enter item :: rest)
      (here : graph.node (graph.key item) = some node) (fresh : graph.key item ∉ search.entered) :
      Step search
        { search with
          visits := ((graph.items node).map .enter).reverse ++ .leave item node :: rest
          entered := insert (graph.key item) search.entered }
  | leave {item : Item} {node : Node} {rest : List (Visit Item Node)}
      (top : search.visits = .leave item node :: rest) :
      Step search { search with visits := rest, ordered := search.ordered ++ [(item, node)] }

variable {graph roots}

theorem step_of_turn {search next : Search Item Key Node} (turned : turn graph search = .next next) :
    Step graph search next := by
  unfold turn at turned
  split at turned
  · contradiction
  · next item rest top =>
    split at turned
    · next node here =>
      split at turned
      · next known =>
        obtain rfl := Loop.Turn.next.inj turned
        exact .skip top (.inr known)
      · next fresh =>
        obtain rfl := Loop.Turn.next.inj turned
        exact .enter top here fresh
    · next missing =>
      obtain rfl := Loop.Turn.next.inj turned
      exact .skip top (.inl missing)
  · next item node rest top =>
    obtain rfl := Loop.Turn.next.inj turned
    exact .leave top

theorem visits_of_done {search : Search Item Key Node} {order : List (Item × Node)}
    (broke : turn graph search = .done order) : search.visits = [] ∧ search.ordered = order := by
  unfold turn at broke
  split at broke
  · next empty => exact ⟨empty, Loop.Turn.done.inj broke⟩
  · split at broke
    · split at broke <;> contradiction
    · contradiction
  · contradiction

omit [DecidableEq Key] in
@[simp] theorem leaving_enters (items : List Item) (rest : List (Visit Item Node)) :
    leaving graph ((items.map .enter).reverse ++ rest) = leaving graph rest := by
  have nothing : ∀ visit ∈ (items.map (.enter : Item → Visit Item Node)).reverse,
      visit.leaves graph = none := by
    intro visit pushed
    obtain ⟨item, -, rfl⟩ := List.mem_map.mp (List.mem_reverse.mp pushed)
    rfl
  rw [leaving, List.filterMap_append, List.filterMap_eq_nil_iff.mpr nothing, List.nil_append]
  rfl

omit [DecidableEq Key] in
@[simp] theorem leaving_enter (item : Item) (rest : List (Visit Item Node)) :
    leaving graph (.enter item :: rest) = leaving graph rest := rfl

omit [DecidableEq Key] in
@[simp] theorem leaving_leave (item : Item) (node : Node) (rest : List (Visit Item Node)) :
    leaving graph (.leave item node :: rest) = graph.key item :: leaving graph rest := rfl

section Bound
variable (graph) (world : Finset Key)

/-- The items of the node under a key. -/
def degree (key : Key) : Nat := ((graph.node key).map fun node => (graph.items node).length).getD 0

/-- The turns a search can still take: the visits on its stack, and those that
the nodes not entered yet can bring. -/
def bound (search : Search Item Key Node) : Nat :=
  search.visits.length + (world \ search.entered).sum fun key => degree graph key + 1

variable {graph world}

theorem bound_lt {search next : Search Item Key Node}
    (covers : ∀ key, (graph.node key).isSome → key ∈ world) (step : Step graph search next) :
    bound graph world next < bound graph world search := by
  cases step with
  | skip top known => simp [bound, top]
  | @enter item node rest top here fresh =>
    have inside : graph.key item ∈ world \ search.entered :=
      Finset.mem_sdiff.mpr ⟨covers _ (Option.isSome_of_eq_some here), fresh⟩
    have parts := Finset.add_sum_erase _ (fun key => degree graph key + 1) inside
    have width : degree graph (graph.key item) = (graph.items node).length := by
      simp [degree, here]
    simp only [bound, top, List.length_append, List.length_reverse, List.length_map,
      List.length_cons, Finset.sdiff_insert]
    omega
  | leave top => simp [bound, top]

end Bound

section Invariant
variable (graph roots)

/-- What every search from some roots keeps. -/
structure Kept (search : Search Item Key Node) : Prop where
  met : ∀ visit ∈ search.visits, graph.Met roots visit.item
  listed : ∀ entry ∈ search.ordered,
    graph.Met roots entry.1 ∧ graph.node (graph.key entry.1) = some entry.2
  left : ∀ item node, .leave item node ∈ search.visits → graph.node (graph.key item) = some node
  once : (keys graph search.ordered ++ leaving graph search.visits).Nodup
  entered : ∀ key, key ∈ search.entered ↔
    key ∈ keys graph search.ordered ∨ key ∈ leaving graph search.visits
  owed : ∀ item, (item ∈ roots ∨ ∃ key node, key ∈ search.entered ∧ graph.node key = some node ∧
    item ∈ graph.items node) → graph.node (graph.key item) = none ∨
      graph.key item ∈ search.entered ∨ .enter item ∈ search.visits

variable {graph roots}

theorem mem_enters {items : List Item} {visit : Visit Item Node} :
    visit ∈ (items.map .enter).reverse ↔ ∃ item ∈ items, .enter item = visit := by
  rw [List.mem_reverse, List.mem_map]

omit [DecidableEq Key] in
theorem leaving_start : leaving graph (start roots : Search Item Key Node).visits = [] := by
  have pushed : leaving graph ((roots.map .enter).reverse ++ ([] : List (Visit Item Node))) = [] :=
    leaving_enters roots []
  rwa [List.append_nil] at pushed

omit [DecidableEq Key] in
theorem kept_start : Kept graph roots (start roots) where
  met := by
    intro visit pushed
    obtain ⟨item, listed, rfl⟩ := mem_enters.mp pushed
    exact .root listed
  listed := by simp [start]
  left := by simp [start]
  once := by
    rw [leaving_start]
    exact List.nodup_nil
  entered := by
    rw [leaving_start]
    simp [start, keys]
  owed := by
    rintro item (listed | ⟨key, node, inside, -⟩)
    · exact .inr (.inr (mem_enters.mpr ⟨item, listed, rfl⟩))
    · simp [start] at inside

section Turns
variable {search : Search Item Key Node} {item : Item} {node : Node}
  {rest : List (Visit Item Node)}

omit [DecidableEq Key] in
theorem Kept.skip (kept : Kept graph roots search) (top : search.visits = .enter item :: rest)
    (known : graph.node (graph.key item) = none ∨ graph.key item ∈ search.entered) :
    Kept graph roots { search with visits := rest } := by
  have tail : ∀ visit ∈ rest, visit ∈ search.visits := fun visit held => top ▸ .tail _ held
  have same : leaving graph search.visits = leaving graph rest := by rw [top, leaving_enter]
  refine ⟨fun visit held => kept.met visit (tail visit held), kept.listed,
    fun item node held => kept.left item node (tail _ held), same ▸ kept.once, same ▸ kept.entered,
    fun other owed => ?_⟩
  rcases kept.owed other owed with missing | inside | pushed
  · exact .inl missing
  · exact .inr (.inl inside)
  · rw [top] at pushed
    rcases List.mem_cons.mp pushed with same | later
    · obtain rfl := Visit.enter.inj same
      exact known.imp_right .inl
    · exact .inr (.inr later)

/-- Entering a node owes its items as well, all of which are pushed. -/
theorem Kept.owed_enter (kept : Kept graph roots search)
    (top : search.visits = .enter item :: rest) (here : graph.node (graph.key item) = some node)
    {other : Item} (owed : other ∈ roots ∨ ∃ key found, key ∈ insert (graph.key item) search.entered ∧
      graph.node key = some found ∧ other ∈ graph.items found) :
    graph.node (graph.key other) = none ∨ graph.key other ∈ insert (graph.key item) search.entered ∨
      .enter other ∈ ((graph.items node).map .enter).reverse ++ .leave item node :: rest := by
  have before : graph.node (graph.key other) = none ∨ graph.key other ∈ search.entered ∨
      .enter other ∈ search.visits ∨ other ∈ graph.items node := by
    rcases owed with listed | ⟨key, found, inside, leads, listed⟩
    · exact (kept.owed other (.inl listed)).imp_right (.imp_right .inl)
    · rcases Finset.mem_insert.mp inside with rfl | inside
      · obtain rfl := Option.some.inj (here.symm.trans leads)
        exact .inr (.inr (.inr listed))
      · exact (kept.owed other (.inr ⟨key, found, inside, leads, listed⟩)).imp_right
          (.imp_right .inl)
  rcases before with missing | inside | held | child
  · exact .inl missing
  · exact .inr (.inl (Finset.mem_insert_of_mem inside))
  · rw [top] at held
    rcases List.mem_cons.mp held with same | held
    · obtain rfl := Visit.enter.inj same
      exact .inr (.inl (Finset.mem_insert_self _ _))
    · exact .inr (.inr (List.mem_append_right _ (.tail _ held)))
  · exact .inr (.inr (List.mem_append_left _ (mem_enters.mpr ⟨other, child, rfl⟩)))

theorem Kept.enter (kept : Kept graph roots search) (top : search.visits = .enter item :: rest)
    (here : graph.node (graph.key item) = some node) (fresh : graph.key item ∉ search.entered) :
    Kept graph roots
      { search with
        visits := ((graph.items node).map .enter).reverse ++ .leave item node :: rest
        entered := insert (graph.key item) search.entered } := by
  have tail : ∀ visit ∈ rest, visit ∈ search.visits := fun visit held => top ▸ .tail _ held
  have same : leaving graph search.visits = leaving graph rest := by rw [top, leaving_enter]
  have met : graph.Met roots item := kept.met (.enter item) (top ▸ .head _)
  have away : graph.key item ∉ keys graph search.ordered ++ leaving graph rest := by
    rw [List.mem_append, ← same]
    exact fun inside => fresh ((kept.entered _).mpr inside)
  refine ⟨fun visit held => ?_, kept.listed, fun other found held => ?_, ?_, fun key => ?_,
    fun other owed => kept.owed_enter top here owed⟩
  · rcases List.mem_append.mp held with pushed | held
    · obtain ⟨child, listed, rfl⟩ := mem_enters.mp pushed
      exact .child met here listed
    · rcases List.mem_cons.mp held with rfl | held
      · exact met
      · exact kept.met visit (tail visit held)
  · rcases List.mem_append.mp held with pushed | held
    · obtain ⟨child, -, same⟩ := mem_enters.mp pushed
      contradiction
    · rcases List.mem_cons.mp held with same | held
      · obtain ⟨rfl, rfl⟩ := Visit.leave.inj same
        exact here
      · exact kept.left other found (tail _ held)
  · rw [leaving_enters, leaving_leave]
    apply List.nodup_middle.mpr
    exact List.nodup_cons.mpr ⟨away, same ▸ kept.once⟩
  · rw [Finset.mem_insert, kept.entered, same, leaving_enters, leaving_leave, List.mem_cons]
    tauto

omit [DecidableEq Key] in
theorem Kept.leave (kept : Kept graph roots search)
    (top : search.visits = .leave item node :: rest) :
    Kept graph roots
      { search with visits := rest, ordered := search.ordered ++ [(item, node)] } := by
  have tail : ∀ visit ∈ rest, visit ∈ search.visits := fun visit held => top ▸ .tail _ held
  have same : leaving graph search.visits = graph.key item :: leaving graph rest := by
    rw [top, leaving_leave]
  have longer : keys graph (search.ordered ++ [(item, node)]) =
      keys graph search.ordered ++ [graph.key item] := by simp [keys]
  refine ⟨fun visit held => kept.met visit (tail visit held), fun entry held => ?_,
    fun other found held => kept.left other found (tail _ held), ?_, fun key => ?_,
    fun other owed => ?_⟩
  · rcases List.mem_append.mp held with held | new
    · exact kept.listed entry held
    · obtain rfl := List.mem_singleton.mp new
      exact ⟨kept.met (.leave item node) (top ▸ .head _), kept.left item node (top ▸ .head _)⟩
  · rw [longer, List.append_assoc, List.singleton_append, ← same]
    exact kept.once
  · rw [kept.entered, same, longer, List.mem_append, List.mem_singleton, List.mem_cons, or_assoc]
  · refine (kept.owed other owed).imp_right (.imp_right fun held => ?_)
    rw [top] at held
    exact (List.mem_cons.mp held).resolve_left (by simp)

end Turns

theorem Kept.step {search next : Search Item Key Node} (kept : Kept graph roots search)
    (step : Step graph search next) : Kept graph roots next := by
  cases step with
  | skip top known => exact kept.skip top known
  | enter top here fresh => exact kept.enter top here fresh
  | leave top => exact kept.leave top

end Invariant

section Order
variable (graph roots)

/-- Whatever is to be left has the nodes it needs done by then: before it, or
behind a visit above it. -/
def Covered : (Key → Prop) → List (Visit Item Node) → Prop
  | _, [] => True
  | done, .enter item :: rest => Covered (fun key => key = graph.key item ∨ done key) rest
  | done, .leave item node :: rest =>
    (∀ child ∈ graph.items node, (graph.node (graph.key child)).isSome → done (graph.key child)) ∧
      Covered (fun key => key = graph.key item ∨ done key) rest

/-- What a search keeps besides, where there is no cycle. -/
structure Behind (search : Search Item Key Node) : Prop where
  path : search.visits.Pairwise fun upper lower => ∀ item node, lower = .leave item node →
    Relation.TransGen graph.Edge (graph.key item) (graph.key upper.item)
  covered : Covered graph (fun key => key ∈ keys graph search.ordered) search.visits
  behind : ∀ before entry after, search.ordered = before ++ entry :: after →
    ∀ item ∈ graph.items entry.2, (graph.node (graph.key item)).isSome →
      graph.key item ∈ keys graph before

variable {graph roots}

omit [DecidableEq Key] in
theorem Covered.mono {done more : Key → Prop} {visits : List (Visit Item Node)}
    (grows : ∀ key, (graph.node key).isSome → done key → more key)
    (covered : Covered graph done visits) : Covered graph more visits := by
  induction visits generalizing done more with
  | nil => trivial
  | cons visit rest ih =>
    have further (item : Item) (key : Key) (here : (graph.node key).isSome) :
        key = graph.key item ∨ done key → key = graph.key item ∨ more key :=
      Or.imp_right (grows key here)
    cases visit with
    | enter item => exact ih (further item) covered
    | leave item node =>
      exact ⟨fun child listed here => grows _ here (covered.1 child listed here),
        ih (further item) covered.2⟩

omit [DecidableEq Key] in
theorem covered_enters {done : Key → Prop} (items : List Item) {rest : List (Visit Item Node)}
    (covered : Covered graph (fun key => (∃ item ∈ items, graph.key item = key) ∨ done key) rest) :
    Covered graph done ((items.map .enter).reverse ++ rest) := by
  induction items generalizing rest with
  | nil => exact covered.mono fun key _ known => known.resolve_left (by simp)
  | cons item items ih =>
    rw [List.map_cons, List.reverse_cons, List.append_assoc, List.singleton_append]
    have later : Covered graph (fun key => key = graph.key item ∨
        (∃ other ∈ items, graph.key other = key) ∨ done key) rest := by
      refine covered.mono fun key _ known => ?_
      rcases known with ⟨child, listed, same⟩ | known
      · rcases List.mem_cons.mp listed with rfl | listed
        · exact .inl same.symm
        · exact .inr (.inl ⟨child, listed, same⟩)
      · exact .inr (.inr known)
    exact ih later

omit [DecidableEq Key] in
theorem behind_start : Behind graph (start roots) where
  path := by
    refine List.pairwise_of_forall_mem_list fun upper _ lower pushed item node same => ?_
    obtain ⟨root, -, rfl⟩ := mem_enters.mp pushed
    contradiction
  covered := by
    have pushed : Covered graph (fun key => key ∈ []) ((roots.map .enter).reverse ++ []) :=
      covered_enters roots trivial
    rwa [List.append_nil] at pushed
  behind := by simp [start]

omit [DecidableEq Key] in
theorem mem_leaving {visits : List (Visit Item Node)} {key : Key} :
    key ∈ leaving graph visits ↔ ∃ item node, .leave item node ∈ visits ∧ graph.key item = key := by
  rw [leaving, List.mem_filterMap]
  constructor
  · rintro ⟨visit, held, leaves⟩
    cases visit with
    | enter item => contradiction
    | leave item node => exact ⟨item, node, held, Option.some.inj leaves⟩
  · rintro ⟨item, node, held, rfl⟩
    exact ⟨_, held, rfl⟩

section Turns
variable {search : Search Item Key Node} {item : Item} {node : Node}
  {rest : List (Visit Item Node)}

omit [DecidableEq Key] in
theorem Behind.skip (acyclic : graph.Acyclic roots) (kept : Kept graph roots search)
    (behind : Behind graph search) (top : search.visits = .enter item :: rest)
    (known : graph.node (graph.key item) = none ∨ graph.key item ∈ search.entered) :
    Behind graph { search with visits := rest } := by
  have path := behind.path
  have covered := behind.covered
  rw [top] at path covered
  obtain ⟨head, tail⟩ := List.pairwise_cons.mp path
  refine ⟨tail, Covered.mono (fun key here done => ?_) covered, behind.behind⟩
  rcases done with rfl | done
  · -- A node that is entered and not listed yet is on the path to itself.
    have inside : graph.key item ∈ search.entered :=
      known.resolve_left (Option.isSome_iff_ne_none.mp here)
    refine ((kept.entered _).mp inside).resolve_right fun open_ => ?_
    rw [top, leaving_enter] at open_
    obtain ⟨above, node, held, same⟩ := mem_leaving.mp open_
    have met : graph.Met roots item := kept.met (.enter item) (top ▸ .head _)
    have round := head _ held above node rfl
    rw [same] at round
    exact acyclic _ ⟨item, met, rfl⟩ round
  · exact done

theorem Behind.enter (behind : Behind graph search) (top : search.visits = .enter item :: rest)
    (here : graph.node (graph.key item) = some node) :
    Behind graph
      { search with
        visits := ((graph.items node).map .enter).reverse ++ .leave item node :: rest
        entered := insert (graph.key item) search.entered } := by
  have path := behind.path
  have covered := behind.covered
  rw [top] at path covered
  obtain ⟨head, tail⟩ := List.pairwise_cons.mp path
  refine ⟨List.pairwise_append.mpr ⟨?_, List.pairwise_cons.mpr ⟨head, tail⟩, ?_⟩,
    covered_enters _ ⟨fun child listed _ => .inl ⟨child, listed, rfl⟩, ?_⟩, behind.behind⟩
  · refine List.pairwise_of_forall_mem_list fun upper _ lower pushed other found same => ?_
    obtain ⟨child, -, rfl⟩ := mem_enters.mp pushed
    contradiction
  · intro upper pushed lower held other found same
    obtain ⟨child, listed, rfl⟩ := mem_enters.mp pushed
    have edge : graph.Edge (graph.key item) (graph.key child) :=
      ⟨node, here, child, listed, rfl⟩
    rcases List.mem_cons.mp held with rfl | held
    · obtain ⟨rfl, rfl⟩ := Visit.leave.inj same
      exact .single edge
    · exact (head lower held other found same).tail edge
  · exact Covered.mono (fun key _ done => done.imp_right .inr) covered

omit [DecidableEq Key] in
theorem Behind.leave (behind : Behind graph search)
    (top : search.visits = .leave item node :: rest) :
    Behind graph
      { search with visits := rest, ordered := search.ordered ++ [(item, node)] } := by
  have path := behind.path
  have covered := behind.covered
  rw [top] at path covered
  obtain ⟨head, tail⟩ := List.pairwise_cons.mp path
  refine ⟨tail, Covered.mono (fun key here done => ?_) covered.2, fun before entry after parts => ?_⟩
  · rw [keys, List.map_append, List.mem_append]
    exact done.symm.imp_right fun same => by simp [same]
  · rcases List.eq_nil_or_concat after with rfl | ⟨between, last, rfl⟩
    · obtain ⟨rfl, same⟩ := List.append_inj' parts rfl
      obtain rfl := List.singleton_inj.mp same
      exact covered.1
    · rw [List.concat_eq_append, ← List.cons_append, ← List.append_assoc] at parts
      exact behind.behind before entry between (List.append_inj' parts rfl).1

end Turns

theorem Behind.step {search next : Search Item Key Node} (acyclic : graph.Acyclic roots)
    (kept : Kept graph roots search) (behind : Behind graph search)
    (step : Step graph search next) : Behind graph next := by
  cases step with
  | skip top known => exact behind.skip acyclic kept top known
  | enter top here fresh => exact behind.enter top here
  | leave top => exact behind.leave top

end Order
section Result
variable (graph roots)

/-- A list of the nodes that are reached, each behind what it needs. -/
structure Lists (order : List (Item × Node)) : Prop where
  found : ∀ entry ∈ order,
    graph.Met roots entry.1 ∧ graph.node (graph.key entry.1) = some entry.2
  once : (keys graph order).Nodup
  complete : ∀ key, key ∈ keys graph order ↔ graph.Reached roots key ∧ (graph.node key).isSome
  behind : graph.Acyclic roots → ∀ before entry after, order = before ++ entry :: after →
    ∀ item ∈ graph.items entry.2, (graph.node (graph.key item)).isSome →
      graph.key item ∈ keys graph before

variable {graph roots}

omit [DecidableEq Key] in
/-- A search with nothing left to visit has listed all there is. -/
theorem Kept.lists {search : Search Item Key Node} (kept : Kept graph roots search)
    (behind : graph.Acyclic roots → Behind graph search) (empty : search.visits = []) :
    Lists graph roots search.ordered := by
  have entered : ∀ key, key ∈ search.entered ↔ key ∈ keys graph search.ordered := by
    intro key
    rw [kept.entered, empty, leaving, List.filterMap_nil]
    simp
  refine ⟨kept.listed, (List.nodup_append.mp kept.once).1, fun key => ?_,
    fun acyclic => (behind acyclic).behind⟩
  constructor
  · intro listed
    obtain ⟨entry, held, rfl⟩ := List.mem_map.mp listed
    obtain ⟨met, here⟩ := kept.listed entry held
    exact ⟨⟨entry.1, met, rfl⟩, Option.isSome_of_eq_some here⟩
  · rintro ⟨⟨item, met, rfl⟩, here⟩
    have paid : ∀ item, graph.node (graph.key item) = none ∨ graph.key item ∈ search.entered ∨
        .enter item ∈ search.visits →
        graph.node (graph.key item) = none ∨ graph.key item ∈ search.entered := by
      intro item owed
      rw [empty] at owed
      exact owed.imp_right fun inside => inside.resolve_right (by simp)
    have settled : graph.node (graph.key item) = none ∨ graph.key item ∈ search.entered := by
      clear here
      induction met with
      | root listed => exact paid _ (kept.owed _ (.inl listed))
      | child _ leads listed ih =>
        have inside := ih.resolve_left (by simp [leads])
        exact paid _ (kept.owed _ (.inr ⟨_, _, inside, leads, listed⟩))
    exact (entered _).mp (settled.resolve_left (Option.isSome_iff_ne_none.mp here))

variable (roots) in
/-- A search over finitely many nodes ends, with all that is reached in order. -/
theorem search_lists {world : Finset Key} (covers : ∀ key, (graph.node key).isSome → key ∈ world) :
    ∃ enough order, (∀ fuel, enough ≤ fuel →
      Loop.run (turn graph) fuel (start roots) = some order) ∧ Lists graph roots order := by
  let Keeps (search : Search Item Key Node) : Prop :=
    Kept graph roots search ∧ (graph.Acyclic roots → Behind graph search)
  have first : Keeps (start roots) := ⟨kept_start, fun _ => behind_start⟩
  have further : ∀ {search next : Search Item Key Node}, Keeps search →
      turn graph search = .next next →
      Keeps next ∧ bound graph world next < bound graph world search := by
    rintro search next ⟨kept, behind⟩ turned
    have step := step_of_turn turned
    exact ⟨⟨kept.step step, fun acyclic => (behind acyclic).step acyclic kept step⟩,
      bound_lt covers step⟩
  obtain ⟨last, order, ⟨kept, behind⟩, broke, ran⟩ := Loop.ends (bound graph world) further first
  obtain ⟨empty, rfl⟩ := visits_of_done broke
  exact ⟨_, _, fun _ enough => Loop.run_mono enough ran, kept.lists behind empty⟩

omit [DecidableEq Key] in
/-- What a graph with the nodes that are reached lists, the whole lists. -/
theorem Lists.of_restrict {node : Key → Option Node} {order : List (Item × Node)}
    (agree : ∀ key, graph.Reached roots key → node key = graph.node key)
    (lists : Lists { graph with node := node } roots order) : Lists graph roots order where
  found := fun entry held => by
    obtain ⟨met, here⟩ := lists.found entry held
    have met := (Graph.met_restrict agree).mp met
    exact ⟨met, (agree _ ⟨_, met, rfl⟩).symm.trans here⟩
  once := lists.once
  complete := fun key => by
    refine (lists.complete key).trans ?_
    rw [Graph.reached_restrict agree]
    refine and_congr_right fun reached => ?_
    exact iff_of_eq (congrArg (fun found => found.isSome = true) (agree key reached))
  behind := fun acyclic before entry after parts item listed here => by
    have held : entry ∈ order := parts ▸ List.mem_append_right _ (.head _)
    obtain ⟨met, there⟩ := lists.found entry held
    have met := (Graph.met_restrict agree).mp met
    have reached : graph.Reached roots (graph.key item) :=
      ⟨item, .child met ((agree _ ⟨_, met, rfl⟩).symm.trans there) listed, rfl⟩
    refine lists.behind (Graph.acyclic_restrict agree acyclic) before entry after parts item listed ?_
    exact (congrArg Option.isSome (agree _ reached)).trans here

end Result
end DepthFirst
end Klens.Lib
