import Klens.Scan.Obfuscate

/-! Trees with the members that field rules hide taken out. Two trees with the
same rest come out of the rules as one, whatever the rules do to each other on
the way. -/
namespace Klens.Scan

inductive Hiding where
  | masked
  | dropped
  deriving DecidableEq, Repr

/-- Paths to hidden members, relative to the tree they are looked up in. -/
abbrev HiddenPaths := List (List String × Hiding)

/-- The members a field rule hides. An empty path reaches none, and a hash shows
a token of what it replaces. -/
def CompiledField.hides (field : CompiledField) : Option (List String × Hiding) :=
  match field.path, field.strategy with
  | [], _ => none
  | head :: rest, .mask => some (head :: rest, .masked)
  | head :: rest, .drop => some (head :: rest, .dropped)
  | _ :: _, .hash _ => none

def CompiledStrategy.isHash : CompiledStrategy → Bool
  | .hash _ => true
  | .mask => false
  | .drop => false

theorem CompiledField.hides_eq_some {field : CompiledField} {hidden : List String × Hiding}
    (hides : field.hides = some hidden) :
    field.strategy.isHash = false ∧ field.path = hidden.1 := by
  obtain ⟨path, strategy⟩ := field
  cases path with
  | nil => contradiction
  | cons head rest =>
    cases strategy with
    | mask => exact ⟨rfl, congrArg Prod.fst (Option.some.inj hides)⟩
    | drop => exact ⟨rfl, congrArg Prod.fst (Option.some.inj hides)⟩
    | hash hasher => contradiction

/-- What is left of a path that goes on inside the member `name`. -/
def entering (name : String) (hidden : List String × Hiding) : Option (List String × Hiding) :=
  match hidden.1 with
  | head :: next :: rest => if head = name then some (next :: rest, hidden.2) else none
  | _ => none

theorem entering_eq_some {name : String} {hidden found : List String × Hiding}
    (entered : entering name hidden = some found) : hidden.1 = name :: found.1 := by
  obtain ⟨path, way⟩ := hidden
  simp only [entering] at entered
  split at entered
  · split at entered
    · rename_i same
      rw [← Option.some.inj entered, same]
    · contradiction
  · contradiction

def inside (name : String) (paths : HiddenPaths) : HiddenPaths := paths.filterMap (entering name)

mutual

/-- The tree without its dropped members and without what the masked ones hold. -/
def conceal : Json → HiddenPaths → Json
  | .array items, paths => .array (concealItems items paths)
  | .object fields, paths => .object (concealFields fields paths)
  | value, _ => value

def concealItems : List Json → HiddenPaths → List Json
  | [], _ => []
  | item :: items, paths => conceal item paths :: concealItems items paths

def concealFields : List (String × Json) → HiddenPaths → List (String × Json)
  | [], _ => []
  | (name, value) :: fields, paths =>
    if ([name], Hiding.dropped) ∈ paths then concealFields fields paths
    else
      (name, if ([name], Hiding.masked) ∈ paths then .null else conceal value (inside name paths)) ::
        concealFields fields paths

end

mutual

theorem conceal_nil : ∀ json : Json, conceal json [] = json
  | .null => rfl
  | .bool _ => rfl
  | .number _ => rfl
  | .string _ => rfl
  | .array items => by rw [conceal, concealItems_nil items]
  | .object fields => by rw [conceal, concealFields_nil fields]

theorem concealItems_nil : ∀ items : List Json, concealItems items [] = items
  | [] => rfl
  | item :: items => by rw [concealItems, conceal_nil item, concealItems_nil items]

theorem concealFields_nil : ∀ fields : List (String × Json), concealFields fields [] = fields
  | [] => rfl
  | (name, value) :: fields => by
    simp [concealFields, inside, conceal_nil value, concealFields_nil fields]

end

mutual

theorem conceal_conceal : ∀ (json : Json) (paths : HiddenPaths),
    conceal (conceal json paths) paths = conceal json paths
  | .null, _ => rfl
  | .bool _, _ => rfl
  | .number _, _ => rfl
  | .string _, _ => rfl
  | .array items, paths => by simp only [conceal, concealItems_concealItems items paths]
  | .object fields, paths => by simp only [conceal, concealFields_concealFields fields paths]

theorem concealItems_concealItems : ∀ (items : List Json) (paths : HiddenPaths),
    concealItems (concealItems items paths) paths = concealItems items paths
  | [], _ => rfl
  | item :: items, paths => by
    simp only [concealItems, conceal_conceal item paths, concealItems_concealItems items paths]

theorem concealFields_concealFields : ∀ (fields : List (String × Json)) (paths : HiddenPaths),
    concealFields (concealFields fields paths) paths = concealFields fields paths
  | [], _ => rfl
  | (name, value) :: fields, paths => by
    have later := concealFields_concealFields fields paths
    have within := conceal_conceal value (inside name paths)
    by_cases gone : ([name], Hiding.dropped) ∈ paths
    · simp only [concealFields, gone, if_true, later]
    · by_cases masked : ([name], Hiding.masked) ∈ paths
      · simp only [concealFields, gone, masked, if_true, if_false, later]
      · simp only [concealFields, gone, masked, if_false, later, within]

end

/-- `paths` is what a rule that goes on to hide `after` itself leaves to be hidden:
its own members too, or, for a token, only members its path does not lead up to. -/
def Covers (strategy : CompiledStrategy) (path : List String) (paths after : HiddenPaths) : Prop :=
  match strategy with
  | .mask => paths = (path, .masked) :: after
  | .drop => paths = (path, .dropped) :: after
  | .hash _ => paths = after ∧ ∀ hidden ∈ after, ¬ path <+: hidden.1

namespace Covers
variable {strategy : CompiledStrategy} {head : String} {paths after : HiddenPaths}

theorem mem_other {rest : List String} (covers : Covers strategy (head :: rest) paths after)
    {name : String} (different : name ≠ head) (way : Hiding) :
    ([name], way) ∈ paths ↔ ([name], way) ∈ after := by
  cases strategy with
  | mask => simp [show paths = _ from covers, different]
  | drop => simp [show paths = _ from covers, different]
  | hash hasher => rw [covers.1]

theorem mem_longer {next : String} {rest : List String}
    (covers : Covers strategy (head :: next :: rest) paths after) (name : String) (way : Hiding) :
    ([name], way) ∈ paths ↔ ([name], way) ∈ after := by
  cases strategy with
  | mask => simp [show paths = _ from covers]
  | drop => simp [show paths = _ from covers]
  | hash hasher => rw [covers.1]

theorem inside_other {rest : List String} (covers : Covers strategy (head :: rest) paths after)
    {name : String} (different : name ≠ head) : inside name paths = inside name after := by
  have stays (way : Hiding) : entering name (head :: rest, way) = none := by
    cases rest <;> simp [entering, different.symm]
  cases strategy with
  | mask => rw [show paths = _ from covers, inside, List.filterMap_cons_none (stays _)]; rfl
  | drop => rw [show paths = _ from covers, inside, List.filterMap_cons_none (stays _)]; rfl
  | hash hasher => rw [covers.1]

theorem inside_head {next : String} {rest : List String}
    (covers : Covers strategy (head :: next :: rest) paths after) :
    Covers strategy (next :: rest) (inside head paths) (inside head after) := by
  have enters (way : Hiding) :
      entering head (head :: next :: rest, way) = some (next :: rest, way) := by
    simp [entering]
  cases strategy with
  | mask =>
    rw [show paths = _ from covers]
    exact List.filterMap_cons_some (enters _)
  | drop =>
    rw [show paths = _ from covers]
    exact List.filterMap_cons_some (enters _)
  | hash hasher =>
    obtain ⟨rfl, apart⟩ := covers
    refine ⟨rfl, ?_⟩
    intro hidden member leads
    obtain ⟨whole, listed, entered⟩ := List.mem_filterMap.mp member
    refine apart whole listed ?_
    rw [entering_eq_some entered]
    exact (List.prefix_cons_inj head).mpr leads

end Covers

variable [Crates]

theorem hideMember_other (strategy : CompiledStrategy) {head name : String}
    (different : name ≠ head) (value : Json) (fields : List (String × Json)) :
    hideMember strategy head ((name, value) :: fields) =
      (name, value) :: hideMember strategy head fields := by
  cases strategy <;> simp [hideMember, different]

theorem concealFields_hideMember {strategy : CompiledStrategy} {head : String}
    {paths after : HiddenPaths} (covers : Covers strategy [head] paths after)
    (fields : List (String × Json)) :
    concealFields (hideMember strategy head (concealFields fields paths)) after =
      concealFields (hideMember strategy head fields) after := by
  induction fields with
  | nil => rfl
  | cons entry fields ih =>
    obtain ⟨name, value⟩ := entry
    by_cases same : name = head
    · subst same
      cases strategy with
      | drop =>
        have gone : ([name], Hiding.dropped) ∈ paths := by
          rw [show paths = _ from covers]
          exact List.mem_cons_self
        simp only [concealFields, gone, if_true]
        rw [ih]
        simp [hideMember]
      | mask =>
        have masked : ([name], Hiding.masked) ∈ paths := by
          rw [show paths = _ from covers]
          exact List.mem_cons_self
        have same : ([name], Hiding.dropped) ∈ paths ↔ ([name], Hiding.dropped) ∈ after := by
          simp [show paths = _ from covers]
        by_cases gone : ([name], Hiding.dropped) ∈ after
        · simp only [concealFields, same, gone, if_true, ih]
          simp [hideMember, concealFields, gone]
        · simp only [concealFields, same, gone, masked, if_true, if_false]
          simp only [hideMember, List.map_cons, if_true, concealFields, gone, if_false]
          exact congrArg _ ih
      | hash hasher =>
        obtain ⟨rfl, apart⟩ := covers
        have shown (way : Hiding) : ([name], way) ∉ paths :=
          fun member => apart _ member List.prefix_rfl
        have nothing : inside name paths = [] := by
          refine List.filterMap_eq_nil_iff.mpr fun hidden member => ?_
          by_contra goes
          obtain ⟨found, entered⟩ := Option.ne_none_iff_exists'.mp goes
          exact apart hidden member ⟨found.1, (entering_eq_some entered).symm⟩
        simp only [concealFields, shown, if_false, nothing, conceal_nil]
        simp only [hideMember, List.map_cons, if_true, concealFields, shown, if_false]
        exact congrArg _ ih
    · have dropped := covers.mem_other same .dropped
      have masked := covers.mem_other same .masked
      have within := covers.inside_other same
      rw [hideMember_other _ same]
      by_cases gone : ([name], Hiding.dropped) ∈ after
      · simp only [concealFields, dropped, gone, if_true, ih]
      · simp only [concealFields, dropped, gone, if_false, hideMember_other _ same, ih, masked, within]
        by_cases covered : ([name], Hiding.masked) ∈ after
        · simp only [covered, if_true]
        · simp only [covered, if_false, conceal_conceal]

mutual

/-- A rule finds in what is concealed all that its outcome shows. -/
theorem conceal_walk (strategy : CompiledStrategy) : ∀ (json : Json) {head : String}
    {rest : List String} {paths after : HiddenPaths},
    Covers strategy (head :: rest) paths after →
    conceal (walk strategy (conceal json paths) (head :: rest)) after =
      conceal (walk strategy json (head :: rest)) after
  | .null, _, _, _, _, _ => rfl
  | .bool _, _, _, _, _, _ => rfl
  | .number _, _, _, _, _, _ => rfl
  | .string _, _, _, _, _, _ => rfl
  | .array items, _, _, _, _, covers => by
    simp only [conceal, walk, concealItems_walkItems strategy items covers]
  | .object fields, _, [], _, _, covers => by
    simp only [conceal, walk, concealFields_hideMember covers]
  | .object fields, _, _ :: _, _, _, covers => by
    simp only [conceal, walk, concealFields_walkFields strategy fields covers]

theorem concealItems_walkItems (strategy : CompiledStrategy) : ∀ (items : List Json)
    {head : String} {rest : List String} {paths after : HiddenPaths},
    Covers strategy (head :: rest) paths after →
    concealItems (walkItems strategy (concealItems items paths) (head :: rest)) after =
      concealItems (walkItems strategy items (head :: rest)) after
  | [], _, _, _, _, _ => rfl
  | item :: items, _, _, _, _, covers => by
    simp only [concealItems, walkItems, conceal_walk strategy item covers,
      concealItems_walkItems strategy items covers]

theorem concealFields_walkFields (strategy : CompiledStrategy) : ∀ (fields : List (String × Json))
    {head next : String} {rest : List String} {paths after : HiddenPaths},
    Covers strategy (head :: next :: rest) paths after →
    concealFields (walkFields strategy (concealFields fields paths) head (next :: rest)) after =
      concealFields (walkFields strategy fields head (next :: rest)) after
  | [], _, _, _, _, _, _ => rfl
  | (name, value) :: fields, head, _, _, paths, after, covers => by
    have later := concealFields_walkFields strategy fields covers
    have dropped := covers.mem_longer name .dropped
    have masked := covers.mem_longer name .masked
    by_cases gone : ([name], Hiding.dropped) ∈ after
    · simp only [concealFields, walkFields, dropped, gone, if_true, later]
    · simp only [concealFields, walkFields, dropped, masked, gone, if_false, later]
      by_cases covered : ([name], Hiding.masked) ∈ after
      · simp only [covered, if_true]
      · simp only [covered, if_false]
        by_cases same : name = head
        · subst same
          simp only [if_true, conceal_walk strategy value covers.inside_head]
        · simp only [same, if_false, covers.inside_other same, conceal_conceal]

end

/-- No token is taken, by a rule before, of a member that leads to a hidden one. -/
def TopicObfuscator.TokensApart (rule : TopicObfuscator) : Prop :=
  rule.fields.Pairwise fun earlier later =>
    earlier.strategy.isHash = true → later.strategy.isHash = false → ¬ earlier.path <+: later.path

/-- The members that the field rules of a topic hide. -/
def TopicObfuscator.hiddenPaths (rule : TopicObfuscator) : HiddenPaths :=
  rule.fields.filterMap CompiledField.hides

/-- One field rule keeps trees alike, under the rules that are still to come. -/
theorem conceal_apply {field : CompiledField} {fields : List CompiledField}
    (apart : ∀ later ∈ fields, field.strategy.isHash = true → later.strategy.isHash = false →
      ¬ field.path <+: later.path) {first second : Json}
    (alike : conceal first ((field :: fields).filterMap CompiledField.hides) =
      conceal second ((field :: fields).filterMap CompiledField.hides)) :
    conceal (field.apply first) (fields.filterMap CompiledField.hides) =
      conceal (field.apply second) (fields.filterMap CompiledField.hides) := by
  obtain ⟨path, strategy⟩ := field
  cases path with
  | nil =>
    simp only [CompiledField.apply, walk]
    exact alike
  | cons head rest =>
    have covers : Covers strategy (head :: rest)
        ((CompiledField.mk (head :: rest) strategy :: fields).filterMap CompiledField.hides)
        (fields.filterMap CompiledField.hides) := by
      cases strategy with
      | mask => exact List.filterMap_cons_some rfl
      | drop => exact List.filterMap_cons_some rfl
      | hash hasher =>
        refine ⟨List.filterMap_cons_none rfl, ?_⟩
        intro hidden member
        obtain ⟨later, listed, hides⟩ := List.mem_filterMap.mp member
        obtain ⟨shown, same⟩ := CompiledField.hides_eq_some hides
        rw [← same]
        exact apart later listed rfl shown
    have left := conceal_walk strategy first covers
    have right := conceal_walk strategy second covers
    rw [alike] at left
    exact left.symm.trans right

/-- Trees that differ only in hidden members come out as one. -/
theorem TopicObfuscator.applyFields_eq {rule : TopicObfuscator} (apart : rule.TokensApart)
    {first second : Json}
    (alike : conceal first rule.hiddenPaths = conceal second rule.hiddenPaths) :
    rule.applyFields first = rule.applyFields second := by
  unfold hiddenPaths at alike
  unfold applyFields
  unfold TokensApart at apart
  generalize rule.fields = fields at apart alike ⊢
  induction fields generalizing first second with
  | nil =>
    rw [List.filterMap_nil, conceal_nil, conceal_nil] at alike
    rw [alike]
  | cons field fields ih =>
    obtain ⟨here, later⟩ := List.pairwise_cons.mp apart
    exact ih later (conceal_apply here alike)

end Klens.Scan
