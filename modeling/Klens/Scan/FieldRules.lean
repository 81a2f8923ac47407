import Klens.Scan.Conceal

/-! Field rules by position. A walk along a path is compared with a reference
that visits the whole tree and knows where in it each member stands. -/
namespace Klens.Scan

/-- A step into a tree. -/
inductive TreeStep where
  | item (index : Nat)
  | member (name : String)
  deriving DecidableEq, Repr

abbrev Position := List TreeStep

namespace Position

/-- The member names on the way to a position. Arrays add none. -/
def names (position : Position) : List String :=
  position.filterMap fun
    | .item _ => none
    | .member name => some name

/-- The position is that of a member, and its names are the whole path. -/
def Reached (path : List String) (position : Position) : Prop :=
  position.names = path ∧ ∃ before name, position = before ++ [.member name]

def Inside (path : List String) (position : Position) : Prop :=
  ∃ start, start <+: position ∧ Reached path start

theorem names_append (first second : Position) :
    names (first ++ second) = names first ++ names second :=
  List.filterMap_append

@[simp] theorem names_member (name : String) : names [.member name] = [name] := rfl

@[simp] theorem names_item (index : Nat) : names [.item index] = [] := rfl

theorem not_inside_of_prefix {path : List String} {first second : Position}
    (within : first <+: second) (outside : ¬ second.Inside path) : ¬ first.Inside path := by
  rintro ⟨start, starts, reached⟩
  exact outside ⟨start, starts.trans within, reached⟩

/-- What leads to a reached member is not inside one. -/
theorem not_inside_of_reached {path : List String} {before : Position} {name : String}
    (reached : names (before ++ [.member name]) = path) : ¬ before.Inside path := by
  rintro ⟨start, ⟨rest, rfl⟩, same, -⟩
  have lengths := congrArg List.length (reached.trans same.symm)
  simp only [names_append, names_member, List.length_append, List.length_singleton] at lengths
  omega

end Position

/-- The values one step below. An object lists its members as it is read, so a
name can stand for several. -/
def Json.children : Json → TreeStep → List Json
  | .array items, .item index => items[index]?.toList
  | .object fields, .member name => (fields.filter fun entry => entry.1 = name).map Prod.snd
  | _, _ => []

theorem Json.child_member {fields : List (String × Json)} {name : String} {value : Json}
    (listed : (name, value) ∈ fields) : value ∈ (Json.object fields).children (.member name) :=
  List.mem_map.mpr ⟨(name, value), List.mem_filter.mpr ⟨listed, decide_eq_true rfl⟩, rfl⟩

def valuesAt : Json → Position → List Json
  | json, [] => [json]
  | json, step :: steps => (json.children step).flatMap fun child => valuesAt child steps

theorem valuesAt_append (json : Json) (first second : Position) :
    valuesAt json (first ++ second) =
      (valuesAt json first).flatMap fun value => valuesAt value second := by
  induction first generalizing json with
  | nil => simp [valuesAt]
  | cons step first ih => simp only [List.cons_append, valuesAt, ih, List.flatMap_assoc]

theorem valuesAt_singleton (json : Json) (step : TreeStep) :
    valuesAt json [step] = json.children step := by
  simp [valuesAt]

theorem valuesAt_string {text : String} {steps : Position} {value : Json}
    (held : value ∈ valuesAt (.string text) steps) : steps = [] ∧ value = .string text := by
  cases steps with
  | nil => exact ⟨rfl, List.mem_singleton.mp held⟩
  | cons step steps => cases step <;> contradiction

/-- A node without what is below it: a leaf, how many items an array has, which
names an object has in which order. -/
inductive Node where
  | leaf (value : Json)
  | items (count : Nat)
  | members (names : List String)

def Json.node : Json → Node
  | .array items => .items items.length
  | .object fields => .members (fields.map Prod.fst)
  | value => .leaf value

def Node.without (removed : String → Bool) : Node → Node
  | .members names => .members (names.filter fun name => !removed name)
  | node => node

namespace CompiledField

/-- A dropped member is gone from the object that its names lead to. -/
def removes (field : CompiledField) (trail : List String) (name : String) : Bool :=
  match field.strategy with
  | .drop => decide (trail ++ [name] = field.path)
  | .mask => false
  | .hash _ => false

theorem removes_apart {field : CompiledField} {trail : List String} {name : String}
    (apart : trail ++ [name] ≠ field.path) : field.removes trail name = false := by
  unfold removes
  cases field.strategy with
  | mask => rfl
  | hash hasher => rfl
  | drop => exact decide_eq_false apart

end CompiledField

/-- No member below is reached by names that the path does not go on with. -/
def Past (path trail : List String) : Prop := ∀ name rest, trail ++ name :: rest ≠ path

theorem past_self (path : List String) : Past path path := fun _ _ same => by
  simp at same

theorem past_other {trail rest : List String} {head name : String} (different : name ≠ head) :
    Past (trail ++ head :: rest) (trail ++ [name]) := by
  intro next others same
  rw [List.append_assoc] at same
  exact different (List.cons.inj (List.append_cancel_left same)).1

section Reference
variable [Crates]

/-- What becomes of a member on the path: `none` where it is removed. -/
def CompiledStrategy.rewrite (strategy : CompiledStrategy) (value : Json) : Option Json :=
  match strategy with
  | .mask => some (.string Scan.mask)
  | .hash hasher => some (.string (hasher.token (leafText value)))
  | .drop => none

mutual

/-- Every member is visited, and rewritten where the names from the root of the
tree to it are the path. -/
def reference (field : CompiledField) : List String → Json → Json
  | trail, .array items => .array (referenceItems field trail items)
  | trail, .object fields => .object (referenceFields field trail fields)
  | _, value => value

def referenceItems (field : CompiledField) : List String → List Json → List Json
  | _, [] => []
  | trail, item :: items => reference field trail item :: referenceItems field trail items

def referenceFields (field : CompiledField) :
    List String → List (String × Json) → List (String × Json)
  | _, [] => []
  | trail, (name, value) :: fields =>
    if trail ++ [name] = field.path then
      match field.strategy.rewrite value with
      | some rewritten => (name, rewritten) :: referenceFields field trail fields
      | none => referenceFields field trail fields
    else (name, reference field (trail ++ [name]) value) :: referenceFields field trail fields

end

theorem referenceItems_eq_map (field : CompiledField) (trail : List String) (items : List Json) :
    referenceItems field trail items = items.map (reference field trail) := by
  induction items with
  | nil => rfl
  | cons item items ih => rw [referenceItems, ih, List.map_cons]

/-- What becomes of a child, one step below a position whose names are `trail`. -/
def CompiledField.descend (field : CompiledField) (trail : List String) (step : TreeStep)
    (child : Json) : Option Json :=
  match step with
  | .item _ => some (reference field trail child)
  | .member name =>
    if trail ++ [name] = field.path then field.strategy.rewrite child
    else some (reference field (trail ++ [name]) child)

theorem children_referenceFields (field : CompiledField) (trail : List String) (name : String)
    (fields : List (String × Json)) :
    ((referenceFields field trail fields).filter fun entry => entry.1 = name).map Prod.snd =
      ((fields.filter fun entry => entry.1 = name).map Prod.snd).filterMap
        (field.descend trail (.member name)) := by
  induction fields with
  | nil => rfl
  | cons entry fields ih =>
    obtain ⟨here, value⟩ := entry
    rw [referenceFields]
    by_cases same : here = name
    · subst same
      by_cases reached : trail ++ [here] = field.path
      · cases rewritten : field.strategy.rewrite value <;>
          simpa [CompiledField.descend, reached, rewritten] using ih
      · simpa [CompiledField.descend, reached] using ih
    · by_cases reached : trail ++ [here] = field.path
      · cases rewritten : field.strategy.rewrite value <;> simpa [reached, rewritten, same] using ih
      · simpa [reached, same] using ih

theorem children_reference (field : CompiledField) (trail : List String) (json : Json)
    (step : TreeStep) :
    (reference field trail json).children step =
      (json.children step).filterMap (field.descend trail step) := by
  cases json with
  | null | bool | number | string => cases step <;> rfl
  | array items =>
    cases step with
    | item index =>
      rw [reference, referenceItems_eq_map]
      simp only [Json.children, List.getElem?_map]
      cases items[index]? <;> rfl
    | member name => rfl
  | object fields =>
    cases step with
    | item index => rfl
    | member name =>
      rw [reference]
      exact children_referenceFields field trail name fields

variable {field : CompiledField} {json : Json} {position : Position}

theorem valuesAt_outside (outside : ¬ position.Inside field.path) :
    valuesAt (reference field [] json) position =
      (valuesAt json position).map (reference field position.names) := by
  induction position using List.reverseRecOn with
  | nil => rfl
  | append_singleton before step ih =>
    have above := ih (Position.not_inside_of_prefix (List.prefix_append before [step]) outside)
    have descends : field.descend (Position.names before) step =
        some ∘ reference field (Position.names (before ++ [step])) := by
      cases step with
      | item index => rw [Position.names_append, Position.names_item, List.append_nil]; rfl
      | member name =>
        have apart : Position.names before ++ [name] ≠ field.path := fun same =>
          outside ⟨_, List.prefix_rfl, by rw [Position.names_append]; exact same, before, name, rfl⟩
        funext child
        rw [Position.names_append, Position.names_member, CompiledField.descend, if_neg apart]
        rfl
    simp only [valuesAt_append, valuesAt_singleton, above, List.flatMap_map, children_reference,
      descends, List.filterMap_eq_map, List.map_flatMap]

theorem valuesAt_reached (reached : position.Reached field.path) :
    valuesAt (reference field [] json) position =
      (valuesAt json position).filterMap field.strategy.rewrite := by
  obtain ⟨names, before, name, rfl⟩ := reached
  have descends : field.descend (Position.names before) (.member name) = field.strategy.rewrite := by
    rw [Position.names_append] at names
    funext child
    exact if_pos names
  simp only [valuesAt_append, valuesAt_singleton,
    valuesAt_outside (Position.not_inside_of_reached names), List.flatMap_map, children_reference,
    descends, List.filterMap_flatMap]

theorem removes_reached {trail : List String} {name : String}
    (reached : trail ++ [name] = field.path) (value : Json) :
    field.removes trail name = (field.strategy.rewrite value).isNone := by
  unfold CompiledField.removes CompiledStrategy.rewrite
  cases field.strategy with
  | mask => rfl
  | hash hasher => rfl
  | drop => exact decide_eq_true reached

theorem names_referenceFields (field : CompiledField) (trail : List String)
    (fields : List (String × Json)) :
    (referenceFields field trail fields).map Prod.fst =
      (fields.map Prod.fst).filter fun name => !field.removes trail name := by
  induction fields with
  | nil => rfl
  | cons entry fields ih =>
    obtain ⟨name, value⟩ := entry
    rw [referenceFields]
    by_cases reached : trail ++ [name] = field.path
    · have removes := removes_reached reached value
      cases rewritten : field.strategy.rewrite value <;> simp [removes, reached, rewritten, ih]
    · simp [CompiledField.removes_apart reached, reached, ih]

theorem node_reference (field : CompiledField) (trail : List String) (json : Json) :
    (reference field trail json).node = json.node.without (field.removes trail) := by
  cases json with
  | null | bool | number | string => rfl
  | array items =>
    rw [reference, referenceItems_eq_map]
    exact congrArg Node.items (List.length_map _)
  | object fields =>
    rw [reference]
    exact congrArg Node.members (names_referenceFields field trail fields)

/-- What the rest of the path reaches in a tree is what the rule makes of it. -/
def CompiledField.Settled (field : CompiledField) (trail : List String) (json : Json) : Prop :=
  ∀ rest, trail ++ rest = field.path → ∀ position, Position.Reached rest position →
    ∀ value ∈ valuesAt json position, field.strategy.rewrite value = some value

theorem settled_item {trail : List String} {items : List Json}
    (settled : field.Settled trail (.array items)) : ∀ item ∈ items, field.Settled trail item := by
  rintro item listed rest whole position ⟨names, before, name, rfl⟩ value held
  obtain ⟨index, found⟩ := List.mem_iff_getElem?.mp listed
  refine settled rest whole (.item index :: (before ++ [.member name]))
    ⟨?_, .item index :: before, name, rfl⟩ value ?_
  · exact names
  rw [valuesAt]
  exact List.mem_flatMap.mpr ⟨item, by simp [Json.children, found], held⟩

theorem settled_member {trail : List String} {fields : List (String × Json)} {name : String}
    {value : Json} (settled : field.Settled trail (.object fields))
    (listed : (name, value) ∈ fields) : field.Settled (trail ++ [name]) value := by
  rintro rest whole position ⟨names, before, last, rfl⟩ found held
  refine settled (name :: rest) (by rw [← whole, List.append_assoc]; rfl)
    (.member name :: (before ++ [.member last])) ⟨?_, .member name :: before, last, rfl⟩ found ?_
  · exact congrArg (name :: ·) names
  · rw [valuesAt]
    exact List.mem_flatMap.mpr ⟨value, Json.child_member listed, held⟩

theorem rewrite_of_settled {trail : List String} {fields : List (String × Json)} {name : String}
    {value : Json} (settled : field.Settled trail (.object fields))
    (listed : (name, value) ∈ fields) (reached : trail ++ [name] = field.path) :
    field.strategy.rewrite value = some value := by
  refine settled [name] reached [.member name] ⟨rfl, [], name, rfl⟩ value ?_
  rw [valuesAt_singleton]
  exact Json.child_member listed

mutual

theorem reference_of_settled : ∀ (json : Json) (trail : List String), field.Settled trail json →
    reference field trail json = json
  | .null, _, _ => rfl
  | .bool _, _, _ => rfl
  | .number _, _, _ => rfl
  | .string _, _, _ => rfl
  | .array items, trail, settled => by
    rw [reference, referenceItems_of_settled items trail (settled_item settled)]
  | .object fields, trail, settled => by
    rw [reference, referenceFields_of_settled fields trail
      (fun entry listed => ⟨rewrite_of_settled settled listed, settled_member settled listed⟩)]

theorem referenceItems_of_settled : ∀ (items : List Json) (trail : List String),
    (∀ item ∈ items, field.Settled trail item) → referenceItems field trail items = items
  | [], _, _ => rfl
  | item :: items, trail, settled => by
    obtain ⟨here, later⟩ := List.forall_mem_cons.mp settled
    rw [referenceItems, reference_of_settled item trail here,
      referenceItems_of_settled items trail later]

theorem referenceFields_of_settled : ∀ (fields : List (String × Json)) (trail : List String),
    (∀ entry ∈ fields, (trail ++ [entry.1] = field.path →
      field.strategy.rewrite entry.2 = some entry.2) ∧
      field.Settled (trail ++ [entry.1]) entry.2) →
    referenceFields field trail fields = fields
  | [], _, _ => rfl
  | (name, value) :: fields, trail, settled => by
    obtain ⟨⟨rewritten, here⟩, later⟩ := List.forall_mem_cons.mp settled
    rw [referenceFields, referenceFields_of_settled fields trail later]
    by_cases reached : trail ++ [name] = field.path
    · simp only [reached, if_true, rewritten reached]
    · rw [if_neg reached, reference_of_settled value (trail ++ [name]) here]

end

theorem reference_eq_self_iff : reference field [] json = json ↔ field.Settled [] json := by
  constructor
  · rintro same rest rfl position reached value held
    have kept : valuesAt (reference field [] json) position =
        (valuesAt json position).filterMap field.strategy.rewrite := valuesAt_reached reached
    rw [same] at kept
    exact List.filterMap_eq_map_iff_forall_eq_some.mp (kept.symm.trans (List.map_id _).symm)
      value held
  · exact reference_of_settled json []

theorem settled_of_past {trail : List String} (past : Past field.path trail) :
    field.Settled trail json := by
  rintro rest whole position ⟨names, before, name, rfl⟩
  rw [Position.names_append, Position.names_member] at names
  cases parts : Position.names before with
  | nil =>
    rw [parts] at names
    subst names
    exact absurd whole (past name [])
  | cons first others =>
    rw [parts] at names
    subst names
    exact absurd whole (past first (others ++ [name]))

theorem hideMember_eq (strategy : CompiledStrategy) (trail : List String) (head : String)
    (fields : List (String × Json)) :
    hideMember strategy head fields =
      referenceFields ⟨trail ++ [head], strategy⟩ trail fields := by
  induction fields with
  | nil => cases strategy <;> rfl
  | cons entry fields ih =>
    obtain ⟨name, value⟩ := entry
    rw [referenceFields, ← ih]
    by_cases same : name = head
    · subst same
      rw [if_pos rfl]
      cases strategy <;> simp [hideMember, CompiledStrategy.rewrite]
    · have past : Past (trail ++ [head]) (trail ++ [name]) := past_other same
      rw [hideMember_other _ same, if_neg (by simpa using same),
        reference_of_settled value _ (settled_of_past past)]

mutual

theorem walk_eq_reference (strategy : CompiledStrategy) : ∀ (json : Json)
    (trail rest : List String),
    walk strategy json rest = reference ⟨trail ++ rest, strategy⟩ trail json
  | .null, _, rest => by cases rest <;> rfl
  | .bool _, _, rest => by cases rest <;> rfl
  | .number _, _, rest => by cases rest <;> rfl
  | .string _, _, rest => by cases rest <;> rfl
  | .array items, trail, [] => by
    rw [walk, List.append_nil, reference_of_settled _ _ (settled_of_past (past_self trail))]
  | .array items, trail, head :: rest => by
    rw [walk, reference, walkItems_eq_reference strategy items trail (head :: rest)]
  | .object fields, trail, [] => by
    rw [walk, List.append_nil, reference_of_settled _ _ (settled_of_past (past_self trail))]
  | .object fields, trail, [head] => by
    rw [walk, reference, hideMember_eq strategy trail]
  | .object fields, trail, head :: next :: rest => by
    rw [walk, reference, walkFields_eq_reference strategy fields trail head next rest]

theorem walkItems_eq_reference (strategy : CompiledStrategy) : ∀ (items : List Json)
    (trail rest : List String),
    walkItems strategy items rest = referenceItems ⟨trail ++ rest, strategy⟩ trail items
  | [], _, _ => rfl
  | item :: items, trail, rest => by
    rw [walkItems, referenceItems, walk_eq_reference strategy item trail rest,
      walkItems_eq_reference strategy items trail rest]

theorem walkFields_eq_reference (strategy : CompiledStrategy) :
    ∀ (fields : List (String × Json)) (trail : List String) (head next : String)
      (rest : List String),
    walkFields strategy fields head (next :: rest) =
      referenceFields ⟨trail ++ head :: next :: rest, strategy⟩ trail fields
  | [], _, _, _, _ => rfl
  | (name, value) :: fields, trail, head, next, rest => by
    have before : trail ++ [name] ≠ trail ++ head :: next :: rest := by simp
    rw [walkFields, referenceFields, if_neg before,
      walkFields_eq_reference strategy fields trail head next rest]
    by_cases same : name = head
    · subst same
      rw [if_pos rfl, walk_eq_reference strategy value (trail ++ [name]) (next :: rest),
        List.append_assoc]
      rfl
    · have past : Past (trail ++ head :: next :: rest) (trail ++ [name]) := past_other same
      rw [if_neg same, reference_of_settled value _ (settled_of_past past)]

end

theorem apply_eq_reference (field : CompiledField) (json : Json) :
    field.apply json = reference field [] json :=
  walk_eq_reference field.strategy json [] field.path

/-- `after` is `before` with the members on the path rewritten, and otherwise the same. -/
structure CompiledField.Rewrites (field : CompiledField) (before after : Json) : Prop where
  reached : ∀ position, Position.Reached field.path position →
    valuesAt after position = (valuesAt before position).filterMap field.strategy.rewrite
  outside : ∀ position, ¬ Position.Inside field.path position →
    (valuesAt after position).map Json.node = (valuesAt before position).map fun value =>
      value.node.without (field.removes (Position.names position))
  untouched : (∀ position, Position.Reached field.path position →
    valuesAt before position = []) → after = before

theorem rewrites_reference (field : CompiledField) (json : Json) :
    field.Rewrites json (reference field [] json) where
  reached _ reached := valuesAt_reached reached
  outside position outside := by
    simp only [valuesAt_outside outside, List.map_map, Function.comp_def, node_reference]
  untouched nothing := by
    refine reference_eq_self_iff.mpr ?_
    rintro rest rfl position reached value held
    rw [nothing position reached] at held
    contradiction

/-- Rules that take no token, in terms of what they write: nothing or the mask. -/
theorem rewrite_eq_mask {strategy : CompiledStrategy} (plain : strategy.isHash = false)
    {value rewritten : Json} (rewrites : strategy.rewrite value = some rewritten) :
    strategy.rewrite (.string mask) = some (.string mask) ∧ rewritten = .string mask := by
  cases strategy with
  | mask => exact ⟨rfl, (Option.some.inj rewrites).symm⟩
  | drop => contradiction
  | hash hasher => contradiction

theorem settled_reference (plain : field.strategy.isHash = false) (json : Json) :
    field.Settled [] (reference field [] json) := by
  rintro rest rfl position reached value held
  rw [valuesAt_reached reached] at held
  obtain ⟨before, -, rewrites⟩ := List.mem_filterMap.mp held
  obtain ⟨kept, rfl⟩ := rewrite_eq_mask plain rewrites
  exact kept

/-- A rule that has been applied stays settled under the ones after it. -/
theorem settled_reference_of_settled {later : CompiledField}
    (plain : field.strategy.isHash = false) (masks : later.strategy.isHash = false)
    (settled : field.Settled [] json) : field.Settled [] (reference later [] json) := by
  rintro rest rfl position reached value held
  by_cases inside : position.Inside later.path
  · obtain ⟨start, ⟨more, rfl⟩, starts⟩ := inside
    rw [valuesAt_append, valuesAt_reached starts] at held
    obtain ⟨rewritten, written, below⟩ := List.mem_flatMap.mp held
    obtain ⟨before, found, rewrites⟩ := List.mem_filterMap.mp written
    obtain ⟨-, rfl⟩ := rewrite_eq_mask masks rewrites
    obtain ⟨rfl, rfl⟩ := valuesAt_string below
    rw [List.append_nil] at reached
    exact (rewrite_eq_mask plain (settled _ rfl start reached before found)).1
  · rw [valuesAt_outside inside] at held
    obtain ⟨before, found, rfl⟩ := List.mem_map.mp held
    have kept := settled _ rfl position reached before found
    obtain ⟨stays, rfl⟩ := rewrite_eq_mask plain kept
    exact stays

theorem settled_foldl {fields : List CompiledField}
    (plain : ∀ later ∈ fields, later.strategy.isHash = false)
    (masks : field.strategy.isHash = false) (settled : field.Settled [] json) :
    field.Settled [] (fields.foldl (fun json field => field.apply json) json) := by
  induction fields generalizing json with
  | nil => exact settled
  | cons next fields ih =>
    obtain ⟨here, later⟩ := List.forall_mem_cons.mp plain
    rw [List.foldl_cons, apply_eq_reference]
    exact ih later (settled_reference_of_settled masks here settled)

theorem settled_applyFields {fields : List CompiledField}
    (plain : ∀ field ∈ fields, field.strategy.isHash = false) (json : Json) :
    ∀ field ∈ fields,
      field.Settled [] (fields.foldl (fun json field => field.apply json) json) := by
  induction fields generalizing json with
  | nil => simp
  | cons next fields ih =>
    obtain ⟨here, later⟩ := List.forall_mem_cons.mp plain
    refine List.forall_mem_cons.mpr ⟨?_, ih later _⟩
    rw [List.foldl_cons, apply_eq_reference]
    exact settled_foldl later here (settled_reference here json)

theorem foldl_of_settled {fields : List CompiledField}
    (settled : ∀ field ∈ fields, field.Settled [] json) :
    fields.foldl (fun json field => field.apply json) json = json := by
  induction fields with
  | nil => rfl
  | cons next fields ih =>
    obtain ⟨here, later⟩ := List.forall_mem_cons.mp settled
    rw [List.foldl_cons, apply_eq_reference, reference_eq_self_iff.mpr here, ih later]

/-- A field rule rewrites the members on its path and no others, rules apply one
after another, and masks and drops are settled after one pass. -/
theorem field_rules_rewrite_their_paths :
    (∀ (field : CompiledField) (json : Json),
      field.apply json = reference field [] json ∧ field.Rewrites json (field.apply json)) ∧
    (∀ (rule : TopicObfuscator) (json : Json),
      rule.applyFields json =
        rule.fields.foldl (fun json field => reference field [] json) json) ∧
    ∀ rule : TopicObfuscator, (∀ field ∈ rule.fields, field.strategy.isHash = false) →
      ∀ json, rule.applyFields (rule.applyFields json) = rule.applyFields json := by
  refine ⟨?_, ?_, ?_⟩
  · intro field json
    rw [apply_eq_reference]
    exact ⟨rfl, rewrites_reference field json⟩
  · intro rule json
    simp only [TopicObfuscator.applyFields, apply_eq_reference]
  · intro rule plain json
    exact foldl_of_settled (settled_applyFields plain json)

end Reference

/-- A mask and a drop over an object in an array, twice. -/
theorem field_rules_rewrite_card :
    let rule : TopicObfuscator :=
      ⟨[⟨["card", "cvv"], .drop⟩, ⟨["card", "number"], .mask⟩], [], none, none, [], .mask⟩
    let json : Json := .array [.object [("card", .object
      [("brand", .string "visa"), ("cvv", .string "123"), ("number", .string "4111")])]]
    @TopicObfuscator.applyFields Crates.plain rule
        (@TopicObfuscator.applyFields Crates.plain rule json) =
      .array [.object [("card", .object [("brand", .string "visa"), ("number", .string "***")])]] :=
  (@field_rules_rewrite_their_paths Crates.plain).2.2 _ (by decide) _

end Klens.Scan
