import Klens.App.Mcp.Reply
import Klens.Lib.Bisect
import Klens.Lib.Maps

/-! What `search` returns is one of the renderings it was given, for as many
rows as fit. A reply is rendered over and over; what an earlier rendering left
of it does not show in a later one. -/
namespace Klens.App.Mcp
open Klens.Scan Klens.Lib Std

section Search
variable [Rmcp]

def Fits (result : CallToolResult) : Prop := (Rmcp.written result).flatten.length ≤ resultBytes

theorem fits_iff (result : CallToolResult) : fits result = true ↔ Fits result := by
  have counted : ∀ (chunks : List Bytes) (left : Nat),
      (chunks.foldlM byteBudget left).isSome = true ↔ chunks.flatten.length ≤ left := by
    intro chunks
    induction chunks with
    | nil => simp
    | cons bytes chunks ih =>
      intro left
      rw [List.foldlM_cons, List.flatten_cons, List.length_append]
      by_cases enough : bytes.length ≤ left
      · have rest := ih (left - bytes.length)
        rw [byteBudget, if_pos enough]
        exact rest.trans (by omega)
      · rw [byteBudget, if_neg enough]
        refine iff_of_false (by simp) ?_
        omega
  exact counted _ _

/-- A showing whose result depends on the rows alone, whatever it was asked for
before: `Steady` are the states it leaves. -/
structure Steady {State : Type} (showing : Nat → State → CallToolResult × State)
    (shown : Nat → CallToolResult) (Kept : State → Prop) : Prop where
  result : ∀ rows state, Kept state → (showing rows state).1 = shown rows
  kept : ∀ rows state, Kept state → Kept (showing rows state).2

variable {State : Type} {showing : Nat → State → CallToolResult × State}
  {shown : Nat → CallToolResult} {Kept : State → Prop}

/-- The loop carries the rendering of the last number that fit. -/
theorem bisecting_eq (steady : Steady showing shown Kept) (fitting tooMany : Nat)
    (best : Option CallToolResult) {state : State} (here : Kept state) :
    let last := bisect (fun rows => fits (shown rows)) fitting tooMany
    (bisecting showing fitting tooMany best state).1 =
        (if fitting < last then some (shown last) else best) ∧
      Kept (bisecting showing fitting tooMany best state).2 := by
  fun_induction bisect (fun rows => fits (shown rows)) fitting tooMany generalizing best state with
  | case1 fitting tooMany wide rows probed ih =>
    have result := steady.result rows state here
    have step : bisecting showing fitting tooMany best state =
        bisecting showing rows tooMany (some (shown rows)) (showing rows state).2 := by
      rw [bisecting, if_pos wide]
      dsimp only
      rw [result, if_pos probed]
    have further := le_bisect (fun rows => fits (shown rows)) rows tooMany
    have moved : fitting < bisect (fun rows => fits (shown rows)) rows tooMany := by omega
    obtain ⟨found, kept⟩ := ih (some (shown rows)) (steady.kept rows state here)
    dsimp only
    rw [step, if_pos moved]
    refine ⟨found.trans ?_, kept⟩
    split
    · rfl
    · rename_i still
      rw [show bisect (fun rows => fits (shown rows)) rows tooMany = rows by omega]
  | case2 fitting tooMany wide rows probed ih =>
    have result := steady.result rows state here
    have step : bisecting showing fitting tooMany best state =
        bisecting showing fitting rows best (showing rows state).2 := by
      rw [bisecting, if_pos wide]
      dsimp only
      rw [result, if_neg probed]
    rw [step]
    exact ih best (steady.kept rows state here)
  | case3 fitting tooMany close =>
    rw [bisecting, if_neg close]
    exact ⟨(if_neg (Nat.lt_irrefl _)).symm, here⟩

/-- `result` is the rendering of so many rows: one that fits if any does, and no
larger number fits where fitting goes down with the rows. -/
def CutToFit (shown : Nat → CallToolResult) (top : Nat) (result : CallToolResult) : Prop :=
  ∃ rows ≤ top, result = shown rows ∧ (Fits (shown 0) → Fits result) ∧
    ((∀ fewer more, fewer ≤ more → more ≤ top → Fits (shown more) → Fits (shown fewer)) →
      ∀ more, rows < more → more ≤ top → ¬ Fits (shown more))

theorem search_cutToFit (steady : Steady showing shown Kept) (most : Nat) {state : State}
    (here : Kept state) :
    CutToFit shown (min most resultBytes) (search most showing state).1 := by
  unfold search
  dsimp only
  rw [steady.result _ _ here]
  split
  · rename_i full
    refine ⟨_, Nat.le_refl _, rfl, fun _ => (fits_iff _).mp full, fun _ more beyond within => ?_⟩
    omega
  · rename_i full
    have bad : fits (shown (min most resultBytes)) = false := by simpa using full
    have beyond : (∀ fewer more, fewer ≤ more → more ≤ min most resultBytes →
          Fits (shown more) → Fits (shown fewer)) →
        ∀ more, bisect (fun rows => fits (shown rows)) 0 (min most resultBytes) < more →
          more ≤ min most resultBytes → ¬ Fits (shown more) := by
      intro antitone more further within fit
      have apart : 0 < min most resultBytes := by omega
      have next := @not_good_bisect_succ (fun rows => fits (shown rows)) 0 _ apart bad
      have smaller := (fits_iff _).mpr (antitone _ more further within fit)
      exact absurd smaller (by simpa using next)
    obtain ⟨found, kept⟩ := bisecting_eq steady 0 (min most resultBytes) none
      (steady.kept (min most resultBytes) state here)
    generalize bisecting showing 0 (min most resultBytes) none _ = outcome at found kept ⊢
    obtain ⟨best, last⟩ := outcome
    split at found
    · rename_i moved
      obtain rfl : best = _ := found
      refine ⟨_, bisect_le (Nat.zero_le _), rfl, fun _ => ?_, beyond⟩
      exact (fits_iff _).mp (good_bisect moved)
    · rename_i unmoved
      obtain rfl : best = none := found
      refine ⟨0, Nat.zero_le _, steady.result 0 last kept, ?_, ?_⟩
      · rw [steady.result 0 last kept]
        exact id
      · rwa [Nat.eq_zero_of_not_pos unmoved] at beyond

/-- A showing that keeps no state. -/
theorem search_stateless (most : Nat) (showing : Nat → CallToolResult) :
    CutToFit showing (min most resultBytes)
      (search most (fun rows (state : Unit) => (showing rows, state)) ()).1 := by
  have steady : Steady (fun rows (state : Unit) => (showing rows, state)) showing fun _ => True :=
    ⟨fun _ _ _ => rfl, fun _ _ _ => trivial⟩
  exact search_cutToFit steady most trivial

/-- Nothing is cut where everything fits. -/
theorem search_full {most : Nat} {showing : Nat → CallToolResult}
    (full : Fits (showing (min most resultBytes))) :
    (search most (fun rows (state : Unit) => (showing rows, state)) ()).1 =
      showing (min most resultBytes) := by
  unfold search
  dsimp only
  rw [if_pos ((fits_iff _).mpr full)]

end Search

section Render

@[simp] theorem Rows.show_show {T : Type} (list : Rows T) (before rows : Nat) :
    (list.show before).show rows = list.show rows := rfl

theorem Field.list_show (rows : Nat) (field : Field) :
    (field.show rows).list = field.list.map fun list => list.show rows := by
  cases field <;> rfl

theorem Reply.lists_show (self : Reply) (rows : Nat) :
    (self.show rows).lists = self.lists.map fun list => list.show rows := by
  simp only [Reply.lists, Reply.show, List.filterMap_map, List.map_filterMap]
  exact List.filterMap_congr fun field _ => Field.list_show rows field

/-- A field is rebuilt under a cap or it is not, and showing is forgotten either way. -/
theorem Field.cap_show (rebuilt : String → Option (Nat → Rows Json)) (before most : Nat)
    (field : Field) :
    (Field.cap rebuilt most (.show before (Field.cap rebuilt before field))).show most =
      (Field.cap rebuilt most field).show most := by
  cases field with
  | value name content => rfl
  | page listing => rfl
  | rows name list => cases built : rebuilt name <;> simp [Field.cap, Field.show, built]

/-- The reply that `render` serializes. -/
def Reply.capped (self : Reply) (rows : Nat) : Reply := (self.cap rows).show rows

theorem Reply.capped_capped (self : Reply) (before rows : Nat) :
    (self.capped before).capped rows = self.capped rows := by
  simp only [Reply.capped, Reply.cap, Reply.show, List.map_map, Reply.mk.injEq, and_self, and_true]
  exact List.map_congr_left fun field _ => Field.cap_show self.rebuilt before rows field

/-- The lists of a reply under a cap, with the names they have in the result. -/
def Reply.listed (self : Reply) (cap : Nat) : List (String × Rows Json) :=
  self.fields.filterMap fun
    | .value .. => none
    | .rows name list => some (name, ((self.rebuilt name).map fun build => build cap).getD list)
    | .page listing => some (listing.rows.name, listing.rows)

/-- The rows that a result shows under a name. -/
def shownUnder (content : ExtTreeMap String Json) (name : String) : List Json :=
  match content[name]? with
  | some (.array rows) => rows
  | _ => []

/-- How many of their rows a result leaves out, of the lists it does not show
whole. -/
def leftOut (listed : List (String × Rows Json)) (content : ExtTreeMap String Json) : List String :=
  (listed.filter fun entry =>
      decide ((shownUnder content entry.1).length < entry.2.all.length)).map fun (name, list) =>
    let missing := list.all.length - (shownUnder content name).length
    if listed.length = 1 then s!"{missing} of {list.all.length}"
    else s!"{missing} of {list.all.length} {list.name}"

/-- The note of a result that leaves rows out, or caps what rows hold. -/
def noteText (cut : List String) (kept : String) (capped : Option String) : Option String :=
  let joined := " and ".intercalate cut
  match cut.isEmpty, capped with
  | true, none => none
  | true, some capped => some capped
  | false, none => some s!"{joined} left out to fit the result; {kept}"
  | false, some capped => some s!"{joined} left out to fit the result; {kept}. {capped}"

/-- What a result of so many rows tells of a reply: its plain fields, the first
rows of each list, and of the lists it cut how many rows are missing from it. -/
structure Tells (given : Reply) (rows : Nat) (content : ExtTreeMap String Json) : Prop where
  values : ∀ name value, .value name value ∈ given.fields → content[name]? = some value
  lists : ∀ name list, (name, list) ∈ given.listed rows →
    content[name]? = some (.array (list.all.take (min rows list.all.length)))
  note : content["truncated"]? = (given.keptWhole.bind fun kept =>
    noteText (leftOut (given.listed rows) content) kept (given.cappedNote rows)).map Json.string

theorem cutNote_show (several : Bool) (list : Rows Json) (rows : Nat) :
    cutNote several (list.show rows) = if rows < list.total then
      some (leftOutText several (list.total - min rows list.total) list) else none := by
  have shown : cutNote several (list.show rows) = if list.total - min rows list.total > 0 then
      some (leftOutText several (list.total - min rows list.total) list) else none := rfl
  rw [shown]
  by_cases fewer : rows < list.total
  · rw [if_pos fewer, if_pos (by omega)]
  · rw [if_neg fewer, if_neg (by omega)]

/-- A list is in the note just when fewer of its rows are shown than it has. -/
theorem filterMap_cutNote (lists : List (Rows Json)) (several : Bool) (rows : Nat) :
    (lists.map fun list => list.show rows).filterMap (cutNote several) =
      (lists.filter fun list => decide (rows < list.total)).map fun list =>
        leftOutText several (list.total - min rows list.total) list := by
  induction lists with
  | nil => rfl
  | cons list lists ih =>
    rw [List.map_cons, List.filterMap_cons, cutNote_show, ih, List.filter_cons]
    by_cases fewer : rows < list.total
    · simp [fewer]
    · simp [fewer]

theorem Reply.lists_cap (self : Reply) (rows : Nat) :
    (self.cap rows).lists = (self.listed rows).map Prod.snd := by
  rw [Reply.lists, Reply.listed, Reply.cap, List.filterMap_map, List.map_filterMap]
  refine List.filterMap_congr fun field _ => ?_
  cases field with
  | value | page => rfl
  | rows name list =>
    dsimp only [Function.comp_apply, Field.cap]
    cases self.rebuilt name <;> rfl

/-- What `render` says of the lists it shows so many rows of. -/
def cutTexts (lists : List (Rows Json)) (rows : Nat) : List String :=
  (lists.filter fun list => decide (rows < list.total)).map fun list =>
    leftOutText (decide (lists.length > 1)) (list.total - min rows list.total) list

theorem cutTexts_show (lists : List (Rows Json)) (rows : Nat) :
    cutTexts (lists.map fun list => list.show rows) rows = cutTexts lists rows := by
  rw [cutTexts, List.filter_map, List.map_map, List.length_map]
  rfl

/-- The note of a rendering. -/
def truncated (self : Reply) (rows : Nat) : Option String :=
  self.keptWhole.bind fun kept =>
    noteText (cutTexts (self.capped rows).lists rows) kept (self.cappedNote rows)

/-- The entries of a result, in the order its fields are in. -/
def entries (self : Reply) (rows : Nat) : List (String × Json) :=
  (self.capped rows).fields.flatMap Field.serialize ++
    ((truncated self rows).map fun text => ("truncated", Json.string text)).toList

theorem Field.map_fst_serialize (field : Field) : field.serialize.map Prod.fst = field.names := by
  cases field <;> rfl

theorem functional_entries (self : Reply) (rows : Nat) : Maps.Functional (entries self rows) := by
  have names : ((self.capped rows).fields.flatMap Field.serialize).map Prod.fst =
      (self.capped rows).fields.flatMap Field.names := by
    rw [List.map_flatMap]
    exact List.flatMap_congr fun field _ => Field.map_fst_serialize field
  have distinct : ((entries self rows).map Prod.fst).Nodup := by
    obtain ⟨apart, own⟩ := List.nodup_cons.mp (self.capped rows).distinct
    rw [entries, List.map_append, names]
    cases truncated self rows with
    | none => simpa using own
    | some text =>
      refine List.Nodup.append own (List.nodup_singleton _) ?_
      exact List.disjoint_singleton.mpr apart
  intro key first second one two
  exact congrArg Prod.snd (List.inj_on_of_nodup_map distinct one two rfl)

theorem getElem?_content {self : Reply} {rows : Nat} {name : String} {value : Json} :
    (ExtTreeMap.ofList (entries self rows) compare)[name]? = some value ↔
      (name, value) ∈ entries self rows :=
  Maps.getElem?_ofList (functional_entries self rows)

theorem fitted_eq (self : Reply) (rows : Nat) :
    fitted (self.capped rows) (truncated self rows) =
      .object (ExtTreeMap.ofList (entries self rows) compare).toList := by
  unfold fitted entries
  cases truncated self rows <;> rfl

/-- Each list of a reply stands in the result under its name. -/
theorem mem_entries_of_listed {self : Reply} {rows : Nat} {name : String} {list : Rows Json}
    (listed : (name, list) ∈ self.listed rows) :
    (name, .array (list.all.take (min rows list.all.length))) ∈ entries self rows := by
  obtain ⟨field, here, found⟩ := List.mem_filterMap.mp listed
  have capped : (Field.cap self.rebuilt rows field).show rows ∈ (self.capped rows).fields :=
    List.mem_map_of_mem (List.mem_map_of_mem here)
  refine List.mem_append_left _ (List.mem_flatMap.mpr ⟨_, capped, ?_⟩)
  cases field with
  | value => contradiction
  | rows =>
    obtain ⟨rfl, rfl⟩ := Prod.mk.inj (Option.some.inj found)
    rw [Field.cap]
    cases self.rebuilt _ <;> exact List.mem_singleton_self _
  | page =>
    obtain ⟨rfl, rfl⟩ := Prod.mk.inj (Option.some.inj found)
    exact List.mem_cons_self

theorem mem_entries_of_value {self : Reply} {name : String} {value : Json}
    (here : .value name value ∈ self.fields) (rows : Nat) : (name, value) ∈ entries self rows := by
  refine List.mem_append_left _ (List.mem_flatMap.mpr ⟨.value name value, ?_, ?_⟩)
  · exact List.mem_map.mpr ⟨_, List.mem_map_of_mem here, rfl⟩
  · exact List.mem_singleton_self _

/-- The lists that a result does not show whole, with what is missing, are those of the note. -/
theorem leftOut_eq {listed : List (String × Rows Json)} {content : ExtTreeMap String Json}
    {rows : Nat} (shown : ∀ name list, (name, list) ∈ listed →
      content[name]? = some (Json.array (list.all.take (min rows list.all.length)))) :
    leftOut listed content = cutTexts (listed.map Prod.snd) rows := by
  have length {name : String} {list : Rows Json} (here : (name, list) ∈ listed) :
      (shownUnder content name).length = min rows list.all.length := by
    rw [shownUnder, shown name list here]
    simp
  rw [leftOut, cutTexts, List.filter_map, List.map_map, List.length_map]
  have kept : (listed.filter fun entry =>
      decide ((shownUnder content entry.1).length < entry.2.all.length)) =
      listed.filter ((fun list => decide (rows < list.total)) ∘ Prod.snd) := by
    refine List.filter_congr fun entry here => ?_
    rw [length here, Function.comp_apply, Rows.total]
    exact decide_eq_decide.mpr (by omega)
  rw [kept]
  refine List.map_congr_left fun entry here => ?_
  have member := List.mem_of_mem_filter here
  dsimp only [Function.comp_apply]
  rw [length member, leftOutText, Rows.total]
  have some : 0 < listed.length := List.length_pos_of_mem member
  by_cases single : listed.length = 1
  · rw [if_pos single, if_neg (by simpa using single.le)]
  · rw [if_neg single, if_pos (by simpa using (by omega : 1 < listed.length))]

theorem tells_content (self : Reply) (rows : Nat) :
    Tells self rows (ExtTreeMap.ofList (entries self rows) compare) where
  values name value here := getElem?_content.mpr (mem_entries_of_value here rows)
  lists name list listed := getElem?_content.mpr (mem_entries_of_listed listed)
  note := by
    have cut : leftOut (self.listed rows) (ExtTreeMap.ofList (entries self rows) compare) =
        cutTexts (self.capped rows).lists rows := by
      rw [leftOut_eq fun name list listed => getElem?_content.mpr (mem_entries_of_listed listed),
        ← Reply.lists_cap, Reply.capped, Reply.lists_show, cutTexts_show]
    rw [cut]
    change _ = (truncated self rows).map Json.string
    have apart : ∀ value, ("truncated", value) ∉ (self.capped rows).fields.flatMap Field.serialize := by
      intro value member
      obtain ⟨field, here, there⟩ := List.mem_flatMap.mp member
      refine (List.nodup_cons.mp (self.capped rows).distinct).1
        (List.mem_flatMap.mpr ⟨field, here, ?_⟩)
      rw [← Field.map_fst_serialize]
      exact List.mem_map_of_mem (f := Prod.fst) there
    cases noted : truncated self rows with
    | some text =>
      refine getElem?_content.mpr (List.mem_append_right _ ?_)
      rw [noted]
      exact List.mem_singleton_self _
    | none =>
      refine Option.eq_none_iff_forall_ne_some.mpr fun value found => ?_
      obtain left | right := List.mem_append.mp (getElem?_content.mp found)
      · exact apart value left
      · rw [noted] at right
        contradiction

variable [Rmcp]

theorem render_eq (self : Reply) (rows : Nat) : render self rows =
    (Rmcp.structured (fitted (self.capped rows) (truncated self rows)), self.capped rows) := by
  have cut : (self.capped rows).lists.filterMap (cutNote (decide ((self.cap rows).lists.length > 1))) =
      cutTexts (self.capped rows).lists rows := by
    rw [Reply.capped, Reply.lists_show, filterMap_cutNote, cutTexts_show]
    rfl
  have noted : truncated self rows = self.keptWhole.bind fun kept =>
      let joined := " and ".intercalate (cutTexts (self.capped rows).lists rows)
      let notes := [
        if (cutTexts (self.capped rows).lists rows).isEmpty then none
        else some s!"{joined} left out to fit the result; {kept}",
        self.cappedNote rows].filterMap id
      if notes.isEmpty then none else some (". ".intercalate notes) := by
    unfold truncated
    congr 1
    funext kept
    unfold noteText
    dsimp only
    cases (cutTexts (self.capped rows).lists rows).isEmpty <;> cases self.cappedNote rows
    case false.some capped =>
      have both : ∀ first second : String, ". ".intercalate [first, second] =
          first ++ ". " ++ second := fun _ _ => rfl
      simp [both, String.append_assoc, toString]
    all_goals rfl
  rw [noted, ← cut]
  rfl

/-- Every rendering of a reply starts from the same rows, whatever was rendered
before. -/
theorem steady_render (self : Reply) : Steady (fun rows state => render state rows)
    (fun rows => (render self rows).1)
    (fun state => state.keptWhole = self.keptWhole ∧ state.cappedNote = self.cappedNote ∧
      ∀ rows, state.capped rows = self.capped rows) where
  result rows state same := by
    obtain ⟨kept, capped, shown⟩ := same
    have noted : truncated state rows = truncated self rows := by
      rw [truncated, truncated, kept, shown, capped]
    rw [render_eq, render_eq, shown, noted]
  kept rows state same := by
    obtain ⟨kept, capped, shown⟩ := same
    rw [render_eq]
    refine ⟨kept, capped, fun again => ?_⟩
    rw [Reply.capped_capped, shown]

/-- A search ends with one of the renderings, cut to fit, for any stateless
showing and for any reply; and what a rendering tells is the first rows of each list
and how many of which lists it left out. -/
theorem reply_cut_to_fit :
    (∀ (most : Nat) (showing : Nat → CallToolResult), CutToFit showing (min most resultBytes)
      (search most (fun rows (state : Unit) => (showing rows, state)) ()).1) ∧
    ∀ self : Reply,
      (∀ most : Nat, CutToFit (fun rows => (render self rows).1) (min most resultBytes)
        (search most (fun rows state => render state rows) self).1) ∧
      CutToFit (fun rows => (render self rows).1)
        (min ((self.lists.map Rows.total).foldl max self.innerRows) resultBytes) (fit self) ∧
      ∀ rows, ∃ content : ExtTreeMap String Json,
        (render self rows).1 = Rmcp.structured (.object content.toList) ∧
          Tells self rows content := by
  have rendered : ∀ (self : Reply) (most : Nat),
      CutToFit (fun rows => (render self rows).1) (min most resultBytes)
        (search most (fun rows state => render state rows) self).1 :=
    fun self most => search_cutToFit (steady_render self) most ⟨rfl, rfl, fun _ => rfl⟩
  refine ⟨search_stateless, fun self => ⟨rendered self, rendered self _, fun rows => ?_⟩⟩
  refine ⟨_, ?_, tells_content self rows⟩
  rw [render_eq, fitted_eq]

end Render

namespace Sample

/-- Results that are the value they structure, written in one piece. -/
@[reducible] def written : Rmcp where
  CallToolResult := Json
  structured := id
  text := .string
  written content := [asBytes (String.ofList (compact content))]

theorem distinct_partitions : (["truncated", "topic", "partitions"] : List String).Nodup := by
  decide

def partitions : Reply :=
  reply [.value "topic" (.string "orders"),
      .rows "partitions" (.new "partitions" [.number "0", .number "1", .number "2"])]
    distinct_partitions (some "the counts above cover every partition")

end Sample

theorem reply_cut_to_fit_partitions : ∃ content : ExtTreeMap String Json,
    (@render Sample.written Sample.partitions 2).1 = Json.object content.toList ∧
      content["topic"]? = some (Json.string "orders") ∧
      content["partitions"]? = some (Json.array [.number "0", .number "1"]) ∧
      content["truncated"]? = some (Json.string
        "1 of 3 left out to fit the result; the counts above cover every partition") := by
  obtain ⟨content, made, tells⟩ := ((@reply_cut_to_fit Sample.written).2 Sample.partitions).2.2 2
  refine ⟨content, made, tells.values _ _ List.mem_cons_self,
    tells.lists "partitions" _ List.mem_cons_self, ?_⟩
  rw [tells.note, leftOut_eq tells.lists]
  rfl

end Klens.App.Mcp
