import Klens.Scan.Payload
import Std.Data.ExtTreeMap

/-! Replies of the tools, cut until they fit a result. The tool result itself and
the bytes it is written as belong to other crates. -/
namespace Klens.App.Mcp
open Klens.Scan

def resultBytes : Nat := 24000
def defaultRows : Nat := 25
def maxRows : Nat := 100

/-- What the model takes from `rmcp` and `serde_json`: tool results, how one is
made, and the chunks it is written in. -/
class Rmcp where
  CallToolResult : Type
  structured : Json → CallToolResult
  /-- `success` with one block of text. -/
  text : String → CallToolResult
  written : CallToolResult → List Bytes

export Rmcp (CallToolResult)

/-- A list of a reply: all of its rows, and how many of them are shown. -/
structure Rows (T : Type) where
  name : String
  all : List T
  shown : Nat
  within : shown ≤ all.length

namespace Rows
variable {T : Type}

def new (name : String) (all : List T) : Rows T :=
  { name, all, shown := all.length, within := Nat.le_refl _ }

def len (self : Rows T) : Nat := self.all.length

def shownRows (self : Rows T) : List T := self.all.take self.shown

def total (self : Rows T) : Nat := self.all.length

def «show» (self : Rows T) (rows : Nat) : Rows T :=
  { self with shown := min rows self.all.length, within := Nat.min_le_right .. }

end Rows

structure Page (T : Type) where
  rows : Rows T
  matching : Nat
  narrow : Option String

namespace Page
variable {T : Type}

def new (name : String) (rows : List T) (limit : Option Nat) (narrow : Option String) : Page T :=
  { rows := .new name (rows.take (min (max (limit.getD defaultRows) 1) maxRows))
    matching := rows.length
    narrow }

def showing (self : Page T) : String :=
  let shown := self.rows.shown
  let matching := self.matching
  let cutToFit := decide (shown < self.rows.len)
  if shown = matching then s!"{shown} of {matching}"
  else match self.narrow, cutToFit with
    | some narrow, true =>
      s!"{shown} of {matching}, as no more fit the result; {narrow} to see others"
    | none, true => s!"{shown} of {matching}, as no more fit the result"
    | some narrow, false => s!"{shown} of {matching}; {narrow}, or raise `limit`, to see others"
    | none, false => s!"{shown} of {matching}; raise `limit` to see others"

end Page

/-- A field of a reply as it is serialized. A row is the value it serializes to,
and a page is flattened into the reply. -/
inductive Field where
  | value (name : String) (value : Json)
  | rows (name : String) (rows : Rows Json)
  | page (page : Page Json)

namespace Field

/-- `Lists for Rows` and `Lists for Page`. -/
def list : Field → Option (Rows Json)
  | .value .. => none
  | .rows _ list => some list
  | .page listing => some listing.rows

def «show» (rows : Nat) : Field → Field
  | .value name content => .value name content
  | .rows name list => .rows name (list.show rows)
  | .page listing => .page { listing with rows := listing.rows.show rows }

/-- What the parts of a field are called in the result. -/
def names : Field → List String
  | .value name _ | .rows name _ => [name]
  | .page listing => [listing.rows.name, "showing"]

theorem names_show (rows : Nat) (field : Field) : (field.show rows).names = field.names := by
  cases field <;> rfl

def serialize : Field → List (String × Json)
  | .value name content => [(name, content)]
  | .rows name list => [(name, .array list.shownRows)]
  | .page listing =>
    [(listing.rows.name, .array listing.rows.shownRows), ("showing", .string listing.showing)]

end Field

def Field.cap (rebuilt : String → Option (Nat → Rows Json)) (most : Nat) : Field → Field
  | .rows name list => match rebuilt name with
    | some build => .rows name (build most)
    | none => .rows name list
  | field => field

theorem Field.names_cap (rebuilt : String → Option (Nat → Rows Json)) (most : Nat)
    (field : Field) : (Field.cap rebuilt most field).names = field.names := by
  cases field with
  | value name content => rfl
  | page listing => rfl
  | rows name list =>
    rw [Field.cap]
    cases rebuilt name <;> rfl

/-- `rebuilt` are the lists that `cap` makes anew from what the reply keeps
whole: for a field, its rows under a cap. The fields of a `struct` have names of
their own, and none is the note's. -/
structure Reply where
  fields : List Field
  distinct : ("truncated" :: fields.flatMap Field.names).Nodup
  keptWhole : Option String
  innerRows : Nat
  rebuilt : String → Option (Nat → Rows Json)
  cappedNote : Nat → Option String

/-- The `impl` that `reply!` writes: what it does not mention has its default. -/
def reply (fields : List Field) (distinct : ("truncated" :: fields.flatMap Field.names).Nodup)
    (kept : Option String) : Reply :=
  { fields, distinct, keptWhole := kept, innerRows := 0, rebuilt := fun _ => none,
    cappedNote := fun _ => none }

namespace Reply

theorem distinct_map {fields : List Field}
    (distinct : ("truncated" :: fields.flatMap Field.names).Nodup) {change : Field → Field}
    (kept : ∀ field, (change field).names = field.names) :
    ("truncated" :: (fields.map change).flatMap Field.names).Nodup := by
  rw [List.flatMap_map]
  simpa only [kept] using distinct

def lists (self : Reply) : List (Rows Json) := self.fields.filterMap Field.list

def cap (self : Reply) (rows : Nat) : Reply :=
  { self with
    fields := self.fields.map (.cap self.rebuilt rows)
    distinct := distinct_map self.distinct (Field.names_cap self.rebuilt rows) }

/-- Every list of the reply is told how many rows to show. -/
def «show» (self : Reply) (rows : Nat) : Reply :=
  { self with
    fields := self.fields.map (.show rows)
    distinct := distinct_map self.distinct (Field.names_show rows) }

end Reply

/-- `Fitted` as a value: an object is sorted by key. -/
def fitted (reply : Reply) (truncated : Option String) : Json :=
  let note := match truncated with
    | some text => [("truncated", Json.string text)]
    | none => []
  .object (Std.ExtTreeMap.ofList (reply.fields.flatMap Field.serialize ++ note)).toList

def leftOutText (several : Bool) (leftOut : Nat) (list : Rows Json) : String :=
  let total := list.total
  let name := list.name
  if several then s!"{leftOut} of {total} {name}" else s!"{leftOut} of {total}"

/-- What the note says of one list, if it was cut. -/
def cutNote (several : Bool) (list : Rows Json) : Option String :=
  let leftOut := list.total - list.shown
  if leftOut > 0 then some (leftOutText several leftOut list) else none

section
variable [Rmcp]

/-- `Write for ByteBudget`: what is left of it, or that it ran out. -/
def byteBudget (left : Nat) (bytes : Bytes) : Option Nat :=
  if bytes.length ≤ left then some (left - bytes.length) else none

def fits (result : CallToolResult) : Bool :=
  ((Rmcp.written result).foldlM byteBudget resultBytes).isSome

/-- `render` with the reply as it leaves it. -/
def render (self : Reply) (rows : Nat) : CallToolResult × Reply :=
  let capped := self.cap rows
  let several := decide (capped.lists.length > 1)
  let shown := capped.show rows
  let cut := shown.lists.filterMap (cutNote several)
  let truncated := shown.keptWhole.bind fun kept =>
    let joined := " and ".intercalate cut
    let notes := [
      if cut.isEmpty then none else some s!"{joined} left out to fit the result; {kept}",
      shown.cappedNote rows].filterMap id
    if notes.isEmpty then none else some (". ".intercalate notes)
  (Rmcp.structured (fitted shown truncated), shown)

/-- The loop of `search`: `best` is the last result that fit. -/
def bisecting {State : Type} (showing : Nat → State → CallToolResult × State)
    (fitting tooMany : Nat) (best : Option CallToolResult) (state : State) :
    Option CallToolResult × State :=
  if tooMany - fitting > 1 then
    let rows := fitting + (tooMany - fitting) / 2
    let (result, state) := showing rows state
    if fits result then bisecting showing rows tooMany (some result) state
    else bisecting showing fitting rows best state
  else (best, state)
termination_by tooMany - fitting

/-- `showing` may change the state it renders. -/
def search {State : Type} (most : Nat) (showing : Nat → State → CallToolResult × State)
    (state : State) : CallToolResult × State :=
  let most := min most resultBytes
  let (full, state) := showing most state
  if fits full then (full, state)
  else match bisecting showing 0 most none state with
    | (some best, state) => (best, state)
    | (none, state) => showing 0 state

def fit (self : Reply) : CallToolResult :=
  let most := (self.lists.map Rows.total).foldl max self.innerRows
  (search most (fun rows self => render self rows) self).1

end

/-- What a group description keeps whole: each finding and each member as the
row it is under a cap. -/
structure Whole where
  findings : List (Nat → Json)
  members : List (Nat → Json)
  widest : Nat

/-- The fields of `GroupDescription`. -/
def descriptionFields (group state protocol totalLag lagComplete : Json) (partitions : List Json)
    (notice : String) : List Field :=
  [.value "group" group, .value "state" state, .value "protocol" protocol,
    .value "totalLag" totalLag, .value "lagComplete" lagComplete,
    .rows "findings" (.new "findings" []), .rows "members" (.new "members" []),
    .rows "partitions" (.new "partitions" partitions), .value "notice" (.string notice)]

theorem distinct_descriptionFields (group state protocol totalLag lagComplete : Json)
    (partitions : List Json) (notice : String) : ("truncated" :: (descriptionFields group state
      protocol totalLag lagComplete partitions notice).flatMap Field.names).Nodup := by
  change (["truncated", "group", "state", "protocol", "totalLag", "lagComplete", "findings",
    "members", "partitions", "notice"] : List String).Nodup
  decide

def groupDescription (group state protocol totalLag lagComplete : Json) (whole : Whole)
    (partitions : List Json) (notice : String) : Reply :=
  let description : Reply := {
    fields := descriptionFields group state protocol totalLag lagComplete partitions notice
    distinct := distinct_descriptionFields group state protocol totalLag lagComplete partitions
      notice
    keptWhole := some "the lag totals and findings above cover every member and partition"
    innerRows := whole.widest
    rebuilt := fun name =>
      if name = "findings" then
        some fun most => .new "findings" (whole.findings.map fun finding => finding most)
      else if name = "members" then
        some fun most => .new "members" (whole.members.map fun member => member most)
      else none
    cappedNote := fun most =>
      if most < whole.widest then
        some s!"Each member names at most {most} topics, and each member and finding at most {most} partitions of a topic; `topicsLeftOut` and `partitionsLeftOut` count the rest"
      else none }
  description.cap whole.widest

end Klens.App.Mcp
