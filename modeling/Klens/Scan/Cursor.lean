import Mathlib.Data.List.Sort
import Std.Data.ExtTreeMap

/-! Record orders, page cursors and the text a cursor travels in. Partitions,
offsets and timestamps are integers; the ranges of `i32` and `i64` matter only
where the cursor text is read back. -/
namespace Klens.Scan

inductive RecordOrder where
  | newest
  | oldest
  deriving DecidableEq, Repr

def RecordOrder.flipped : RecordOrder → RecordOrder
  | .newest => .oldest
  | .oldest => .newest

inductive CursorDirection where
  | forward
  | backward
  deriving DecidableEq, Repr

/-- `BTreeMap<i32, i64>`: one offset for each partition. -/
abbrev Offsets := Std.ExtTreeMap Int Int

/-- `Remaining::From` and `Remaining::Before`. -/
inductive Remaining where
  | fromOffsets (offsets : Offsets)
  | beforeOffsets (offsets : Offsets)
  deriving DecidableEq

namespace Remaining

def walking (walk : RecordOrder) (offsets : Offsets) : Remaining :=
  match walk with
  | .oldest => .fromOffsets offsets
  | .newest => .beforeOffsets offsets

def walk : Remaining → RecordOrder
  | .fromOffsets _ => .oldest
  | .beforeOffsets _ => .newest

def offsets : Remaining → Offsets
  | .fromOffsets offsets | .beforeOffsets offsets => offsets

@[simp] theorem walk_walking (order : RecordOrder) (offsets : Offsets) :
    (walking order offsets).walk = order := by
  cases order <;> rfl

@[simp] theorem offsets_walking (order : RecordOrder) (offsets : Offsets) :
    (walking order offsets).offsets = offsets := by
  cases order <;> rfl

@[simp] theorem walking_self (remaining : Remaining) :
    walking remaining.walk remaining.offsets = remaining := by
  cases remaining <;> rfl

end Remaining

structure RecordCursor where
  order : RecordOrder
  remaining : Remaining
  deriving DecidableEq

inductive QueryError where
  | invalidCursor
  | limitTooSmall
  | filterTooLong
  | invertedTimestampRange
  deriving DecidableEq, Repr

def i32Min : Int := -2147483648
def i32Max : Int := 2147483647
def i64Min : Int := -9223372036854775808
def i64Max : Int := 9223372036854775807

/-- `i64::saturating_add`. -/
def saturatingAdd (left right : Int) : Int :=
  max i64Min (min i64Max (left + right))

/-- Characters with Unicode's `White_Space` property, which `str::trim` removes. -/
def isWhitespace (c : Char) : Bool :=
  let code := c.toNat
  (9 ≤ code && code ≤ 13) || code == 0x20 || code == 0x85 || code == 0xA0 || code == 0x1680 ||
    (0x2000 ≤ code && code ≤ 0x200A) || code == 0x2028 || code == 0x2029 || code == 0x202F ||
    code == 0x205F || code == 0x3000

def trim (text : List Char) : List Char :=
  ((text.dropWhile isWhitespace).reverse.dropWhile isWhitespace).reverse

/-- `str::split_once`. -/
def splitOnce (sep : Char) (text : List Char) : Option (List Char × List Char) :=
  match text.dropWhile (· != sep) with
  | [] => none
  | _ :: rest => some (text.takeWhile (· != sep), rest)

/-- `str::splitn`: at most `count` parts, the last one unsplit. -/
def splitn : Nat → Char → List Char → List (List Char)
  | 0, _, _ => []
  | 1, _, text => [text]
  | count + 2, sep, text =>
    match splitOnce sep text with
    | none => [text]
    | some (part, rest) => part :: splitn (count + 1) sep rest

def parseDigits (digits : List Char) : Option Nat :=
  if digits ≠ [] ∧ digits.all Char.isDigit then some (Nat.ofDigitChars 10 digits 0) else none

/-- `i32::from_str` and `i64::from_str`: an optional sign, then digits, within
the type's range. -/
def parseInt (least most : Int) (text : List Char) : Option Int :=
  let value : Option Int :=
    match text with
    | '-' :: digits => (parseDigits digits).map fun value : Nat => -(value : Int)
    | '+' :: digits => (parseDigits digits).map fun value : Nat => (value : Int)
    | digits => (parseDigits digits).map fun value : Nat => (value : Int)
  value.filter fun value => decide (least ≤ value) && decide (value ≤ most)

namespace RecordCursor

/-- The first page includes the record at `offset` in either order. -/
def «at» (order : RecordOrder) (partition offset : Int) : RecordCursor :=
  let nearEnd := match order with
    | .oldest => offset
    | .newest => saturatingAdd offset 1
  { order, remaining := .walking order (Std.ExtTreeMap.ofList [(partition, nearEnd)]) }

def walk (cursor : RecordCursor) : RecordOrder := cursor.remaining.walk

def direction (cursor : RecordCursor) : CursorDirection :=
  if cursor.walk = cursor.order then .forward else .backward

def version : List Char := ['v', '2']

/-- One `partition:offset` part of a cursor's text. -/
def parsePart (offsets : Offsets) (part : List Char) : Option Offsets := do
  if part = [] then return offsets
  let (partition, offset) ← splitOnce ':' part
  let partition ← parseInt i32Min i32Max partition
  let offset ← parseInt i64Min i64Max offset
  if offset < 0 ∨ partition ∈ offsets then none
  else some (offsets.insert partition offset)

def parseChars (value : List Char) : Option RecordCursor :=
  match splitn 4 ':' (trim value) with
  | found :: order :: direction :: rest => do
    if found ≠ version then none
    let order ← match order with
      | ['n'] => some RecordOrder.newest
      | ['o'] => some RecordOrder.oldest
      | _ => none
    let walk ← match direction with
      | ['f'] => some order
      | ['b'] => some order.flipped
      | _ => none
    let offsets ← ((rest.headD []).splitOn ',').foldlM parsePart ∅
    some { order, remaining := .walking walk offsets }
  | _ => none

def parse (value : String) : Except QueryError RecordCursor :=
  match parseChars value.toList with
  | some cursor => .ok cursor
  | none => .error .invalidCursor

def validateFor (cursor : RecordCursor) (order : RecordOrder) : Except QueryError Unit :=
  if cursor.order = order then .ok () else .error .invalidCursor

/-- The decimal text of an integer. -/
def decimal (value : Int) : List Char :=
  match value with
  | .ofNat value => Nat.toDigits 10 value
  | .negSucc value => '-' :: Nat.toDigits 10 (value + 1)

def displayPart (entry : Int × Int) : List Char :=
  decimal entry.1 ++ ':' :: decimal entry.2

def displayParts (entries : List (Int × Int)) : List Char :=
  List.intercalate [','] (entries.map displayPart)

def displayChars (cursor : RecordCursor) : List Char :=
  let order := match cursor.order with
    | .newest => 'n'
    | .oldest => 'o'
  let direction := match cursor.direction with
    | .forward => 'f'
    | .backward => 'b'
  version ++ [':', order, ':', direction, ':'] ++ displayParts cursor.remaining.offsets.toList

/-- `Display for RecordCursor`. -/
def display (cursor : RecordCursor) : String := String.ofList cursor.displayChars

example : ((parse "v2:n:f:1:8,0:15").map display).toOption = some "v2:n:f:0:15,1:8" := by
  decide

end RecordCursor
end Klens.Scan
