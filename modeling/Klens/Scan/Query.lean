import Klens.Scan.Cursor
import Klens.Scan.Filter

/-! Record queries and the limits that settle their page size. -/
namespace Klens.Scan

/-- `builds` answers whether an automaton can be built for a needle. -/
def CompiledFilter.contains (builds : Bytes → Bool) (needle : String) :
    Except QueryError (Option CompiledFilter) :=
  let trimmed := String.ofList (trim needle.toList)
  if trimmed.isEmpty then .ok none
  else if builds (asBytes trimmed) then .ok (some { needle := trimmed })
  else .error .filterTooLong

/-- Milliseconds since the epoch. -/
structure TimestampRange where
  from? : Option Int
  to? : Option Int
  deriving DecidableEq, Repr

namespace TimestampRange

def unbounded : TimestampRange := { from? := none, to? := none }

def new (from? to? : Option Int) : Except QueryError TimestampRange :=
  match from?, to? with
  | some start, some stop =>
    if start > stop then .error .invertedTimestampRange else .ok { from?, to? }
  | _, _ => .ok { from?, to? }

def startSeek (range : TimestampRange) : Option Int := range.from?

/-- Kafka seeks to the first offset at or after a timestamp, so the end seeks
one millisecond past it to keep records stamped `to`. -/
def endSeek (range : TimestampRange) : Option Int := range.to?.map (saturatingAdd · 1)

end TimestampRange

structure RecordQuery where
  topic : String
  partitions : List Int
  filter : Option CompiledFilter
  timestamps : TimestampRange
  limit : Int
  order : RecordOrder
  cursor : Option RecordCursor
  schemaId : Option Int
  deriving DecidableEq

namespace RecordQuery

def walk (query : RecordQuery) : RecordOrder := (query.cursor.map RecordCursor.walk).getD query.order

def direction (query : RecordQuery) : CursorDirection :=
  (query.cursor.map RecordCursor.direction).getD .forward

def searching (query : RecordQuery) : Bool := query.filter.isSome

end RecordQuery

structure RecordAt where
  topic : String
  partition : Int
  offset : Int
  schemaId : Option Int
  deriving DecidableEq, Repr

/-- Kafka returns the first record at or after the offset, so the caller still
checks the offset it got back. -/
def RecordAt.query (record : RecordAt) : RecordQuery :=
  { topic := record.topic
    partitions := [record.partition]
    filter := none
    timestamps := .unbounded
    limit := 1
    order := .oldest
    cursor := some (RecordCursor.at .oldest record.partition record.offset)
    schemaId := record.schemaId }

/-- The sizes are `usize` values, `max_limit` a `NonZeroUsize`. -/
structure RecordLimits where
  maxLimit : Nat
  nonzero : 0 < maxLimit
  minWindow : Nat
  windowMultiplier : Nat
  searchWindowMultiplier : Nat
  deriving DecidableEq, Repr

def usizeMax : Nat := 18446744073709551615

/-- `as i64` of a `usize`. -/
def asI64 (value : Nat) : Int := (BitVec.ofNat 64 value).toInt

namespace RecordLimits

def clampLimit (limits : RecordLimits) (limit : Int) : Except QueryError Nat :=
  if limit < 1 then .error .limitTooSmall else .ok (min limit.toNat limits.maxLimit)

def windowTake (limits : RecordLimits) (limit : Nat) (searching : Bool) : Int :=
  let multiplier := if searching then limits.searchWindowMultiplier else limits.windowMultiplier
  asI64 (max (min (limit * multiplier) usizeMax) limits.minWindow)

end RecordLimits
end Klens.Scan
