import Klens.Lib.Best
import Klens.Scan.Cursor

/-! Sort keys and the size-bounded batch a scan collects its page in. The heap
is its ascending sequence: `peek` is the last entry and `into_sorted_vec` the
whole of it, which is what `BinaryHeap` documents for a total order. -/
namespace Klens.Scan
open Klens.Lib

structure SortKey where
  timestamp : Int
  partition : Int
  offset : Int
  deriving DecidableEq, Repr

namespace SortKey

def cmpForOrder (self other : SortKey) (order : RecordOrder) : Ordering :=
  match order with
  | .newest =>
    ((compare self.timestamp other.timestamp).swap.then
      (compare self.partition other.partition)).then
      (compare self.offset other.offset).swap
  | .oldest =>
    ((compare self.timestamp other.timestamp).then
      (compare self.partition other.partition)).then
      (compare self.offset other.offset)

def rank (self other : SortKey) (order : RecordOrder) (direction : CursorDirection) : Ordering :=
  match direction with
  | .forward => self.cmpForOrder other order
  | .backward => other.cmpForOrder self order

/-- `self` comes before `other` in a batch. -/
def Precedes (order : RecordOrder) (direction : CursorDirection) (self other : SortKey) : Prop :=
  self.rank other order direction = .lt

instance (order : RecordOrder) (direction : CursorDirection) :
    DecidableRel (Precedes order direction) :=
  fun self other => inferInstanceAs (Decidable (self.rank other order direction = .lt))

end SortKey

structure Entry (T : Type) where
  key : SortKey
  value : T
  order : RecordOrder
  direction : CursorDirection
  sequence : Nat
  deriving Repr

namespace Entry
variable {T : Type}

/-- `Ord for Entry`: equal keys stay in the order they were pushed. -/
def cmp (self other : Entry T) : Ordering :=
  (self.key.rank other.key self.order self.direction).then
    (compare self.sequence other.sequence)

def Before (self other : Entry T) : Prop := self.cmp other = .lt

instance : DecidableRel (Before (T := T)) :=
  fun self other => inferInstanceAs (Decidable (self.cmp other = .lt))

end Entry

structure RecordBatch (T : Type) where
  entries : List (Entry T)
  limit : Nat
  order : RecordOrder
  direction : CursorDirection
  seen : Nat
  deriving Repr

namespace RecordBatch
variable {T : Type}

def new (limit : Nat) (order : RecordOrder) (direction : CursorDirection) : RecordBatch T :=
  { entries := [], limit, order, direction, seen := 0 }

def isFull (batch : RecordBatch T) : Bool := decide (batch.entries.length ≥ batch.limit)

def isEmpty (batch : RecordBatch T) : Bool := batch.entries.isEmpty

def displaced (batch : RecordBatch T) : Nat := batch.seen - batch.entries.length

def admits (batch : RecordBatch T) (key : SortKey) : Bool :=
  if batch.limit = 0 then false
  else if !batch.isFull then true
  else match batch.entries.getLast? with
    | none => true
    | some worst => key.rank worst.key batch.order batch.direction == .lt

def push (batch : RecordBatch T) (key : SortKey) (value : T) : RecordBatch T :=
  if batch.limit = 0 then batch
  else
    let entry : Entry T :=
      { key, value, order := batch.order, direction := batch.direction, sequence := batch.seen }
    let batch := { batch with seen := batch.seen + 1 }
    if batch.entries.length < batch.limit then
      { batch with entries := insertAfter Entry.Before entry batch.entries }
    else match batch.entries.getLast? with
      | some worst =>
        if entry.cmp worst = .lt then
          { batch with entries := insertAfter Entry.Before entry batch.entries.dropLast }
        else batch
      | none => batch

/-- The batch itself, and the empty one `take` leaves behind. -/
def take (batch : RecordBatch T) : RecordBatch T × RecordBatch T :=
  (batch, new batch.limit batch.order batch.direction)

def intoSorted (batch : RecordBatch T) : List T := batch.entries.map Entry.value

end RecordBatch
end Klens.Scan
