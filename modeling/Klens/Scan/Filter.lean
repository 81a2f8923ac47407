import Klens.Scan.Payload

/-! The substring filter, on raw bytes where no decode is needed and on the
shown text everywhere else. -/
namespace Klens.Scan

structure RawField where
  bytes : Bytes
  framed : Bool
  deriving Repr

inductive Verdict where
  | pass
  | fail
  | needsPayload
  deriving DecidableEq, Repr

/-- The automaton is determined by the needle it was built from. -/
structure CompiledFilter where
  needle : String
  deriving DecidableEq, Repr

namespace CompiledFilter
variable [Crates]

def matchesBytes (filter : CompiledFilter) (bytes : Bytes) : Bool :=
  isMatch (asBytes filter.needle) bytes

def onRawFrom (filter : CompiledFilter) (pending : Bool) : List RawField → Verdict
  | [] => if pending then .needsPayload else .fail
  | field :: rest =>
    if field.framed then filter.onRawFrom true rest
    else if filter.matchesBytes field.bytes then .pass
    else filter.onRawFrom pending rest

def onRaw (filter : CompiledFilter) (key value : Option RawField) : Verdict :=
  filter.onRawFrom false (key.toList ++ value.toList)

def matchesText (filter : CompiledFilter) (payload : DecodedPayload) : Bool :=
  filter.matchesBytes (asBytes payload.intoText)

/-- `on_payload`, with the payloads as it leaves them: the search stops at the
first match, so a value after a matching key stays unrendered. -/
def onPayload (filter : CompiledFilter) (key value : Option DecodedPayload) :
    Bool × Option DecodedPayload × Option DecodedPayload :=
  if key.any filter.matchesText then (true, key.map .rendered, value)
  else (value.any filter.matchesText, key.map .rendered, value.map .rendered)

end CompiledFilter
end Klens.Scan
