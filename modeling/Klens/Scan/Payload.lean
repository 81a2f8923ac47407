import Klens.Lib.Utf8

/-! Payloads as they come off the wire, as a codec decodes them and as they
are shown. What third-party crates compute is a parameter: `Crates` names each
function the code calls and the documented behaviour it relies on. -/
namespace Klens.Scan
open Klens.Lib

abbrev Bytes := List UInt8

/-- `serde_json::Value`. Without `preserve_order` an object is a map sorted by
key, listed here in that order; a number is its text. -/
inductive Json where
  | null
  | bool (value : Bool)
  | number (text : String)
  | string (text : String)
  | array (items : List Json)
  | object (fields : List (String × Json))
  deriving Repr

inductive SchemaKey where
  | id (value : Nat)
  | guid (text : String)
  deriving DecidableEq, Repr

/-- `b'A'..=b'Z'` to lower case, every other byte unchanged. -/
def asciiLower (byte : UInt8) : UInt8 :=
  if 65 ≤ byte ∧ byte ≤ 90 then byte + 32 else byte

class Crates where
  /-- `schemreg::decode_wire_prefix`: the schema a payload names and where its
  body starts. -/
  decodeWirePrefix : Bytes → Option (SchemaKey × Nat)
  /-- `serde_json::to_string` of a `Value`, which does not fail. -/
  jsonText : Json → String
  /-- `AhoCorasick::is_match` of an automaton built with `ascii_case_insensitive`. -/
  isMatch : Bytes → Bytes → Bool
  isMatch_iff : ∀ needle haystack, isMatch needle haystack = true ↔
    ∃ found, found <:+: haystack ∧ found.map asciiLower = needle.map asciiLower

export Crates (decodeWirePrefix jsonText isMatch)

/-- One character of a JSON string, escaped the way `serde_json` does. -/
def escapeChar (char : Char) : List Char :=
  if char = '\x22' ∨ char = '\x5c' then ['\x5c', char]
  else if char = '\n' then ['\x5c', 'n']
  else if char = '\r' then ['\x5c', 'r']
  else if char = '\t' then ['\x5c', 't']
  else if char = '\x08' then ['\x5c', 'b']
  else if char = '\x0c' then ['\x5c', 'f']
  else if char.toNat < 32 then
    ['\x5c', 'u', '0', '0', Nat.digitChar (char.toNat / 16), Nat.digitChar (char.toNat % 16)]
  else [char]

def quoted (text : String) : List Char := '\x22' :: text.toList.flatMap escapeChar ++ ['\x22']

mutual

def compact : Json → List Char
  | .null => "null".toList
  | .bool value => (if value then "true" else "false").toList
  | .number text => text.toList
  | .string text => quoted text
  | .array items => '[' :: compactItems items ++ [']']
  | .object fields => '\x7b' :: compactFields fields ++ ['\x7d']

def compactItems : List Json → List Char
  | [] => []
  | [item] => compact item
  | item :: items => compact item ++ ',' :: compactItems items

def compactFields : List (String × Json) → List Char
  | [] => []
  | [(name, value)] => quoted name ++ ':' :: compact value
  | (name, value) :: fields => quoted name ++ ':' :: compact value ++ ',' :: compactFields fields

end

/-- A zero byte and a big-endian id, before the body. -/
def wirePrefixId : Bytes → Option (SchemaKey × Nat)
  | 0 :: a :: b :: c :: d :: _ =>
    some (.id (((a.toNat * 256 + b.toNat) * 256 + c.toNat) * 256 + d.toNat), 5)
  | _ => none

/-- The crates written out, to evaluate the model with. GUID prefixes are left out. -/
@[reducible] def Crates.plain : Crates where
  decodeWirePrefix := wirePrefixId
  jsonText json := String.ofList (compact json)
  isMatch needle haystack := decide (needle.map asciiLower <:+: haystack.map asciiLower)
  isMatch_iff needle haystack := by
    rw [decide_eq_true_iff, List.infix_map_iff]
    constructor
    · rintro ⟨found, inside, same⟩
      exact ⟨found, inside, same.symm⟩
    · rintro ⟨found, inside, same⟩
      exact ⟨found, inside, same.symm⟩

/-- `String::from_utf8_lossy`. -/
def renderRaw (bytes : Bytes) : String := String.ofList (Utf8.lossy bytes)

def asBytes (text : String) : Bytes := Utf8.encode text.toList

variable [Crates]

def framedSchemaId (bytes : Bytes) : Option Int := do
  let (key, _) ← decodeWirePrefix bytes
  match key with
  | .id value => if value ≤ 2147483647 then some value else none
  | .guid _ => none

def needsDecode (bytes : Bytes) (fallbackSchemaId : Option Int) : Bool :=
  (decodeWirePrefix bytes).isSome || fallbackSchemaId.isSome

/-- `text` is the once-cell: set by the first rendering, cleared by an edit. -/
structure DecodedPayload where
  bytes : Bytes
  wireSchemaId : Option Int
  json : Option Json
  text : Option String
  deriving Repr

namespace DecodedPayload

def raw (bytes : Bytes) : DecodedPayload :=
  { bytes, wireSchemaId := framedSchemaId bytes, json := none, text := none }

def decoded (bytes : Bytes) (json : Json) : DecodedPayload :=
  { bytes, wireSchemaId := framedSchemaId bytes, json := some json, text := none }

/-- `edit_json` followed by the edit, when there is a tree. -/
def editJson (payload : DecodedPayload) (edit : Json → Json) : Option DecodedPayload :=
  payload.json.map fun json => { payload with text := none, json := some (edit json) }

def redactWith (payload : DecodedPayload) (text : String) : DecodedPayload :=
  { payload with bytes := [], json := none, text := some text }

/-- What `text` returns and `into_text` gives away. -/
def intoText (payload : DecodedPayload) : String :=
  match payload.text with
  | some text => text
  | none => match payload.json with
    | some json => jsonText json
    | none => renderRaw payload.bytes

/-- The payload after a call of `text`, with its once-cell set. -/
def rendered (payload : DecodedPayload) : DecodedPayload :=
  { payload with text := some payload.intoText }

def isVerbatim (payload : DecodedPayload) : Bool :=
  payload.json.isNone && match Utf8.decode payload.bytes with
    | none => false
    | some chars => match payload.text with
      | none => true
      | some text => text == String.ofList chars

def dropTreeIfRendered (payload : DecodedPayload) : DecodedPayload :=
  if payload.text.isSome then { payload with json := none } else payload

end DecodedPayload

structure PayloadSlot where
  raw : Bytes
  fallbackSchemaId : Option Int
  json : Option Json
  deriving Repr

namespace PayloadSlot

def new (raw : Bytes) (fallbackSchemaId : Option Int) : PayloadSlot :=
  { raw, fallbackSchemaId, json := none }

def take (slot : PayloadSlot) : DecodedPayload :=
  match slot.json with
  | some json => .decoded slot.raw json
  | none => .raw slot.raw

end PayloadSlot

/-- A resolved codec: what it decodes a payload to, given the payload's bytes
and the fallback schema id. It looks at one slot at a time. -/
abbrev PayloadCodec := Bytes → Option Int → Option Json

/-- `PayloadCodec::resolve` and `ResolvedCodec::decode` on every slot. -/
def PayloadCodec.decode (codec : PayloadCodec) (slots : List PayloadSlot) : List PayloadSlot :=
  slots.map fun slot =>
    match codec slot.raw slot.fallbackSchemaId with
    | some json => { slot with json := some json }
    | none => slot

end Klens.Scan
