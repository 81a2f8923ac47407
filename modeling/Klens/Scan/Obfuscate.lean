import Klens.Scan.Payload

/-! Topic rules that hide parts of records: masked headers, field rules over a
decoded tree, whole keys and values, and patterns over text. -/
namespace Klens.Scan

def mask : String := "***"

def tokenPrefix : String := "kx:"

def tokenBytes : Nat := 8

inductive Field where
  | key
  | value
  deriving DecidableEq, Repr

inductive Unparsed where
  | mask
  | allow
  deriving DecidableEq, Repr

/-- HMAC-SHA256 under a fixed secret. -/
structure KeyedHasher where
  mac : Bytes → Bytes

def hexDigit (value : Nat) : Char := Nat.digitChar (value % 16)

def hexByte (byte : UInt8) : List Char := [hexDigit (byte.toNat / 16), hexDigit byte.toNat]

def KeyedHasher.token (hasher : KeyedHasher) (value : String) : String :=
  tokenPrefix ++ String.ofList (((hasher.mac (asBytes value)).take tokenBytes).flatMap hexByte)

inductive CompiledStrategy where
  | mask
  | hash (hasher : KeyedHasher)
  | drop

/-- A compiled expression: `Regex::replace_all` with a replacement for each
matched span. `none` stands for text with no match, which is borrowed back. -/
structure Regex where
  replaceAll : (String → String) → String → Option String

structure CompiledField where
  path : List String
  strategy : CompiledStrategy

structure CompiledPattern where
  regex : Regex
  strategy : CompiledStrategy

def CompiledPattern.apply (pattern : CompiledPattern) (text : String) : Option String :=
  match pattern.strategy with
  | .mask => pattern.regex.replaceAll (fun _ => mask) text
  | .drop => pattern.regex.replaceAll (fun _ => "") text
  | .hash hasher => pattern.regex.replaceAll hasher.token text

section Walk
variable [Crates]

def leafText : Json → String
  | .string text => text
  | other => jsonText other

/-- What the last step of a path does to an object. -/
def hideMember (strategy : CompiledStrategy) (head : String) (fields : List (String × Json)) :
    List (String × Json) :=
  match strategy with
  | .drop => fields.filter fun entry => entry.1 ≠ head
  | .mask => fields.map fun entry => if entry.1 = head then (entry.1, .string mask) else entry
  | .hash hasher => fields.map fun entry =>
      if entry.1 = head then (entry.1, .string (hasher.token (leafText entry.2))) else entry

mutual

def walk (strategy : CompiledStrategy) : Json → List String → Json
  | value, [] => value
  | .array items, head :: rest => .array (walkItems strategy items (head :: rest))
  | .object fields, [head] => .object (hideMember strategy head fields)
  | .object fields, head :: next :: rest =>
    .object (walkFields strategy fields head (next :: rest))
  | value, _ :: _ => value

def walkItems (strategy : CompiledStrategy) : List Json → List String → List Json
  | [], _ => []
  | item :: items, path => walk strategy item path :: walkItems strategy items path

def walkFields (strategy : CompiledStrategy) :
    List (String × Json) → String → List String → List (String × Json)
  | [], _, _ => []
  | (name, value) :: fields, head, rest =>
    (name, if name = head then walk strategy value rest else value) ::
      walkFields strategy fields head rest

end

def CompiledField.apply (field : CompiledField) (json : Json) : Json :=
  walk field.strategy json field.path

end Walk

structure TopicObfuscator where
  fields : List CompiledField
  patterns : List CompiledPattern
  key : Option CompiledStrategy
  value : Option CompiledStrategy
  headers : List String
  unparsed : Unparsed

/-- `str::eq_ignore_ascii_case`. -/
def eqIgnoreAsciiCase (left right : String) : Bool :=
  (asBytes left).map asciiLower == (asBytes right).map asciiLower

namespace TopicObfuscator

def hidesPayload (rule : TopicObfuscator) : Bool :=
  !rule.fields.isEmpty || !rule.patterns.isEmpty || rule.key.isSome || rule.value.isSome

def masksHeader (rule : TopicObfuscator) (name : String) : Bool :=
  rule.headers.any fun masked => eqIgnoreAsciiCase masked name

/-- `rewrite_text`: `none` when no pattern matched anything. -/
def rewriteText (rule : TopicObfuscator) (text : String) : Option String :=
  rule.patterns.foldl (fun current pattern =>
    match pattern.apply (current.getD text) with
    | some rewritten => some rewritten
    | none => current) none

def rewriteHeader (rule : TopicObfuscator) (value : Bytes) : Option Bytes :=
  if rule.patterns.isEmpty then none
  else (rule.rewriteText (renderRaw value)).map asBytes

def obfuscateHeader (rule : TopicObfuscator) (header : String × Option Bytes) :
    String × Option Bytes :=
  if rule.masksHeader header.1 then (header.1, some (asBytes mask))
  else match header.2.bind rule.rewriteHeader with
    | some rewritten => (header.1, some rewritten)
    | none => header

def obfuscateHeaders (rule : TopicObfuscator) (headers : List (String × Option Bytes)) :
    List (String × Option Bytes) :=
  if rule.headers.isEmpty && rule.patterns.isEmpty then headers
  else headers.map rule.obfuscateHeader

def masksUndecoded (rule : TopicObfuscator) (field : Field) : Bool :=
  decide (field = .value) && !rule.fields.isEmpty && decide (rule.unparsed = .mask)

variable [Crates]

def rewriteMatches (rule : TopicObfuscator) (payload : DecodedPayload) : DecodedPayload :=
  if rule.patterns.isEmpty then payload
  else match rule.rewriteText payload.intoText with
    | some text => payload.redactWith text
    | none => payload.rendered

def applyFields (rule : TopicObfuscator) (json : Json) : Json :=
  rule.fields.foldl (fun json field => field.apply json) json

def whole (rule : TopicObfuscator) : Field → Option CompiledStrategy
  | .key => rule.key
  | .value => rule.value

/-- The part of `apply` that runs on a payload that is there. -/
def applyPresent (rule : TopicObfuscator) (field : Field) (payload : DecodedPayload) :
    DecodedPayload :=
  let payload := match payload.editJson rule.applyFields with
    | some edited => edited
    | none => if rule.masksUndecoded field then payload.redactWith mask else payload
  match rule.whole field with
  | some .mask => payload.redactWith mask
  | some (.hash hasher) => payload.redactWith (hasher.token payload.intoText)
  | some .drop => payload
  | none => rule.rewriteMatches payload

def apply (rule : TopicObfuscator) (field : Field) (slot : Option DecodedPayload) :
    Option DecodedPayload :=
  match rule.whole field with
  | some .drop => none
  | _ => slot.map (rule.applyPresent field)

end TopicObfuscator

structure ObfuscationPolicy where
  exact : String → Option TopicObfuscator
  prefixes : List (String × TopicObfuscator)

def ObfuscationPolicy.forTopic (policy : ObfuscationPolicy) (topic : String) :
    Option TopicObfuscator :=
  match policy.exact topic with
  | some rule => some rule
  | none => (policy.prefixes.find? fun entry => entry.1.toList.isPrefixOf topic.toList).map Prod.snd

end Klens.Scan
