import Klens.Scan.Obfuscate
import Mathlib.Logic.Function.Basic

/-! The obfuscation section of the config: which topics its rules cover, when it
is accepted and what it compiles to. -/
namespace Klens.Config
open Klens.Scan

inductive Strategy where
  | mask
  | hash
  | drop
  deriving DecidableEq, Repr

structure Field where
  path : String
  strategy : Strategy

/-- The regex has been compiled while the config was read. -/
structure Pattern where
  regex : Regex
  strategy : Strategy

inductive TopicPattern where
  | exact (name : String)
  | prefixed (start : String)
  deriving DecidableEq, Repr

/-- `str::starts_with`. -/
def startsWith (text start : String) : Bool := start.toList.isPrefixOf text.toList

namespace TopicPattern

def overlaps : TopicPattern → TopicPattern → Bool
  | .exact left, .exact right => left == right
  | .exact name, .prefixed start => startsWith name start
  | .prefixed start, .exact name => startsWith name start
  | .prefixed left, .prefixed right => startsWith left right || startsWith right left

def misplaced : String := "'*' may only end a topic pattern"

def tryFrom (pattern : String) : Except String TopicPattern :=
  match pattern.toList.getLast? with
  | some '*' =>
    let start := pattern.toList.dropLast
    if '*' ∈ start then .error misplaced else .ok (.prefixed (String.ofList start))
  | _ => if '*' ∈ pattern.toList then .error misplaced else .ok (.exact pattern)

def display : TopicPattern → String
  | .exact name => name
  | .prefixed start => start ++ "*"

/-- What the pattern covers: a name, or every name that starts with it. -/
def Matches : TopicPattern → String → Prop
  | .exact name, topic => name = topic
  | .prefixed start, topic => start.toList <+: topic.toList

instance : (pattern : TopicPattern) → (topic : String) → Decidable (pattern.Matches topic)
  | .exact name, topic => inferInstanceAs (Decidable (name = topic))
  | .prefixed start, topic => inferInstanceAs (Decidable (start.toList <+: topic.toList))

end TopicPattern

structure Rule where
  topics : List TopicPattern
  fields : List Field
  patterns : List Pattern
  key : Option Strategy
  value : Option Strategy
  headers : List String
  unparsed : Unparsed

structure Obfuscation where
  secret : Bytes
  rules : List Rule

/-- The first pattern that overlaps one before it, after that one. -/
def overlapAmong (covered : List TopicPattern) :
    List TopicPattern → Option (TopicPattern × TopicPattern)
  | [] => none
  | topic :: topics =>
    match covered.find? fun other => other.overlaps topic with
    | some other => some (other, topic)
    | none => overlapAmong (covered ++ [topic]) topics

def disjoint (rules : List Rule) : Except String (List Rule) :=
  match overlapAmong [] (rules.flatMap Rule.topics) with
  | some (other, topic) =>
    .error ("topics '" ++ other.display ++ "' and '" ++ topic.display ++ "' overlap")
  | none => .ok rules

section Compile

-- HMAC-SHA256, by its key.
variable (hmac : Bytes → Bytes → Bytes)

def Strategy.compile (hasher : KeyedHasher) : Strategy → CompiledStrategy
  | .mask => .mask
  | .hash => .hash hasher
  | .drop => .drop

def Field.compile (hasher : KeyedHasher) (field : Field) : CompiledField where
  path := (field.path.toList.splitOn '.').map String.ofList
  strategy := field.strategy.compile hasher

def Pattern.compile (hasher : KeyedHasher) (pattern : Pattern) : CompiledPattern where
  regex := pattern.regex
  strategy := pattern.strategy.compile hasher

def Rule.compile (hasher : KeyedHasher) (rule : Rule) : TopicObfuscator where
  fields := rule.fields.map (Field.compile hasher)
  patterns := rule.patterns.map (Pattern.compile hasher)
  key := rule.key.map (Strategy.compile hasher)
  value := rule.value.map (Strategy.compile hasher)
  headers := rule.headers
  unparsed := rule.unparsed

/-- One round of the loop over a rule's topics. -/
def insertTopic (obfuscator : TopicObfuscator) (policy : ObfuscationPolicy) :
    TopicPattern → ObfuscationPolicy
  | .exact name => { policy with exact := Function.update policy.exact name (some obfuscator) }
  | .prefixed start => { policy with prefixes := policy.prefixes ++ [(start, obfuscator)] }

/-- The obfuscator that a config makes of one of its rules. -/
def Obfuscation.obfuscator (config : Obfuscation) (rule : Rule) : TopicObfuscator :=
  rule.compile ⟨hmac config.secret⟩

/-- `ObfuscationPolicy::compile`. -/
def Obfuscation.compile (config : Obfuscation) : ObfuscationPolicy :=
  config.rules.foldl
    (fun policy rule => rule.topics.foldl (insertTopic (config.obfuscator hmac rule)) policy)
    ⟨fun _ => none, []⟩

end Compile

end Klens.Config
