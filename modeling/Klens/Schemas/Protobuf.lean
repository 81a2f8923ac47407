import Mathlib.Tactic.TypeStar
import Std.Data.ExtTreeMap

/-! The files that a Protobuf schema is compiled from, and where an import of one
is looked up. -/
namespace Klens.Schemas
open Std

def rootFile : String := "schema.proto"

/-- A file that protox has read, with the spans of its source while it keeps them. -/
structure ProtoFile (Body Spans : Type*) where
  body : Body
  sourceCodeInfo : Option Spans

def withoutSourceSpans {Body Spans : Type*} (file : ProtoFile Body Spans) : ProtoFile Body Spans :=
  { file with sourceCodeInfo := none }

inductive OpenError where
  | fileNotFound (name : String)
  | fromSource (message : String)
  deriving DecidableEq

/-- What protox brings: the files of its `GoogleFileResolver`, and its parser. -/
structure Protox (Body Spans : Type*) where
  google : String → Option (ProtoFile Body Spans)
  fromSource : String → String → Except String (ProtoFile Body Spans)

def knownEscapes : List Char := "abfnrtv?\\'\"01234567xXuU".toList

namespace dropUnknownEscapes

/-- A backslash stays before an escape that protox knows; one at the end goes. -/
def kept : List Char → List Char
  | [] => []
  | [c] => if c = '\\' then [] else [c]
  | c :: escaped :: chars =>
    if c = '\\' then
      if escaped ∈ knownEscapes then c :: escaped :: kept chars else escaped :: kept chars
    else c :: kept (escaped :: chars)

end dropUnknownEscapes

def dropUnknownEscapes (source : String) : String :=
  String.ofList (dropUnknownEscapes.kept source.toList)

abbrev Files := ExtTreeMap String String

section Resolvers
variable {Body Spans : Type*} (protox : Protox Body Spans)

/-- `File::from_source` as `MemoryResolver` calls it. -/
def fromSource (name source : String) : Except OpenError (ProtoFile Body Spans) :=
  ((protox.fromSource name (dropUnknownEscapes source)).map withoutSourceSpans).mapError .fromSource

def MemoryResolver.openFile (files : Files) (name : String) :
    Except OpenError (ProtoFile Body Spans) :=
  match files[name]? with
  | some source => fromSource protox name source
  | none => .error (.fileNotFound name)

/-- The files that `ProtobufCodec::compile` puts in memory. -/
def compileFiles (schema : String) (references : List (String × String)) : Files :=
  references.foldl (fun files reference => files.insert reference.1 reference.2)
    ((∅ : Files).insert rootFile schema)

/-- The chain of resolvers that `ProtobufCodec::compile` hands to protox. -/
def openFile (schema : String) (references : List (String × String)) (name : String) :
    Except OpenError (ProtoFile Body Spans) :=
  match protox.google name with
  | some file => .ok file
  | none => MemoryResolver.openFile protox (compileFiles schema references) name

end Resolvers
end Klens.Schemas
