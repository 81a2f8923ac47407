import Mathlib.Data.List.Infix
import Mathlib.Tactic.Common

/-! UTF-8 at the level of bytes: encoding, strict and lossy decoding. The lossy
decoder replaces each maximal malformed subsequence by one U+FFFD, the way
`String::from_utf8_lossy` documents it. -/
namespace Klens.Lib.Utf8

def encode (chars : List Char) : List UInt8 := chars.flatMap String.utf8EncodeChar

/-- The character at the front, when the bytes start with a well-formed one. -/
def front (bytes : List UInt8) : Option Char := bytes.toByteArray.utf8DecodeChar? 0

def isTail (byte : UInt8) : Bool := decide (0x80 ≤ byte) && decide (byte ≤ 0xBF)

/-- Whether `second` may follow the lead byte `first` of three or four. -/
def fits (first second : UInt8) : Bool :=
  if first = 0xE0 then decide (0xA0 ≤ second) && decide (second ≤ 0xBF)
  else if first = 0xED then decide (0x80 ≤ second) && decide (second ≤ 0x9F)
  else if first = 0xF0 then decide (0x90 ≤ second) && decide (second ≤ 0xBF)
  else if first = 0xF4 then decide (0x80 ≤ second) && decide (second ≤ 0x8F)
  else isTail second

/-- How many bytes after a malformed `first` the decoder takes with it. -/
def malformed (first : UInt8) (rest : List UInt8) : Nat :=
  if 0xE0 ≤ first ∧ first ≤ 0xEF then
    match rest with
    | second :: _ => if fits first second then 1 else 0
    | [] => 0
  else if 0xF0 ≤ first ∧ first ≤ 0xF4 then
    match rest with
    | second :: third :: _ =>
      if fits first second then if isTail third then 2 else 1 else 0
    | [second] => if fits first second then 1 else 0
    | [] => 0
  else 0

/-- Decode after passing over `skip` bytes. -/
def lossyAfter : Nat → List UInt8 → List Char
  | _, [] => []
  | skip + 1, _ :: rest => lossyAfter skip rest
  | 0, first :: rest =>
    match front (first :: rest) with
    | some char => char :: lossyAfter (char.utf8Size - 1) rest
    | none => '\uFFFD' :: lossyAfter (malformed first rest) rest

def lossy (bytes : List UInt8) : List Char := lossyAfter 0 bytes

def decodeAfter : Nat → List UInt8 → Option (List Char)
  | _, [] => some []
  | skip + 1, _ :: rest => decodeAfter skip rest
  | 0, first :: rest =>
    match front (first :: rest) with
    | some char => (decodeAfter (char.utf8Size - 1) rest).map (char :: ·)
    | none => none

/-- `str::from_utf8`. -/
def decode (bytes : List UInt8) : Option (List Char) := decodeAfter 0 bytes

end Klens.Lib.Utf8
