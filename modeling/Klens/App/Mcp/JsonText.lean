import Klens.Scan.Payload
import Mathlib.Tactic.Common

/-! Reading JSON texts back. `readJson` is what a client does with a line it was
sent; `compactWith` are the texts without blanks, with the strings spelled in
any way that reads as they are. -/
namespace Klens.App.Mcp
open Klens.Scan

section Reader

def hexValue (digit : Char) : Option Nat :=
  if '0' ≤ digit ∧ digit ≤ '9' then some (digit.toNat - 48)
  else if 'a' ≤ digit ∧ digit ≤ 'f' then some (digit.toNat - 87)
  else if 'A' ≤ digit ∧ digit ≤ 'F' then some (digit.toNat - 55)
  else none

def hexUnit (a b c d : Char) : Option Nat := do
  some ((((← hexValue a) * 16 + (← hexValue b)) * 16 + (← hexValue c)) * 16 + (← hexValue d))

def shortEscape (mark : Char) : Option Char :=
  if mark = '\x22' ∨ mark = '\x5c' ∨ mark = '/' then some mark
  else if mark = 'b' then some '\x08'
  else if mark = 'f' then some '\x0c'
  else if mark = 'n' then some '\n'
  else if mark = 'r' then some '\r'
  else if mark = 't' then some '\t'
  else none

def readUnit : List Char → Option (Nat × List Char)
  | a :: b :: c :: d :: rest => (hexUnit a b c d).map fun unit => (unit, rest)
  | _ => none

/-- After the `u` of an escape: one code unit, or the two of a surrogate pair. -/
def readUnicode (text : List Char) : Option (Char × List Char) := do
  let (unit, rest) ← readUnit text
  if 0xD800 ≤ unit ∧ unit < 0xDC00 then
    match rest with
    | '\x5c' :: 'u' :: rest => do
      let (low, rest) ← readUnit rest
      if 0xDC00 ≤ low ∧ low < 0xE000 then
        some (Char.ofNat (0x10000 + (unit - 0xD800) * 0x400 + (low - 0xDC00)), rest)
      else none
    | _ => none
  else if 0xDC00 ≤ unit ∧ unit < 0xE000 then none
  else some (Char.ofNat unit, rest)

def readEscape : List Char → Option (Char × List Char)
  | [] => none
  | mark :: rest =>
    if mark = 'u' then readUnicode rest else (shortEscape mark).map fun char => (char, rest)

def readChar : List Char → Option (Char × List Char)
  | [] => none
  | char :: rest =>
    if char = '\x5c' then readEscape rest
    else if char = '\x22' ∨ char.toNat < 32 then none
    else some (char, rest)

/-- The rest of a string, up to the quote that ends it. -/
def readChars : Nat → List Char → Option (List Char × List Char)
  | 0, _ => none
  | _, [] => none
  | fuel + 1, char :: rest =>
    if char = '\x22' then some ([], rest)
    else do
      let (read, rest) ← readChar (char :: rest)
      let (chars, rest) ← readChars fuel rest
      some (read :: chars, rest)

def isDigit (char : Char) : Bool := decide ('0' ≤ char ∧ char ≤ '9')

def isExponent : List Char → Bool
  | [] => true
  | mark :: rest =>
    let digits := match rest with
      | sign :: digits => if sign = '+' ∨ sign = '-' then digits else rest
      | [] => rest
    (mark == 'e' || mark == 'E') && !digits.isEmpty && digits.all isDigit

def isFraction : List Char → Bool
  | [] => true
  | mark :: rest =>
    if mark = '.' then
      !(rest.takeWhile isDigit).isEmpty && isExponent (rest.dropWhile isDigit)
    else isExponent (mark :: rest)

def isUnsigned : List Char → Bool
  | [] => false
  | first :: rest =>
    if first = '0' then isFraction rest
    else isDigit first && isFraction (rest.dropWhile isDigit)

def isNumber : List Char → Bool
  | [] => false
  | first :: rest => if first = '-' then isUnsigned rest else isUnsigned (first :: rest)

/-- The characters of numbers and of the three names. -/
def isWordChar (char : Char) : Bool :=
  char.isAlphanum || char == '+' || char == '-' || char == '.'

def wordValue (word : List Char) : Option Json :=
  if word = "null".toList then some .null
  else if word = "true".toList then some (.bool true)
  else if word = "false".toList then some (.bool false)
  else if isNumber word then some (.number (String.ofList word))
  else none

def readWord (text : List Char) : Option (Json × List Char) :=
  (wordValue (text.takeWhile isWordChar)).map fun json => (json, text.dropWhile isWordChar)

def isBlank (char : Char) : Bool := char == ' ' || char == '\t' || char == '\n' || char == '\r'

def skipBlanks (text : List Char) : List Char := text.dropWhile isBlank

mutual

def readValue : Nat → List Char → Option (Json × List Char)
  | 0, _ => none
  | fuel + 1, text => match skipBlanks text with
    | [] => none
    | first :: rest =>
      if first = '\x22' then
        (readChars (rest.length + 1) rest).map fun (chars, rest) => (.string (String.ofList chars), rest)
      else if first = '[' then match skipBlanks rest with
        | [] => none
        | next :: after =>
          if next = ']' then some (.array [], after)
          else (readItems fuel (next :: after)).map fun (items, rest) => (.array items, rest)
      else if first = '\x7b' then match skipBlanks rest with
        | [] => none
        | next :: after =>
          if next = '\x7d' then some (.object [], after)
          else (readFields fuel (next :: after)).map fun (fields, rest) => (.object fields, rest)
      else readWord (first :: rest)

def readItems : Nat → List Char → Option (List Json × List Char)
  | 0, _ => none
  | fuel + 1, text => do
    let (item, rest) ← readValue fuel text
    match skipBlanks rest with
    | [] => none
    | next :: rest =>
      if next = ',' then do
        let (items, rest) ← readItems fuel rest
        some (item :: items, rest)
      else if next = ']' then some ([item], rest)
      else none

def readFields : Nat → List Char → Option (List (String × Json) × List Char)
  | 0, _ => none
  | fuel + 1, text => match skipBlanks text with
    | [] => none
    | quote :: rest =>
      if quote ≠ '\x22' then none
      else do
        let (name, rest) ← readChars (rest.length + 1) rest
        match skipBlanks rest with
        | [] => none
        | colon :: rest =>
          if colon ≠ ':' then none
          else do
            let (value, rest) ← readValue fuel rest
            match skipBlanks rest with
            | [] => none
            | next :: rest =>
              if next = ',' then do
                let (fields, rest) ← readFields fuel rest
                some ((String.ofList name, value) :: fields, rest)
              else if next = '\x7d' then some ([(String.ofList name, value)], rest)
              else none

end

/-- A whole text that is one JSON value. -/
def readJson (text : List Char) : Option Json := do
  let (json, rest) ← readValue (text.length + 1) text
  if (skipBlanks rest).isEmpty then some json else none

end Reader

section Spelling

/-- How a character may stand in a JSON string. Pairs of surrogates are read but
nothing here writes them. -/
inductive CharText : Char → List Char → Prop where
  | plain {char : Char} (unescaped : char ≠ '\x5c') (unquoted : char ≠ '\x22')
      (printed : 32 ≤ char.toNat) : CharText char [char]
  | short {mark char : Char} (escape : shortEscape mark = some char) :
      CharText char ['\x5c', mark]
  | unit {a b c d : Char} {code : Nat} (digits : hexUnit a b c d = some code)
      (whole : code < 0xD800 ∨ 0xE000 ≤ code) :
      CharText (Char.ofNat code) ['\x5c', 'u', a, b, c, d]

/-- The second list reads as the first inside a JSON string. -/
inductive Spelled : List Char → List Char → Prop where
  | nil : Spelled [] []
  | cons {char : Char} {text chars rest : List Char} (first : CharText char text)
      (later : Spelled chars rest) : Spelled (char :: chars) (text ++ rest)

theorem readChar_of_charText {char : Char} {text : List Char} (spelled : CharText char text)
    (rest : List Char) : readChar (text ++ rest) = some (char, rest) := by
  cases spelled with
  | plain unescaped unquoted printed =>
    have shown : ¬ (char = '\x22' ∨ char.toNat < 32) := by
      rintro (quote | control)
      · exact unquoted quote
      · omega
    simp [readChar, unescaped, shown]
  | @short mark _ escape =>
    have marked : mark ≠ 'u' := by
      rintro rfl
      have unknown : shortEscape 'u' = none := by decide
      rw [unknown] at escape
      contradiction
    simp [readChar, readEscape, marked, escape]
  | @unit a b c d code digits whole =>
    have high : ¬ (0xD800 ≤ code ∧ code < 0xDC00) := by omega
    have low : ¬ (0xDC00 ≤ code ∧ code < 0xE000) := by omega
    simp only [List.cons_append, List.nil_append, readChar, readEscape, if_true, readUnicode,
      readUnit, digits, Option.map_some, Option.bind_eq_bind, Option.bind_some, high, low, if_false]

theorem charText_ne_quote {char : Char} {text : List Char} (spelled : CharText char text)
    (rest : List Char) : ∃ first later, text ++ rest = first :: later ∧ first ≠ '\x22' := by
  cases spelled with
  | plain unescaped unquoted printed => exact ⟨_, _, rfl, unquoted⟩
  | short escape => exact ⟨_, _, rfl, by decide⟩
  | unit digits whole => exact ⟨_, _, rfl, by decide⟩

theorem charText_length {char : Char} {text : List Char} (spelled : CharText char text) :
    0 < text.length := by
  cases spelled <;> simp

theorem readChars_of_spelled {chars text : List Char} (spelled : Spelled chars text) {fuel : Nat}
    (enough : text.length < fuel) (rest : List Char) :
    readChars fuel (text ++ '\x22' :: rest) = some (chars, rest) := by
  induction spelled generalizing fuel with
  | nil =>
    obtain ⟨fuel, rfl⟩ := Nat.exists_eq_succ_of_ne_zero (by omega : fuel ≠ 0)
    simp [readChars]
  | @cons char text chars later first _ ih =>
    obtain ⟨fuel, rfl⟩ := Nat.exists_eq_succ_of_ne_zero (by omega : fuel ≠ 0)
    rw [List.length_append] at enough
    have longer := charText_length first
    have read := readChar_of_charText first (later ++ '\x22' :: rest)
    obtain ⟨start, after, whole, unquoted⟩ := charText_ne_quote first (later ++ '\x22' :: rest)
    rw [List.append_assoc, whole, readChars, if_neg unquoted, ← whole, read]
    simp [ih (by omega : later.length < fuel)]

end Spelling

section Texts
variable (spell : String → List Char)

def quotedWith (text : String) : List Char := '\x22' :: spell text ++ ['\x22']

mutual

/-- A JSON text without blanks, in which `spell` writes what strings hold. -/
def compactWith : Json → List Char
  | .null => "null".toList
  | .bool value => (if value then "true" else "false").toList
  | .number text => text.toList
  | .string text => quotedWith spell text
  | .array items => '[' :: compactItemsWith items ++ [']']
  | .object fields => '\x7b' :: compactFieldsWith fields ++ ['\x7d']

def compactItemsWith : List Json → List Char
  | [] => []
  | [item] => compactWith item
  | item :: items => compactWith item ++ ',' :: compactItemsWith items

def compactFieldsWith : List (String × Json) → List Char
  | [] => []
  | [(name, value)] => quotedWith spell name ++ ':' :: compactWith value
  | (name, value) :: fields =>
    quotedWith spell name ++ ':' :: compactWith value ++ ',' :: compactFieldsWith fields

end

mutual

/-- Every number in it is one that JSON can write. -/
def Numbers : Json → Prop
  | .number text => isNumber text.toList = true ∧ ∀ char ∈ text.toList, isWordChar char = true
  | .array items => NumbersItems items
  | .object fields => NumbersFields fields
  | _ => True

def NumbersItems : List Json → Prop
  | [] => True
  | item :: items => Numbers item ∧ NumbersItems items

def NumbersFields : List (String × Json) → Prop
  | [] => True
  | (_, value) :: fields => Numbers value ∧ NumbersFields fields

end

/-- What may stand after a value: nothing that would go on with a word. -/
def Closed (rest : List Char) : Prop := ∀ char ∈ rest.head?, isWordChar char = false

theorem closed_nil : Closed [] := by
  simp [Closed]

theorem closed_cons {char : Char} (mark : isWordChar char = false) (rest : List Char) :
    Closed (char :: rest) := by
  simpa [Closed] using mark

theorem skipBlanks_cons {char : Char} (solid : isBlank char = false) (rest : List Char) :
    skipBlanks (char :: rest) = char :: rest := by
  simp [skipBlanks, solid]

theorem readWord_append {word rest : List Char} (chars : ∀ char ∈ word, isWordChar char = true)
    (closed : Closed rest) : readWord (word ++ rest) = (wordValue word).map fun json => (json, rest) := by
  have parts : (word ++ rest).takeWhile isWordChar = word ∧
      (word ++ rest).dropWhile isWordChar = rest := by
    induction word with
    | nil =>
      cases rest with
      | nil => exact ⟨rfl, rfl⟩
      | cons char rest =>
        have stop : isWordChar char = false := closed char (by simp)
        simp [stop]
    | cons char word ih =>
      have first := chars char List.mem_cons_self
      obtain ⟨taken, dropped⟩ := ih fun other member => chars other (.tail _ member)
      simp [first, taken, dropped]
  rw [readWord, parts.1, parts.2]

/-- A word is not blank, does not open anything and does not end a list. -/
theorem word_start {char : Char} (word : isWordChar char = true) : isBlank char = false ∧
    char ≠ '\x22' ∧ char ≠ '[' ∧ char ≠ '\x7b' ∧ char ≠ ']' := by
  refine ⟨?_, ?_, ?_, ?_, ?_⟩
  · rw [Bool.eq_false_iff]
    intro blank
    simp only [isBlank, Bool.or_eq_true, beq_iff_eq] at blank
    obtain ((rfl | rfl) | rfl) | rfl := blank <;> exact absurd word (by decide)
  all_goals
    rintro rfl
    exact absurd word (by decide)

theorem null_chars : ∀ char ∈ "null".toList, isWordChar char = true :=
  List.all_eq_true.mp (by decide)

theorem bool_chars (value : Bool) :
    ∀ char ∈ (if value then "true" else "false").toList, isWordChar char = true := by
  cases value
  · exact List.all_eq_true.mp (by decide : "false".toList.all isWordChar = true)
  · exact List.all_eq_true.mp (by decide : "true".toList.all isWordChar = true)

theorem readValue_word {word rest : List Char} {json : Json} (fuel : Nat)
    (chars : ∀ char ∈ word, isWordChar char = true) (closed : Closed rest)
    (value : wordValue word = some json) :
    readValue (fuel + 1) (word ++ rest) = some (json, rest) := by
  have reads := readWord_append chars closed
  cases word with
  | nil => simp [wordValue, isNumber] at value
  | cons first word =>
    obtain ⟨solid, unquoted, array, object, _⟩ := word_start (chars first List.mem_cons_self)
    rw [List.cons_append, readValue, skipBlanks_cons solid]
    dsimp only
    rw [if_neg unquoted, if_neg array, if_neg object, ← List.cons_append, reads, value]
    rfl

theorem wordValue_number {text : String} (number : isNumber text.toList = true) :
    wordValue text.toList = some (.number text) := by
  have not_name : ∀ name : List Char, isNumber name = false → text.toList ≠ name := by
    rintro name unnumbered rfl
    rw [number] at unnumbered
    contradiction
  simp only [wordValue, number, if_true, String.ofList_toList,
    if_neg (not_name "null".toList (by decide)), if_neg (not_name "true".toList (by decide)),
    if_neg (not_name "false".toList (by decide))]

theorem compactWith_start (json : Json) (numbers : Numbers json) :
    ∃ first later, compactWith spell json = first :: later ∧ isBlank first = false ∧ first ≠ ']' := by
  have word : ∀ word : List Char, word ≠ [] → (∀ char ∈ word, isWordChar char = true) →
      ∃ first later, word = first :: later ∧ isBlank first = false ∧ first ≠ ']' := by
    intro word some_ chars
    cases word with
    | nil => exact absurd rfl some_
    | cons first word =>
      obtain ⟨solid, _, _, _, unended⟩ := word_start (chars first List.mem_cons_self)
      exact ⟨first, word, rfl, solid, unended⟩
  cases json with
  | null =>
    rw [compactWith]
    exact word _ (by decide) null_chars
  | bool value =>
    rw [compactWith]
    exact word _ (by cases value <;> decide) (bool_chars value)
  | number text =>
    rw [compactWith]
    obtain ⟨number, chars⟩ := numbers
    refine word _ ?_ chars
    intro none_
    rw [none_] at number
    contradiction
  | string text =>
    rw [compactWith]
    exact ⟨_, _, rfl, by decide, by decide⟩
  | array items =>
    rw [compactWith]
    exact ⟨_, _, rfl, by decide, by decide⟩
  | object fields =>
    rw [compactWith]
    exact ⟨_, _, rfl, by decide, by decide⟩

theorem readChars_quoted {spell : String → List Char} (spelled : ∀ text, Spelled text.toList (spell text))
    (text : String) (rest : List Char) :
    readChars ((spell text ++ '\x22' :: rest).length + 1) (spell text ++ '\x22' :: rest) =
      some (text.toList, rest) :=
  readChars_of_spelled (spelled text)
    (by rw [List.length_append, List.length_cons]; omega) rest

/-- A list goes on with a comma and ends with a bracket. -/
theorem readItems_of_value {fuel : Nat} {text rest : List Char} {item : Json} {next : Char}
    (read : readValue fuel text = some (item, next :: rest)) (solid : isBlank next = false) :
    readItems (fuel + 1) text =
      if next = ',' then (readItems fuel rest).map fun found => (item :: found.1, found.2)
      else if next = ']' then some ([item], rest) else none := by
  rw [readItems, read]
  simp only [Option.bind_eq_bind, Option.bind_some, skipBlanks_cons solid]
  cases readItems fuel rest <;> rfl

/-- The same for an object, in which a name and a colon stand before a value. -/
theorem readFields_of_value {fuel : Nat} {text after rest : List Char} {name : List Char}
    {value : Json} {next : Char}
    (named : readChars (text.length + 1) text = some (name, ':' :: after))
    (read : readValue fuel after = some (value, next :: rest)) (solid : isBlank next = false) :
    readFields (fuel + 1) ('\x22' :: text) =
      if next = ',' then
        (readFields fuel rest).map fun found => ((String.ofList name, value) :: found.1, found.2)
      else if next = '\x7d' then some ([(String.ofList name, value)], rest) else none := by
  have quote : isBlank '\x22' = false := rfl
  have colon : isBlank ':' = false := rfl
  rw [readFields, skipBlanks_cons quote]
  dsimp only
  rw [if_neg (not_not_intro rfl), named]
  simp only [Option.bind_eq_bind, Option.bind_some, skipBlanks_cons colon]
  rw [if_neg (not_not_intro rfl), read]
  simp only [Option.bind_some, skipBlanks_cons solid]
  cases readFields fuel rest <;> rfl

theorem compactItemsWith_cons (item next : Json) (items : List Json) :
    compactItemsWith spell (item :: next :: items) =
      compactWith spell item ++ ',' :: compactItemsWith spell (next :: items) := by
  rw [compactItemsWith]
  exact List.cons_ne_nil next items

theorem compactFieldsWith_cons (name : String) (value : Json) (next : String × Json)
    (fields : List (String × Json)) :
    compactFieldsWith spell ((name, value) :: next :: fields) = quotedWith spell name ++
      ':' :: compactWith spell value ++ ',' :: compactFieldsWith spell (next :: fields) := by
  rw [compactFieldsWith]
  exact List.cons_ne_nil next fields

theorem compactItemsWith_start (item : Json) (items : List Json) (numbers : Numbers item) :
    ∃ first later, compactItemsWith spell (item :: items) = first :: later ∧
      isBlank first = false ∧ first ≠ ']' := by
  obtain ⟨first, later, text, solid, unended⟩ := compactWith_start spell item numbers
  cases items with
  | nil => exact ⟨first, later, by rw [compactItemsWith, text], solid, unended⟩
  | cons next items =>
    exact ⟨first, _, by rw [compactItemsWith_cons, text]; rfl, solid, unended⟩

theorem compactFieldsWith_start (field : String × Json) (fields : List (String × Json)) :
    ∃ later, compactFieldsWith spell (field :: fields) = '\x22' :: later := by
  obtain ⟨name, value⟩ := field
  cases fields <;> exact ⟨_, rfl⟩

section Reading
variable {spell} (spelled : ∀ text, Spelled text.toList (spell text))
include spelled

set_option linter.unusedSectionVars false in
mutual

/-- A value is read back from its text, whatever closes it. -/
theorem readValue_compactWith : ∀ (json : Json), Numbers json → ∀ (fuel : Nat) (rest : List Char),
    (compactWith spell json).length < fuel → Closed rest →
    readValue fuel (compactWith spell json ++ rest) = some (json, rest)
  | json, _, 0, _, enough, _ => absurd enough (Nat.not_lt_zero _)
  | .null, _, fuel + 1, rest, _, closed => by
    rw [compactWith]
    exact readValue_word fuel null_chars closed rfl
  | .bool value, _, fuel + 1, rest, _, closed => by
    rw [compactWith]
    exact readValue_word fuel (bool_chars value) closed (by cases value <;> rfl)
  | .number text, numbers, fuel + 1, rest, _, closed => by
    obtain ⟨number, chars⟩ := numbers
    rw [compactWith]
    exact readValue_word fuel chars closed (wordValue_number number)
  | .string text, _, fuel + 1, rest, _, _ => by
    have read := readChars_quoted spelled text rest
    rw [compactWith, quotedWith, List.append_assoc, List.cons_append, List.singleton_append, readValue,
      skipBlanks_cons rfl]
    dsimp only
    rw [if_pos rfl, read, Option.map_some, String.ofList_toList]
  | .array [], _, fuel + 1, rest, _, _ => by
    rw [compactWith, compactItemsWith, List.append_assoc, List.cons_append, List.singleton_append,
      readValue, skipBlanks_cons rfl]
    rfl
  | .array (item :: items), numbers, fuel + 1, rest, enough, _ => by
    obtain ⟨first, later, text, solid, unended⟩ := compactItemsWith_start spell item items numbers.1
    have short : (compactItemsWith spell (item :: items)).length + 1 < fuel := by
      rw [compactWith, List.length_append, List.length_cons] at enough
      simp only [List.length_cons, List.length_nil] at enough
      omega
    have read := readItems_compactWith item items numbers fuel rest short
    rw [compactWith, List.append_assoc, List.cons_append, List.singleton_append, readValue,
      skipBlanks_cons rfl]
    rw [text, List.cons_append] at read ⊢
    simp only [skipBlanks_cons solid, if_true]
    rw [if_neg (by decide), if_neg unended, read]
    rfl
  | .object [], _, fuel + 1, rest, _, _ => by
    rw [compactWith, compactFieldsWith, List.append_assoc, List.cons_append, List.singleton_append,
      readValue, skipBlanks_cons rfl]
    rfl
  | .object (field :: fields), numbers, fuel + 1, rest, enough, _ => by
    obtain ⟨later, text⟩ := compactFieldsWith_start spell field fields
    have short : (compactFieldsWith spell (field :: fields)).length + 1 < fuel := by
      rw [compactWith, List.length_append, List.length_cons] at enough
      simp only [List.length_cons, List.length_nil] at enough
      omega
    have read := readFields_compactWith field fields numbers fuel rest short
    rw [compactWith, List.append_assoc, List.cons_append, List.singleton_append, readValue,
      skipBlanks_cons rfl]
    rw [text, List.cons_append] at read ⊢
    simp only [skipBlanks_cons (rfl : isBlank '\x22' = false), if_true]
    rw [if_neg (by decide), if_neg (by decide), if_neg (by decide), read]
    rfl

theorem readItems_compactWith : ∀ (item : Json) (items : List Json), NumbersItems (item :: items) →
    ∀ (fuel : Nat) (rest : List Char),
    (compactItemsWith spell (item :: items)).length + 1 < fuel →
    readItems fuel (compactItemsWith spell (item :: items) ++ ']' :: rest) =
      some (item :: items, rest)
  | _, _, _, 0, _, enough => absurd enough (Nat.not_lt_zero _)
  | item, [], numbers, fuel + 1, rest, enough => by
    rw [compactItemsWith] at enough ⊢
    have read := readValue_compactWith item numbers.1 fuel (']' :: rest) (by omega) (closed_cons rfl _)
    rw [readItems_of_value read rfl]
    rfl
  | item, next :: items, numbers, fuel + 1, rest, enough => by
    rw [compactItemsWith_cons, List.length_append, List.length_cons] at enough
    have read := readValue_compactWith item numbers.1 fuel
      (',' :: (compactItemsWith spell (next :: items) ++ ']' :: rest)) (by omega) (closed_cons rfl _)
    have later := readItems_compactWith next items numbers.2 fuel rest (by omega)
    rw [compactItemsWith_cons, List.append_assoc, List.cons_append, readItems_of_value read rfl,
      if_pos rfl, later]
    rfl

theorem readFields_compactWith : ∀ (field : String × Json) (fields : List (String × Json)),
    NumbersFields (field :: fields) → ∀ (fuel : Nat) (rest : List Char),
    (compactFieldsWith spell (field :: fields)).length + 1 < fuel →
    readFields fuel (compactFieldsWith spell (field :: fields) ++ '\x7d' :: rest) =
      some (field :: fields, rest)
  | _, _, _, 0, _, enough => absurd enough (Nat.not_lt_zero _)
  | (name, value), [], numbers, fuel + 1, rest, enough => by
    rw [compactFieldsWith, List.length_append, List.length_cons] at enough
    have read := readValue_compactWith value numbers.1 fuel ('\x7d' :: rest) (by omega)
      (closed_cons rfl _)
    have named := readChars_quoted spelled name (':' :: (compactWith spell value ++ '\x7d' :: rest))
    rw [compactFieldsWith]
    simp only [quotedWith, List.append_assoc, List.cons_append, List.nil_append]
    rw [readFields_of_value named read rfl, String.ofList_toList]
    rfl
  | (name, value), next :: fields, numbers, fuel + 1, rest, enough => by
    rw [compactFieldsWith_cons] at enough ⊢
    simp only [List.length_append, List.length_cons] at enough
    have read := readValue_compactWith value numbers.1 fuel
      (',' :: (compactFieldsWith spell (next :: fields) ++ '\x7d' :: rest)) (by omega)
      (closed_cons rfl _)
    have later := readFields_compactWith next fields numbers.2 fuel rest (by omega)
    have named := readChars_quoted spelled name (':' :: (compactWith spell value ++
      ',' :: (compactFieldsWith spell (next :: fields) ++ '\x7d' :: rest)))
    simp only [quotedWith, List.append_assoc, List.cons_append, List.nil_append]
    rw [readFields_of_value named read rfl, if_pos rfl, later, String.ofList_toList]
    rfl

end

theorem readJson_compactWith {json : Json} (numbers : Numbers json) :
    readJson (compactWith spell json) = some json := by
  have read := readValue_compactWith spelled json numbers _ [] (Nat.lt_succ_self _) closed_nil
  rw [List.append_nil] at read
  rw [readJson, read]
  rfl

end Reading

section Rewriting

/-- The characters that hold a JSON text together. -/
def marks : List Char := ['\x22', '[', ']', '\x7b', '\x7d', ',', ':']

/-- A rewriting of texts that leaves words and marks alone, and what stands
between two marks on its own. -/
structure Transparent (rewrite : List Char → List Char) : Prop where
  split : ∀ mark ∈ marks, ∀ before after,
    rewrite (before ++ mark :: after) = rewrite before ++ mark :: rewrite after
  word : ∀ word, (∀ char ∈ word, isWordChar char = true) → rewrite word = word

variable {spell} {rewrite : List Char → List Char} (transparent : Transparent rewrite)
include transparent

theorem Transparent.empty : rewrite [] = [] := transparent.word [] (by simp)

theorem Transparent.led {mark : Char} (held : mark ∈ marks) (after : List Char) :
    rewrite (mark :: after) = mark :: rewrite after := by
  have parts := transparent.split mark held [] after
  rwa [transparent.empty, List.nil_append, List.nil_append] at parts

theorem Transparent.enclosed {first last : Char} (opens : first ∈ marks) (closes : last ∈ marks)
    (inner after : List Char) :
    rewrite (first :: inner ++ last :: after) = first :: rewrite inner ++ last :: rewrite after := by
  rw [List.cons_append, transparent.led opens, transparent.split last closes, List.cons_append]

theorem rewrite_quotedWith (text : String) (after : List Char) :
    rewrite (quotedWith spell text ++ after) =
      quotedWith (fun text => rewrite (spell text)) text ++ rewrite after := by
  have quote : '\x22' ∈ marks := by decide
  have quoted := transparent.enclosed quote quote (spell text) after
  simpa only [quotedWith, List.append_assoc, List.cons_append, List.nil_append] using quoted

mutual

/-- Such a rewriting of a text is the text with the strings rewritten. -/
theorem rewrite_compactWith : ∀ (json : Json), Numbers json →
    rewrite (compactWith spell json) = compactWith (fun text => rewrite (spell text)) json
  | .null, _ => by
    rw [compactWith, compactWith]
    exact transparent.word _ null_chars
  | .bool value, _ => by
    rw [compactWith, compactWith]
    exact transparent.word _ (bool_chars value)
  | .number text, numbers => by
    rw [compactWith, compactWith]
    exact transparent.word _ numbers.2
  | .string text, _ => by
    have quoted : rewrite (quotedWith spell text ++ []) = _ := rewrite_quotedWith transparent text []
    rw [transparent.empty, List.append_nil, List.append_nil] at quoted
    rw [compactWith, compactWith, quoted]
  | .array items, numbers => by
    rw [compactWith, compactWith, transparent.enclosed (by decide) (by decide), transparent.empty,
      rewrite_compactItemsWith items numbers]
  | .object fields, numbers => by
    rw [compactWith, compactWith, transparent.enclosed (by decide) (by decide), transparent.empty,
      rewrite_compactFieldsWith fields numbers]

theorem rewrite_compactItemsWith : ∀ (items : List Json), NumbersItems items →
    rewrite (compactItemsWith spell items) =
      compactItemsWith (fun text => rewrite (spell text)) items
  | [], _ => by
    rw [compactItemsWith, compactItemsWith]
    exact transparent.empty
  | [item], numbers => by
    rw [compactItemsWith, compactItemsWith]
    exact rewrite_compactWith item numbers.1
  | item :: next :: items, numbers => by
    rw [compactItemsWith_cons, compactItemsWith_cons, transparent.split ',' (by decide),
      rewrite_compactWith item numbers.1, rewrite_compactItemsWith (next :: items) numbers.2]

theorem rewrite_compactFieldsWith : ∀ (fields : List (String × Json)), NumbersFields fields →
    rewrite (compactFieldsWith spell fields) =
      compactFieldsWith (fun text => rewrite (spell text)) fields
  | [], _ => by
    rw [compactFieldsWith, compactFieldsWith]
    exact transparent.empty
  | [(name, value)], numbers => by
    rw [compactFieldsWith, compactFieldsWith, rewrite_quotedWith transparent,
      transparent.led (by decide), rewrite_compactWith value numbers.1]
  | (name, value) :: next :: fields, numbers => by
    rw [compactFieldsWith_cons, compactFieldsWith_cons, transparent.split ',' (by decide),
      rewrite_quotedWith transparent, transparent.led (by decide), rewrite_compactWith value numbers.1,
      rewrite_compactFieldsWith (next :: fields) numbers.2]

end
end Rewriting

section Members
variable {spell}

/-- A character of a text is of a word, a mark or spelled in a string. -/
def Within (spell : String → List Char) (char : Char) : Prop :=
  isWordChar char = true ∨ char ∈ marks ∨ ∃ text, char ∈ spell text

theorem within_enclosed {first last char : Char} {inner : List Char} (opens : first ∈ marks)
    (closes : last ∈ marks) (each : ∀ char ∈ inner, Within spell char)
    (member : char ∈ first :: inner ++ [last]) : Within spell char := by
  rw [List.cons_append, List.mem_cons, List.mem_append, List.mem_singleton] at member
  rcases member with rfl | held | rfl
  · exact .inr (.inl opens)
  · exact each char held
  · exact .inr (.inl closes)

theorem within_quotedWith (text : String) : ∀ char ∈ quotedWith spell text, Within spell char :=
  fun _ => within_enclosed (by decide) (by decide) fun _ spelled => .inr (.inr ⟨text, spelled⟩)

mutual

theorem within_compactWith : ∀ (json : Json), Numbers json →
    ∀ char ∈ compactWith spell json, Within spell char
  | .null, _, char, member => by
    rw [compactWith] at member
    exact .inl (null_chars char member)
  | .bool value, _, char, member => by
    rw [compactWith] at member
    exact .inl (bool_chars value char member)
  | .number text, numbers, char, member => by
    rw [compactWith] at member
    exact .inl (numbers.2 char member)
  | .string text, _, char, member => by
    rw [compactWith] at member
    exact within_quotedWith text char member
  | .array items, numbers, char, member => by
    rw [compactWith] at member
    exact within_enclosed (by decide) (by decide) (within_compactItemsWith items numbers) member
  | .object fields, numbers, char, member => by
    rw [compactWith] at member
    exact within_enclosed (by decide) (by decide) (within_compactFieldsWith fields numbers) member

theorem within_compactItemsWith : ∀ (items : List Json), NumbersItems items →
    ∀ char ∈ compactItemsWith spell items, Within spell char
  | [], _, char, member => by simp [compactItemsWith] at member
  | [item], numbers, char, member => by
    rw [compactItemsWith] at member
    exact within_compactWith item numbers.1 char member
  | item :: next :: items, numbers, char, member => by
    rw [compactItemsWith_cons, List.mem_append, List.mem_cons] at member
    rcases member with first | rfl | later
    · exact within_compactWith item numbers.1 char first
    · exact .inr (.inl (by decide))
    · exact within_compactItemsWith (next :: items) numbers.2 char later

theorem within_compactFieldsWith : ∀ (fields : List (String × Json)), NumbersFields fields →
    ∀ char ∈ compactFieldsWith spell fields, Within spell char
  | [], _, char, member => by simp [compactFieldsWith] at member
  | [(name, value)], numbers, char, member => by
    rw [compactFieldsWith, List.mem_append, List.mem_cons] at member
    rcases member with named | rfl | held
    · exact within_quotedWith name char named
    · exact .inr (.inl (by decide))
    · exact within_compactWith value numbers.1 char held
  | (name, value) :: next :: fields, numbers, char, member => by
    rw [compactFieldsWith_cons, List.mem_append, List.mem_append, List.mem_cons, List.mem_cons] at member
    rcases member with (named | rfl | held) | rfl | later
    · exact within_quotedWith name char named
    · exact .inr (.inl (by decide))
    · exact within_compactWith value numbers.1 char held
    · exact .inr (.inl (by decide))
    · exact within_compactFieldsWith (next :: fields) numbers.2 char later

end
end Members

end Texts
end Klens.App.Mcp
