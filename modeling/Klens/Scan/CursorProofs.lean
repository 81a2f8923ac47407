import Klens.Lib.Maps
import Klens.Scan.Cursor

/-! The text of a cursor read back. Whatever `parse` makes of a displayed
cursor, it is that cursor: partitions and offsets out of range are refused,
never changed. -/
namespace Klens.Scan.RecordCursor
open Klens.Lib

theorem isDigit_decimal {value : Int} {char : Char} (member : char ∈ decimal value) :
    char.isDigit ∨ char = '-' := by
  cases value with
  | ofNat value => exact .inl (Nat.isDigit_of_mem_toDigits (by decide) (by decide) member)
  | negSucc value =>
    rcases List.mem_cons.mp member with rfl | member
    · exact .inr rfl
    · exact .inl (Nat.isDigit_of_mem_toDigits (by decide) (by decide) member)

theorem not_mem_decimal {char : Char} (digit : char.isDigit = false) (sign : char ≠ '-')
    (value : Int) : char ∉ decimal value := by
  intro member
  rcases isDigit_decimal member with found | found
  · rw [digit] at found
    contradiction
  · exact sign found

theorem parseDigits_toDigits (value : Nat) : parseDigits (Nat.toDigits 10 value) = some value := by
  have digits : (Nat.toDigits 10 value).all Char.isDigit = true :=
    List.all_eq_true.mpr fun char member =>
      Nat.isDigit_of_mem_toDigits (by decide) (by decide) member
  simp [parseDigits, Nat.toDigits_ne_nil, digits, Nat.ofDigitChars_ten_toDigits]

/-- Decimal text reads back as the integer it was written from, or not at all
when that is out of range. -/
theorem parseInt_decimal (least most value : Int) : parseInt least most (decimal value) =
    if least ≤ value ∧ value ≤ most then some value else none := by
  unfold parseInt
  cases value with
  | negSucc value =>
    simp only [decimal, parseDigits_toDigits, Option.map_some, Option.filter_some,
      Bool.and_eq_true, decide_eq_true_eq]
    rfl
  | ofNat value =>
    have plain : ∀ char rest, Nat.toDigits 10 value = char :: rest → char.isDigit := by
      intro char rest split
      refine Nat.isDigit_of_mem_toDigits (b := 10) (n := value) (by decide) (by decide) ?_
      rw [split]
      simp
    simp only [decimal]
    split
    · rename_i split
      have := plain _ _ split
      contradiction
    · rename_i split
      have := plain _ _ split
      contradiction
    · simp [parseDigits_toDigits, Option.filter_some]

theorem parseInt_range {least most result : Int} {text : List Char}
    (parsed : parseInt least most text = some result) : least ≤ result ∧ result ≤ most := by
  unfold parseInt at parsed
  dsimp only at parsed
  obtain ⟨_, inside⟩ := Option.filter_eq_some_iff.mp parsed
  simpa using inside

theorem decimal_injective : Function.Injective decimal := by
  have digits : Function.Injective (Nat.toDigits 10) := by
    intro first second same
    rw [← Nat.ofDigitChars_ten_toDigits (n := first), same, Nat.ofDigitChars_ten_toDigits]
  have unsigned : ∀ value rest, Nat.toDigits 10 value ≠ '-' :: rest := by
    intro value rest signed
    have digit : '-'.isDigit := by
      refine Nat.isDigit_of_mem_toDigits (b := 10) (n := value) (by decide) (by decide) ?_
      simp [signed]
    contradiction
  intro first second same
  cases first with
  | ofNat first =>
    cases second with
    | ofNat second => exact congrArg Int.ofNat (digits same)
    | negSucc second => exact absurd same (unsigned _ _)
  | negSucc first =>
    cases second with
    | ofNat second => exact absurd same.symm (unsigned _ _)
    | negSucc second =>
      have tails := digits (List.cons.inj same).2
      exact congrArg Int.negSucc (by omega)

theorem splitOnce_append {sep : Char} {front rest : List Char} (absent : sep ∉ front) :
    splitOnce sep (front ++ sep :: rest) = some (front, rest) := by
  have other : ∀ char ∈ front, (char != sep) = true := by
    intro char member
    simp only [bne_iff_ne, ne_eq]
    rintro rfl
    exact absent member
  have dropped : (front ++ sep :: rest).dropWhile (· != sep) = sep :: rest := by
    rw [List.dropWhile_append_of_pos other]
    simp
  have taken : (front ++ sep :: rest).takeWhile (· != sep) = front := by
    rw [List.takeWhile_append_of_pos other]
    simp
  simp [splitOnce, dropped, taken]

theorem splitOnce_displayPart (entry : Int × Int) :
    splitOnce ':' (displayPart entry) = some (decimal entry.1, decimal entry.2) :=
  splitOnce_append (not_mem_decimal (by decide) (by decide) entry.1)

/-- A partition and an offset that `parse` accepts. -/
def InRange (entry : Int × Int) : Prop :=
  i32Min ≤ entry.1 ∧ entry.1 ≤ i32Max ∧ 0 ≤ entry.2 ∧ entry.2 ≤ i64Max

/-- One part read back adds the entry it was written from. -/
theorem parsePart_displayPart (offsets : Offsets) (entry : Int × Int) (result : Offsets) :
    parsePart offsets (displayPart entry) = some result ↔
      InRange entry ∧ entry.1 ∉ offsets ∧ result = offsets.insert entry.1 entry.2 := by
  have nonempty : displayPart entry ≠ [] := by simp [displayPart]
  have least : i64Min ≤ 0 := by decide
  unfold parsePart
  simp only [nonempty, ↓reduceIte, splitOnce_displayPart, Option.bind_eq_bind, Option.bind_some,
    parseInt_decimal]
  by_cases partition : i32Min ≤ entry.1 ∧ entry.1 ≤ i32Max
  · by_cases offset : i64Min ≤ entry.2 ∧ entry.2 ≤ i64Max
    · rw [if_pos partition, if_pos offset]
      simp only [Option.bind_some, Option.ite_none_left_eq_some, not_or, not_lt, Option.some.injEq]
      constructor
      · rintro ⟨⟨positive, fresh⟩, rfl⟩
        exact ⟨⟨partition.1, partition.2, positive, offset.2⟩, fresh, rfl⟩
      · rintro ⟨⟨_, _, positive, _⟩, fresh, rfl⟩
        exact ⟨⟨positive, fresh⟩, rfl⟩
    · rw [if_pos partition, if_neg offset]
      refine iff_of_false (by simp) ?_
      rintro ⟨⟨_, _, positive, most⟩, _⟩
      exact offset ⟨least.trans positive, most⟩
  · rw [if_neg partition]
    refine iff_of_false (by simp) ?_
    rintro ⟨⟨first, last, _⟩, _⟩
    exact partition ⟨first, last⟩

theorem foldlM_parsePart {entries : List (Int × Int)} {offsets result : Offsets}
    (parsed : (entries.map displayPart).foldlM parsePart offsets = some result) :
    result = offsets.insertMany entries := by
  induction entries generalizing offsets with
  | nil =>
    rw [Std.ExtTreeMap.insertMany_nil]
    simpa using parsed.symm
  | cons entry entries ih =>
    rw [List.map_cons, List.foldlM_cons] at parsed
    obtain ⟨next, first, rest⟩ := Option.bind_eq_some_iff.mp parsed
    obtain ⟨_, _, rfl⟩ := (parsePart_displayPart offsets entry next).mp first
    obtain ⟨partition, offset⟩ := entry
    rw [Std.ExtTreeMap.insertMany_cons]
    exact ih rest

/-- Parts in range that name each partition once are all read. -/
theorem foldlM_parsePart_isSome {entries : List (Int × Int)} {offsets : Offsets}
    (inRange : ∀ entry ∈ entries, InRange entry) (distinct : (entries.map Prod.fst).Nodup)
    (fresh : ∀ entry ∈ entries, entry.1 ∉ offsets) :
    ((entries.map displayPart).foldlM parsePart offsets).isSome := by
  induction entries generalizing offsets with
  | nil => rfl
  | cons entry entries ih =>
    obtain ⟨apart, rest⟩ := List.nodup_cons.mp distinct
    have first := (parsePart_displayPart offsets entry _).mpr
      ⟨inRange entry List.mem_cons_self, fresh entry List.mem_cons_self, rfl⟩
    rw [List.map_cons, List.foldlM_cons, first]
    refine ih (fun other member => inRange other (.tail _ member)) rest fun other member => ?_
    rw [Std.ExtTreeMap.mem_insert, not_or]
    refine ⟨fun same => apart ?_, fresh other (.tail _ member)⟩
    rw [compare_eq_iff_eq.mp same]
    exact List.mem_map_of_mem member

theorem insertMany_toList (offsets : Offsets) :
    (∅ : Offsets).insertMany offsets.toList = offsets := by
  refine Std.ExtTreeMap.ext_getElem? fun partition => ?_
  cases found : offsets[partition]? with
  | none =>
    rw [Maps.getElem?_insertMany_of_not_mem]
    · simp
    · intro value member
      rw [Std.ExtTreeMap.mem_toList_iff_getElem?_eq_some, found] at member
      contradiction
  | some value =>
    exact Maps.getElem?_insertMany_of_mem (Maps.functional_toList offsets) _
      (Std.ExtTreeMap.mem_toList_iff_getElem?_eq_some.mpr found)

theorem plain_displayPart {entries : List (Int × Int)} :
    ∀ part ∈ entries.map displayPart, ',' ∉ part := by
  intro part listed member
  obtain ⟨entry, _, rfl⟩ := List.mem_map.mp listed
  rcases List.mem_append.mp member with member | member
  · exact not_mem_decimal (by decide) (by decide) entry.1 member
  · rcases List.mem_cons.mp member with same | member
    · exact absurd same (by decide)
    · exact not_mem_decimal (by decide) (by decide) entry.2 member

/-- The parts of a cursor's text read back to its offsets. -/
theorem parts_displayParts {offsets result : Offsets}
    (parsed : ((displayParts offsets.toList).splitOn ',').foldlM parsePart ∅ = some result) :
    result = offsets := by
  by_cases empty : offsets.toList = []
  · have same : offsets = ∅ := by
      rw [← insertMany_toList offsets, empty, Std.ExtTreeMap.insertMany_nil]
    rw [empty] at parsed
    rw [same]
    simpa [displayParts, parsePart] using parsed.symm
  · unfold displayParts at parsed
    rw [List.splitOn_intercalate ',' plain_displayPart (by simpa using empty)] at parsed
    rw [foldlM_parsePart parsed, insertMany_toList]

theorem displayPart_injective : Function.Injective displayPart := by
  intro first second same
  have split := splitOnce_displayPart first
  rw [same, splitOnce_displayPart] at split
  obtain ⟨partition, offset⟩ := Prod.mk.inj (Option.some.inj split)
  exact Prod.ext (decimal_injective partition).symm (decimal_injective offset).symm

theorem displayParts_injective : Function.Injective displayParts := by
  have split : ∀ {entries : List (Int × Int)}, entries ≠ [] →
      (displayParts entries).splitOn ',' = entries.map displayPart := fun nonempty =>
    List.splitOn_intercalate ',' plain_displayPart (by simpa using nonempty)
  have empty : ∀ {entries : List (Int × Int)}, displayParts entries = [] → entries = [] := by
    intro entries none
    by_contra nonempty
    have parts := split nonempty
    rw [none] at parts
    cases entries with
    | nil => contradiction
    | cons entry entries =>
      rw [List.splitOn_nil, List.map_cons] at parts
      have part := (List.cons.inj parts).1
      simp [displayPart] at part
  intro first second same
  by_cases none : first = []
  · subst none
    exact (empty same.symm).symm
  · have some : second ≠ [] := by
      rintro rfl
      exact none (empty same)
    refine displayPart_injective.list_map ?_
    rw [← split none, same, split some]

theorem isWhitespace_digit {char : Char} (digit : char.isDigit) : isWhitespace char = false := by
  simp only [Char.isDigit, Bool.and_eq_true, decide_eq_true_eq] at digit
  have low : 48 ≤ char.toNat := UInt32.le_iff_toNat_le.mp digit.1
  have high : char.toNat ≤ 57 := UInt32.le_iff_toNat_le.mp digit.2
  simp [isWhitespace]
  omega

theorem isWhitespace_decimal {value : Int} {char : Char} (member : char ∈ decimal value) :
    isWhitespace char = false := by
  rcases isDigit_decimal member with digit | rfl
  · exact isWhitespace_digit digit
  · decide

theorem isWhitespace_displayPart {entry : Int × Int} {char : Char}
    (member : char ∈ displayPart entry) : isWhitespace char = false := by
  rcases List.mem_append.mp member with member | member
  · exact isWhitespace_decimal member
  · rcases List.mem_cons.mp member with rfl | member
    · decide
    · exact isWhitespace_decimal member

theorem isWhitespace_displayParts {entries : List (Int × Int)} {char : Char}
    (member : char ∈ displayParts entries) : isWhitespace char = false := by
  unfold displayParts at member
  induction entries with
  | nil => simp at member
  | cons entry entries ih =>
    by_cases last : entries = []
    · subst last
      exact isWhitespace_displayPart (show char ∈ displayPart entry by simpa using member)
    · rw [List.map_cons, List.intercalate_cons_of_ne_nil (by simpa using last)] at member
      rcases List.mem_append.mp member with member | member
      · rcases List.mem_append.mp member with member | member
        · exact isWhitespace_displayPart member
        · obtain rfl := List.mem_singleton.mp member
          decide
      · exact ih member

theorem trim_of_plain {text : List Char} (plain : ∀ char ∈ text, isWhitespace char = false) :
    trim text = text := by
  have kept : ∀ {text : List Char}, (∀ char ∈ text, isWhitespace char = false) →
      text.dropWhile isWhitespace = text := by
    intro text plain
    cases text with
    | nil => rfl
    | cons char rest => rw [List.dropWhile_cons_of_neg (by simp [plain char])]
  unfold trim
  rw [kept plain, kept (by simpa using plain), List.reverse_reverse]

/-- The letters a cursor's order and direction are written with. -/
private def letters (cursor : RecordCursor) : Char × Char :=
  (match cursor.order with
    | .newest => 'n'
    | .oldest => 'o',
  match cursor.direction with
    | .forward => 'f'
    | .backward => 'b')

private theorem displayChars_eq (cursor : RecordCursor) : cursor.displayChars =
    version ++ ':' :: ([(letters cursor).1] ++ ':' :: ([(letters cursor).2] ++
      ':' :: displayParts cursor.remaining.offsets.toList)) := rfl

private theorem letters_cases (cursor : RecordCursor) :
    ((letters cursor).1 = 'n' ∨ (letters cursor).1 = 'o') ∧
      ((letters cursor).2 = 'f' ∨ (letters cursor).2 = 'b') := by
  unfold letters
  cases cursor.order <;> cases cursor.direction <;> simp

private theorem splitn_displayChars (cursor : RecordCursor) :
    splitn 4 ':' cursor.displayChars = [version, [(letters cursor).1], [(letters cursor).2],
      displayParts cursor.remaining.offsets.toList] := by
  obtain ⟨order, direction⟩ := letters_cases cursor
  have orderPlain : ':' ∉ [(letters cursor).1] := by
    rcases order with same | same <;> simp [same]
  have directionPlain : ':' ∉ [(letters cursor).2] := by
    rcases direction with same | same <;> simp [same]
  rw [displayChars_eq]
  simp only [splitn, splitOnce_append (show ':' ∉ version by decide), splitOnce_append orderPlain,
    splitOnce_append directionPlain]

private theorem trim_displayChars (cursor : RecordCursor) :
    trim cursor.displayChars = cursor.displayChars := by
  obtain ⟨order, direction⟩ := letters_cases cursor
  refine trim_of_plain fun char member => ?_
  rw [displayChars_eq] at member
  simp only [version, List.mem_append, List.mem_cons, List.not_mem_nil, or_false] at member
  rcases member with (rfl | rfl) | rfl | rfl | rfl | rfl | rfl | member
  · decide
  · decide
  · decide
  · rcases order with same | same <;> rw [same] <;> decide
  · decide
  · rcases direction with same | same <;> rw [same] <;> decide
  · decide
  · exact isWhitespace_displayParts member

private theorem parseChars_displayChars (cursor : RecordCursor) :
    parseChars cursor.displayChars =
      (((displayParts cursor.remaining.offsets.toList).splitOn ',').foldlM parsePart ∅).map
        fun offsets => ⟨cursor.order, .walking cursor.walk offsets⟩ := by
  unfold parseChars
  rw [trim_displayChars, splitn_displayChars]
  obtain ⟨order, remaining⟩ := cursor
  generalize partsEq : ((displayParts remaining.offsets.toList).splitOn ',').foldlM parsePart ∅ = parts
  simp only [ne_eq, not_true_eq_false, ↓reduceIte, List.headD_cons, partsEq]
  cases order <;> cases remaining <;> cases parts <;> rfl

/-- What a displayed cursor is parsed to, when it is, is that cursor. -/
theorem parse_display {cursor again : RecordCursor} (parsed : parse cursor.display = .ok again) :
    again = cursor := by
  have found : parseChars cursor.displayChars = some again := by
    unfold parse display at parsed
    rw [String.toList_ofList] at parsed
    split at parsed
    · rename_i found
      exact found.trans (congrArg some (Except.ok.inj parsed))
    · contradiction
  rw [parseChars_displayChars] at found
  obtain ⟨offsets, read, rfl⟩ := Option.map_eq_some_iff.mp found
  obtain rfl := parts_displayParts read
  obtain ⟨order, remaining⟩ := cursor
  simp [RecordCursor.walk]

/-- A cursor put at one offset has one boundary. -/
theorem offsets_at (order : RecordOrder) (partition offset : Int) (other boundary : Int) :
    (RecordCursor.at order partition offset).remaining.offsets[other]? = some boundary ↔
      other = partition ∧ boundary = match order with
        | .oldest => offset
        | .newest => saturatingAdd offset 1 := by
  have single (value : Int) : Maps.Functional [(partition, value)] := fun _ _ _ one two =>
    (Prod.mk.inj (List.mem_singleton.mp one)).2.trans (Prod.mk.inj (List.mem_singleton.mp two)).2.symm
  unfold RecordCursor.at
  rw [Remaining.offsets_walking]
  refine (Maps.getElem?_ofList (single _)).trans ?_
  cases order <;> simp

/-- The boundaries of the cursor are such as `parse` accepts. -/
def Readable (cursor : RecordCursor) : Prop :=
  ∀ partition offset, cursor.remaining.offsets[partition]? = some offset →
    InRange (partition, offset)

theorem parts_displayParts_isSome {offsets : Offsets}
    (inRange : ∀ partition offset, offsets[partition]? = some offset → InRange (partition, offset)) :
    (((displayParts offsets.toList).splitOn ',').foldlM parsePart ∅).isSome := by
  by_cases empty : offsets.toList = []
  · rw [empty]
    rfl
  · unfold displayParts
    rw [List.splitOn_intercalate ',' plain_displayPart (by simpa using empty)]
    refine foldlM_parsePart_isSome (fun entry member => ?_) ?_ (by simp)
    · exact inRange _ _ (Std.ExtTreeMap.mem_toList_iff_getElem?_eq_some.mp member)
    · rw [Std.ExtTreeMap.map_fst_toList_eq_keys]
      exact Std.ExtTreeMap.nodup_keys

/-- A cursor whose boundaries are in range is read back as it was written. -/
theorem parse_display_of_readable {cursor : RecordCursor} (readable : cursor.Readable) :
    parse cursor.display = .ok cursor := by
  obtain ⟨offsets, read⟩ := Option.isSome_iff_exists.mp (parts_displayParts_isSome readable)
  have found := parseChars_displayChars cursor
  rw [read, Option.map_some] at found
  have parsed : parse cursor.display = .ok ⟨cursor.order, .walking cursor.walk offsets⟩ := by
    simp [parse, display, String.toList_ofList, found]
  rw [parsed, parse_display parsed]

theorem range_of_parsePart {parts : List (List Char)} {offsets result : Offsets}
    (before : ∀ (partition offset : Int), offsets[partition]? = some offset →
      InRange (partition, offset))
    (parsed : parts.foldlM parsePart offsets = some result) (partition offset : Int)
    (found : result[partition]? = some offset) : InRange (partition, offset) := by
  induction parts generalizing offsets with
  | nil =>
    obtain rfl : offsets = result := by simpa using parsed
    exact before partition offset found
  | cons part parts ih =>
    obtain ⟨next, first, rest⟩ := Option.bind_eq_some_iff.mp parsed
    refine ih (fun added value held => ?_) rest
    unfold parsePart at first
    split at first
    · obtain rfl : offsets = next := by simpa using first
      exact before added value held
    · obtain ⟨texts, _, first⟩ := Option.bind_eq_some_iff.mp first
      obtain ⟨named, namedParsed, first⟩ := Option.bind_eq_some_iff.mp first
      obtain ⟨place, placeParsed, first⟩ := Option.bind_eq_some_iff.mp first
      obtain ⟨accepted, inserted⟩ := Option.ite_none_left_eq_some.mp first
      obtain rfl := Option.some.inj inserted
      rw [Std.ExtTreeMap.getElem?_insert] at held
      split at held
      · rename_i same
        obtain rfl := compare_eq_iff_eq.mp same
        obtain rfl := Option.some.inj held
        have inRange := parseInt_range namedParsed
        have placed := parseInt_range placeParsed
        exact ⟨inRange.1, inRange.2, by simp only; omega, placed.2⟩
      · exact before added value held

theorem readable_of_parse {text : String} {cursor : RecordCursor}
    (parsed : parse text = .ok cursor) : cursor.Readable := by
  unfold parse at parsed
  split at parsed
  · rename_i found
    obtain rfl := Except.ok.inj parsed
    unfold parseChars at found
    split at found
    · dsimp only at found
      split at found
      · contradiction
      -- The letters decide the order and the walk, the offsets are read alike.
      · split at found <;> split at found <;>
          simp only [Option.bind_eq_bind, Option.bind_some, Option.bind_none, reduceCtorEq] at found
        all_goals
          obtain ⟨offsets, read, built⟩ := Option.bind_eq_some_iff.mp found
          obtain rfl := Option.some.inj built
          intro partition offset held
          rw [Remaining.offsets_walking] at held
          exact range_of_parsePart (by simp) read partition offset held
    · contradiction
  · contradiction

theorem order_of_validateFor {cursor : RecordCursor} {order : RecordOrder}
    (validated : cursor.validateFor order = .ok ()) : cursor.order = order := by
  unfold validateFor at validated
  split at validated
  · assumption
  · contradiction

/-- No two cursors are written alike. -/
theorem display_injective : Function.Injective display := by
  intro first second same
  have chars : first.displayChars = second.displayChars := String.ofList_injective same
  have split := splitn_displayChars first
  rw [chars, splitn_displayChars] at split
  simp only [List.cons.injEq, and_true, true_and] at split
  obtain ⟨order, direction, offsets⟩ := split
  have offsets := displayParts_injective offsets
  have offsets : second.remaining.offsets = first.remaining.offsets := by
    rw [← insertMany_toList first.remaining.offsets, ← offsets, insertMany_toList]
  obtain ⟨firstOrder, firstRemaining⟩ := first
  obtain ⟨secondOrder, secondRemaining⟩ := second
  cases firstOrder <;> cases secondOrder <;> cases firstRemaining <;> cases secondRemaining <;>
    simp_all [letters, RecordCursor.direction, RecordCursor.walk, Remaining.walk, Remaining.offsets]

end Klens.Scan.RecordCursor
