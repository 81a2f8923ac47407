import Klens.Lib.Utf8

/-! What a lossy decode loses. Malformed bytes become U+FFFD, everything else
survives, so a search for text without U+FFFD finds the same in the bytes as
in what they decode to. -/
namespace Klens.Lib.Utf8

@[simp] theorem encode_nil : encode [] = [] := rfl

@[simp] theorem encode_cons (char : Char) (chars : List Char) :
    encode (char :: chars) = String.utf8EncodeChar char ++ encode chars := rfl

@[simp] theorem encode_append (left right : List Char) :
    encode (left ++ right) = encode left ++ encode right := List.flatMap_append

theorem encode_infix {inner outer : List Char} (inside : inner <:+: outer) :
    encode inner <:+: encode outer := by
  obtain ⟨before, after, rfl⟩ := inside
  exact ⟨encode before, encode after, by simp⟩

section Front
variable {char : Char} {bytes : List UInt8}

theorem front_encode (char : Char) (rest : List UInt8) :
    front (String.utf8EncodeChar char ++ rest) = some char := by
  rw [front, List.toByteArray_append]
  exact ByteArray.utf8DecodeChar?_utf8EncodeChar_append

theorem of_front (starts : front bytes = some char) :
    ∃ rest, bytes = String.utf8EncodeChar char ++ rest := by
  obtain ⟨rest, whole⟩ := ByteArray.exists_of_utf8DecodeChar?_eq_some starts
  refine ⟨rest.data.toList, List.toByteArray_inj.mp ?_⟩
  rw [whole, List.toByteArray_append]
  congr 1
  exact ByteArray.ext (by simp)

/-- Only the first byte of a character can start one. -/
theorem encodeChar_cons (char : Char) :
    ∃ lead tail, String.utf8EncodeChar char = lead :: tail ∧ tail.length = char.utf8Size - 1 ∧
      lead.IsUTF8FirstByte ∧ ∀ byte ∈ tail, ¬ byte.IsUTF8FirstByte := by
  have size := String.length_utf8EncodeChar char
  have starts (i : Nat) (inside : i < (String.utf8EncodeChar char).length) :
      (String.utf8EncodeChar char)[i].IsUTF8FirstByte ↔ i = 0 :=
    UInt8.isUTF8FirstByte_getElem_utf8EncodeChar
  cases shape : String.utf8EncodeChar char with
  | nil =>
    rw [shape] at size
    exact absurd size.symm (Nat.pos_iff_ne_zero.mp char.utf8Size_pos)
  | cons lead tail =>
    simp only [shape] at size starts
    refine ⟨lead, tail, rfl, by simp at size; omega, (starts 0 (by simp)).mpr rfl, ?_⟩
    intro byte member
    obtain ⟨i, inside, rfl⟩ := List.getElem_of_mem member
    have later := starts (i + 1) (by simpa using inside)
    simpa using later

end Front

section Decode

theorem decodeAfter_eq (skip : Nat) (bytes : List UInt8) :
    decodeAfter skip bytes = decode (bytes.drop skip) := by
  induction bytes generalizing skip with
  | nil => cases skip <;> rfl
  | cons first rest ih =>
    cases skip with
    | zero => rfl
    | succ skip => exact ih skip

theorem decode_encodeChar_append (char : Char) (rest : List UInt8) :
    decode (String.utf8EncodeChar char ++ rest) = (decode rest).map (char :: ·) := by
  have starts := front_encode char rest
  obtain ⟨lead, tail, shape, size, -, -⟩ := encodeChar_cons char
  rw [shape, List.cons_append] at starts ⊢
  rw [decode, decodeAfter, starts]
  simp only [decodeAfter_eq, ← size, List.drop_left]

@[simp] theorem decode_encode (chars : List Char) : decode (encode chars) = some chars := by
  induction chars with
  | nil => rfl
  | cons char chars ih => rw [encode_cons, decode_encodeChar_append, ih, Option.map_some]

/-- Bytes decode to the characters they encode, if to any. -/
theorem decode_eq_some_iff {bytes : List UInt8} {chars : List Char} :
    decode bytes = some chars ↔ encode chars = bytes := by
  refine ⟨fun decoded => ?_, fun same => same ▸ decode_encode chars⟩
  induction size : bytes.length using Nat.strong_induction_on generalizing bytes chars with
  | _ size ih =>
    subst size
    cases bytes with
    | nil =>
      obtain rfl := Option.some.inj decoded
      rfl
    | cons first rest =>
      cases starts : front (first :: rest) with
      | none => simp [decode, decodeAfter, starts] at decoded
      | some char =>
        obtain ⟨post, whole⟩ := of_front starts
        rw [whole, decode_encodeChar_append] at decoded
        obtain ⟨more, later, rfl⟩ := Option.map_eq_some_iff.mp decoded
        have shorter : post.length < (first :: rest).length := by
          rw [whole, List.length_append, String.length_utf8EncodeChar]
          have := char.utf8Size_pos
          omega
        rw [whole, encode_cons, ih _ shorter later rfl]

end Decode

section Lossy

theorem lossyAfter_eq (skip : Nat) (bytes : List UInt8) :
    lossyAfter skip bytes = lossy (bytes.drop skip) := by
  induction bytes generalizing skip with
  | nil => cases skip <;> rfl
  | cons first rest ih =>
    cases skip with
    | zero => rfl
    | succ skip => exact ih skip

private theorem not_first_of_isTail (byte : UInt8) (tail : isTail byte) :
    ¬ byte.IsUTF8FirstByte := by
  have all : ∀ n : Fin 256, isTail (UInt8.ofFin n) → ¬ (UInt8.ofFin n).IsUTF8FirstByte := by
    decide +kernel
  exact all byte.toFin tail

private theorem isTail_of_fits {first second : UInt8} (fits : fits first second) :
    isTail second := by
  unfold Utf8.fits at fits
  split_ifs at fits <;>
    simp only [isTail, Bool.and_eq_true, decide_eq_true_eq, UInt8.le_iff_toNat_le] at fits ⊢ <;>
    simp at fits ⊢ <;> omega

/-- A malformed sequence stops before anything that could start a character. -/
theorem malformed_tail {first byte : UInt8} {rest : List UInt8}
    (taken : byte ∈ rest.take (malformed first rest)) : ¬ byte.IsUTF8FirstByte := by
  apply not_first_of_isTail
  unfold malformed at taken
  grind [isTail_of_fits]

theorem lossy_encodeChar_append (char : Char) (rest : List UInt8) :
    lossy (String.utf8EncodeChar char ++ rest) = char :: lossy rest := by
  have starts := front_encode char rest
  obtain ⟨lead, tail, shape, size, -, -⟩ := encodeChar_cons char
  rw [shape, List.cons_append] at starts ⊢
  rw [lossy, lossyAfter, starts]
  simp only [lossyAfter_eq, ← size, List.drop_left]

@[simp] theorem lossy_encode_append (chars : List Char) (rest : List UInt8) :
    lossy (encode chars ++ rest) = chars ++ lossy rest := by
  induction chars with
  | nil => rfl
  | cons char chars ih =>
    rw [encode_cons, List.append_assoc, lossy_encodeChar_append, ih, List.cons_append]

@[simp] theorem lossy_encode (chars : List Char) : lossy (encode chars) = chars := by
  have decoded := lossy_encode_append chars []
  simpa [lossy, lossyAfter] using decoded

/-- A byte that starts neither a character nor a malformed sequence is lost alone. -/
theorem lossy_cons_invalid {byte : UInt8} (invalid : 0xF8 ≤ byte) (rest : List UInt8) :
    lossy (byte :: rest) = '\uFFFD' :: lossy rest := by
  have all : ∀ n : Fin 256, 0xF8 ≤ UInt8.ofFin n → ¬ (UInt8.ofFin n).IsUTF8FirstByte ∧
      ¬ UInt8.ofFin n ≤ 0xF4 ∧ ¬ UInt8.ofFin n ≤ 0xEF := by decide +kernel
  obtain ⟨notFirst, high, higher⟩ := all byte.toFin invalid
  have unstarted : front (byte :: rest) = none := by
    cases starts : front (byte :: rest) with
    | none => rfl
    | some char =>
      obtain ⟨post, whole⟩ := of_front starts
      obtain ⟨lead, tail, shape, -, first, -⟩ := encodeChar_cons char
      rw [shape, List.cons_append] at whole
      exact absurd ((List.cons.inj whole).1 ▸ first) notFirst
  have alone : malformed byte rest = 0 := by
    unfold malformed
    rw [if_neg (fun within => higher within.2), if_neg (fun within => high within.2)]
  rw [lossy, lossyAfter, unstarted, alone]
  rfl

/-- One step of the decoder: a character as it was encoded, or U+FFFD for bytes
of which only the first could have started one. -/
theorem lossy_cons (first : UInt8) (rest : List UInt8) :
    ∃ char tail post, rest = tail ++ post ∧ (∀ byte ∈ tail, ¬ byte.IsUTF8FirstByte) ∧
      lossy (first :: rest) = char :: lossy post ∧
      (char = '\uFFFD' ∨ String.utf8EncodeChar char = first :: tail) := by
  cases starts : front (first :: rest) with
  | some char =>
    obtain ⟨post, whole⟩ := of_front starts
    obtain ⟨lead, tail, shape, -, -, trailing⟩ := encodeChar_cons char
    have decoded := lossy_encodeChar_append char post
    rw [← whole] at decoded
    rw [shape, List.cons_append, List.cons.injEq] at whole
    obtain ⟨rfl, rfl⟩ := whole
    exact ⟨char, tail, post, rfl, trailing, decoded, .inr shape⟩
  | none =>
    refine ⟨'\uFFFD', rest.take (malformed first rest), rest.drop (malformed first rest),
      (List.take_append_drop _ _).symm, fun byte taken => malformed_tail taken, ?_, .inl rfl⟩
    rw [lossy, lossyAfter, starts, lossyAfter_eq]

/-- The decoder is back in step wherever a character could start. -/
theorem lossy_append_lead (before : List UInt8) {lead : UInt8} (starts : lead.IsUTF8FirstByte)
    (rest : List UInt8) :
    ∃ chars, lossy (before ++ lead :: rest) = chars ++ lossy (lead :: rest) := by
  induction size : before.length using Nat.strong_induction_on generalizing before with
  | _ size ih =>
    subst size
    cases before with
    | nil => exact ⟨[], rfl⟩
    | cons first before =>
      obtain ⟨char, tail, post, split, trailing, decoded, -⟩ :=
        lossy_cons first (before ++ lead :: rest)
      -- the step cannot reach past `lead`
      have short : ∃ left, before = tail ++ left ∧ post = left ++ lead :: rest := by
        rcases List.append_eq_append_iff.mp split with ⟨left, more, same⟩ | ⟨left, more, same⟩
        · cases left with
          | nil => exact ⟨[], by simpa using more.symm, by simpa using same.symm⟩
          | cons byte left =>
            obtain ⟨rfl, -⟩ := List.cons.inj same
            exact absurd starts (trailing _ (by simp [more]))
        · exact ⟨left, more, same⟩
      obtain ⟨left, rfl, rfl⟩ := short
      obtain ⟨chars, later⟩ := ih left.length (by simp only [List.length_cons, List.length_append]; omega) left rfl
      exact ⟨char :: chars, by rw [List.cons_append, decoded, later, List.cons_append]⟩

theorem infix_lossy {chars : List Char} {bytes : List UInt8} (inside : encode chars <:+: bytes) :
    chars <:+: lossy bytes := by
  cases chars with
  | nil => exact List.nil_infix
  | cons char chars =>
    obtain ⟨before, after, rfl⟩ := inside
    have decoded := lossy_encode_append (char :: chars) after
    obtain ⟨lead, tail, shape, -, starts, -⟩ := encodeChar_cons char
    rw [List.append_assoc]
    rw [encode_cons, shape, List.append_assoc, List.cons_append] at decoded ⊢
    obtain ⟨earlier, whole⟩ := lossy_append_lead before starts (tail ++ (encode chars ++ after))
    rw [whole, decoded]
    exact ⟨earlier, lossy after, by simp⟩

theorem lossy_eq_append {bytes : List UInt8} {left right : List Char}
    (split : lossy bytes = left ++ right) :
    ∃ before after, bytes = before ++ after ∧ lossy after = right := by
  induction left generalizing bytes with
  | nil => exact ⟨[], bytes, rfl, split⟩
  | cons char left ih =>
    cases bytes with
    | nil => contradiction
    | cons first rest =>
      obtain ⟨_, tail, post, rfl, -, decoded, -⟩ := lossy_cons first rest
      rw [decoded, List.cons_append, List.cons.injEq] at split
      obtain ⟨before, after, rfl, same⟩ := ih split.2
      exact ⟨first :: tail ++ before, after, by simp, same⟩

theorem prefix_of_lossy {bytes : List UInt8} {chars more : List Char}
    (clean : '\uFFFD' ∉ chars) (decoded : lossy bytes = chars ++ more) :
    encode chars <+: bytes := by
  induction chars generalizing bytes with
  | nil => exact List.nil_prefix
  | cons char chars ih =>
    obtain ⟨here, later⟩ := not_or.mp (mt List.mem_cons.mpr clean)
    cases bytes with
    | nil => contradiction
    | cons first rest =>
      obtain ⟨_, tail, post, rfl, -, step, kind⟩ := lossy_cons first rest
      rw [step, List.cons_append, List.cons.injEq] at decoded
      obtain ⟨rfl, decoded⟩ := decoded
      have shape := kind.resolve_left (Ne.symm here)
      obtain ⟨after, rfl⟩ := ih later decoded
      exact ⟨after, by simp [shape]⟩

theorem infix_of_lossy {bytes : List UInt8} {chars : List Char} (clean : '\uFFFD' ∉ chars)
    (inside : chars <:+: lossy bytes) : encode chars <:+: bytes := by
  obtain ⟨before, after, whole⟩ := inside
  rw [List.append_assoc] at whole
  obtain ⟨skipped, bytes, rfl, decoded⟩ := lossy_eq_append whole.symm
  obtain ⟨rest, rfl⟩ := prefix_of_lossy clean decoded
  exact ⟨skipped, rest, by simp⟩

end Lossy

section Search

private theorem encodeChar_ascii {byte : UInt8} (ascii : byte < 128) :
    ∃ char, String.utf8EncodeChar char = [byte] := by
  have all : ∀ n : Fin 256, UInt8.ofFin n < 128 →
      String.utf8EncodeChar (Char.ofNat n) = [UInt8.ofFin n] := by decide +kernel
  exact ⟨_, all byte.toFin ascii⟩

/-- A byte below 128 is a character of its own. -/
theorem encodeChar_of_mem {char : Char} {byte : UInt8} (member : byte ∈ String.utf8EncodeChar char)
    (ascii : byte < 128) : String.utf8EncodeChar char = [byte] := by
  obtain ⟨other, alone⟩ := encodeChar_ascii ascii
  obtain ⟨lead, tail, shape, -, -, trailing⟩ := encodeChar_cons char
  have starts : byte.IsUTF8FirstByte := by
    obtain ⟨_, _, same, -, starts, -⟩ := encodeChar_cons other
    rw [alone, List.cons.injEq] at same
    exact same.1 ▸ starts
  have first : byte = lead := by
    rw [shape] at member
    exact (List.mem_cons.mp member).resolve_right fun later => trailing byte later starts
  subst first
  have decoded := front_encode other tail
  rw [alone, List.singleton_append, ← shape] at decoded
  have whole := front_encode char []
  rw [List.append_nil, decoded] at whole
  rw [← Option.some.inj whole, alone]

/-- A fold of bytes that leaves everything but ASCII alone. -/
structure FoldsAscii (fold : UInt8 → UInt8) : Prop where
  ascii : ∀ byte, fold byte < 128 ↔ byte < 128
  other : ∀ byte, ¬ byte < 128 → fold byte = byte

variable {fold : UInt8 → UInt8} (folds : FoldsAscii fold)
include folds

private theorem encodeChar_of_fold {char : Char} {found : List UInt8} (clean : char ≠ '\uFFFD')
    (same : found.map fold = (String.utf8EncodeChar char).map fold) :
    ∃ other, other ≠ '\uFFFD' ∧ found = String.utf8EncodeChar other := by
  by_cases ascii : ∃ byte ∈ String.utf8EncodeChar char, byte < 128
  · obtain ⟨byte, member, ascii⟩ := ascii
    rw [encodeChar_of_mem member ascii, List.map_singleton, List.map_eq_singleton_iff] at same
    obtain ⟨there, rfl, same⟩ := same
    have low : there < 128 := (folds.ascii there).mp (same ▸ (folds.ascii byte).mpr ascii)
    obtain ⟨other, alone⟩ := encodeChar_ascii low
    refine ⟨other, ?_, alone.symm⟩
    rintro rfl
    have size := congrArg List.length alone
    rw [String.length_utf8EncodeChar, List.length_singleton] at size
    exact absurd size (by decide)
  · have high : ∀ byte ∈ String.utf8EncodeChar char, ¬ byte < 128 :=
      fun byte member low => ascii ⟨byte, member, low⟩
    have fixed : (String.utf8EncodeChar char).map fold = String.utf8EncodeChar char :=
      (List.map_congr_left fun byte member => folds.other byte (high byte member)).trans
        (List.map_id _)
    have unmoved : found.map fold = found := by
      refine (List.map_congr_left fun byte member => folds.other byte fun low => ?_).trans
        (List.map_id _)
      have image : fold byte ∈ String.utf8EncodeChar char := by
        rw [← fixed, ← same]
        exact List.mem_map_of_mem member
      exact high _ image ((folds.ascii byte).mpr low)
    exact ⟨char, clean, by rw [← unmoved, same, fixed]⟩

/-- What folds to encoded text is encoded text. -/
theorem encode_of_fold {chars : List Char} {found : List UInt8} (clean : '\uFFFD' ∉ chars)
    (same : found.map fold = (encode chars).map fold) :
    ∃ others, '\uFFFD' ∉ others ∧ found = encode others := by
  induction chars generalizing found with
  | nil => exact ⟨[], by simp, by simpa using same⟩
  | cons char chars ih =>
    obtain ⟨here, later⟩ := not_or.mp (mt List.mem_cons.mpr clean)
    rw [encode_cons, List.map_append] at same
    obtain ⟨front, back, rfl, head, tail⟩ := List.map_eq_append_iff.mp same
    obtain ⟨other, fresh, rfl⟩ := encodeChar_of_fold folds (Ne.symm here) head
    obtain ⟨others, absent, rfl⟩ := ih later tail
    exact ⟨other :: others, by simp [Ne.symm fresh, absent], by simp⟩

/-- A search that folds ASCII finds text in bytes exactly when it finds it in
their lossy decoding. -/
theorem search_lossy {chars : List Char} (clean : '\uFFFD' ∉ chars) (bytes : List UInt8) :
    (∃ found, found <:+: bytes ∧ found.map fold = (encode chars).map fold) ↔
      ∃ found, found <:+: encode (lossy bytes) ∧ found.map fold = (encode chars).map fold := by
  constructor
  · rintro ⟨found, inside, same⟩
    obtain ⟨others, -, rfl⟩ := encode_of_fold folds clean same
    exact ⟨encode others, encode_infix (infix_lossy inside), same⟩
  · rintro ⟨found, inside, same⟩
    obtain ⟨others, absent, rfl⟩ := encode_of_fold folds clean same
    have decoded := infix_lossy inside
    rw [lossy_encode] at decoded
    exact ⟨encode others, infix_of_lossy absent decoded, same⟩

end Search
end Klens.Lib.Utf8
