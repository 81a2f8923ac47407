import Klens.Lib.Utf8Proofs
import Klens.Scan.PipelineProofs
import Klens.Scan.Query
import Mathlib.Data.List.TakeWhile

/-! A search of raw bytes against a search of what they are shown as. They can
part only over U+FFFD, which the text has where the bytes are malformed. -/
namespace Klens.Scan
open Klens.Lib

private theorem asciiLower_folds : Utf8.FoldsAscii asciiLower := by
  have ascii : ∀ n : Fin 256, asciiLower (UInt8.ofFin n) < 128 ↔ UInt8.ofFin n < 128 := by
    decide +kernel
  have other : ∀ n : Fin 256, ¬ UInt8.ofFin n < 128 →
      asciiLower (UInt8.ofFin n) = UInt8.ofFin n := by
    decide +kernel
  exact ⟨fun byte => ascii byte.toFin, fun byte => other byte.toFin⟩

/-- A verdict on raw bytes allows what is then decided of the payloads. -/
def Verdict.Allows : Verdict → Bool → Prop
  | .pass, decoded => decoded = true
  | .fail, decoded => decoded = false
  | .needsPayload, _ => True

instance : (verdict : Verdict) → (decoded : Bool) → Decidable (verdict.Allows decoded)
  | .pass, decoded => inferInstanceAs (Decidable (decoded = true))
  | .fail, decoded => inferInstanceAs (Decidable (decoded = false))
  | .needsPayload, _ => inferInstanceAs (Decidable True)

section Fields
variable [Crates]

namespace CompiledFilter
variable {filter : CompiledFilter}

/-- The needle can be looked for in text that was decoded with replacements. -/
def Clean (filter : CompiledFilter) : Prop := '\uFFFD' ∉ filter.needle.toList

/-- A search of the bytes and of the text they are shown as comes out the same. -/
def ReadsAlike (filter : CompiledFilter) (bytes : Bytes) : Prop :=
  filter.matchesBytes (asBytes (renderRaw bytes)) = filter.matchesBytes bytes

theorem readsAlike_of_clean (clean : filter.Clean) (bytes : Bytes) : filter.ReadsAlike bytes := by
  have found := Utf8.search_lossy asciiLower_folds clean bytes
  rw [ReadsAlike, Bool.eq_iff_iff]
  unfold matchesBytes
  rw [Crates.isMatch_iff, Crates.isMatch_iff, asBytes, asBytes, renderRaw, String.toList_ofList]
  exact found.symm

theorem readsAlike_of_decode {bytes : Bytes} {chars : List Char}
    (valid : Utf8.decode bytes = some chars) : filter.ReadsAlike bytes := by
  obtain rfl := Utf8.decode_eq_some_iff.mp valid
  rw [ReadsAlike, renderRaw, Utf8.lossy_encode, asBytes, String.toList_ofList]

section Turns
variable {field : RawField} (pending : Bool) (fields : List RawField)

theorem onRawFrom_framed (framed : field.framed = true) :
    filter.onRawFrom pending (field :: fields) = filter.onRawFrom true fields := by
  rw [onRawFrom, if_pos framed]

theorem onRawFrom_found (plain : field.framed = false)
    (found : filter.matchesBytes field.bytes = true) :
    filter.onRawFrom pending (field :: fields) = .pass := by
  rw [onRawFrom, if_neg (by simp [plain]), if_pos found]

theorem onRawFrom_missed (plain : field.framed = false)
    (missed : filter.matchesBytes field.bytes = false) :
    filter.onRawFrom pending (field :: fields) = filter.onRawFrom pending fields := by
  rw [onRawFrom, if_neg (by simp [plain]), if_neg (by simp [missed])]

end Turns

theorem onRawFrom_pass (fields : List RawField) (pending : Bool) :
    filter.onRawFrom pending fields = .pass ↔
      ∃ field ∈ fields, field.framed = false ∧ filter.matchesBytes field.bytes = true := by
  induction fields generalizing pending with
  | nil => cases pending <;> simp [onRawFrom]
  | cons field fields ih =>
    cases framed : field.framed with
    | true =>
      rw [onRawFrom_framed pending fields framed, ih]
      simp [framed]
    | false =>
      cases found : filter.matchesBytes field.bytes with
      | true =>
        rw [onRawFrom_found pending fields framed found]
        simp [found, framed]
      | false =>
        rw [onRawFrom_missed pending fields framed found, ih]
        simp [found]

theorem onRawFrom_fail (fields : List RawField) (pending : Bool) :
    filter.onRawFrom pending fields = .fail ↔ pending = false ∧
      ∀ field ∈ fields, field.framed = false ∧ filter.matchesBytes field.bytes = false := by
  induction fields generalizing pending with
  | nil => cases pending <;> simp [onRawFrom]
  | cons field fields ih =>
    cases framed : field.framed with
    | true =>
      rw [onRawFrom_framed pending fields framed, ih]
      simp [framed]
    | false =>
      cases found : filter.matchesBytes field.bytes with
      | true =>
        rw [onRawFrom_found pending fields framed found]
        simp [found]
      | false =>
        rw [onRawFrom_missed pending fields framed found, ih]
        simp [found, framed]

end CompiledFilter

/-- The codec decodes nothing that has neither a frame nor a fallback id. -/
def PayloadCodec.LeavesUnframed (codec : PayloadCodec) : Prop :=
  ∀ bytes fallbackSchemaId, needsDecode bytes fallbackSchemaId = false →
    codec bytes fallbackSchemaId = none

/-- A payload no decode is needed for is searched as the text it shows. -/
private theorem any_payloadOf {codec : Option PayloadCodec}
    (leaves : ∀ held ∈ codec, held.LeavesUnframed) {filter : CompiledFilter} {bytes : Bytes}
    (alike : filter.ReadsAlike bytes) {fallback : Option Int}
    (unframed : (codec.isSome && needsDecode bytes fallback) = false) :
    (payloadOf codec (some bytes) fallback).any filter.matchesText = filter.matchesBytes bytes := by
  have raw : (PayloadSlot.new bytes fallback).decodedBy codec = .raw bytes := by
    unfold PayloadSlot.decodedBy
    cases held : codec with
    | none => rfl
    | some codec =>
      rw [held, Option.isSome_some, Bool.true_and] at unframed
      have left : codec bytes fallback = none := leaves codec held bytes fallback unframed
      simp [PayloadSlot.new, left, PayloadSlot.take]
  simp only [payloadOf, Option.map_some, Option.any_some, raw]
  exact alike

/-- A field of a record: what is searched of it raw, and what it shows. -/
private theorem any_field {codec : Option PayloadCodec}
    (leaves : ∀ held ∈ codec, held.LeavesUnframed) {filter : CompiledFilter} {stages : Stages}
    (decodes : stages.decodes = codec.isSome) {bytes : Option Bytes}
    (alike : ∀ held ∈ bytes, filter.ReadsAlike held) {fallback : Option Int} {field : RawField}
    (found : field ∈ stages.field bytes fallback) (unframed : field.framed = false) :
    (payloadOf codec bytes fallback).any filter.matchesText =
      filter.matchesBytes field.bytes := by
  obtain ⟨held, rfl, rfl⟩ := Option.map_eq_some_iff.mp found
  rw [decodes] at unframed
  exact any_payloadOf leaves (alike held rfl) unframed

namespace CompiledFilter
variable {filter : CompiledFilter}

theorem onPayload_fst (filter : CompiledFilter) (key value : Option DecodedPayload) :
    (filter.onPayload key value).1 = (key.any filter.matchesText || value.any filter.matchesText) := by
  unfold onPayload
  cases key.any filter.matchesText <;> rfl

/-- Where the raw bytes of a key and a value settle a search, the payloads they
decode to would have settled it the same way. -/
def Settles (filter : CompiledFilter) (codec : Option PayloadCodec) (stages : Stages)
    (key value : Option Bytes) : Prop :=
  (filter.onRaw (stages.field key none) (stages.field value stages.fallbackSchemaId)).Allows
    (filter.onPayload (payloadOf codec key none)
      (payloadOf codec value stages.fallbackSchemaId)).1

instance (filter : CompiledFilter) (codec : Option PayloadCodec) (stages : Stages)
    (key value : Option Bytes) : Decidable (filter.Settles codec stages key value) :=
  inferInstanceAs (Decidable (Verdict.Allows _ _))

theorem settles_of_readsAlike {codec : Option PayloadCodec}
    (leaves : ∀ held ∈ codec, held.LeavesUnframed) {stages : Stages}
    (decodes : stages.decodes = codec.isSome) {key value : Option Bytes}
    (keyAlike : ∀ held ∈ key, filter.ReadsAlike held)
    (valueAlike : ∀ held ∈ value, filter.ReadsAlike held) :
    filter.Settles codec stages key value := by
  unfold Settles
  rw [onPayload_fst]
  cases verdict : filter.onRaw (stages.field key none) (stages.field value stages.fallbackSchemaId) with
  | pass =>
    obtain ⟨field, member, unframed, found⟩ := (onRawFrom_pass _ _).mp verdict
    refine (Bool.or_eq_true _ _).mpr ?_
    rcases List.mem_append.mp member with key | value
    · have here := Option.mem_toList.mp key
      exact .inl ((any_field leaves decodes keyAlike here unframed).trans found)
    · have here := Option.mem_toList.mp value
      exact .inr ((any_field leaves decodes valueAlike here unframed).trans found)
  | fail =>
    obtain ⟨-, unmatched⟩ := (onRawFrom_fail _ _).mp verdict
    have silent (bytes : Option Bytes) (alike : ∀ held ∈ bytes, filter.ReadsAlike held)
        (fallback : Option Int) (part : ∀ field ∈ stages.field bytes fallback, field.framed = false ∧
          filter.matchesBytes field.bytes = false) :
        (payloadOf codec bytes fallback).any filter.matchesText = false := by
      cases bytes with
      | none => rfl
      | some bytes =>
        obtain ⟨unframed, missed⟩ := part _ rfl
        exact (any_field leaves decodes alike rfl unframed).trans missed
    refine (Bool.or_eq_false_iff).mpr ⟨?_, ?_⟩
    · exact silent key keyAlike none fun field held =>
        unmatched field (List.mem_append_left _ (Option.mem_toList.mpr held))
    · exact silent value valueAlike _ fun field held =>
        unmatched field (List.mem_append_right _ (Option.mem_toList.mpr held))
  | needsPayload => trivial

/-- Bytes that a search for the needle passes over, though their text is the needle. -/
theorem exists_shown_unmatched (replaced : ¬ filter.Clean) :
    ∃ bytes, renderRaw bytes = filter.needle ∧ filter.matchesBytes bytes = false := by
  obtain ⟨before, after, whole⟩ := List.append_of_mem (not_not.mp replaced)
  refine ⟨Utf8.encode before ++ 0xFF :: Utf8.encode after, ?_, ?_⟩
  · rw [renderRaw, Utf8.lossy_encode_append, Utf8.lossy_cons_invalid (by decide), Utf8.lossy_encode,
      ← whole, String.ofList_toList]
  · rw [Bool.eq_false_iff, matchesBytes]
    intro matched
    obtain ⟨found, inside, same⟩ := (Crates.isMatch_iff _ _).mp matched
    -- U+FFFD takes three bytes, the malformed byte it stands for is one
    have shorter := inside.length_le
    have sizes := congrArg List.length same
    rw [List.length_map, List.length_map, asBytes, whole, Utf8.encode_append, Utf8.encode_cons,
      List.length_append, List.length_append, String.length_utf8EncodeChar] at sizes
    have three : Char.utf8Size '\uFFFD' = 3 := by decide
    rw [List.length_append, List.length_cons] at shorter
    omega

end CompiledFilter
end Fields

namespace CompiledFilter

theorem not_isWhitespace_replacement : isWhitespace '\uFFFD' = false := by decide

/-- Trimming takes no U+FFFD off a needle. -/
theorem mem_trim_replacement (text : List Char) : '\uFFFD' ∈ trim text ↔ '\uFFFD' ∈ text := by
  have dropped (chars : List Char) :
      '\uFFFD' ∈ chars.dropWhile isWhitespace ↔ '\uFFFD' ∈ chars := by
    conv_rhs => rw [← List.takeWhile_append_dropWhile (p := isWhitespace) (l := chars)]
    rw [List.mem_append, or_iff_right]
    intro taken
    have space := List.mem_takeWhile_imp taken
    rw [not_isWhitespace_replacement] at space
    contradiction
  unfold trim
  rw [List.mem_reverse, dropped, List.mem_reverse, dropped]

theorem contains_eq_some {builds : Bytes → Bool} {needle : String} {filter : CompiledFilter}
    (built : contains builds needle = .ok (some filter)) :
    filter.needle.toList = trim needle.toList := by
  unfold contains at built
  dsimp only at built
  split at built
  · cases built
  · split at built
    · obtain rfl := Option.some.inj (Except.ok.inj built)
      exact String.toList_ofList
    · cases built

variable [Crates]

/-- A search for a needle settles on raw bytes what it would on decoded payloads,
whatever the key, the value and the codec, just where the needle has no U+FFFD.
Any needle does so on keys and values that are UTF-8. -/
theorem settles_iff (builds : Bytes → Bool) (needle : String) (filter : CompiledFilter)
    (built : contains builds needle = .ok (some filter)) :
    ((∀ (codec : Option PayloadCodec) (fallbackSchemaId : Option Int) (key value : Option Bytes),
      (∀ held ∈ codec, held.LeavesUnframed) → filter.Settles codec
        (RecordPipeline.new codec (some filter) none fallbackSchemaId).stages key value) ↔
      '\uFFFD' ∉ needle.toList) ∧
    ∀ (codec : Option PayloadCodec) (fallbackSchemaId : Option Int) (key value : Option Bytes),
      (∀ held ∈ codec, held.LeavesUnframed) →
      (∀ bytes ∈ key, (Utf8.decode bytes).isSome) → (∀ bytes ∈ value, (Utf8.decode bytes).isSome) →
        filter.Settles codec
          (RecordPipeline.new codec (some filter) none fallbackSchemaId).stages key value := by
  have clean : filter.Clean ↔ '\uFFFD' ∉ needle.toList := by
    unfold Clean
    rw [contains_eq_some built, mem_trim_replacement]
  rw [← clean]
  refine ⟨⟨fun settles => ?_, fun clean codec fallbackSchemaId key value leaves => ?_⟩, ?_⟩
  · by_contra replaced
    obtain ⟨bytes, shown, unmatched⟩ := exists_shown_unmatched replaced
    have settled := settles none none none (some bytes) (by simp)
    have failed : filter.onRaw none (some { bytes, framed := false }) = .fail := by
      simp [onRaw, onRawFrom, unmatched]
    have text : filter.matchesText (.raw bytes) = true := by
      rw [matchesText, DecodedPayload.intoText]
      simp only [DecodedPayload.raw, shown]
      exact (Crates.isMatch_iff _ _).mpr ⟨_, List.infix_refl _, rfl⟩
    have decoded : payloadOf none (some bytes) none = some (.raw bytes) := rfl
    simp only [Settles, RecordPipeline.new, Stages.field, Option.map_none, Option.map_some,
      Option.isSome_none, Bool.false_and, failed, onPayload_fst, decoded, Option.any_some, text,
      Bool.or_true, Verdict.Allows] at settled
    contradiction
  · exact settles_of_readsAlike leaves rfl (fun bytes _ => readsAlike_of_clean clean bytes)
      fun bytes _ => readsAlike_of_clean clean bytes
  · intro codec fallbackSchemaId key value leaves validKey validValue
    have alike {part : Option Bytes} (valid : ∀ bytes ∈ part, (Utf8.decode bytes).isSome) :
        ∀ bytes ∈ part, filter.ReadsAlike bytes := by
      intro bytes held
      obtain ⟨chars, decoded⟩ := Option.isSome_iff_exists.mp (valid bytes held)
      exact readsAlike_of_decode decoded
    exact settles_of_readsAlike leaves rfl (alike validKey) (alike validValue)

end CompiledFilter

/-- The byte 0xFF is shown as U+FFFD and not found as one. -/
theorem search_misses_replaced_byte :
    let filter : CompiledFilter := ⟨"\uFFFD"⟩
    CompiledFilter.contains (fun _ => true) "\uFFFD" = .ok (some filter) ∧
      ¬ @CompiledFilter.Settles Crates.plain filter none
        (RecordPipeline.new none (some filter) none none).stages none (some [0xFF]) := by
  decide

/-- A match next to a malformed byte passes on the raw bytes. -/
theorem settles_paid :
    @CompiledFilter.Settles Crates.plain ⟨"paid"⟩ none
      (RecordPipeline.new none (some ⟨"paid"⟩) none none).stages none
        (some (0xFF :: asBytes "PAID")) ∧
    @CompiledFilter.onRaw Crates.plain ⟨"paid"⟩ none (some ⟨0xFF :: asBytes "PAID", false⟩) =
      .pass :=
  ⟨(@CompiledFilter.settles_iff Crates.plain (fun _ => true) " paid " ⟨"paid"⟩
    (by decide)).1.mpr (by decide) none none none _ (by simp), by decide⟩

end Klens.Scan
