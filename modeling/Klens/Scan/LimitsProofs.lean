import Klens.Scan.Log
import Klens.Scan.Tail

/-! The offsets a page and a tail read of each partition: the limits under which
there is at least one, and none is lost to a cast. -/
namespace Klens.Scan

theorem asI64_of_le {value : Nat} (small : (value : Int) ≤ i64Max) : asI64 value = value := by
  have bound : value < 2 ^ 63 := by
    unfold i64Max at small
    omega
  rw [asI64, BitVec.toInt_eq_toNat_cond, BitVec.toNat_ofNat, Nat.mod_eq_of_lt (by omega),
    if_pos (by omega)]

theorem asI64_of_gt {value : Nat} (large : i64Max < value) (fits : value ≤ usizeMax) :
    asI64 value < 0 := by
  unfold i64Max at large
  unfold usizeMax at fits
  rw [asI64, BitVec.toInt_eq_toNat_cond, BitVec.toNat_ofNat, Nat.mod_eq_of_lt (by omega),
    if_neg (by omega)]
  omega

theorem one_le_asI64_iff {value : Nat} (fits : value ≤ usizeMax) :
    1 ≤ asI64 value ↔ 1 ≤ value ∧ (value : Int) ≤ i64Max := by
  constructor
  · intro positive
    have small : (value : Int) ≤ i64Max := by
      by_contra large
      have negative := asI64_of_gt (not_le.mp large) fits
      omega
    rw [asI64_of_le small] at positive
    exact ⟨by omega, small⟩
  · rintro ⟨positive, small⟩
    rw [asI64_of_le small]
    omega

theorem asU64_of_nonneg {value : Int} (nonneg : 0 ≤ value) (small : value ≤ i64Max) :
    (asU64 value : Int) = value := by
  unfold i64Max at small
  rw [asU64, BitVec.toNat_ofInt]
  omega

namespace RecordLimits
variable (limits : RecordLimits) (count : Nat) (searching : Bool)

def multiplier : Nat :=
  if searching then limits.searchWindowMultiplier else limits.windowMultiplier

/-- A window of at least one offset, and of no more than an `i64` counts. -/
def InRange : Prop :=
  (1 ≤ limits.multiplier searching ∨ 1 ≤ limits.minWindow) ∧
    ((count * limits.multiplier searching : Nat) : Int) ≤ i64Max ∧ (limits.minWindow : Int) ≤ i64Max

/-- A page reads at least one offset of each partition, and so does a tail with
that many records in a batch. -/
def ReadsSome : Prop :=
  1 ≤ limits.windowTake count searching ∧
    ∀ tail : TailLimits, tail.records = limits → tail.batch = count →
      (tail.backlog searching : Int) = limits.windowTake count searching

theorem clampLimit_of_pos {limit : Int} (positive : 1 ≤ limit) :
    ∃ count, limits.clampLimit limit = .ok count ∧ 1 ≤ count := by
  have nonzero := limits.nonzero
  refine ⟨min limit.toNat limits.maxLimit, ?_, by omega⟩
  rw [clampLimit, if_neg (by omega)]

variable {limits count searching}

theorem windowTake_pos_iff (fits : limits.minWindow ≤ usizeMax) (some_ : 1 ≤ count) :
    1 ≤ limits.windowTake count searching ↔ limits.InRange count searching := by
  have bound : max (min (count * limits.multiplier searching) usizeMax) limits.minWindow ≤ usizeMax :=
    max_le (min_le_right _ _) fits
  have product : 1 ≤ count * limits.multiplier searching ↔ 1 ≤ limits.multiplier searching := by
    rw [Nat.one_le_iff_ne_zero, Nat.mul_ne_zero_iff, ← Nat.one_le_iff_ne_zero,
      ← Nat.one_le_iff_ne_zero, and_iff_right some_]
  have take : limits.windowTake count searching =
      asI64 (max (min (count * limits.multiplier searching) usizeMax) limits.minWindow) := rfl
  rw [take, one_le_asI64_iff bound, InRange, ← product]
  generalize count * limits.multiplier searching = total
  unfold i64Max usizeMax
  omega

/-- The cast to `u64` loses nothing of a window that the one to `i64` kept. -/
theorem backlog_of_windowTake_pos (fits : limits.minWindow ≤ usizeMax) (some_ : 1 ≤ count)
    (positive : 1 ≤ limits.windowTake count searching) {tail : TailLimits}
    (records : tail.records = limits) (batch : tail.batch = count) :
    (tail.backlog searching : Int) = limits.windowTake count searching := by
  subst records batch
  apply asU64_of_nonneg
  · omega
  · obtain ⟨_, product, least⟩ := (windowTake_pos_iff fits some_).mp positive
    unfold windowTake
    dsimp only
    rw [show (if searching = true then tail.records.searchWindowMultiplier
      else tail.records.windowMultiplier) = tail.records.multiplier searching from rfl]
    generalize tail.batch * tail.records.multiplier searching = total at product ⊢
    rw [asI64_of_le]
    all_goals
      unfold i64Max usizeMax at *
      omega

/-- Each page and each tail reads at least one offset of each partition exactly
when the multiplier or the least window is not zero and neither the product nor
the least window is past an `i64`. -/
theorem reads_some_iff (limits : RecordLimits) (fits : limits.minWindow ≤ usizeMax) :
    (∀ limit, 1 ≤ limit → ∃ count, limits.clampLimit limit = .ok count ∧ 1 ≤ count ∧
      ∀ searching, limits.ReadsSome count searching ↔ limits.InRange count searching) ∧
    ∀ tail : TailLimits, tail.records = limits → 1 ≤ tail.batch → ∀ searching,
      limits.ReadsSome tail.batch searching ↔ limits.InRange tail.batch searching := by
  have reads : ∀ count, 1 ≤ count → ∀ searching,
      limits.ReadsSome count searching ↔ limits.InRange count searching := by
    intro count some_ searching
    rw [← windowTake_pos_iff fits some_]
    refine and_iff_left_of_imp fun positive tail records batch => ?_
    exact backlog_of_windowTake_pos fits some_ positive records batch
  constructor
  · intro limit positive
    obtain ⟨count, clamped, some_⟩ := limits.clampLimit_of_pos positive
    exact ⟨count, clamped, some_, reads count some_⟩
  · intro tail _ some_
    exact reads tail.batch some_

end RecordLimits

namespace Sample

/-- The least window and one of the multipliers are zero, the other multiplier is
as large as an `i64`. -/
def wideLimits : RecordLimits :=
  { maxLimit := 500, nonzero := by decide, minWindow := 0, windowMultiplier := 0,
    searchWindowMultiplier := 9223372036854775807 }

def plainLimits : RecordLimits :=
  { maxLimit := 500, nonzero := by decide, minWindow := 4, windowMultiplier := 2,
    searchWindowMultiplier := 8 }

theorem plain_limits_read_some :
    ∃ count, plainLimits.clampLimit 600 = .ok count ∧ plainLimits.ReadsSome count true := by
  obtain ⟨count, clamped, _, reads⟩ :=
    (RecordLimits.reads_some_iff plainLimits (by decide)).1 600 (by decide)
  obtain rfl : 500 = count := Except.ok.inj clamped
  exact ⟨500, clamped, (reads true).mpr (by unfold RecordLimits.InRange; decide)⟩

/-- A page of ten records then plans no window, and a search of three has one
offset less than none. -/
theorem wide_limits_read_none :
    wideLimits.clampLimit 10 = .ok 10 ∧ wideLimits.windowTake 10 false = 0 ∧
      (span [0] 0 100).windows .newest (wideLimits.windowTake 10 false) none = [] ∧
      ¬ wideLimits.ReadsSome 10 false ∧
      wideLimits.clampLimit 3 = .ok 3 ∧ wideLimits.windowTake 3 true = -1 ∧
      ¬ wideLimits.ReadsSome 3 true := by
  refine ⟨rfl, by decide, by decide, fun reads => ?_, rfl, by decide, fun reads => ?_⟩
  · exact absurd reads.1 (by decide)
  · exact absurd reads.1 (by decide)

end Sample
end Klens.Scan
