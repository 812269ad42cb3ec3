import ExtentLedger.Json.Numeral
import ExtentLedger.Proofs.Coordinate.Decimals

/-!
# Which numbers have a value

A number that is not read as an integer is rounded once, from all its digits. So it is its size alone that decides
whether it has a value, and every number within the range of the doubles has one, however it is written.
-/

namespace ExtentLedger

namespace Json

namespace Numeral

open Double

variable {n : Numeral}

def size (n : Numeral) : ℚ := digitsValue (n.whole ++ n.fraction) * 10 ^ n.power

theorem size_eq_of_plain (hf : n.fraction.isEmpty) (he : n.exponent.isNone) : n.size = digitsValue n.whole := by
  have hp : n.power = 0 := by
    rw [power, Option.isNone_iff_eq_none.mp he, List.isEmpty_iff.mp hf]
    rfl
  rw [size, hp, zpow_zero, mul_one, List.isEmpty_iff.mp hf, List.append_nil]

theorem isSome_double? : n.double?.isSome = true ↔ n.size < overflow := by
  rw [size, ← isFinite_ofScientific, double?]
  split
  · next h => exact iff_of_true rfl h
  · next h => exact iff_of_false Bool.false_ne_true h

/-- The double that is read is the number, rounded once. -/
theorem yields_double? {x : Float} (h : n.double? = some x) :
    Yields (if n.negative then -n.size else n.size) x := by
  rw [double?] at h
  split at h
  · next hfinite =>
    obtain rfl := Option.some.inj h
    have hy := yields_ofScientific fun h0 => not_lt.mp fun he =>
      (overflow_lt_of_large h0 he).not_gt (isFinite_ofScientific.mp hfinite)
    split
    · exact hy.neg hfinite
    · exact hy
  · cases h

/-- Whether a number has a value is decided by its size alone. -/
theorem isSome_value? : n.value?.isSome = true ↔ n.size < overflow := by
  rw [value?]
  split
  · next h =>
    obtain ⟨hf, he, -, hlt⟩ := h
    exact iff_of_true rfl (size_eq_of_plain hf he ▸ natCast_lt_overflow hlt)
  split
  · next h =>
    obtain ⟨hf, he, -, -, hle⟩ := h
    have hmin : Int64.minValue.toInt = -2 ^ 63 := by decide
    exact iff_of_true rfl (size_eq_of_plain hf he ▸ natCast_lt_overflow (by omega))
  · rw [Option.isSome_map]
    exact isSome_double?

theorem isSome_value?_of_le (h : n.size ≤ largest) : n.value?.isSome = true :=
  isSome_value?.mpr (h.trans_lt largest_lt_overflow)

end Numeral

end Json

end ExtentLedger
