import ExtentLedger.Proofs.Coordinate.Lawful
import Mathlib.Algebra.Order.Archimedean.Real.Basic

/-!
# Exact coordinates

Coordinates that are real numbers, each with its value, and that are added, multiplied and compared as their values are.
Nothing is rounded, and every number is finite. Rationals are exact; real numbers themselves are too, for the curves that
leave the rationals.
-/

namespace ExtentLedger

class ExactCoordinate (K : Type) [Coordinate K] extends LawfulCoordinate K where
  value : K → ℝ
  value_injective : Function.Injective value
  value_le : ∀ {a b : K}, value a ≤ value b ↔ a ≤ b
  value_add : ∀ a b : K, value (a + b) = value a + value b
  value_sub : ∀ a b : K, value (a - b) = value a - value b
  value_mul : ∀ a b : K, value (a * b) = value a * value b
  value_div : ∀ a b : K, value (a / b) = value a / value b
  value_neg : ∀ a : K, value (-a) = -value a
  value_ofNat : ∀ n : Nat, value (Coordinate.ofNat n) = n
  isFinite : ∀ a : K, Coordinate.isFinite a = true

instance : ExactCoordinate Rat where
  value q := q
  value_injective := Rat.cast_injective
  value_le := Rat.cast_le
  value_add := Rat.cast_add
  value_sub := Rat.cast_sub
  value_mul := Rat.cast_mul
  value_div := Rat.cast_div
  value_neg := Rat.cast_neg
  value_ofNat := Rat.cast_natCast
  isFinite _ := rfl

/-- Only messages write a real number; they give its whole part. -/
noncomputable instance : Coordinate ℝ where
  decidableLE := inferInstance
  decidableLT := inferInstance
  ofNat n := n
  isFinite _ := true
  text a := toString ⌊a⌋

noncomputable instance : ExactCoordinate ℝ where
  le_trans := le_trans
  le_total _ _ := le_total _ _
  lt_iff := lt_iff_le_not_ge
  beq_iff := beq_iff_eq.trans le_antisymm_iff
  value := id
  value_injective := Function.injective_id
  value_le := Iff.rfl
  value_add _ _ := rfl
  value_sub _ _ := rfl
  value_mul _ _ := rfl
  value_div _ _ := rfl
  value_neg _ := rfl
  value_ofNat _ := rfl
  isFinite _ := rfl

namespace ExactCoordinate

variable {K : Type} [Coordinate K] [ExactCoordinate K] {a b : K}

theorem value_lt : value a < value b ↔ a < b :=
  (lt_iff_le_not_ge.trans (and_congr value_le (not_congr value_le))).trans LawfulCoordinate.lt_iff.symm

theorem le_refl (a : K) : a ≤ a := value_le.mp le_rfl

theorem eq_of_le (h : a ≤ b) (h' : b ≤ a) : a = b :=
  value_injective (le_antisymm (value_le.mpr h) (value_le.mpr h'))

end ExactCoordinate

end ExtentLedger
