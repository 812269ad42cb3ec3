import ExtentLedger.Decimal.Layout

/-!
# Coordinates

Extents, samples, affine maps and reprojection are defined once for every number type that a coordinate can be taken
from. Doubles are the coordinates that programs hold; rationals are the exact arithmetic that the geometry is about.
-/

namespace ExtentLedger

/-- The operations on numbers that geometry here uses. A comparison is false when a number is not comparable. -/
class Coordinate (K : Type) extends Add K, Sub K, Mul K, Div K, Neg K, LE K, LT K, BEq K where
  decidableLE : DecidableLE K
  decidableLT : DecidableLT K
  ofNat : Nat → K
  isFinite : K → Bool
  text : K → String

attribute [reducible, instance] Coordinate.decidableLE Coordinate.decidableLT

namespace Coordinate

instance : Coordinate Float where
  decidableLE := inferInstance
  decidableLT := inferInstance
  ofNat := Float.ofNat
  isFinite := Float.isFinite
  text := Decimal.text

instance : Coordinate Rat where
  decidableLE := inferInstance
  decidableLT := inferInstance
  ofNat n := (n : Rat)
  isFinite _ := true
  text q := toString q.num ++ "/" ++ toString q.den

variable {K : Type} [Coordinate K]

/-- Of two equal or incomparable numbers the second is taken. -/
def least (a b : K) : K := if a < b then a else b

/-- Of two equal or incomparable numbers the second is taken. -/
def greatest (a b : K) : K := if b < a then a else b

def magnitude (a : K) : K := if a < ofNat 0 then -a else a

def near (tolerance a b : K) : Bool := decide (magnitude (a - b) ≤ tolerance)

end Coordinate

end ExtentLedger
