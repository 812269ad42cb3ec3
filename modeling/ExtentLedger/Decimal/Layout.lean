import ExtentLedger.Decimal.Shortest

/-!
# Doubles as text

Three layouts. Coordinates are written positionally with the fewest digits that identify them, whatever their size;
a tie between two equally near shortest decimals goes up. A number with a fixed count of places is the exact value
rounded once, half to even. A number quoted in a decoding error has at least one decimal, and an exponent when it is
very large or very small.
-/

namespace ExtentLedger

namespace Decimal

def zeros (n : Nat) : List Char := List.replicate n '0'

def pointed (digits : List Char) (places : Nat) : List Char :=
  let whole := digits.take (digits.length - places)
  let rest := digits.drop (digits.length - places)
  (if whole.isEmpty then ['0'] else whole) ++ '.' :: zeros (places - rest.length) ++ rest

/-- The number without an exponent: `1500`, `0.0015`. -/
def positional (d : Decimal) : List Char :=
  let digits := Nat.toDigits 10 d.digits
  if d.exponent < 0 then pointed digits (-d.exponent).toNat else digits ++ zeros d.exponent.toNat

/-- The number with its leading digit before the point and a signed exponent: `1.5e+21`, `2e-7`. -/
def exponential (d : Decimal) : List Char :=
  let digits := Nat.toDigits 10 d.digits
  let mantissa := if digits.length ≤ 1 then digits else pointed digits (digits.length - 1)
  let power := d.exponent + (digits.length - 1 : Nat)
  mantissa ++ 'e' :: (if power < 0 then '-' else '+') :: Nat.toDigits 10 power.natAbs

/-- The sign bit: set also for negative zero. -/
def isSigned (x : Float) : Bool := x.toBits >>> 63 == 1

def textWith (layout : Binary → List Char) (x : Float) : String :=
  if x.isNaN then "NaN"
  else
    let size := if x.isInf then "inf".toList else layout (.ofBits x.toBits)
    String.ofList (if isSigned x then '-' :: size else size)

/-- The fewest digits that identify the number, never an exponent: `0.1`, `-0`, `inf`. -/
def text (x : Float) : String :=
  textWith (fun b => if b.significand = 0 then ['0'] else (b.shortest .up).positional) x

/-- The exact value rounded to `places` decimals, half to even; a result of zero has no sign. -/
def fixed (places : Nat) (x : Float) : String :=
  let rounded (b : Binary) : Nat :=
    let g := b.grid (-(places : Int))
    roundDiv g.value g.unit
  let unsigned := if rounded (.ofBits x.toBits) = 0 then x.abs else x
  textWith (fun b => pointed (Nat.toDigits 10 (rounded b)) places) unsigned

/-- How a decoding error quotes a number that is not an integer: `1000.0`, `1.5e+21`. -/
def quoted (x : Float) : String :=
  textWith (fun b =>
    if b.significand = 0 then ['0', '.', '0']
    else
      let d := b.shortest .even
      let point := d.exponent + (Nat.toDigits 10 d.digits).length
      if point ≤ -5 ∨ 16 < point then d.exponential
      else if d.exponent < 0 then d.positional
      else d.positional ++ ['.', '0']) x

end Decimal

end ExtentLedger
