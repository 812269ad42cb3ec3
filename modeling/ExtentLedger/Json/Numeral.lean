import ExtentLedger.Decimal.Layout

/-!
# Numbers in JSON texts

A numeral is a number as it is written. Its value is an integer when it is written without a point and an exponent and
fits 64 bits, with or without a sign; it is the nearest double otherwise. A numeral that is rounded beyond the doubles
has no value.
-/

namespace ExtentLedger

namespace Json

structure Numeral where
  negative : Bool
  whole : List Char
  fraction : List Char
  exponent : Option (Bool × List Char)
deriving DecidableEq, Repr

inductive Number
  | integer (n : Int)
  | double (x : Float)
deriving Repr

namespace Numeral

def ofInt (n : Int) : Numeral := ⟨n < 0, Nat.toDigits 10 n.natAbs, [], none⟩

def chars (n : Numeral) : List Char :=
  let sign := if n.negative then ['-'] else []
  let fraction := if n.fraction.isEmpty then [] else '.' :: n.fraction
  let power := match n.exponent with
    | none => []
    | some (negative, digits) => 'e' :: (if negative then '-' else '+') :: digits
  sign ++ n.whole ++ fraction ++ power

def digitsValue (digits : List Char) : Nat := Nat.ofDigitChars 10 digits 0

/-- The power of ten that the digits are multiplied by, the point left out. -/
def power (n : Numeral) : Int :=
  let written : Int := match n.exponent with
    | none => 0
    | some (negative, digits) => if negative then -(digitsValue digits : Int) else digitsValue digits
  written - n.fraction.length

/-- The nearest double, if the numeral is not too large for one. -/
def double? (n : Numeral) : Option Float :=
  let size := Float.ofScientific (digitsValue (n.whole ++ n.fraction)) (n.power < 0) n.power.natAbs
  if size.isFinite then some (if n.negative then -size else size) else none

def value? (n : Numeral) : Option Number :=
  let size := digitsValue n.whole
  if n.fraction.isEmpty ∧ n.exponent.isNone ∧ n.negative = false ∧ size < UInt64.size then some (.integer size)
  else if n.fraction.isEmpty ∧ n.exponent.isNone ∧ n.negative = true ∧ 0 < size ∧ Int64.minValue.toInt ≤ -size then
    some (.integer (-size))
  else n.double?.map .double

end Numeral

end Json

end ExtentLedger
