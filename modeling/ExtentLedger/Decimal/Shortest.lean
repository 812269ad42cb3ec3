/-!
# The shortest decimal of a double

A finite double is a whole number of units `2 ^ exponent`. The reals that round to it form an interval around it, with
its ends included exactly when the significand is even. Its shortest decimal is the number with the fewest digits in
that interval; of several the nearest, and of two equally near ones the upper or the even one.

The search walks decimal grids from coarse to fine. On a grid only the two neighbours of the value need a test: if any
grid point lies in the interval, one of them does.
-/

namespace ExtentLedger

structure Decimal where
  digits : Nat
  exponent : Int
deriving DecidableEq, Repr

namespace Decimal

/-- Which of two equally near numbers is taken. -/
inductive Tie
  | up
  | even
deriving DecidableEq, Repr

/-- A finite non-negative double, `significand * 2 ^ exponent`. -/
structure Binary where
  significand : Nat
  exponent : Int
  /-- The next double below is only half as far away as the next one above. -/
  narrowBelow : Bool
deriving DecidableEq, Repr

/-- The sign bit of the double is not looked at. -/
def Binary.ofBits (bits : UInt64) : Binary :=
  let scale := (bits >>> 52 &&& 0x7FF).toNat
  let fraction := (bits &&& 0xFFFFFFFFFFFFF).toNat
  if scale = 0 then ⟨fraction, -1074, false⟩
  else ⟨0x10000000000000 + fraction, (scale : Int) - 1075, fraction == 0 && 1 < scale⟩

/-- A value and the gap to the next double above it, both in `1 / unit` of a step of a decimal grid. -/
structure Grid where
  value : Nat
  gap : Nat
  unit : Nat

def Binary.grid (x : Binary) (e : Int) : Grid :=
  let scale := Nat.pow 2 x.exponent.toNat * Nat.pow 10 (-e).toNat
  ⟨x.significand * scale, scale, Nat.pow 2 (-x.exponent).toNat * Nat.pow 10 e.toNat⟩

/-- Does the grid point `n` lie in the interval of reals that round to the value? -/
def Binary.readsBack (x : Binary) (g : Grid) (n : Nat) : Bool :=
  let point := 4 * n * g.unit
  let value := 4 * g.value
  let below := if x.narrowBelow then g.gap else 2 * g.gap
  if x.significand % 2 = 0 then value ≤ point + below && point ≤ value + 2 * g.gap
  else value < point + below && point < value + 2 * g.gap

/-- The neighbour of the value on the grid `10 ^ e` that stands for it, if one of the two does. -/
def Binary.neighbour? (tie : Tie) (x : Binary) (e : Int) : Option Decimal :=
  let g := x.grid e
  let low := g.value / g.unit
  match x.readsBack g low, x.readsBack g (low + 1) with
  | true, false => some ⟨low, e⟩
  | false, true => some ⟨low + 1, e⟩
  | false, false => none
  | true, true =>
    match compare (2 * g.value) ((2 * low + 1) * g.unit), tie with
    | .lt, _ => some ⟨low, e⟩
    | .gt, _ => some ⟨low + 1, e⟩
    | .eq, .up => some ⟨low + 1, e⟩
    | .eq, .even => some ⟨if low % 2 = 0 then low else low + 1, e⟩

/-- An exponent whose power of ten exceeds the value: `2 ^ b` is below `10 ^ (0.30103 * b + 1)` wherever doubles lie. -/
def Binary.scale (x : Binary) : Int :=
  let bits := (x.significand.log2 : Int) + 1 + x.exponent
  (bits * 30103).fdiv 100000 + 1

/-- The value itself as a decimal: `2 ^ -k` is `5 ^ k * 10 ^ -k`. -/
def Binary.exact (x : Binary) : Decimal :=
  ⟨x.significand * Nat.pow 2 x.exponent.toNat * Nat.pow 5 (-x.exponent).toNat, -((-x.exponent).toNat : Int)⟩

/-- The coarsest grid has a step above the value, at most a hundredfold; seventeen digits always suffice. -/
def Binary.shortest (tie : Tie) (x : Binary) : Decimal :=
  ((List.range 20).findSome? fun n : Nat => x.neighbour? tie (x.scale - n)).getD x.exact

/-- The whole number nearest to `num / den`, a tie going to the even one. -/
def roundDiv (num den : Nat) : Nat :=
  let q := num / den
  match compare (2 * (num % den)) den with
  | .lt => q
  | .gt => q + 1
  | .eq => if q % 2 = 0 then q else q + 1

end Decimal

end ExtentLedger
