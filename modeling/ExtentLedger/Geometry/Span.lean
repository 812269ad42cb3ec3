import ExtentLedger.Coordinate

/-!
# Spans

A span is a range on one axis, from its lower to its upper bound. Boxes and extents are made of spans, so what holds of
them axis by axis is stated here.
-/

namespace ExtentLedger

structure Span (K : Type) where
  lo : K
  hi : K
deriving BEq, Repr

namespace Span

variable {K : Type} [Coordinate K]

open Coordinate (least greatest near)

/-- The span between two numbers in either order. Numbers that do not compare, or are equal, change places. -/
def sorted (a b : K) : Span K := if a < b then ⟨a, b⟩ else ⟨b, a⟩

/-- The smallest span over both. Of equal bounds those of the second are taken. -/
def join (s t : Span K) : Span K := ⟨least s.lo t.lo, greatest s.hi t.hi⟩

def covers (s t : Span K) : Bool := s.lo ≤ t.lo && t.hi ≤ s.hi

def isNear (tolerance : K) (s t : Span K) : Bool := near tolerance s.lo t.lo && near tolerance s.hi t.hi

def isFinite (s : Span K) : Bool := Coordinate.isFinite s.lo && Coordinate.isFinite s.hi

def width (s : Span K) : K := s.hi - s.lo

end Span

end ExtentLedger
