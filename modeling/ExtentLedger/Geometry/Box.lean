import ExtentLedger.Geometry.Span

/-!
# Points and boxes

A box is a rectangle with sides along the axes, the product of a span of `x` and a span of `y`.
-/

namespace ExtentLedger

structure Point (K : Type) where
  x : K
  y : K
deriving BEq, Repr

structure Box (K : Type) where
  x : Span K
  y : Span K
deriving BEq, Repr

variable {K : Type} [Coordinate K]

def Point.isFinite (p : Point K) : Bool := Coordinate.isFinite p.x && Coordinate.isFinite p.y

def Point.text (p : Point K) : String :=
  "(" ++ Coordinate.text p.x ++ ", " ++ Coordinate.text p.y ++ ")"

namespace Box

def between (p q : Point K) : Box K := ⟨.sorted p.x q.x, .sorted p.y q.y⟩

def point (p : Point K) : Box K := ⟨⟨p.x, p.x⟩, ⟨p.y, p.y⟩⟩

def join (b c : Box K) : Box K := ⟨b.x.join c.x, b.y.join c.y⟩

def covers (b c : Box K) : Bool := b.x.covers c.x && b.y.covers c.y

def ofPoints? : List (Point K) → Option (Box K)
  | [] => none
  | p :: ps => some (ps.foldl (fun b q => b.join (point q)) (point p))

/-- The corners in the order in which the boundary is walked: along the lower side first. -/
def corners (b : Box K) : Point K × Point K × Point K × Point K :=
  (⟨b.x.lo, b.y.lo⟩, ⟨b.x.hi, b.y.lo⟩, ⟨b.x.hi, b.y.hi⟩, ⟨b.x.lo, b.y.hi⟩)

end Box

end ExtentLedger
