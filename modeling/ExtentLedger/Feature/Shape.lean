import ExtentLedger.Geometry.Box

/-!
# Shapes

Vector geometries and the boxes around them. A sequence of points is bounded by its first point and whatever lies
outside it; a number that compares with nothing therefore counts in first place only. The points of a triangle come
counterclockwise. Holes of a polygon lie inside its outer ring and do not count. A shape without points has no box.
-/

namespace ExtentLedger

structure Polygon (K : Type) where
  outer : List (Point K)
  holes : List (List (Point K))
deriving Repr

inductive Shape (K : Type)
  | point (p : Point K)
  | segment (p q : Point K)
  | path (points : List (Point K))
  | scatter (points : List (Point K))
  | polygon (p : Polygon K)
  | paths (parts : List (List (Point K)))
  | polygons (parts : List (Polygon K))
  | rectangle (b : Box K)
  | triangle (p q r : Point K)
  | collection (members : List (Shape K))

variable {K : Type} [Coordinate K]

/-- Three points counterclockwise: a clockwise triangle is read from its last point to its first. -/
def Point.counterclockwise (p q r : Point K) : List (Point K) :=
  let turn := (q.x - p.x) * (r.y - p.y) - (q.y - p.y) * (r.x - p.x)
  if turn < Coordinate.ofNat 0 then [r, q, p] else [p, q, r]

def Span.stretch (s : Span K) (a : K) : Span K :=
  if s.hi < a then ⟨s.lo, a⟩ else if a < s.lo then ⟨a, s.hi⟩ else s

/-- The span over two, its bounds in order even where numbers do not compare. -/
def Span.followedBy (s t : Span K) : Span K := .sorted (s.join t).lo (s.join t).hi

namespace Box

def around? : List (Point K) → Option (Box K)
  | [] => none
  | p :: ps =>
    let b := ps.foldl (fun b q => ⟨b.x.stretch q.x, b.y.stretch q.y⟩) (point p)
    some ⟨.sorted b.x.lo b.x.hi, .sorted b.y.lo b.y.hi⟩

def followedBy? : Option (Box K) → Option (Box K) → Option (Box K)
  | some b, some c => some ⟨b.x.followedBy c.x, b.y.followedBy c.y⟩
  | b, c => b.or c

end Box

namespace Shape

mutual

def box? : Shape K → Option (Box K)
  | .point p => some (.between p p)
  | .segment p q => some (.between p q)
  | .path ps | .scatter ps => Box.around? ps
  | .polygon p => Box.around? p.outer
  | .paths parts => Box.around? parts.flatten
  | .polygons parts => Box.around? (parts.flatMap Polygon.outer)
  | .rectangle b => some b
  | .triangle p q r => Box.around? (p.counterclockwise q r)
  | .collection members => boxOfAll none members

/-- The box so far, grown by the boxes of further members. -/
def boxOfAll : Option (Box K) → List (Shape K) → Option (Box K)
  | b, [] => b
  | b, s :: ss => boxOfAll (Box.followedBy? b s.box?) ss

end

end Shape

end ExtentLedger
