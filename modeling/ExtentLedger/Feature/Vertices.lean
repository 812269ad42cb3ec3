import ExtentLedger.Feature.Features

/-!
# Vertices

The vertices that bound a shape, in order. The holes of a polygon are left out, and a rectangle counts with two
opposite corners. A shape has a box exactly when it has a vertex here.
-/

namespace ExtentLedger

variable {K : Type}

namespace Shape

mutual

def vertices : Shape K → List (Point K)
  | .point p => [p]
  | .segment p q => [p, q]
  | .path ps | .scatter ps => ps
  | .polygon p => p.outer
  | .paths parts => parts.flatten
  | .polygons parts => parts.flatMap Polygon.outer
  | .rectangle b => [⟨b.x.lo, b.y.lo⟩, ⟨b.x.hi, b.y.hi⟩]
  | .triangle p q r => [p, q, r]
  | .collection members => verticesOfAll members

def verticesOfAll : List (Shape K) → List (Point K)
  | [] => []
  | s :: ss => s.vertices ++ verticesOfAll ss

end

end Shape

namespace Features

def vertices (f : Features K) : List (Point K) := f.shapes.flatMap Shape.vertices

@[simp] theorem vertices_push (f : Features K) (s : Shape K) : (f.push s).vertices = f.vertices ++ s.vertices := by
  simp [vertices, push]

end Features

end ExtentLedger
