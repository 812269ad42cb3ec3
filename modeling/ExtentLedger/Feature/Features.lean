import ExtentLedger.Extent
import ExtentLedger.Feature.Shape

/-!
# Features

Shapes in one reference system, as a change touches them. Their extent covers all their boxes.
-/

namespace ExtentLedger

structure Features (K : Type) where
  reference : ReferenceSystem
  shapes : List (Shape K)

namespace Features

variable {K : Type} [Coordinate K]

def push (f : Features K) (s : Shape K) : Features K := { f with shapes := f.shapes ++ [s] }

def grow (r : ReferenceSystem) : Option (Extent K) → List (Box K) → Except Fault (Option (Extent K))
  | sofar, [] => .ok sofar
  | sofar, b :: bs => do
    let e ← Extent.planar b r
    let larger ← sofar.elim (.ok e) (·.union e)
    grow r (some larger) bs

/-- The extent of all shapes that have a box; without any there is none. -/
def extent? (f : Features K) : Except Fault (Option (Extent K)) :=
  grow f.reference none (f.shapes.filterMap Shape.box?)

end Features

end ExtentLedger
