import ExtentLedger.Attempt
import ExtentLedger.Fault
import ExtentLedger.Geometry.Box

/-!
# Transforms

A transform maps points from one reference system to another. It is a collaborator: it may refuse a point, and it may
keep a state of its own. Two simple ones are given here: the identity, and a scaling and shift of each axis.
-/

namespace ExtentLedger

structure Transform (σ K : Type) where
  name : String
  apply : Point K → Attempt σ Fault (Point K)

def Transform.ofFunction {σ K : Type} (name : String) (f : Point K → Except Fault (Point K)) : Transform σ K :=
  ⟨name, fun p => .ofExcept (f p)⟩

def Transform.identity {σ K : Type} : Transform σ K := .ofFunction "identity" .ok

/-- The map `p ↦ scale * p + offset` on each axis. -/
structure Affine (K : Type) where
  scale : Point K
  offset : Point K
deriving Repr

variable {σ K : Type} [Coordinate K]

namespace Affine

def shift (offset : Point K) : Affine K :=
  ⟨⟨Coordinate.ofNat 1, Coordinate.ofNat 1⟩, offset⟩

def map (a : Affine K) (p : Point K) : Point K :=
  ⟨a.scale.x * p.x + a.offset.x, a.scale.y * p.y + a.offset.y⟩

/-- The map back; there is none when an axis is scaled to nothing. -/
def inverse? (a : Affine K) : Option (Affine K) :=
  let zero : K := Coordinate.ofNat 0
  let one : K := Coordinate.ofNat 1
  if a.scale.x == zero || a.scale.y == zero then none
  else some ⟨⟨one / a.scale.x, one / a.scale.y⟩, ⟨-a.offset.x / a.scale.x, -a.offset.y / a.scale.y⟩⟩

def transform (a : Affine K) : Transform σ K := .ofFunction "affine" fun p => .ok (a.map p)

end Affine

namespace Transform

/-- The image of a point, which has to be finite. -/
def image (t : Transform σ K) (p : Point K) : Attempt σ Fault (Point K) := do
  let q ← t.apply p
  if q.isFinite then return q
  else .fail (.transform (t.name ++ " produced a non-finite coordinate for " ++ p.text))

/-- The images of some points, up to the first that has none. -/
def images (t : Transform σ K) : List (Point K) → Attempt σ Fault (List (Point K))
  | [] => return []
  | p :: ps => do
    let q ← t.image p
    let qs ← t.images ps
    return q :: qs

end Transform

end ExtentLedger
