import Std.Data.ExtTreeMap
import ExtentLedger.Extent
import ExtentLedger.Geometry.Boundary
import ExtentLedger.Reprojection.Mercator
import ExtentLedger.Text.Quoted

/-!
# Transform tables

A table holds one transform for each pair of codes. To reproject an extent is to map the samples of its boundary with
the transform of its pair and to take the bounds of the images; heights are dropped first, and an extent that is in the
wanted system already is not touched.
-/

namespace ExtentLedger

def codePairOrder : String × String → String × String → Ordering :=
  compareLex (compareOn Prod.fst) (compareOn Prod.snd)

instance : Std.TransCmp codePairOrder := inferInstanceAs (Std.TransCmp (compareLex _ _))

structure TransformTable (σ K : Type) where
  transforms : Std.ExtTreeMap (String × String) (Transform σ K) codePairOrder

namespace TransformTable

variable {σ K : Type}

def empty : TransformTable σ K := ⟨∅⟩

/-- The transform takes the place of an earlier one for the pair. -/
def register (t : TransformTable σ K) (source target : String) (transform : Transform σ K) : TransformTable σ K :=
  ⟨t.transforms.insert (source, target) transform⟩

def contains (t : TransformTable σ K) (source target : String) : Bool := t.transforms.contains (source, target)

def find (t : TransformTable σ K) (source target : String) : Except Fault (Transform σ K) :=
  match t.transforms[(source, target)]? with
  | some transform => .ok transform
  | none => .error (.unknownTransform source target)

def text (t : TransformTable σ K) : String :=
  let pair (p : String × String) : String := "(" ++ Text.quoted p.1 ++ ", " ++ Text.quoted p.2 ++ ")"
  "TransformRegistry \x7b transforms: " ++ Text.bracketed (t.transforms.keys.map pair) ++ " \x7d"

variable [Coordinate K]

/-- Degrees to both codes of spherical Mercator and back, and the two codes to each other. -/
def standard (m : Mercator K) : TransformTable σ K :=
  let degrees := ReferenceSystem.geographic
  let metres := ReferenceSystem.webMercator
  let metresAlias := ReferenceSystem.webMercatorAlias
  empty
    |>.register degrees metres m.forward
    |>.register metres degrees m.backward
    |>.register degrees metresAlias m.forward
    |>.register metresAlias degrees m.backward
    |>.register metres metresAlias .identity
    |>.register metresAlias metres .identity

/-- The bounds of the images of some points as an extent. Boundaries have at least four samples. -/
def boundsOf (transform : Transform σ K) (points : List (Point K)) (target : ReferenceSystem) :
    Attempt σ Fault (Extent K) := do
  let images ← transform.images points
  match Box.ofPoints? images with
  | some b => .ofExcept (Extent.planar b target)
  | none => .fail (.transform (transform.name ++ " was given no point"))

/-- The extent in the horizontal component of `target`, by at most `budget` samples. -/
def reproject (t : TransformTable σ K) (e : Extent K) (target : ReferenceSystem) (budget : Nat) :
    Attempt σ Fault (Extent K) :=
  let source := e.flat
  let target := target.flat
  if source.reference = target then return source
  else do
    let transform ← .ofExcept (t.find source.reference.code target.code)
    boundsOf transform (source.toBox.samples budget) target

end TransformTable

end ExtentLedger
