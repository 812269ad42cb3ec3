import ExtentLedger.Reprojection.TransformTable

/-!
# Merging

Extents in any systems become one extent in a wanted system: each is reprojected, and the union of the results is taken.
No extents have no union.
-/

namespace ExtentLedger

/-- How pending extents become one, or none when there is nothing to act on. -/
abbrev Merger (σ K : Type) := ReferenceSystem → List (Extent K) → Attempt σ Fault (Option (Extent K))

variable {σ K : Type} [Coordinate K]

def Merger.grow (table : TransformTable σ K) (budget : Nat) (target : ReferenceSystem) :
    Option (Extent K) → List (Extent K) → Attempt σ Fault (Option (Extent K))
  | merged, [] => return merged
  | merged, e :: es => do
    let image ← table.reproject e target budget
    let larger ← .ofExcept (merged.elim (.ok image) (·.union image))
    grow table budget target (some larger) es

def Merger.reprojecting (table : TransformTable σ K) (budget : Nat) : Merger σ K := fun target extents =>
  grow table (min budget Boundary.maxBudget) target none extents

end ExtentLedger
