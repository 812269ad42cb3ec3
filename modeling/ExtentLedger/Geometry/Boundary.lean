import ExtentLedger.Geometry.Box

/-!
# Samples of a boundary

A curved transform can push the middle of a side further out than its ends, so a box is carried over by points along
all of its boundary. Each side is cut into equally long steps, and a sample stands at the start of each step: every
corner is a sample, once.
-/

namespace ExtentLedger

def Boundary.defaultBudget : Nat := 1000

/-- More samples than this are never taken. -/
def Boundary.maxBudget : Nat := 10000

def Boundary.perSide (budget : Nat) : Nat := max 1 (min budget Boundary.maxBudget / 4)

theorem Boundary.perSide_pos (budget : Nat) : 0 < perSide budget := by
  simp only [perSide]
  omega

theorem Boundary.perSide_le (budget : Nat) : perSide budget ≤ 2500 := by
  simp only [perSide, maxBudget]
  omega

variable {K : Type} [Coordinate K]

/-- The point `step / steps` of the way from `p` to `q`. -/
def Point.towards (p q : Point K) (step steps : Nat) : Point K :=
  let t := Coordinate.ofNat step / Coordinate.ofNat steps
  ⟨p.x + (q.x - p.x) * t, p.y + (q.y - p.y) * t⟩

/-- The samples of one side, its end left out. -/
def Boundary.side (steps : Nat) (p q : Point K) : List (Point K) :=
  (List.range steps).map fun step => p.towards q step steps

def Box.samples (b : Box K) (budget : Nat) : List (Point K) :=
  let (p, q, r, s) := b.corners
  let side := Boundary.side (Boundary.perSide budget)
  side p q ++ side q r ++ side r s ++ side s p

theorem Box.length_samples (b : Box K) (budget : Nat) :
    (b.samples budget).length = 4 * Boundary.perSide budget := by
  simp only [Box.samples, Boundary.side, List.length_append, List.length_map, List.length_range]
  omega

end ExtentLedger
