import ExtentLedger.Extent

/-!
# Valid extents and the covering order

What every extent is: its bounds are finite and in order, and it has heights exactly when its system has them. Valid
extents of one system are ordered by covering on every axis; `Extent.contains` looks at the horizontal axes alone.
-/

namespace ExtentLedger

variable {K : Type} [Coordinate K]

def Span.IsValid (s : Span K) : Prop := s.isFinite = true ∧ s.lo ≤ s.hi

instance (s : Span K) : Decidable s.IsValid := inferInstanceAs (Decidable (_ ∧ _))

namespace Extent

structure IsValid (e : Extent K) : Prop where
  x : e.x.IsValid
  y : e.y.IsValid
  vertical : ∀ z, e.vertical = some z → z.IsValid
  solid_iff : e.vertical.isSome = e.reference.isCompound

/-- Covering of heights: neither extent has any, or both have. -/
def coversHeights : Option (Span K) → Option (Span K) → Bool
  | some s, some t => s.covers t
  | none, none => true
  | _, _ => false

/-- Does `e` reach at least as far as `f` on every axis, in the same system? -/
def covers (e f : Extent K) : Bool := e.contains f && coversHeights e.vertical f.vertical

theorem contains_iff {e f : Extent K} :
    e.contains f = true ↔ e.reference = f.reference ∧ e.toBox.covers f.toBox = true := by
  simp [contains]

theorem reference_eq_of_contains {e f : Extent K} (h : e.contains f = true) : e.reference = f.reference :=
  (contains_iff.mp h).1

end Extent

end ExtentLedger
