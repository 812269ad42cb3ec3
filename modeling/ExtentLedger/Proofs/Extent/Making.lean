import ExtentLedger.Proofs.Attempt.Pure
import ExtentLedger.Proofs.Geometry.Hull

/-!
# Making extents

An extent is made exactly when its bounds are finite and in order and its system has heights when it has. The union of
extents of one system always exists.
-/

namespace ExtentLedger

variable {K : Type} [Coordinate K]

namespace Extent

structure IsFlat (e : Extent K) (r : ReferenceSystem) : Prop where
  box : e.toBox.IsValid
  vertical : e.vertical = none
  reference : e.reference = r

theorem IsValid.box {e : Extent K} (h : e.IsValid) : e.toBox.IsValid := ⟨h.x, h.y⟩

theorem IsFlat.flat_reference {e : Extent K} {r : ReferenceSystem} (h : e.IsFlat r.flat) :
    e.reference.flat = e.reference := by
  rw [h.reference, ReferenceSystem.flat_flat]

theorem isFlat_flat {e : Extent K} (h : e.toBox.IsValid) : e.flat.IsFlat e.reference.flat := ⟨h, rfl, rfl⟩

/-- Flat extents of one system differ in nothing but their boxes. -/
theorem beq_of_isFlat {e f : Extent K} {r : ReferenceSystem} (he : e.IsFlat r) (hf : f.IsFlat r)
    (h : (e.toBox == f.toBox) = true) : (e == f) = true := by
  have hb : (e == f) = (e.toBox == f.toBox && (e.vertical == f.vertical && e.reference == f.reference)) := rfl
  rw [hb, h, he.vertical, hf.vertical, he.reference, hf.reference]
  simp

variable [LawfulCoordinate K]

theorem beq_of_covers {e f : Extent K} {r : ReferenceSystem} (he : e.IsFlat r) (hf : f.IsFlat r)
    (h : ∀ b : Box K, b.covers e.toBox = true ↔ b.covers f.toBox = true) : (e == f) = true :=
  beq_of_isFlat he hf
    (Box.beq_iff_covers.mpr ⟨(h e.toBox).mp he.box.covers_self, (h f.toBox).mpr hf.box.covers_self⟩)

theorem checkAxis_eq_ok {axis : Axis} {s : Span K} : checkAxis axis s = .ok () ↔ s.IsValid := by
  unfold checkAxis
  by_cases hf : s.isFinite = false
  · rw [if_pos hf]
    constructor
    · intro h
      cases h
    · intro h
      exact absurd (h.1.symm.trans hf) Bool.true_eq_false.mp
  · have hf' : s.isFinite = true := by simpa using hf
    obtain ⟨hl, hh⟩ : Coordinate.isFinite s.lo = true ∧ Coordinate.isFinite s.hi = true := by
      simpa [Span.isFinite] using hf'
    rw [if_neg hf]
    by_cases hr : s.hi < s.lo
    · rw [if_pos hr]
      constructor
      · intro h
        cases h
      · intro h
        exact absurd h.2 (LawfulCoordinate.lt_iff.mp hr).2
    · rw [if_neg hr]
      exact ⟨fun _ => ⟨hf', LawfulCoordinate.le_of_not_lt hh hl hr⟩, fun _ => rfl⟩

theorem checkAxis_bind_eq_ok {α : Type} {axis : Axis} {s : Span K} {f : Unit → Except Fault α} {a : α} :
    (checkAxis axis s >>= f) = .ok a ↔ s.IsValid ∧ f () = .ok a := by
  rw [bind_eq_ok, ← checkAxis_eq_ok]
  exact ⟨fun ⟨_, hs, hf⟩ => ⟨hs, hf⟩, fun ⟨hs, hf⟩ => ⟨(), hs, hf⟩⟩

theorem planar_eq_ok {b : Box K} {r : ReferenceSystem} {e : Extent K} :
    planar b r = .ok e ↔ r.isCompound = false ∧ b.IsValid ∧ e = ⟨b.inOrder, none, r⟩ := by
  unfold planar
  cases hr : r.isCompound with
  | true =>
    rw [if_pos rfl]
    constructor
    · intro h
      cases h
    · intro h
      cases h.1
  | false =>
    rw [if_neg Bool.false_ne_true, checkAxis_bind_eq_ok, checkAxis_bind_eq_ok]
    constructor
    · intro h
      obtain ⟨hx, hy, he⟩ := h
      exact ⟨rfl, ⟨hx, hy⟩, (Except.ok.inj he).symm⟩
    · intro h
      obtain ⟨-, ⟨hx, hy⟩, rfl⟩ := h
      exact ⟨hx, hy, rfl⟩

theorem solid_eq_ok {b : Box K} {z : Span K} {r : ReferenceSystem} {e : Extent K} :
    solid b z r = .ok e ↔ r.isCompound = true ∧ b.IsValid ∧ z.IsValid ∧ e = ⟨b.inOrder, some z, r⟩ := by
  unfold solid
  cases hr : r.isCompound with
  | false =>
    rw [if_pos rfl]
    constructor
    · intro h
      cases h
    · intro h
      cases h.1
  | true =>
    rw [if_neg Bool.true_eq_false.mp, checkAxis_bind_eq_ok, checkAxis_bind_eq_ok, checkAxis_bind_eq_ok]
    constructor
    · intro h
      obtain ⟨hx, hy, hz, he⟩ := h
      exact ⟨rfl, ⟨hx, hy⟩, hz, (Except.ok.inj he).symm⟩
    · intro h
      obtain ⟨-, ⟨hx, hy⟩, hz, rfl⟩ := h
      exact ⟨hx, hy, hz, rfl⟩

/-- The union of flat extents of one system is flat, and a hull of what they are hulls of. -/
theorem union_of_isFlat {e f : Extent K} {r : ReferenceSystem} (he : e.IsFlat r) (hf : f.IsFlat r)
    {ps qs : List (Box K)} (hp : e.toBox.IsHull ps) (hq : f.toBox.IsHull qs) :
    ∃ g, e.union f = .ok g ∧ g.IsFlat r ∧ g.toBox.IsHull (ps ++ qs) := by
  have hg := (hp.join hq).inOrder
  refine ⟨⟨(e.toBox.join f.toBox).inOrder, none, r⟩, ?_, ⟨hg.valid, rfl, rfl⟩, hg⟩
  rw [union, if_pos (he.reference.trans hf.reference.symm), he.vertical, hf.vertical, he.reference]
  rfl

end Extent

end ExtentLedger
