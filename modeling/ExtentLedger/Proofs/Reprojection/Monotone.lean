import Mathlib
import ExtentLedger.Proofs.Geometry.Monotone
import ExtentLedger.Reprojection.Mercator

/-!
# Monotone transforms

Transforms by functions whose coordinates go one way along each axis: the identity, every affine map, the exchange of the
axes, and the Mercator projections. Of the sphere's curves this is shown for real numbers.
-/

namespace ExtentLedger

variable {σ K : Type} [Coordinate K]

/-- On the box, the transform answers with the values of a function that is monotone in both coordinates. -/
structure Transform.IsMonotoneOn (t : Transform σ K) (b : Box K) (f : Point K → Point K) : Prop where
  apply : ∀ p, b.Holds p → ∀ w, (t.apply p w).1 = .value (f p)
  x : b.IsMonotone fun p => (f p).x
  y : b.IsMonotone fun p => (f p).y

namespace Transform

variable {b : Box K} {f : Point K → Point K}

theorem IsMonotoneOn.ofFunction {name : String} {g : Point K → Except Fault (Point K)}
    (hg : ∀ p, b.Holds p → g p = .ok (f p)) (hx : b.IsMonotone fun p => (f p).x) (hy : b.IsMonotone fun p => (f p).y) :
    (ofFunction name g : Transform σ K).IsMonotoneOn b f := by
  refine ⟨fun p hp w => ?_, hx, hy⟩
  show (Attempt.ofExcept (g p) w : Outcome Fault (Point K) × σ).1 = _
  rw [hg p hp]
  rfl

def swap : Transform σ K := .ofFunction "swap" fun p => .ok ⟨p.y, p.x⟩

variable [ExactCoordinate K]

theorem isMonotoneOn_identity (b : Box K) : (identity : Transform σ K).IsMonotoneOn b id :=
  .ofFunction (fun _ _ => rfl) (.of_x (h := id) (.inl fun _ _ _ _ h => h)) (.of_y (h := id) (.inl fun _ _ _ _ h => h))

theorem isMonotoneOn_swap (b : Box K) : (swap : Transform σ K).IsMonotoneOn b fun p => ⟨p.y, p.x⟩ :=
  .ofFunction (fun _ _ => rfl) (.of_y (h := id) (.inl fun _ _ _ _ h => h)) (.of_x (h := id) (.inl fun _ _ _ _ h => h))

end Transform

open ExactCoordinate in
theorem Span.ascends_or_descends [ExactCoordinate K] (s : Span K) (scale offset : K) :
    s.Ascends (fun a => scale * a + offset) ∨ s.Descends fun a => scale * a + offset := by
  rcases le_total 0 (value scale) with h | h
  · refine .inl fun a c _ _ hac => ?_
    rw [← value_le, value_add, value_add, value_mul, value_mul]
    exact add_le_add (mul_le_mul_of_nonneg_left (value_le.mpr hac) h) le_rfl
  · refine .inr fun a c _ _ hac => ?_
    rw [← value_le, value_add, value_add, value_mul, value_mul]
    exact add_le_add (mul_le_mul_of_nonpos_left (value_le.mpr hac) h) le_rfl

theorem Affine.isMonotoneOn_transform [ExactCoordinate K] (a : Affine K) (b : Box K) :
    (a.transform : Transform σ K).IsMonotoneOn b a.map :=
  .ofFunction (fun _ _ => rfl) (.of_x (b.x.ascends_or_descends a.scale.x a.offset.x))
    (.of_y (b.y.ascends_or_descends a.scale.y a.offset.y))

/-! ## Mercator -/

namespace Mercator

structure IsMonotone (m : Mercator K) : Prop where
  limit : -m.limit ≤ m.limit
  easting : ∀ a b, a ≤ b → m.easting a ≤ m.easting b
  northing : ∀ a b, -m.limit ≤ a → a ≤ b → b ≤ m.limit → m.northing a ≤ m.northing b
  longitude : ∀ a b, a ≤ b → m.longitude a ≤ m.longitude b
  latitude : ∀ a b, a ≤ b → m.latitude a ≤ m.latitude b

section
variable [ExactCoordinate K] {m : Mercator K} (hm : m.IsMonotone)
include hm

open ExactCoordinate

theorem value_clamp (lat : K) : value (m.clamp lat) = max (-value m.limit) (min (value lat) (value m.limit)) := by
  have hl := value_le.mpr hm.limit
  rw [value_neg] at hl
  unfold clamp
  by_cases h : lat < -m.limit
  · have h' := value_lt.mpr h
    rw [value_neg] at h'
    rw [if_pos h, value_neg, min_eq_left (h'.le.trans hl), max_eq_left h'.le]
  · have h' : -value m.limit ≤ value lat := by
      rw [← value_neg]
      exact not_lt.mp fun hlt => h (value_lt.mp hlt)
    rw [if_neg h]
    by_cases hg : m.limit < lat
    · rw [if_pos hg, min_eq_right (value_lt.mpr hg).le, max_eq_right hl]
    · have hg' : value lat ≤ value m.limit := not_lt.mp fun hlt => hg (value_lt.mp hlt)
      rw [if_neg hg, min_eq_left hg', max_eq_right h']

theorem northing_clamp_mono (a b : K) (h : a ≤ b) : m.northing (m.clamp a) ≤ m.northing (m.clamp b) := by
  have hl := value_le.mpr hm.limit
  rw [value_neg] at hl
  apply hm.northing
  · rw [← value_le, value_neg, value_clamp hm]
    exact le_max_left _ _
  · rw [← value_le, value_clamp hm, value_clamp hm]
    exact max_le_max le_rfl (min_le_min (value_le.mpr h) le_rfl)
  · rw [← value_le, value_clamp hm]
    exact max_le hl (min_le_right _ _)

theorem isMonotoneOn_forward {b : Box K} (hb : ∀ p, b.Holds p → isGeographic p = true) :
    (m.forward : Transform σ K).IsMonotoneOn b fun p => ⟨m.easting p.x, m.northing (m.clamp p.y)⟩ := by
  refine .ofFunction (fun p hp => if_pos (hb p hp)) (.of_x (h := m.easting) ?_)
    (.of_y (h := fun y => m.northing (m.clamp y)) ?_)
  · exact .inl fun x x' _ _ h => hm.easting x x' h
  · exact .inl fun y y' _ _ h => northing_clamp_mono hm y y' h

theorem isMonotoneOn_backward (b : Box K) :
    (m.backward : Transform σ K).IsMonotoneOn b fun p => ⟨m.longitude p.x, m.latitude p.y⟩ := by
  have hf : ∀ p : Point K, p.isFinite = true := fun p => by simp [Point.isFinite, isFinite]
  refine .ofFunction (fun p _ => if_pos (hf p)) (.of_x (h := m.longitude) ?_) (.of_y (h := m.latitude) ?_)
  · exact .inl fun x x' _ _ h => hm.longitude x x' h
  · exact .inl fun y y' _ _ h => hm.latitude y y' h

end

noncomputable def exactSphere : Mercator ℝ where
  limit := 85.05112877980659
  easting lon := 6378137 * (lon * (Real.pi / 180))
  northing lat := 6378137 * Real.log (Real.tan (Real.pi / 4 + lat * (Real.pi / 180) / 2))
  longitude x := x / 6378137 * (180 / Real.pi)
  latitude y := (2 * Real.arctan (Real.exp (y / 6378137)) - 2 * (Real.pi / 4)) * (180 / Real.pi)

theorem isMonotone_exactSphere : exactSphere.IsMonotone where
  limit := by
    show -(85.05112877980659 : ℝ) ≤ 85.05112877980659
    norm_num
  easting a b h := by
    show (6378137 : ℝ) * (a * (Real.pi / 180)) ≤ 6378137 * (b * (Real.pi / 180))
    have := Real.pi_pos
    gcongr
  northing a b ha h hb := by
    have hpi := Real.pi_pos
    have ha : -(85.05112877980659 : ℝ) ≤ a := ha
    have hb : b ≤ (85.05112877980659 : ℝ) := hb
    -- Half the latitude and a right angle's half stay inside a right angle, where the tangent grows and is positive.
    have hpos : 0 < Real.pi / 4 + a * (Real.pi / 180) / 2 := by nlinarith
    have hlt : Real.pi / 4 + b * (Real.pi / 180) / 2 < Real.pi / 2 := by nlinarith
    have hab : Real.pi / 4 + a * (Real.pi / 180) / 2 ≤ Real.pi / 4 + b * (Real.pi / 180) / 2 := by gcongr
    have htan := Real.strictMonoOn_tan.monotoneOn ⟨by linarith, by linarith⟩ ⟨by linarith, by linarith⟩ hab
    have hlog := Real.log_le_log (Real.tan_pos_of_pos_of_lt_pi_div_two hpos (hab.trans_lt hlt)) htan
    exact mul_le_mul_of_nonneg_left hlog (by norm_num)
  longitude a b h := by
    show a / 6378137 * (180 / Real.pi) ≤ b / 6378137 * (180 / Real.pi)
    have := Real.pi_pos
    gcongr
  latitude a b h := by
    show (2 * Real.arctan (Real.exp (a / 6378137)) - 2 * (Real.pi / 4)) * (180 / Real.pi) ≤
      (2 * Real.arctan (Real.exp (b / 6378137)) - 2 * (Real.pi / 4)) * (180 / Real.pi)
    have := Real.pi_pos
    have hexp : Real.exp (a / 6378137) ≤ Real.exp (b / 6378137) := Real.exp_le_exp.mpr (by gcongr)
    have harctan := Real.arctan_mono hexp
    gcongr

end Mercator

end ExtentLedger
