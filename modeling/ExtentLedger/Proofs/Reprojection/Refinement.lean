import ExtentLedger.Proofs.Coordinate.Doubles
import ExtentLedger.Proofs.Geometry.Monotone
import ExtentLedger.Proofs.Reprojection.Pure

/-!
# Finer samples

A side that is cut into a multiple of the steps has all the samples that it had, whenever a fraction of two counts is the
same number as the fraction in lowest terms: in exact arithmetic, and in doubles too, since they round the exact fraction.
So a finer boundary fails where a coarser one does, and its bounds reach at least as far.
-/

namespace ExtentLedger

/-- Fractions of steps do not depend on how many smaller steps a step is divided into. -/
class FairSteps (K : Type) [Coordinate K] : Prop where
  div_eq : ∀ {m step steps : ℕ}, 0 < m → step < steps → m * steps ≤ 2500 →
    (Coordinate.ofNat (m * step) / Coordinate.ofNat (m * steps) : K) = Coordinate.ofNat step / Coordinate.ofNat steps

instance {K : Type} [Coordinate K] [ExactCoordinate K] : FairSteps K where
  div_eq {m step steps} hm hstep _ := by
    apply ExactCoordinate.value_injective
    simp only [ExactCoordinate.value_div, ExactCoordinate.value_ofNat, Nat.cast_mul]
    exact mul_div_mul_left _ _ (Nat.cast_ne_zero.mpr hm.ne')

open Double in
instance : FairSteps Float where
  div_eq {m step steps} hm hstep hmax := by
    have hsteps : 0 < steps := (Nat.zero_le step).trans_lt hstep
    have hle : steps ≤ m * steps := Nat.le_mul_of_pos_left steps hm
    have hlt : m * step < m * steps := Nat.mul_lt_mul_of_pos_left hstep hm
    by_cases h0 : step = 0
    · obtain ⟨s, hs⟩ := exists_zero_div
      rw [h0, mul_zero]
      exact (hs _ (Nat.mul_pos hm hsteps) (by omega)).trans (hs _ hsteps (by omega)).symm
    · have hy := yields_fraction (k := m * step) (n := m * steps) (by omega) (by omega) (by positivity)
      have hx : ((m * step : ℕ) / (m * steps : ℕ) : ℚ) = step / steps := by
        push_cast
        exact mul_div_mul_left _ _ (Nat.cast_ne_zero.mpr hm.ne')
      rw [hx] at hy
      have hne : (step / steps : ℚ) ≠ 0 := div_ne_zero (Nat.cast_ne_zero.mpr h0) (Nat.cast_ne_zero.mpr hsteps.ne')
      exact hy.unique (yields_fraction (by omega) (by omega) hsteps) hne

variable {σ K : Type} [Coordinate K] {b c : ℕ}

theorem Point.towards_mul [FairSteps K] (p q : Point K) {m step steps : ℕ} (hm : 0 < m) (hstep : step < steps)
    (hmax : m * steps ≤ 2500) : p.towards q (m * step) (m * steps) = p.towards q step steps := by
  simp only [Point.towards, FairSteps.div_eq hm hstep hmax]

theorem Box.samples_subset [FairSteps K] {box : Box K} (h : Boundary.perSide b ∣ Boundary.perSide c) :
    box.samples b ⊆ box.samples c := by
  intro p hp
  obtain ⟨side, hside, step, hstep, rfl⟩ := mem_samples_iff.mp hp
  obtain ⟨m, hm⟩ := h
  rw [mul_comm] at hm
  have hm0 : 0 < m := Nat.pos_of_mul_pos_right (hm ▸ Boundary.perSide_pos c)
  refine mem_samples_iff.mpr ⟨side, hside, m * step, ?_, ?_⟩
  · rw [hm]
    exact Nat.mul_lt_mul_of_pos_left hstep hm0
  · rw [hm]
    exact side.1.towards_mul side.2 hm0 hstep (hm ▸ Boundary.perSide_le c)

namespace TransformTable

theorem reproject_of_perSide_eq (t : TransformTable σ K) (e : Extent K) (target : ReferenceSystem)
    (h : Boundary.perSide b = Boundary.perSide c) : t.reproject e target b = t.reproject e target c := by
  simp only [reproject, Box.samples, h]

/-- What has an image by more samples has one by fewer of them, and no larger one. -/
theorem reproject_of_samples_subset [LawfulCoordinate K] {t : TransformTable σ K} {e : Extent K} (he : e.toBox.IsValid)
    {target : ReferenceSystem} (ht : ∀ transform, t.find e.reference.flat.code target.flat.code = .ok transform →
      ∀ p, (transform.apply p).IsPure) (h : e.toBox.samples b ⊆ e.toBox.samples c) {w : σ} {image' : Extent K}
    (hc : (t.reproject e target c w).1 = .value image') :
    ∃ image, (t.reproject e target b w).1 = .value image ∧ image'.contains image = true := by
  by_cases hr : e.reference.flat = target.flat
  · rw [t.reproject_of_eq hr] at hc ⊢
    cases hc
    exact ⟨_, rfl, Extent.contains_iff.mpr ⟨rfl, he.covers_self⟩⟩
  cases hf : t.find e.reference.flat.code target.flat.code with
  | error f =>
    rw [t.reproject_of_error hr hf] at hc
    cases hc
  | ok transform =>
    rcases reproject_of_isPure hr hf (ht transform hf) c w with ⟨large, hlarge, hflat, hsome, hhull⟩ | ⟨p, -, -, hstop⟩
    · rw [hlarge] at hc
      cases hc
      rcases reproject_of_isPure hr hf (ht transform hf) b w with ⟨small, hsmall, hflat', -, hhull'⟩ | ⟨p, hp, hn, -⟩
      · refine ⟨small, congrArg Prod.fst hsmall, Extent.contains_iff.mpr ⟨?_, ?_⟩⟩
        · rw [hflat.reference, hflat'.reference]
        · refine (hhull'.covers_iff _).mpr fun part hpart => hhull.covers ?_
          exact List.map_subset _ (List.filterMap_subset _ h) hpart
      · exact absurd hn (hsome p (h hp))
    · rw [hstop] at hc
      exact absurd hc (Mapping.breakOff_ne_value _ _ _)

end TransformTable

theorem Merger.reprojecting_of_perSide_eq (t : TransformTable σ K) (target : ReferenceSystem) (es : List (Extent K))
    (h : Boundary.perSide b = Boundary.perSide c) : reprojecting t b target es = reprojecting t c target es := by
  rw [reprojecting_eq, reprojecting_eq]
  exact grow_of_reproject_eq (fun e => t.reproject_of_perSide_eq e target h) es none

/-- Where the steps are a multiple of those of another budget, the samples are among its samples, and the image is
contained in the finer one. -/
theorem TransformTable.reproject_refines [LawfulCoordinate K] [FairSteps K] (t : TransformTable σ K) (e : Extent K)
    (target : ReferenceSystem) (b c : ℕ) :
    let steps (budget : ℕ) := max 1 (min budget 10000 / 4)
    (steps b ∣ steps c →
      (∀ p ∈ e.toBox.samples b, p ∈ e.toBox.samples c) ∧
      (e.IsValid →
        (∀ transform, t.find e.reference.flat.code target.flat.code = .ok transform → ∀ p, (transform.apply p).IsPure) →
        ∀ w image', (t.reproject e target c w).1 = .value image' →
          ∃ image, (t.reproject e target b w).1 = .value image ∧ image'.contains image = true)) ∧
      (steps b = steps c → t.reproject e target b = t.reproject e target c ∧
        ∀ es, Merger.reprojecting t b target es = Merger.reprojecting t c target es) ∧
      (10000 ≤ b → t.reproject e target b = t.reproject e target 10000 ∧
        ∀ es, Merger.reprojecting t b target es = Merger.reprojecting t 10000 target es) := by
  intro steps
  have hequal : ∀ {b c : ℕ}, steps b = steps c → t.reproject e target b = t.reproject e target c ∧
      ∀ es, Merger.reprojecting t b target es = Merger.reprojecting t c target es := fun h =>
    ⟨t.reproject_of_perSide_eq e target h, fun es => Merger.reprojecting_of_perSide_eq t target es h⟩
  refine ⟨fun h => ?_, hequal, fun h => hequal ?_⟩
  · have hsamples : e.toBox.samples b ⊆ e.toBox.samples c := Box.samples_subset h
    exact ⟨hsamples, fun he ht w image' hc => reproject_of_samples_subset he.box ht hsamples hc⟩
  · simp only [steps, min_eq_right h, min_self]

theorem TransformTable.reproject_refines_holed :
    let transform : Transform Unit Float := .ofFunction "holed" fun p =>
      if p.x == 0.1 then .error (.transform "holed refuses a point")
      else .ok ⟨p.x, (p.x - 0.3) / (p.x - 0.3) * p.y⟩
    let table : TransformTable Unit Float := .register .empty "a" "b" transform
    let e : Extent Float := ⟨⟨⟨0, 1⟩, ⟨0, 1⟩⟩, none, .horizontal "a"⟩
    let target : ReferenceSystem := .horizontal "b"
    max 1 (min 8 10000 / 4) ∣ max 1 (min 16 10000 / 4) ∧ e.IsValid ∧
      (∀ transform, table.find e.reference.flat.code target.flat.code = .ok transform → ∀ p, (transform.apply p).IsPure) ∧
      (∃ image image', (table.reproject e target 16 ()).1 = .value image' ∧
        (table.reproject e target 8 ()).1 = .value image ∧ image'.contains image = true) ∧
      table.reproject e target 9 = table.reproject e target 8 ∧
      table.reproject e target 20000 = table.reproject e target 10000 := by
  intro transform table e target
  have hsteps : max 1 (min 8 10000 / 4) ∣ max 1 (min 16 10000 / 4) := by decide
  have he : e.IsValid := ⟨by decide +kernel, by decide +kernel, nofun, rfl⟩
  have hf : table.find e.reference.flat.code target.flat.code = .ok transform := find_register _ _ _ _
  have hpure : ∀ transform, table.find e.reference.flat.code target.flat.code = .ok transform →
      ∀ p, (transform.apply p).IsPure := by
    intro transform' hf'
    cases hf.symm.trans hf'
    exact Transform.isPure_ofFunction _ _
  have hsome : (e.toBox.samples 16).all (fun p => (transform.image? () p).isSome) = true := by decide +kernel
  rw [List.all_eq_true] at hsome
  have hequal := ((table.reproject_refines e target 9 8).2.1 (by decide)).1
  have hgreatest := ((table.reproject_refines e target 20000 8).2.2 (by decide)).1
  rcases reproject_of_isPure (by decide) hf (hpure transform hf) 16 () with ⟨image', hc, -⟩ | ⟨p, hp, hn, -⟩
  · have hc := congrArg Prod.fst hc
    obtain ⟨image, hb, hcontains⟩ := ((table.reproject_refines e target 8 16).1 hsteps).2 he hpure () image' hc
    exact ⟨hsteps, he, hpure, ⟨image, image', hc, hb, hcontains⟩, hequal, hgreatest⟩
  · have := hsome p hp
    rw [hn] at this
    cases this

end ExtentLedger
