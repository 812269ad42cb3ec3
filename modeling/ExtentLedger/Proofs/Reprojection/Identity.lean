import ExtentLedger.Proofs.Coordinate.Interpolation
import ExtentLedger.Proofs.Geometry.Monotone
import ExtentLedger.Proofs.Reprojection.Pure

/-!
# Reprojection by the identity

In doubles, the samples of an extent lie in it and its corners are among them, so the identity gives back its bounds. That
takes a finite width and a finite height: of a longer side already the start is lost, and the extent is refused.
-/

namespace ExtentLedger

open Double

/-! ## Samples -/

namespace Span

variable {s : Span Float} {a c : Float}

theorem IsValid.isFinite_between (hs : s.IsValid) (hw : s.width.isFinite = true) (ha : s.IsEnd a) (hc : s.IsEnd c) :
    (c - a).isFinite = true := by
  obtain ⟨hlo, hhi⟩ := hs.finite
  have hself : ∀ {b : Float}, b.isFinite = true → (b - b).isFinite = true := fun hb =>
    (yields_sub hb hb).isFinite hb (by rw [sub_self, abs_zero]; exact abs_nonneg _)
  rcases ha with rfl | rfl <;> rcases hc with rfl | rfl
  · exact hself hlo
  · exact hw
  · have h := yields_sub hlo hhi
    rw [← neg_sub] at h
    exact (yields_sub hhi hlo).isFinite_neg h hw
  · exact hself hhi

theorem IsValid.holds_step (hs : s.IsValid) (hw : s.width.isFinite = true) (ha : s.IsEnd a) (hc : s.IsEnd c)
    {step steps : ℕ} (h : step < steps) (hsteps : steps ≤ 2500) :
    let z := a + (c - a) * (Coordinate.ofNat step / Coordinate.ofNat steps)
    Coordinate.isFinite z = true ∧ s.Holds z ∧ (step = 0 → (z == a) = true) := by
  intro z
  obtain ⟨hlo, hhi⟩ := hs.finite
  have hfin : ∀ {b : Float}, s.IsEnd b → b.isFinite = true := fun hb => by rcases hb with rfl | rfl <;> assumption
  have haf := hfin ha
  have hcf := hfin hc
  obtain ⟨hz, hmin, hmax, h0⟩ := step_finite haf hcf (hs.isFinite_between hw ha hc) h hsteps
  have hle : ∀ {b : Float}, s.IsEnd b → value s.lo ≤ value b ∧ value b ≤ value s.hi := by
    intro b hb
    obtain ⟨hl, hh⟩ := hs.holds_of_isEnd hb
    exact ⟨(value_le hlo (hfin hb)).mpr hl, (value_le (hfin hb) hhi).mpr hh⟩
  refine ⟨hz, ⟨(value_le hlo hz).mp ?_, (value_le hz hhi).mp ?_⟩, fun hstep => LawfulCoordinate.beq_iff.mpr ?_⟩
  · exact (le_min (hle ha).1 (hle hc).1).trans hmin
  · exact hmax.trans (max_le (hle ha).2 (hle hc).2)
  · exact ⟨(value_le hz haf).mp (h0 hstep).le, (value_le haf hz).mp (h0 hstep).ge⟩

end Span

namespace Box

variable {b : Box Float}

theorem IsValid.holds_towards (hb : b.IsValid) (hx : b.x.width.isFinite = true) (hy : b.y.width.isFinite = true)
    {side : Point Float × Point Float} (hside : side ∈ b.sides) {budget step : ℕ} (h : step < Boundary.perSide budget) :
    let r := side.1.towards side.2 step (Boundary.perSide budget)
    r.isFinite = true ∧ b.Holds r ∧ (step = 0 → (r.x == side.1.x) = true ∧ (r.y == side.1.y) = true) := by
  intro r
  obtain ⟨hp, hq⟩ := mem_cornerList_of_mem_sides hside
  rw [mem_cornerList] at hp hq
  obtain ⟨hxf, hxh, hx0⟩ := hb.x.holds_step hx hp.1 hq.1 h (Boundary.perSide_le budget)
  obtain ⟨hyf, hyh, hy0⟩ := hb.y.holds_step hy hp.2 hq.2 h (Boundary.perSide_le budget)
  exact ⟨Bool.and_eq_true_iff.mpr ⟨hxf, hyf⟩, ⟨hxh, hyh⟩, fun h => ⟨hx0 h, hy0 h⟩⟩

theorem IsValid.isHull_samples (hb : b.IsValid) (hx : b.x.width.isFinite = true) (hy : b.y.width.isFinite = true)
    (budget : ℕ) : (∀ p ∈ b.samples budget, p.isFinite = true) ∧ b.IsHull ((b.samples budget).map point) := by
  have hsample : ∀ p ∈ b.samples budget, p.isFinite = true ∧ b.Holds p := by
    intro p hp
    obtain ⟨side, hside, step, hstep, rfl⟩ := mem_samples_iff.mp hp
    obtain ⟨hfinite, hholds, -⟩ := hb.holds_towards hx hy hside hstep
    exact ⟨hfinite, hholds⟩
  refine ⟨fun p hp => (hsample p hp).1, hb.isHull_of_corners (fun p hp => (hsample p hp).2) fun p hp => ?_⟩
  obtain ⟨q, hq⟩ := exists_mem_sides hp
  have hpos := Boundary.perSide_pos budget
  exact ⟨_, mem_samples_iff.mpr ⟨(p, q), hq, 0, hpos, rfl⟩, (hb.holds_towards hx hy hq hpos).2.2 rfl⟩

/-- A box that is too wide or too high has a sample that is no point. -/
theorem exists_sample_not_isFinite (h : ¬ (b.x.width.isFinite = true ∧ b.y.width.isFinite = true)) (budget : ℕ) :
    ∃ p ∈ b.samples budget, p.isFinite = false := by
  have hpos := Boundary.perSide_pos budget
  have hle := Boundary.perSide_le budget
  by_cases hx : b.x.width.isFinite = true
  · have hy : b.y.width.isFinite = false := Bool.not_eq_true _ ▸ fun hy => h ⟨hx, hy⟩
    refine ⟨_, mem_samples_iff.mpr ⟨(⟨b.x.hi, b.y.lo⟩, ⟨b.x.hi, b.y.hi⟩), by simp [sides, corners], 0, hpos, rfl⟩, ?_⟩
    exact Bool.and_eq_false_iff.mpr (.inr (not_isFinite_start b.y.lo hy hpos hle))
  · have hx : b.x.width.isFinite = false := Bool.not_eq_true _ ▸ hx
    refine ⟨_, mem_samples_iff.mpr ⟨(⟨b.x.lo, b.y.lo⟩, ⟨b.x.hi, b.y.lo⟩), by simp [sides, corners], 0, hpos, rfl⟩, ?_⟩
    exact Bool.and_eq_false_iff.mpr (.inl (not_isFinite_start b.x.lo hx hpos hle))

end Box

/-! ## The identity -/

namespace TransformTable

variable {σ : Type} {t : TransformTable σ Float} {e : Extent Float} {target : ReferenceSystem}

theorem image?_identity (w : σ) (p : Point Float) :
    Transform.image? (.identity : Transform σ Float) w p = if p.isFinite then some p else none := rfl

theorem reproject_identity_of_isFinite (he : e.toBox.IsValid) (hne : e.reference.flat ≠ target.flat)
    (hf : t.find e.reference.flat.code target.flat.code = .ok .identity) (hx : e.x.width.isFinite = true)
    (hy : e.y.width.isFinite = true) (budget : ℕ) (w : σ) :
    ∃ image, t.reproject e target budget w = (.value image, w) ∧
      (image == (⟨e.toBox, none, target.flat⟩ : Extent Float)) = true := by
  obtain ⟨hfinite, hhull⟩ := he.isHull_samples hx hy budget
  have himage : ∀ p ∈ e.toBox.samples budget, Transform.image? (.identity : Transform σ Float) w p = some p :=
    fun p hp => (image?_identity w p).trans (if_pos (hfinite p hp))
  have hpure : ∀ p, ((.identity : Transform σ Float).apply p).IsPure := Transform.isPure_ofFunction _ _
  rcases reproject_of_isPure hne hf hpure budget w with ⟨image, hr, hflat, -, hh⟩ | ⟨p, hp, hn, -⟩
  · rw [List.filterMap_congr himage, List.filterMap_some] at hh
    exact ⟨image, hr, Extent.beq_of_isFlat hflat ⟨he, rfl, rfl⟩ (hh.beq hhull)⟩
  · rw [himage p hp] at hn
    cases hn

theorem reproject_identity_of_not_isFinite (hne : e.reference.flat ≠ target.flat)
    (hf : t.find e.reference.flat.code target.flat.code = .ok .identity)
    (h : ¬ (e.x.width.isFinite = true ∧ e.y.width.isFinite = true)) (budget : ℕ) (w : σ) :
    ∃ p ∈ e.toBox.samples budget, p.isFinite = false ∧ t.reproject e target budget w =
      (.failure (.transform ("identity produced a non-finite coordinate for " ++ p.text)), w) := by
  have hpure : ∀ p, ((.identity : Transform σ Float).apply p).IsPure := Transform.isPure_ofFunction _ _
  rcases reproject_of_isPure hne hf hpure budget w with ⟨image, -, -, hsome, -⟩ | ⟨p, hp, hn, hr⟩
  · obtain ⟨p, hp, hfalse⟩ := Box.exists_sample_not_isFinite h budget
    refine absurd ?_ (hsome p hp)
    rw [image?_identity, hfalse]
    rfl
  · refine ⟨p, hp, ?_, hr⟩
    by_contra hfinite
    rw [image?_identity, if_pos (Bool.not_eq_false _ ▸ hfinite)] at hn
    cases hn

theorem find_standard_identity (m : Mercator Float) :
    (standard m : TransformTable σ Float).find ReferenceSystem.webMercator ReferenceSystem.webMercatorAlias = .ok .identity ∧
      (standard m : TransformTable σ Float).find ReferenceSystem.webMercatorAlias ReferenceSystem.webMercator =
        .ok .identity :=
  ⟨(find_register_of_ne _ _ (by decide)).trans (find_register _ _ _ _), find_register _ _ _ _⟩

/-- The identity gives back the bounds of an extent whose width and height are finite, whatever the budget, and refuses
any other. -/
theorem reproject_identity :
    (∀ (t : TransformTable σ Float) (e : Extent Float) (target : ReferenceSystem), e.IsValid →
      e.reference.flat ≠ target.flat → t.find e.reference.flat.code target.flat.code = .ok .identity →
      ∀ (budget : ℕ) (w : σ),
        (e.x.width.isFinite = true ∧ e.y.width.isFinite = true → ∃ image,
          t.reproject e target budget w = (.value image, w) ∧
            (image == (⟨e.toBox, none, target.flat⟩ : Extent Float)) = true) ∧
        (¬ (e.x.width.isFinite = true ∧ e.y.width.isFinite = true) → ∃ p ∈ e.toBox.samples budget, p.isFinite = false ∧
          t.reproject e target budget w =
            (.failure (.transform ("identity produced a non-finite coordinate for " ++ p.text)), w))) ∧
      ∀ m : Mercator Float, let table : TransformTable σ Float := standard m
        table.find ReferenceSystem.webMercator ReferenceSystem.webMercatorAlias = .ok .identity ∧
          table.find ReferenceSystem.webMercatorAlias ReferenceSystem.webMercator = .ok .identity := by
  refine ⟨fun t e target he hne hf budget w => ⟨fun h => ?_, fun h => ?_⟩, find_standard_identity⟩
  · exact reproject_identity_of_isFinite he.box hne hf h.1 h.2 budget w
  · exact reproject_identity_of_not_isFinite hne hf h budget w

theorem reproject_identity_wide :
    let table : TransformTable Unit Float := standard Mercator.sphere
    let e : Extent Float := ⟨⟨⟨-8e307, 8e307⟩, ⟨0, 1⟩⟩, none, .horizontal ReferenceSystem.webMercator⟩
    let wider : Extent Float := ⟨⟨⟨-1e308, 1e308⟩, ⟨0, 1⟩⟩, none, .horizontal ReferenceSystem.webMercator⟩
    let target : ReferenceSystem := .horizontal ReferenceSystem.webMercatorAlias
    e.IsValid ∧ wider.IsValid ∧ e.reference.flat ≠ target.flat ∧
      (∃ image, table.reproject e target 4 () = (.value image, ()) ∧
        (image == (⟨e.toBox, none, target.flat⟩ : Extent Float)) = true) ∧
      ∃ p ∈ wider.toBox.samples 4, p.isFinite = false ∧ table.reproject wider target 4 () =
        (.failure (.transform ("identity produced a non-finite coordinate for " ++ p.text)), ()) := by
  intro table e wider target
  obtain ⟨hmain, htable⟩ := reproject_identity (σ := Unit)
  have he : e.IsValid := ⟨by decide +kernel, by decide +kernel, nofun, rfl⟩
  have hwider : wider.IsValid := ⟨by decide +kernel, by decide +kernel, nofun, rfl⟩
  have hne : e.reference.flat ≠ target.flat := by decide
  have hf := (htable Mercator.sphere).1
  refine ⟨he, hwider, hne, ?_, ?_⟩
  · exact (hmain table e target he hne hf 4 ()).1 (by decide +kernel)
  · exact (hmain table wider target hwider hne hf 4 ()).2 (by decide +kernel)

/-- The identity does not give back every extent: this one is made without objection, and it is refused. -/
theorem reproject_identity_refused :
    let table : TransformTable Unit Float := standard Mercator.sphere
    let e : Extent Float := ⟨⟨⟨-1e308, 1e308⟩, ⟨0, 1⟩⟩, none, .horizontal ReferenceSystem.webMercator⟩
    let target : ReferenceSystem := .horizontal ReferenceSystem.webMercatorAlias
    Extent.planar e.toBox e.reference = .ok e ∧ e.reference.code ≠ target.code ∧
      table.find e.reference.code target.code = .ok .identity ∧
      ¬ ∃ image, (table.reproject e target 4 ()).1 = .value image := by
  intro table e target
  have hf : table.find e.reference.flat.code target.flat.code = .ok .identity :=
    (find_standard_identity Mercator.sphere).1
  have hx : Span.sorted (-1e308 : Float) 1e308 = ⟨-1e308, 1e308⟩ := if_pos (by decide +kernel)
  have hy : Span.sorted (0 : Float) 1 = ⟨0, 1⟩ := if_pos (by decide +kernel)
  refine ⟨?_, by decide, hf, fun h => ?_⟩
  · refine Extent.planar_eq_ok.mpr ⟨rfl, ⟨by decide +kernel, by decide +kernel⟩, ?_⟩
    show e = ⟨⟨.sorted (-1e308) 1e308, .sorted 0 1⟩, none, _⟩
    rw [hx, hy]
  · obtain ⟨image, h⟩ := h
    have hwide : ¬ (e.x.width.isFinite = true ∧ e.y.width.isFinite = true) := by decide +kernel
    have hne : e.reference.flat ≠ target.flat := by decide
    obtain ⟨p, -, -, hr⟩ := reproject_identity_of_not_isFinite hne hf hwide 4 ()
    rw [hr] at h
    cases h

end TransformTable

end ExtentLedger
