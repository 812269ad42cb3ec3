import ExtentLedger.Proofs.Consumer.Growth

/-!
# Obtainable extents

However extents are made, grown, reprojected and merged, from whatever numbers and by whatever transforms, they are
valid; and every valid extent can be made. An extent with heights and one without are never in one system, so a union
never has to make do with the heights of one of the two.
-/

namespace ExtentLedger

variable {K : Type} [Coordinate K]

namespace Extent

/-- What some operation makes of any numbers, shapes and transforms, and of extents that were obtained before. -/
inductive Obtainable : Extent K → Prop
  | planar {b : Box K} {r : ReferenceSystem} {e : Extent K} : Extent.planar b r = .ok e → Obtainable e
  | rectangle {p q : Point K} {r : ReferenceSystem} {e : Extent K} :
      Extent.planar (.between p q) r = .ok e → Obtainable e
  | solid {b : Box K} {z : Span K} {r : ReferenceSystem} {e : Extent K} : Extent.solid b z r = .ok e → Obtainable e
  | flat {e : Extent K} : Obtainable e → Obtainable e.flat
  | union {e f g : Extent K} : Obtainable e → Obtainable f → e.union f = .ok g → Obtainable g
  | reproject {σ : Type} {t : TransformTable σ K} {target : ReferenceSystem} {budget : Nat} {w : σ} {e image : Extent K} :
      Obtainable e → (t.reproject e target budget w).1 = .value image → Obtainable image
  | merge {σ : Type} {t : TransformTable σ K} {target : ReferenceSystem} {budget : Nat} {w : σ} {es : List (Extent K)}
      {m : Extent K} : (∀ e ∈ es, Obtainable e) →
      (Merger.reprojecting t budget target es w).1 = .value (some m) → Obtainable m
  | features {f : Features K} {e : Extent K} : f.extent? = .ok (some e) → Obtainable e
  | growth {stored region e : Extent K} :
      Obtainable stored → Obtainable region → StoredBounds.grow stored region = .ok e → Obtainable e

namespace IsValid

variable {e f g : Extent K}

theorem flat (h : e.IsValid) : e.flat.IsValid :=
  ⟨h.x, h.y, nofun, (ReferenceSystem.isCompound_flat _).symm⟩

theorem vertical_eq_none (h : e.IsValid) (hr : e.reference.isCompound = false) : e.vertical = none := by
  have hz := h.solid_iff
  rw [hr] at hz
  simpa using hz

theorem heights (he : e.IsValid) (hf : f.IsValid) (hr : e.reference = f.reference) :
    (e.vertical = none ∧ f.vertical = none) ∨ ∃ s t, e.vertical = some s ∧ f.vertical = some t := by
  have hz : e.vertical.isSome = f.vertical.isSome := by rw [he.solid_iff, hf.solid_iff, hr]
  cases hs : e.vertical with
  | none => exact .inl ⟨rfl, by simpa [hs] using hz⟩
  | some s =>
    obtain ⟨t, ht⟩ := Option.isSome_iff_exists.mp (by simpa [hs] using hz.symm)
    exact .inr ⟨s, t, rfl, ht⟩

theorem of_isFlat {r : ReferenceSystem} (h : e.IsFlat r.flat) : e.IsValid := by
  refine ⟨h.box.x, h.box.y, fun z hz => ?_, ?_⟩
  · rw [h.vertical] at hz
    cases hz
  · rw [h.vertical, h.reference, ReferenceSystem.isCompound_flat]
    rfl

variable [LawfulCoordinate K]

theorem planar {b : Box K} {r : ReferenceSystem} (h : Extent.planar b r = .ok e) : e.IsValid := by
  obtain ⟨hr, hb, rfl⟩ := planar_eq_ok.mp h
  exact ⟨hb.inOrder.x, hb.inOrder.y, nofun, hr.symm⟩

theorem solid {b : Box K} {z : Span K} {r : ReferenceSystem} (h : Extent.solid b z r = .ok e) : e.IsValid := by
  obtain ⟨hr, hb, hz, rfl⟩ := solid_eq_ok.mp h
  refine ⟨hb.inOrder.x, hb.inOrder.y, fun z' h => ?_, hr.symm⟩
  cases h
  exact hz

theorem union (he : e.IsValid) (hf : f.IsValid) (h : e.union f = .ok g) : g.IsValid := by
  unfold Extent.union at h
  by_cases hr : e.reference = f.reference
  · rw [if_pos hr] at h
    have hb := (he.box.join hf.box).inOrder
    have hc := he.solid_iff
    rcases he.heights hf hr with ⟨hs, ht⟩ | ⟨s, t, hs, ht⟩
    · rw [hs, ht] at h
      rw [hs] at hc
      cases h
      exact ⟨hb.x, hb.y, nofun, hc⟩
    · rw [hs, ht] at h
      rw [hs] at hc
      cases h
      refine ⟨hb.x, hb.y, fun z hz => ?_, hc⟩
      cases hz
      exact (he.vertical s hs).join (hf.vertical t ht)
  · rw [if_neg hr] at h
    cases h

theorem grow {r : ReferenceSystem} : ∀ {bs : List (Box K)} {sofar : Option (Extent K)},
    (∀ e, sofar = some e → e.IsValid) → Features.grow r sofar bs = .ok (some e) → e.IsValid
  | [], sofar, hs, h => hs e (Except.ok.inj h)
  | b :: bs, sofar, hs, h => by
    obtain ⟨f, hp, h⟩ := bind_eq_ok.mp h
    obtain ⟨g, hu, h⟩ := bind_eq_ok.mp h
    refine grow (fun x hx => ?_) h
    cases hx
    cases sofar with
    | none =>
      cases hu
      exact planar hp
    | some e' => exact (hs e' rfl).union (planar hp) hu

/-- Stored bounds can only be grown by a flat region of their horizontal system. -/
theorem of_growth (he : e.IsValid) (hf : f.IsValid) (h : StoredBounds.grow e f = .ok g) : g.IsValid := by
  by_cases hr : e.flat.reference = f.reference
  · have hv : f.vertical = none := hf.vertical_eq_none (by rw [← hr]; exact ReferenceSystem.isCompound_flat _)
    obtain ⟨larger, hl, hg⟩ := StoredBounds.grow_eq_ok he ⟨hf.box, hv, hr.symm⟩
    cases hl.symm.trans h
    exact hg.valid
  · have hu : e.flat.union f = .error (.referenceMismatch e.flat.reference.text f.reference.text) := if_neg hr
    unfold StoredBounds.grow at h
    rw [hu] at h
    cases h

end IsValid

variable [LawfulCoordinate K]

theorem exists_inOrder {b : Box K} (h : b.IsValid) : ∃ c : Box K, c.IsValid ∧ c.inOrder = b := by
  have hs : ∀ {s : Span K}, s.IsValid → ∃ t : Span K, t.IsValid ∧ Span.sorted t.lo t.hi = s := by
    intro s hs
    by_cases hl : s.lo < s.hi
    · exact ⟨s, hs, if_pos hl⟩
    · have hle : s.hi ≤ s.lo := LawfulCoordinate.le_of_not_lt hs.finite.1 hs.finite.2 hl
      refine ⟨⟨s.hi, s.lo⟩, ⟨by simp [Span.isFinite, hs.finite], hle⟩, if_neg fun hlt => ?_⟩
      exact (LawfulCoordinate.lt_iff.mp hlt).2 hs.2
  obtain ⟨x, hx, hx'⟩ := hs h.x
  obtain ⟨y, hy, hy'⟩ := hs h.y
  exact ⟨⟨x, y⟩, ⟨hx, hy⟩, by rw [Box.inOrder, hx', hy']⟩

theorem IsValid.obtainable {e : Extent K} (h : e.IsValid) : e.Obtainable := by
  obtain ⟨c, hc, hb⟩ := exists_inOrder h.box
  obtain ⟨b, z, r⟩ := e
  cases z with
  | none => exact .planar (planar_eq_ok.mpr ⟨h.solid_iff.symm, hc, by rw [hb]⟩)
  | some z => exact .solid (solid_eq_ok.mpr ⟨h.solid_iff.symm, hc, h.vertical z rfl, by rw [hb]⟩)

theorem Obtainable.isValid {e : Extent K} (h : e.Obtainable) : e.IsValid := by
  induction h with
  | planar h => exact .planar h
  | rectangle h => exact .planar h
  | solid h => exact .solid h
  | flat _ ih => exact ih.flat
  | union _ _ h ihe ihf => exact ihe.union ihf h
  | reproject _ h ih => exact .of_isFlat (TransformTable.isFlat_reproject ih.box h)
  | @merge σ t target budget w es m _ h ih =>
    -- The hull of the images is flat, whatever the transforms made of the points.
    have hes : ∀ e ∈ es, e.toBox.IsValid := fun e he => (ih e he).box
    obtain ⟨-, -, hf, -⟩ := Merger.reprojecting_eq_value hes (Prod.ext h rfl)
    exact .of_isFlat hf
  | features h =>
    refine .grow ?_ h
    exact fun _ hn => nomatch hn
  | growth _ _ h ihe ihf => exact ihe.of_growth ihf h

/-- The extents that can be obtained are the valid ones, and two of one system have both heights or neither has. -/
theorem obtainable_iff_isValid :
    (∀ e : Extent K, e.Obtainable ↔ e.IsValid) ∧ ∀ e f : Extent K, e.Obtainable → f.Obtainable →
      e.reference = f.reference → (e.vertical = none ∧ f.vertical = none) ∨
        ∃ s t, e.vertical = some s ∧ f.vertical = some t :=
  ⟨fun _ => ⟨Obtainable.isValid, IsValid.obtainable⟩, fun _ _ he hf hr => he.isValid.heights hf.isValid hr⟩

set_option maxRecDepth 2000 in
/-- The bounds of a path through a point whose number compares with nothing, and a point of the same system. -/
theorem obtainable_iff_isValid_incomparable :
    let path : Features Float := ⟨.horizontal "a", [.path [⟨0, 0⟩, ⟨0.0 / 0.0, 1⟩]]⟩
    let e : Extent Float := ⟨⟨⟨0, 0⟩, ⟨0, 1⟩⟩, none, .horizontal "a"⟩
    let f : Extent Float := ⟨⟨⟨2, 2⟩, ⟨3, 3⟩⟩, none, .horizontal "a"⟩
    path.extent? = .ok (some e) ∧ Extent.planar (.between ⟨2, 3⟩ ⟨2, 3⟩) (.horizontal "a") = .ok f ∧
      e.IsValid ∧ f.IsValid ∧
      ((e.vertical = none ∧ f.vertical = none) ∨ ∃ s t, e.vertical = some s ∧ f.vertical = some t) := by
  intro path e f
  have he : path.extent? = .ok (some e) := by rfl
  have hf : Extent.planar (.between ⟨2, 3⟩ ⟨2, 3⟩) (.horizontal "a") = .ok f := by rfl
  obtain ⟨hiff, heights⟩ := obtainable_iff_isValid (K := Float)
  have hpath : e.Obtainable := .features he
  have hpoint : f.Obtainable := .rectangle hf
  exact ⟨he, hf, (hiff e).mp hpath, (hiff f).mp hpoint, heights e f hpath hpoint rfl⟩

end Extent

end ExtentLedger
