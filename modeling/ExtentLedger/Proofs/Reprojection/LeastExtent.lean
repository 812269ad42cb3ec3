import ExtentLedger.Proofs.Reprojection.Images

/-!
# The least extent over all images

Merging extents by any transforms, which may refuse points or keep a state, comes to the least extent that contains the
image of each of them. It fails exactly where one of them has no image, and then as the first of these does.
-/

namespace ExtentLedger

variable {σ K : Type} [Coordinate K]

/-- The least extent that contains some others; each of its bounds is the bound of one of them. -/
structure Extent.IsLeastOver (m : Extent K) (r : ReferenceSystem) (images : List (Extent K)) : Prop where
  vertical : m.vertical = none
  reference : m.reference = r
  contains : ∀ image ∈ images, m.contains image = true
  left : ∃ image ∈ images, (m.x.lo == image.x.lo) = true
  right : ∃ image ∈ images, (m.x.hi == image.x.hi) = true
  bottom : ∃ image ∈ images, (m.y.lo == image.y.lo) = true
  top : ∃ image ∈ images, (m.y.hi == image.y.hi) = true
  least : ∀ f : Extent K, (∀ image ∈ images, f.contains image = true) → f.contains m = true

variable [LawfulCoordinate K]

theorem Extent.isLeastOver_of_isHull {m : Extent K} {r : ReferenceSystem} {images : List (Extent K)} (hne : images ≠ [])
    (hi : ∀ image ∈ images, image.IsFlat r) (hm : m.IsFlat r) (hh : m.toBox.IsHull (images.map Extent.toBox)) :
    m.IsLeastOver r images := by
  have hv : ∀ p ∈ images.map Extent.toBox, p.IsValid := by
    intro p hp
    obtain ⟨image, hi', rfl⟩ := List.mem_map.mp hp
    exact (hi image hi').box
  have hne' : images.map Extent.toBox ≠ [] := fun h => hne (List.map_eq_nil_iff.mp h)
  obtain ⟨hl, hr, hb, ht⟩ := hh.attained hne' hv
  simp only [List.mem_map, exists_exists_and_eq_and] at hl hr hb ht
  refine ⟨hm.vertical, hm.reference, fun image h => ?_, hl, hr, hb, ht, fun f hf => ?_⟩
  · have href : m.reference = image.reference := hm.reference.trans (hi image h).reference.symm
    exact contains_iff.mpr ⟨href, hh.covers (List.mem_map_of_mem h)⟩
  · obtain ⟨image, h⟩ := List.exists_mem_of_ne_nil images hne
    have href : f.reference = m.reference := by
      rw [(contains_iff.mp (hf image h)).1, (hi image h).reference, hm.reference]
    refine contains_iff.mpr ⟨href, (hh.covers_iff _).mpr fun p hp => ?_⟩
    obtain ⟨image', h', rfl⟩ := List.mem_map.mp hp
    exact (contains_iff.mp (hf image' h')).2

namespace Merger

/-- Merging fails or breaks off exactly as the first extent without an image does; otherwise it comes to the least flat
extent over the images of all. -/
theorem reprojecting_isLeast (t : TransformTable σ K) (budget : Nat) (target : ReferenceSystem) {es : List (Extent K)}
    (hes : ∀ e ∈ es, e.IsValid) (w : σ) :
    let merge := reprojecting t budget target es w
    (merge.1 = .value none ↔ es = []) ∧
      (∀ f v, merge = (.failure f, v) ↔ t.StopsAt target budget es w (.failure f) v) ∧
      (∀ c v, merge = (.crash c, v) ↔ t.StopsAt target budget es w (.crash c) v) ∧
      (∀ images v, t.Reprojects target budget es w images v → ∃ r, merge = (.value r, v)) ∧
      ∀ m v, merge = (.value (some m), v) →
        ∃ images, t.Reprojects target budget es w images v ∧ m.IsLeastOver target.flat images := by
  intro merge
  have hes' : ∀ e ∈ es, e.toBox.IsValid := fun e he => (hes e he).box
  have hcases := reprojecting_cases t budget target hes' w
  refine ⟨⟨fun h => ?_, fun h => ?_⟩, fun f v => ⟨fun h => ?_, fun h => (reprojecting_of_stopsAt h hes').1 f rfl⟩,
    fun c v => ⟨fun h => ?_, fun h => (reprojecting_of_stopsAt h hes').2 c rfl⟩, fun images v h => ?_, fun m v h => ?_⟩
  · obtain ⟨images, hi, hm⟩ := reprojecting_eq_value hes' (Prod.ext h rfl : merge = (.value none, merge.2))
    rw [List.map_eq_nil_iff.mp hm] at hi
    cases hi
    rfl
  · show (reprojecting t budget target es w).1 = _
    rw [h]
    rfl
  · rcases hcases with ⟨_, _, _, -, hv, -⟩ | ⟨_, _, hs, hf⟩ | ⟨_, _, -, hc⟩
    · cases hv.symm.trans h
    · cases hf.symm.trans h
      exact hs
    · cases hc.symm.trans h
  · rcases hcases with ⟨_, _, _, -, hv, -⟩ | ⟨_, _, -, hf⟩ | ⟨_, _, hs, hc⟩
    · cases hv.symm.trans h
    · cases hf.symm.trans h
    · cases hc.symm.trans h
      exact hs
  · obtain ⟨r, hv, -⟩ := reprojecting_of_reprojects h hes'
    exact ⟨r, hv⟩
  · obtain ⟨images, hi, hf, hh⟩ := reprojecting_eq_value hes' h
    have hne : images ≠ [] := by
      rintro rfl
      cases hi
      cases (show reprojecting t budget target [] w = (.value none, w) from rfl).symm.trans h
    exact ⟨images, hi, Extent.isLeastOver_of_isHull hne (hi.isFlat hes') hf hh⟩

theorem reprojecting_isLeast_refused :
    let closed : Transform Nat Rat := ⟨"closed", fun _ n => (.failure (.transform "closed"), n + 1)⟩
    let table : TransformTable Nat Rat := .register .empty "a" "b" closed
    let target : ReferenceSystem := .compound "d" "b" "h"
    let e : Extent Rat := ⟨⟨⟨0, 1⟩, ⟨0, 1⟩⟩, some ⟨0, 1⟩, .compound "c" "b" "v"⟩
    let f : Extent Rat := ⟨⟨⟨0, 1⟩, ⟨0, 1⟩⟩, none, .horizontal "a"⟩
    (∀ x ∈ [e, f, e], x.IsValid) ∧
      reprojecting table 8 target [e, f, e] 0 = (.failure (.transform "closed"), 1) := by
  intro closed table target e f
  have hs : (⟨0, 1⟩ : Span Rat).IsValid := ⟨rfl, by decide⟩
  have he : e.IsValid := ⟨hs, hs, fun z hz => by cases hz; exact hs, rfl⟩
  have hes : ∀ x ∈ [e, f, e], x.IsValid := by
    rw [List.forall_mem_cons, List.forall_mem_cons, List.forall_mem_singleton]
    exact ⟨he, ⟨hs, hs, nofun, rfl⟩, he⟩
  have hi : table.reproject e target 8 0 = (.value e.flat, 0) := rfl
  have hf : table.reproject f target 8 0 = (.failure (.transform "closed"), 1) := by
    have hfind : table.find "a" "b" = .ok closed := TransformTable.find_register _ _ _ _
    rw [TransformTable.reproject_of_find (by decide) hfind]
    rfl
  have hs : table.StopsAt target 8 [e, f, e] 0 (.failure (.transform "closed")) 1 :=
    ⟨[e], f, [e], [e.flat], 0, rfl, .cons hi (.nil 0), hf⟩
  obtain ⟨-, hfail, -⟩ := reprojecting_isLeast table 8 target hes 0
  exact ⟨hes, (hfail (.transform "closed") 1).mpr hs⟩

end Merger

end ExtentLedger
