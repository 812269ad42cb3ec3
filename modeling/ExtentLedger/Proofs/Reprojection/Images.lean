import ExtentLedger.Proofs.Attempt.Pure
import ExtentLedger.Proofs.Extent.Making
import ExtentLedger.Reprojection.Merger

/-!
# Images of extents

Merging reprojects its extents one after another, and a transform may keep a state that one reprojection leaves to the
next. Whatever the transforms do, all images lie flat in one system, so that they can always be united: merging either
gets through the extents, or it stops where the first of them has no image.
-/

namespace ExtentLedger

variable {σ K : Type} [Coordinate K]

namespace TransformTable

variable {t : TransformTable σ K} {target : ReferenceSystem} {budget : Nat} {es es' images : List (Extent K)}
  {w v u : σ}

inductive Reprojects (t : TransformTable σ K) (target : ReferenceSystem) (budget : Nat) :
    List (Extent K) → σ → List (Extent K) → σ → Prop
  | nil (w : σ) : Reprojects t target budget [] w [] w
  | cons {e image : Extent K} {es images : List (Extent K)} {w v u : σ} :
      t.reproject e target budget w = (.value image, v) → Reprojects t target budget es v images u →
      Reprojects t target budget (e :: es) w (image :: images) u

def StopsAt (t : TransformTable σ K) (target : ReferenceSystem) (budget : Nat) (es : List (Extent K)) (w : σ)
    (r : Outcome Fault (Extent K)) (v : σ) : Prop :=
  ∃ before e after images u, es = before ++ e :: after ∧ t.Reprojects target budget before w images u ∧
    t.reproject e target budget u = (r, v)

omit [Coordinate K] in
theorem find_register (t : TransformTable σ K) (source target : String) (transform : Transform σ K) :
    (t.register source target transform).find source target = .ok transform := by
  simp [find, register]

theorem reproject_of_find {e : Extent K} {transform : Transform σ K} (hne : e.flat.reference ≠ target.flat)
    (hf : t.find e.flat.reference.code target.flat.code = .ok transform) (budget : Nat) :
    t.reproject e target budget = boundsOf transform (e.toBox.samples budget) target.flat := by
  simp only [reproject, if_neg hne, hf]
  rfl

theorem reproject_min (t : TransformTable σ K) (e : Extent K) (target : ReferenceSystem) (budget : Nat) :
    t.reproject e target (min budget Boundary.maxBudget) = t.reproject e target budget := by
  have hs : Boundary.perSide (min budget Boundary.maxBudget) = Boundary.perSide budget := by simp [Boundary.perSide]
  simp only [reproject, Box.samples, hs]

theorem reproject_of_isFlat {e : Extent K} (h : e.IsFlat target.flat) (t : TransformTable σ K) (budget : Nat) (w : σ) :
    t.reproject e target budget w = (.value e, w) := by
  have he : e.flat = e := by
    obtain ⟨b, z, r⟩ := e
    obtain ⟨-, rfl, rfl⟩ := h
    simp [Extent.flat]
  simp only [reproject, he, h.reference, if_true]
  rfl

/-- Either all extents have images, or there is one that has none while all before it do. -/
theorem reprojects_or_stops (t : TransformTable σ K) (target : ReferenceSystem) (budget : Nat) :
    ∀ (es : List (Extent K)) (w : σ), (∃ images v, t.Reprojects target budget es w images v) ∨
      ∃ r v, (∀ image, r ≠ .value image) ∧ t.StopsAt target budget es w r v
  | [], w => .inl ⟨[], w, .nil w⟩
  | e :: es, w => by
    rcases h : t.reproject e target budget w with ⟨image | f | c, v⟩
    · rcases reprojects_or_stops t target budget es v with ⟨images, u, hi⟩ | ⟨r, u, hr, before, e', after, images, x, hs⟩
      · exact .inl ⟨image :: images, u, .cons h hi⟩
      · obtain ⟨rfl, hi, he⟩ := hs
        exact .inr ⟨r, u, hr, e :: before, e', after, image :: images, x, rfl, .cons h hi, he⟩
    · exact .inr ⟨.failure f, v, nofun, [], e, es, [], w, rfl, .nil w, h⟩
    · exact .inr ⟨.crash c, v, nofun, [], e, es, [], w, rfl, .nil w, h⟩

variable [LawfulCoordinate K]

theorem isFlat_reproject {e image : Extent K} (he : e.toBox.IsValid)
    (h : (t.reproject e target budget w).1 = .value image) : image.IsFlat target.flat := by
  unfold reproject at h
  by_cases hr : e.flat.reference = target.flat
  · simp only [hr, if_true] at h
    cases h
    exact ⟨he, rfl, hr⟩
  · simp only [hr, if_false] at h
    obtain ⟨transform, -, h⟩ := Attempt.bind_eq_value.mp h
    obtain ⟨qs, -, h⟩ := Attempt.bind_eq_value.mp h
    cases hb : Box.ofPoints? qs with
    | none =>
      rw [hb] at h
      cases h
    | some b =>
      rw [hb] at h
      obtain ⟨-, hv, rfl⟩ := Extent.planar_eq_ok.mp (Attempt.ofExcept_eq_value.mp h)
      exact ⟨hv.inOrder, rfl, rfl⟩

theorem Reprojects.isFlat (h : t.Reprojects target budget es w images v) (hes : ∀ e ∈ es, e.toBox.IsValid) :
    ∀ image ∈ images, image.IsFlat target.flat := by
  induction h with
  | nil => exact fun _ hi => nomatch hi
  | cons hr _ ih =>
    obtain ⟨he, hes⟩ := List.forall_mem_cons.mp hes
    exact List.forall_mem_cons.mpr ⟨isFlat_reproject he (congrArg Prod.fst hr), ih hes⟩

end TransformTable

variable [LawfulCoordinate K]

namespace Merger

open TransformTable

def IsMerged (target : ReferenceSystem) (parts : List (Box K)) : Option (Extent K) → Prop
  | none => parts = []
  | some m => m.IsFlat target.flat ∧ m.toBox.IsHull parts

variable {t : TransformTable σ K} {budget : Nat} {target : ReferenceSystem} {es images : List (Extent K)} {w v : σ}

omit [LawfulCoordinate K] in
theorem grow_of_reproject_eq {b c : Nat} (h : ∀ e, t.reproject e target b = t.reproject e target c) :
    ∀ (es : List (Extent K)) (merged : Option (Extent K)), grow t b target merged es = grow t c target merged es
  | [], _ => rfl
  | e :: es, merged => by simp only [grow, h, grow_of_reproject_eq h es]

omit [LawfulCoordinate K] in
theorem reprojecting_eq (t : TransformTable σ K) (budget : Nat) (target : ReferenceSystem) (es : List (Extent K)) :
    reprojecting t budget target es = grow t budget target none es :=
  grow_of_reproject_eq (fun e => t.reproject_min e target budget) es none

theorem exists_isMerged_snoc {parts : List (Box K)} {merged : Option (Extent K)} (hm : IsMerged target parts merged)
    {image : Extent K} (hi : image.IsFlat target.flat) :
    ∃ larger, merged.elim (.ok image) (·.union image) = .ok larger ∧
      IsMerged target (parts ++ [image.toBox]) (some larger) := by
  cases merged with
  | none =>
    rw [show parts = [] from hm]
    exact ⟨image, rfl, hi, .single hi.box⟩
  | some m =>
    obtain ⟨g, hg, hf, hh⟩ := Extent.union_of_isFlat hm.1 hi hm.2 (.single hi.box)
    exact ⟨g, hg, hf, hh⟩

theorem grow_append (h : t.Reprojects target budget es w images v) (hes : ∀ e ∈ es, e.toBox.IsValid)
    {merged : Option (Extent K)} {parts : List (Box K)} (hm : IsMerged target parts merged) :
    ∃ larger, IsMerged target (parts ++ images.map Extent.toBox) larger ∧
      ∀ rest, grow t budget target merged (es ++ rest) w = grow t budget target larger rest v := by
  induction h generalizing merged parts with
  | nil => exact ⟨merged, by simpa using hm, fun _ => rfl⟩
  | @cons e image es images w v u hr _ ih =>
    obtain ⟨he, hes⟩ := List.forall_mem_cons.mp hes
    obtain ⟨larger, hl, hl'⟩ := exists_isMerged_snoc hm (isFlat_reproject he (congrArg Prod.fst hr))
    obtain ⟨largest, hm', hg⟩ := ih hes hl'
    refine ⟨largest, by simpa using hm', fun rest => ?_⟩
    have hstep : grow t budget target merged (e :: (es ++ rest)) w = grow t budget target (some larger) (es ++ rest) v := by
      rw [grow, Attempt.bind_of_value hr, hl]
      rfl
    rw [List.cons_append, hstep, hg]

/-- Where all extents have images, merging comes to the merged extent of the images. -/
theorem reprojecting_of_reprojects (h : t.Reprojects target budget es w images v) (hes : ∀ e ∈ es, e.toBox.IsValid) :
    ∃ r, reprojecting t budget target es w = (.value r, v) ∧ IsMerged target (images.map Extent.toBox) r := by
  obtain ⟨r, hm, hg⟩ := grow_append h hes (show IsMerged target [] none from rfl)
  have hr := hg []
  rw [List.append_nil] at hr
  exact ⟨r, by rw [reprojecting_eq, hr]; rfl, by simpa using hm⟩

theorem reprojecting_of_stopsAt {r : Outcome Fault (Extent K)} (h : t.StopsAt target budget es w r v)
    (hes : ∀ e ∈ es, e.toBox.IsValid) :
    (∀ f, r = .failure f → reprojecting t budget target es w = (.failure f, v)) ∧
      ∀ c, r = .crash c → reprojecting t budget target es w = (.crash c, v) := by
  obtain ⟨before, e, after, images, u, rfl, hb, he⟩ := h
  rw [List.forall_mem_append] at hes
  obtain ⟨merged, -, hg⟩ := grow_append hb hes.1 (show IsMerged target [] none from rfl)
  rw [reprojecting_eq, hg, grow, Attempt.bind_apply, he]
  constructor
  · intro f hf
    rw [hf]
  · intro c hc
    rw [hc]

/-- Merging gets through all extents, or it stops at one that comes to no value. -/
theorem reprojecting_cases (t : TransformTable σ K) (budget : Nat) (target : ReferenceSystem)
    (hes : ∀ e ∈ es, e.toBox.IsValid) (w : σ) :
    (∃ images r v, t.Reprojects target budget es w images v ∧ reprojecting t budget target es w = (.value r, v) ∧
        IsMerged target (images.map Extent.toBox) r) ∨
      (∃ f v, t.StopsAt target budget es w (.failure f) v ∧ reprojecting t budget target es w = (.failure f, v)) ∨
      ∃ c v, t.StopsAt target budget es w (.crash c) v ∧ reprojecting t budget target es w = (.crash c, v) := by
  rcases t.reprojects_or_stops target budget es w with ⟨images, v, hi⟩ | ⟨r, v, hr, hs⟩
  · obtain ⟨r, hv, hm⟩ := reprojecting_of_reprojects hi hes
    exact .inl ⟨images, r, v, hi, hv, hm⟩
  · obtain ⟨hf, hc⟩ := reprojecting_of_stopsAt hs hes
    rcases r with image | f | c
    · exact absurd rfl (hr image)
    · exact .inr (.inl ⟨f, v, hs, hf f rfl⟩)
    · exact .inr (.inr ⟨c, v, hs, hc c rfl⟩)

theorem reprojecting_eq_value (hes : ∀ e ∈ es, e.toBox.IsValid) {r : Option (Extent K)}
    (h : reprojecting t budget target es w = (.value r, v)) :
    ∃ images, t.Reprojects target budget es w images v ∧ IsMerged target (images.map Extent.toBox) r := by
  rcases reprojecting_cases t budget target hes w with ⟨images, r', u, hi, hv, hm⟩ | ⟨f, u, -, hf⟩ | ⟨c, u, -, hc⟩
  · rw [hv] at h
    cases h
    exact ⟨images, hi, hm⟩
  · cases hf.symm.trans h
  · cases hc.symm.trans h

end Merger

end ExtentLedger
