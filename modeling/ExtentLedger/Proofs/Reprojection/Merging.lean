import ExtentLedger.Proofs.Reprojection.Images
import Mathlib.Data.List.Forall2

/-!
# Merged extents

A table whose transforms are pure reprojects an extent to the same image each time, so what merging extents comes to is
a matter of the extents alone: it comes to a value when each of them has an image, and then to the hull of the images.
-/

namespace ExtentLedger

variable {σ K : Type} [Coordinate K]

/-! ## Pure tables -/

omit [Coordinate K] in
theorem Transform.isPure_ofFunction (name : String) (f : Point K → Except Fault (Point K)) (p : Point K) :
    ((ofFunction name f : Transform σ K).apply p).IsPure := .ofExcept (f p)

namespace TransformTable

def IsPure (t : TransformTable σ K) : Prop :=
  ∀ source target transform, t.find source target = .ok transform → ∀ p, (transform.apply p).IsPure

omit [Coordinate K] in
theorem isPure_empty : (empty : TransformTable σ K).IsPure := by
  intro source target transform h
  simp [find, empty] at h

omit [Coordinate K] in
theorem IsPure.register {t : TransformTable σ K} (ht : t.IsPure) (source target : String) {transform : Transform σ K}
    (hf : ∀ p, (transform.apply p).IsPure) : (t.register source target transform).IsPure := by
  intro a b other h
  have ht' := ht a b other
  unfold find TransformTable.register at h
  unfold find at ht'
  rw [Std.ExtTreeMap.getElem?_insert] at h
  by_cases hc : codePairOrder (source, target) (a, b) = .eq
  · rw [if_pos hc] at h
    cases h
    exact hf
  · rw [if_neg hc] at h
    exact ht' h

theorem isPure_standard (m : Mercator K) : (standard m : TransformTable σ K).IsPure := by
  refine IsPure.register (IsPure.register (IsPure.register (IsPure.register (IsPure.register (IsPure.register
    isPure_empty _ _ ?_) _ _ ?_) _ _ ?_) _ _ ?_) _ _ ?_) _ _ ?_
  all_goals exact Transform.isPure_ofFunction _ _

theorem isPure_images {transform : Transform σ K} (ht : ∀ p, (transform.apply p).IsPure) :
    ∀ ps, (transform.images ps).IsPure
  | [] => .pure _
  | p :: ps => by
    have hi : (transform.image p).IsPure := by
      refine (ht p).bind fun q => ?_
      by_cases hq : q.isFinite = true
      · rw [if_pos hq]
        exact .pure q
      · rw [if_neg hq]
        exact .fail _
    exact hi.bind fun q => (isPure_images ht ps).bind fun qs => .pure _

variable {t : TransformTable σ K}

theorem isPure_reproject_of_find {e : Extent K} {target : ReferenceSystem} {transform : Transform σ K}
    (hf : t.find e.reference.flat.code target.flat.code = .ok transform) (ht : ∀ p, (transform.apply p).IsPure)
    (budget : Nat) : (t.reproject e target budget).IsPure := by
  have hf : t.find e.flat.reference.code target.flat.code = .ok transform := hf
  unfold TransformTable.reproject
  by_cases hr : e.flat.reference = target.flat
  · simp only [hr, if_true]
    exact .pure _
  · simp only [hr, if_false, hf]
    refine (isPure_images ht _).bind fun qs => ?_
    cases Box.ofPoints? qs with
    | none => exact .fail _
    | some b => exact .ofExcept _

theorem IsPure.reproject (ht : t.IsPure) (e : Extent K) (target : ReferenceSystem) (budget : Nat) :
    (t.reproject e target budget).IsPure := by
  cases hf : t.find e.reference.flat.code target.flat.code with
  | ok transform => exact isPure_reproject_of_find hf (ht _ _ transform hf) budget
  | error f =>
    have hf : t.find e.flat.reference.code target.flat.code = .error f := hf
    unfold TransformTable.reproject
    by_cases hr : e.flat.reference = target.flat
    · simp only [hr, if_true]
      exact .pure _
    · simp only [hr, if_false, hf]
      exact ⟨.failure f, rfl⟩

end TransformTable

theorem Merger.isPure_grow {t : TransformTable σ K} (ht : t.IsPure) (budget : Nat) (target : ReferenceSystem) :
    ∀ (es : List (Extent K)) (merged : Option (Extent K)), (grow t budget target merged es).IsPure
  | [], _ => .pure _
  | e :: es, _ => (ht.reproject e target budget).bind fun _ => (Attempt.IsPure.ofExcept _).bind fun _ =>
      isPure_grow ht budget target es _

theorem Merger.isPure_reprojecting {t : TransformTable σ K} (ht : t.IsPure) (budget : Nat) (target : ReferenceSystem)
    (es : List (Extent K)) : (reprojecting t budget target es).IsPure :=
  isPure_grow ht _ target es none

/-! ## Merging -/

/-- Where transforms are pure, each extent has its image whatever was reprojected before it. -/
theorem TransformTable.IsPure.reprojects_iff {t : TransformTable σ K} (ht : t.IsPure) {target : ReferenceSystem}
    {budget : Nat} {es images : List (Extent K)} {w v : σ} :
    t.Reprojects target budget es w images v ↔
      List.Forall₂ (fun e image => (t.reproject e target budget w).1 = .value image) es images ∧ v = w := by
  constructor
  · intro h
    induction h with
    | nil w => exact ⟨.nil, rfl⟩
    | @cons e image es images w v u hr _ ih =>
      have hv : v = w := congrArg Prod.snd (hr.symm.trans ((ht.reproject e target budget).apply w))
      subst hv
      exact ⟨.cons (congrArg Prod.fst hr) ih.1, ih.2⟩
  · intro h
    obtain ⟨h, rfl⟩ := h
    induction h with
    | nil => exact .nil _
    | @cons e image es images hr _ ih =>
      refine .cons (v := v) ?_ ih
      rw [(ht.reproject e target budget).apply v, hr]

namespace Merger

variable {t : TransformTable σ K} {budget : Nat} {target : ReferenceSystem}

theorem exists_image_of_mem {α β : Type} {r : α → β → Prop} {l : List α} {images : List β}
    (h : List.Forall₂ r l images) {a : α} (ha : a ∈ l) : ∃ image ∈ images, r a image := by
  induction h with
  | nil => cases ha
  | cons hr _ ih =>
    rcases List.mem_cons.mp ha with rfl | ha
    · exact ⟨_, by simp, hr⟩
    · obtain ⟨image, hi, hr⟩ := ih ha
      exact ⟨image, List.mem_cons_of_mem _ hi, hr⟩

variable [LawfulCoordinate K]

theorem isFlat_of_images {w : σ} {es images : List (Extent K)} (hes : ∀ e ∈ es, e.toBox.IsValid)
    (h : List.Forall₂ (fun e image => (t.reproject e target budget w).1 = .value image) es images) :
    ∀ image ∈ images, image.IsFlat target.flat := by
  intro image hi
  obtain ⟨e, he, hr⟩ := exists_image_of_mem h.flip hi
  exact TransformTable.isFlat_reproject (hes e he) hr

theorem exists_images (ht : t.IsPure) {w : σ} {es : List (Extent K)} (hes : ∀ e ∈ es, e.toBox.IsValid)
    {r : Option (Extent K)} (h : (reprojecting t budget target es w).1 = .value r) :
    ∃ images, List.Forall₂
        (fun e image => (t.reproject e target (min budget Boundary.maxBudget) w).1 = .value image) es images ∧
      IsMerged target (images.map Extent.toBox) r := by
  have hv : reprojecting t budget target es w = (.value r, w) := by
    rw [(isPure_reprojecting ht budget target es).apply w, h]
  obtain ⟨images, hi, hm⟩ := reprojecting_eq_value hes hv
  simp only [TransformTable.reproject_min]
  exact ⟨images, (ht.reprojects_iff.mp hi).1, hm⟩

theorem reprojecting_eq_some (ht : t.IsPure) {w : σ} {es : List (Extent K)} (hes : ∀ e ∈ es, e.toBox.IsValid)
    {m : Extent K} (h : (reprojecting t budget target es w).1 = .value (some m)) :
    ∃ images, List.Forall₂
        (fun e image => (t.reproject e target (min budget Boundary.maxBudget) w).1 = .value image) es images ∧
      m.IsFlat target.flat ∧ m.toBox.IsHull (images.map Extent.toBox) :=
  exists_images ht hes h

theorem reprojecting_eq_none_iff (ht : t.IsPure) {w : σ} {es : List (Extent K)} (hes : ∀ e ∈ es, e.toBox.IsValid) :
    (reprojecting t budget target es w).1 = .value none ↔ es = [] := by
  constructor
  · intro h
    obtain ⟨images, hi, hm⟩ := exists_images ht hes h
    rw [List.map_eq_nil_iff.mp hm] at hi
    cases hi
    rfl
  · rintro rfl
    rfl

/-- What covers the merged extent are the boxes that cover the image of each extent. -/
theorem covers_reprojecting_iff (ht : t.IsPure) {w : σ} {es : List (Extent K)} (hes : ∀ e ∈ es, e.toBox.IsValid)
    {m : Extent K} (h : (reprojecting t budget target es w).1 = .value (some m)) (b : Box K) :
    b.covers m.toBox = true ↔
      ∀ e ∈ es, ∀ image, (t.reproject e target budget w).1 = .value image → b.covers image.toBox = true := by
  obtain ⟨images, hi, -, hh⟩ := reprojecting_eq_some ht hes h
  simp only [TransformTable.reproject_min] at hi
  rw [hh.covers_iff]
  constructor
  · intro hb e he image hr
    obtain ⟨image', hi', hr'⟩ := exists_image_of_mem hi he
    cases hr.symm.trans hr'
    exact hb _ (List.mem_map_of_mem hi')
  · intro hb p hp
    obtain ⟨image, hi', rfl⟩ := List.mem_map.mp hp
    obtain ⟨e, he, hr⟩ := exists_image_of_mem hi.flip hi'
    exact hb e he image hr

theorem exists_reprojecting_eq_value (ht : t.IsPure) {w : σ} {es : List (Extent K)} (hes : ∀ e ∈ es, e.toBox.IsValid) :
    (∃ r, (reprojecting t budget target es w).1 = .value r) ↔
      ∀ e ∈ es, ∃ image, (t.reproject e target (min budget Boundary.maxBudget) w).1 = .value image := by
  constructor
  · intro h e he
    obtain ⟨r, h⟩ := h
    obtain ⟨images, hi, -⟩ := exists_images ht hes h
    obtain ⟨image, -, hi⟩ := exists_image_of_mem hi he
    exact ⟨image, hi⟩
  · intro h
    simp only [TransformTable.reproject_min] at h
    rcases t.reprojects_or_stops target budget es w with ⟨images, v, hi⟩ | ⟨r, v, hr, before, e, after, images, u, hs⟩
    · obtain ⟨merged, hm, -⟩ := reprojecting_of_reprojects hi hes
      exact ⟨merged, congrArg Prod.fst hm⟩
    · obtain ⟨rfl, -, he⟩ := hs
      obtain ⟨image, hi⟩ := h e (by simp)
      have hu := (ht.reproject e target budget).outcome u w
      rw [he, hi] at hu
      exact absurd hu (hr image)

theorem exists_reprojecting_eq_some (ht : t.IsPure) {w : σ} {es : List (Extent K)} (hne : es ≠ [])
    (hes : ∀ e ∈ es, e.toBox.IsValid) :
    (∃ m, (reprojecting t budget target es w).1 = .value (some m)) ↔
      ∀ e ∈ es, ∃ image, (t.reproject e target (min budget Boundary.maxBudget) w).1 = .value image := by
  rw [← exists_reprojecting_eq_value ht hes]
  constructor
  · intro h
    obtain ⟨m, h⟩ := h
    exact ⟨some m, h⟩
  · intro h
    obtain ⟨r, h⟩ := h
    cases r with
    | some m => exact ⟨m, h⟩
    | none => exact absurd ((reprojecting_eq_none_iff ht hes).mp h) hne

/-! ## The same extents in another order -/

/-- What the merged extent comes to does not depend on the order of the extents, or on how often one of them occurs. -/
theorem reprojecting_beq (ht : t.IsPure) {w w' : σ} {es es' : List (Extent K)} (hes : ∀ e ∈ es, e.toBox.IsValid)
    (hm : ∀ e, e ∈ es ↔ e ∈ es') {m m' : Extent K} (h : (reprojecting t budget target es w).1 = .value (some m))
    (h' : (reprojecting t budget target es' w').1 = .value (some m')) : (m == m') = true := by
  have hes' : ∀ e ∈ es', e.toBox.IsValid := fun e he => hes e ((hm e).mpr he)
  obtain ⟨-, -, hf, -⟩ := reprojecting_eq_some ht hes h
  obtain ⟨-, -, hf', -⟩ := reprojecting_eq_some ht hes' h'
  refine Extent.beq_of_covers hf hf' fun b => ?_
  rw [covers_reprojecting_iff ht hes h, covers_reprojecting_iff ht hes' h']
  refine forall_congr' fun e => imp_congr (hm e) ?_
  rw [(ht.reproject e target budget).outcome w w']

theorem reprojecting_congr (ht : t.IsPure) (w w' : σ) {es es' : List (Extent K)} (hne : es ≠ [])
    (hes : ∀ e ∈ es, e.toBox.IsValid) (hm : ∀ e, e ∈ es ↔ e ∈ es') :
    (∃ m m', (reprojecting t budget target es w).1 = .value (some m) ∧
      (reprojecting t budget target es' w').1 = .value (some m') ∧ (m == m') = true) ∨
    (∀ r, (reprojecting t budget target es w).1 ≠ .value r) ∧
      ∀ r, (reprojecting t budget target es' w').1 ≠ .value r := by
  have hes' : ∀ e ∈ es', e.toBox.IsValid := fun e he => hes e ((hm e).mpr he)
  have hne' : es' ≠ [] := by
    obtain ⟨e, he⟩ := List.exists_mem_of_ne_nil es hne
    exact List.ne_nil_of_mem ((hm e).mp he)
  have hsome : (∃ m, (reprojecting t budget target es w).1 = .value (some m)) ↔
      ∃ m, (reprojecting t budget target es' w').1 = .value (some m) := by
    rw [exists_reprojecting_eq_some ht hne hes, exists_reprojecting_eq_some ht hne' hes']
    refine forall_congr' fun e => imp_congr (hm e) ?_
    rw [(ht.reproject e target _).outcome w w']
  by_cases h : ∃ m, (reprojecting t budget target es w).1 = .value (some m)
  · obtain ⟨m, hr⟩ := h
    obtain ⟨m', hr'⟩ := hsome.mp ⟨m, hr⟩
    exact .inl ⟨m, m', hr, hr', reprojecting_beq ht hes hm hr hr'⟩
  · refine .inr ⟨fun r hr => ?_, fun r hr => ?_⟩
    · cases r with
      | none => exact hne ((reprojecting_eq_none_iff ht hes).mp hr)
      | some m => exact h ⟨m, hr⟩
    · cases r with
      | none => exact hne' ((reprojecting_eq_none_iff ht hes').mp hr)
      | some m => exact h (hsome.mpr ⟨m, hr⟩)

end Merger

end ExtentLedger
