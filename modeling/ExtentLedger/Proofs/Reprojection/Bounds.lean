import ExtentLedger.Proofs.Geometry.Points
import ExtentLedger.Proofs.Reprojection.Images
import ExtentLedger.Reprojection.Mapping

/-!
# The bounds of the images of a boundary

A transform is given the samples of a boundary in their order, up to the first that has no finite image. If there is
none, the images have bounds, and these are always an extent: `reproject_isBounds` says what reprojection comes to and
which calls it makes.
-/

namespace ExtentLedger

variable {σ K : Type} [Coordinate K]

/-- An extent without heights whose bounds are those of some points. -/
structure Extent.IsBoundsOf (e : Extent K) (r : ReferenceSystem) (ps : List (Point K)) : Prop where
  holds : ∀ p ∈ ps, e.toBox.Holds p
  touches : e.toBox.Touches ps
  vertical : e.vertical = none
  reference : e.reference = r

/-! ## One transform -/

theorem Mapping.isFinite_of_image? {m : Mapping K} {q : Point K} (h : m.image? = some q) : q.isFinite = true := by
  obtain ⟨p, a | f | c⟩ := m
  · by_cases ha : a.isFinite = true
    · simp only [image?, if_pos ha, Option.some.injEq] at h
      rwa [← h]
    · simp [image?, ha] at h
  · cases h
  · cases h

theorem Mapping.answer_of_breakOff {m : Mapping K} {transform detail : String}
    (h : (m.breakOff transform : Outcome Fault (Extent K)) = .failure (.invalidExtent detail)) :
    m.answer = .failure (.invalidExtent detail) := by
  obtain ⟨p, a | f | c⟩ := m
  · cases h
  · cases h
    rfl
  · cases h

namespace Transform

variable {t : Transform σ K} {ps : List (Point K)} {ms : List (Mapping K)} {m : Mapping K} {w v : σ}

theorem image_apply (t : Transform σ K) (p : Point K) (w : σ) :
    t.image p w = (Option.elim (Mapping.image? ⟨p, (t.apply p w).1⟩)
      (Mapping.breakOff t.name ⟨p, (t.apply p w).1⟩) Outcome.value, (t.apply p w).2) := by
  unfold image
  rw [Attempt.bind_apply]
  rcases t.apply p w with ⟨q | f | c, v⟩
  · by_cases hq : q.isFinite = true
    · simp [Mapping.image?, hq]
    · simp [Mapping.image?, Mapping.breakOff, hq, Attempt.fail]
  · rfl
  · rfl

theorem exists_maps (t : Transform σ K) : ∀ (ps : List (Point K)) (w : σ), ∃ ms v, t.Maps ps w ms v
  | [], w => ⟨[], w, .nil w⟩
  | p :: ps, w => by
    cases hq : Mapping.image? ⟨p, (t.apply p w).1⟩ with
    | none => exact ⟨_, _, .stop ps rfl hq⟩
    | some q =>
      obtain ⟨ms, v, h⟩ := exists_maps t ps (t.apply p w).2
      exact ⟨_, _, .cons rfl hq h⟩

theorem Maps.map_point (h : t.Maps ps w ms v) (hm : ∀ m ∈ ms, m.image? ≠ none) : ms.map Mapping.point = ps := by
  induction h with
  | nil => rfl
  | cons _ _ _ ih =>
    rw [List.forall_mem_cons] at hm
    rw [List.map_cons, ih hm.2]
  | stop _ _ hn => exact absurd hn (hm _ (List.mem_singleton_self _))

theorem Maps.images_of_function (h : t.Maps ps w ms v) {f : Point K → Point K}
    (hf : ∀ p ∈ ps, (f p).isFinite = true ∧ ∀ w, (t.apply p w).1 = .value (f p)) :
    (∀ m ∈ ms, m.image? ≠ none) ∧ ms.filterMap Mapping.image? = ps.map f := by
  have hi : ∀ {p : Point K} {answer : Outcome Fault (Point K)} {w v : σ}, (t.apply p w).1 = .value (f p) →
      (f p).isFinite = true → t.apply p w = (answer, v) → Mapping.image? ⟨p, answer⟩ = some (f p) := by
    intro p answer w v hv hfin ha
    rw [ha] at hv
    cases hv
    simp [Mapping.image?, hfin]
  induction h with
  | nil => exact ⟨nofun, rfl⟩
  | @cons p q ps answer ms w v u ha _ _ ih =>
    rw [List.forall_mem_cons] at hf
    obtain ⟨hm, hps⟩ := ih hf.2
    have hq := hi (hf.1.2 w) hf.1.1 ha
    refine ⟨List.forall_mem_cons.mpr ⟨by simp [hq], hm⟩, ?_⟩
    rw [List.filterMap_cons_some hq, hps, List.map_cons]
  | @stop p answer w v ps ha hn =>
    rw [List.forall_mem_cons] at hf
    rw [hi (hf.1.2 w) hf.1.1 ha] at hn
    cases hn

theorem Maps.images_eq_value (h : t.Maps ps w ms v) (hm : ∀ m ∈ ms, m.image? ≠ none) :
    t.images ps w = (.value (ms.filterMap Mapping.image?), v) := by
  induction h with
  | nil => rfl
  | @cons p q ps answer ms w v u ha hq _ ih =>
    rw [List.forall_mem_cons] at hm
    have hi : t.image p w = (.value q, v) := by rw [image_apply, ha, hq]; rfl
    rw [images, Attempt.bind_of_value hi, Attempt.bind_of_value (ih hm.2), List.filterMap_cons_some hq]
    rfl
  | stop _ _ hn => exact absurd hn (hm _ (List.mem_singleton_self _))

theorem Maps.images_eq_breakOff (h : t.Maps ps w ms v) (hm : m ∈ ms) (hn : m.image? = none) :
    t.images ps w = (m.breakOff t.name, v) := by
  induction h with
  | nil => cases hm
  | @cons p q ps answer ms w v u ha hq _ ih =>
    have hi : t.image p w = (.value q, v) := by rw [image_apply, ha, hq]; rfl
    -- The first point has an image, so it is not the one that stops the run.
    have hm : m ∈ ms := by
      refine (List.mem_cons.mp hm).resolve_left fun he => ?_
      rw [he, hq] at hn
      cases hn
    rw [images, Attempt.bind_of_value hi, Attempt.bind_apply, ih hm]
    rcases m with ⟨p', a | f | c⟩ <;> rfl
  | @stop p answer w v ps ha hn' =>
    have hi : t.image p w = (Mapping.breakOff t.name ⟨p, answer⟩, v) := by rw [image_apply, ha, hn']; rfl
    rw [images, Attempt.bind_apply, hi, List.mem_singleton.mp hm]
    rcases answer with q | f | c <;> rfl

theorem Maps.traced (h : t.Maps ps w ms v) (codes : String × String) (calls : List ((String × String) × Mapping K)) :
    (t.traced codes).Maps ps (calls, w) ms (calls ++ ms.map (codes, ·), v) := by
  induction h generalizing calls with
  | nil w =>
    rw [List.map_nil, List.append_nil]
    exact .nil _
  | @cons p q ps answer ms w v u ha hq _ ih =>
    have ih := ih (calls ++ [(codes, ⟨p, answer⟩)])
    rw [List.append_assoc] at ih
    refine .cons ?_ hq ih
    simp [Transform.traced, ha]
  | @stop p answer w v ps ha hn =>
    refine .stop ps ?_ hn
    simp [Transform.traced, ha]

end Transform

namespace TransformTable

variable {transform : Transform σ K} {ps : List (Point K)} {ms : List (Mapping K)} {m : Mapping K} {w v : σ}
  {r : ReferenceSystem}

theorem boundsOf_of_breakOff (h : transform.Maps ps w ms v) (hm : m ∈ ms) (hn : m.image? = none) :
    boundsOf transform ps r w = (m.breakOff transform.name, v) := by
  unfold boundsOf
  rw [Attempt.bind_apply, h.images_eq_breakOff hm hn]
  rcases m with ⟨p, a | f | c⟩ <;> rfl

theorem exists_ofPoints?_images (h : transform.Maps ps w ms v) (hm : ∀ m ∈ ms, m.image? ≠ none) (hps : ps ≠ []) :
    ∃ b : Box K, Box.ofPoints? (ms.filterMap Mapping.image?) = some b := by
  apply Box.exists_ofPoints?
  rw [← h.map_point hm, Ne, List.map_eq_nil_iff] at hps
  obtain ⟨m, hmem⟩ := List.exists_mem_of_ne_nil ms hps
  obtain ⟨q, hq⟩ := Option.ne_none_iff_exists'.mp (hm m hmem)
  exact List.ne_nil_of_mem (List.mem_filterMap.mpr ⟨m, hmem, hq⟩)

section
variable [LawfulCoordinate K] {b : Box K} (hb : Box.ofPoints? (ms.filterMap Mapping.image?) = some b)
include hb

theorem isHull_images : b.IsHull ((ms.filterMap Mapping.image?).map Box.point) := by
  refine Box.isHull_ofPoints? (fun q hq => ?_) hb
  obtain ⟨m, -, hq⟩ := List.mem_filterMap.mp hq
  exact Mapping.isFinite_of_image? hq

/-- The bounds of finite images are finite and in order, so they are never refused. -/
theorem boundsOf_of_images (h : transform.Maps ps w ms v) (hm : ∀ m ∈ ms, m.image? ≠ none) (hr : r.isCompound = false) :
    boundsOf transform ps r w = (.value ⟨b.inOrder, none, r⟩, v) := by
  have hp : Extent.planar b r = .ok ⟨b.inOrder, none, r⟩ := Extent.planar_eq_ok.mpr ⟨hr, (isHull_images hb).valid, rfl⟩
  unfold boundsOf
  rw [Attempt.bind_of_value (h.images_eq_value hm), hb]
  show (Attempt.ofExcept (Extent.planar b r) : Attempt σ Fault (Extent K)) v = _
  rw [hp]
  rfl

theorem isBoundsOf_images (r : ReferenceSystem) :
    (⟨b.inOrder, none, r⟩ : Extent K).IsBoundsOf r (ms.filterMap Mapping.image?) where
  holds _ hq := (isHull_images hb).inOrder.holds hq
  touches := (Box.touches_ofPoints? hb).inOrder
  vertical := rfl
  reference := rfl

end

/-! ## Tables -/

omit [Coordinate K] in
theorem eq_of_codePairOrder {a b : String × String} (h : codePairOrder a b = .eq) : a = b := by
  have h : (compare a.1 b.1).then (compare a.2 b.2) = .eq := h
  rw [Ordering.then_eq_eq] at h
  exact Prod.ext (Std.LawfulEqCmp.eq_of_compare h.1) (Std.LawfulEqCmp.eq_of_compare h.2)

instance : Std.LawfulEqCmp codePairOrder where
  eq_of_compare := eq_of_codePairOrder

omit [Coordinate K] in
theorem find_register_of_ne (t : TransformTable σ K) {source target a b : String} (transform : Transform σ K)
    (h : (source, target) ≠ (a, b)) : (t.register source target transform).find a b = t.find a b := by
  have h : codePairOrder (source, target) (a, b) ≠ .eq := fun he => h (eq_of_codePairOrder he)
  unfold find register
  rw [Std.ExtTreeMap.getElem?_insert, if_neg h]

omit [Coordinate K] in
theorem find_traced (t : TransformTable σ K) (source target : String) :
    t.traced.find source target = (t.find source target).map (Transform.traced (source, target)) := by
  unfold find traced
  rw [Std.ExtTreeMap.getElem?_map]
  cases t.transforms[(source, target)]? <;> rfl

omit [Coordinate K] in
theorem find_of_contains_eq_false {t : TransformTable σ K} {source target : String}
    (h : t.contains source target = false) : t.find source target = .error (.unknownTransform source target) := by
  unfold contains at h
  rw [Std.ExtTreeMap.contains_eq_isSome_getElem?, Option.isSome_eq_false_iff, Option.isNone_iff_eq_none] at h
  rw [find, h]

omit [Coordinate K] in
theorem exists_find_of_contains {t : TransformTable σ K} {source target : String} (h : t.contains source target = true) :
    ∃ transform, t.find source target = .ok transform := by
  unfold contains at h
  rw [Std.ExtTreeMap.contains_eq_isSome_getElem?, Option.isSome_iff_exists] at h
  obtain ⟨transform, h⟩ := h
  exact ⟨transform, by rw [find, h]⟩

theorem reproject_of_eq (t : TransformTable σ K) {e : Extent K} {target : ReferenceSystem}
    (h : e.reference.flat = target.flat) (budget : Nat) (w : σ) : t.reproject e target budget w = (.value e.flat, w) := by
  have h : e.flat.reference = target.flat := h
  simp only [reproject, h, if_true]
  rfl

theorem reproject_of_error (t : TransformTable σ K) {e : Extent K} {target : ReferenceSystem} {f : Fault}
    (hne : e.reference.flat ≠ target.flat) (hf : t.find e.reference.flat.code target.flat.code = .error f) (budget : Nat)
    (w : σ) : t.reproject e target budget w = (.failure f, w) := by
  have hne : e.flat.reference ≠ target.flat := hne
  have hf : t.find e.flat.reference.code target.flat.code = .error f := hf
  simp only [reproject, if_neg hne, hf]
  rfl

theorem samples_ne_nil (b : Box K) (budget : Nat) : b.samples budget ≠ [] := by
  intro h
  have hl := b.length_samples budget
  have := Boundary.perSide_pos budget
  rw [h, List.length_nil] at hl
  omega

theorem reproject_of_breakOff {t : TransformTable σ K} {e : Extent K} {target : ReferenceSystem} {budget : Nat}
    (hne : e.reference.flat ≠ target.flat) (hf : t.find e.reference.flat.code target.flat.code = .ok transform)
    (h : transform.Maps (e.toBox.samples budget) w ms v) (hm : m ∈ ms) (hn : m.image? = none) :
    t.reproject e target budget w = (m.breakOff transform.name, v) := by
  rw [reproject_of_find hne hf, boundsOf_of_breakOff h hm hn]

theorem reproject_of_images [LawfulCoordinate K] {t : TransformTable σ K} {e : Extent K} {target : ReferenceSystem}
    {budget : Nat} {b : Box K} (hne : e.reference.flat ≠ target.flat)
    (hf : t.find e.reference.flat.code target.flat.code = .ok transform)
    (h : transform.Maps (e.toBox.samples budget) w ms v) (hm : ∀ m ∈ ms, m.image? ≠ none)
    (hb : Box.ofPoints? (ms.filterMap Mapping.image?) = some b) :
    t.reproject e target budget w = (.value ⟨b.inOrder, none, target.flat⟩, v) := by
  rw [reproject_of_find hne hf, boundsOf_of_images hb h hm (ReferenceSystem.isCompound_flat _)]

theorem reproject_of_maps [LawfulCoordinate K] {t : TransformTable σ K} {e : Extent K} {target : ReferenceSystem}
    {budget : Nat} (hne : e.reference.flat ≠ target.flat)
    (hf : t.find e.reference.flat.code target.flat.code = .ok transform)
    (h : transform.Maps (e.toBox.samples budget) w ms v) :
    ∃ r, t.reproject e target budget w = (r, v) ∧
      t.traced.reproject e target budget ([], w) =
        (r, (ms.map ((e.reference.flat.code, target.flat.code), ·), v)) ∧
      ((∀ m ∈ ms, m.image? ≠ none) →
        ∃ image, r = .value image ∧ image.IsBoundsOf target.flat (ms.filterMap Mapping.image?)) ∧
      ∀ m ∈ ms, m.image? = none → r = m.breakOff transform.name := by
  have hf' := (t.find_traced e.reference.flat.code target.flat.code).trans (congrArg _ hf)
  have h' := h.traced (e.reference.flat.code, target.flat.code) []
  by_cases hstop : ∃ m ∈ ms, m.image? = none
  · obtain ⟨m, hmem, hn⟩ := hstop
    have hrun := reproject_of_breakOff hne hf h hmem hn
    refine ⟨_, hrun, reproject_of_breakOff hne hf' h' hmem hn, fun hm => absurd hn (hm m hmem), fun m' hmem' hn' => ?_⟩
    -- Any other call without an image breaks the run off as well, so it says the same.
    exact congrArg Prod.fst (hrun.symm.trans (reproject_of_breakOff hne hf h hmem' hn'))
  · have hm : ∀ m ∈ ms, m.image? ≠ none := fun m hmem hn => hstop ⟨m, hmem, hn⟩
    obtain ⟨b, hb⟩ := exists_ofPoints?_images h hm (samples_ne_nil _ _)
    exact ⟨_, reproject_of_images hne hf h hm hb, reproject_of_images hne hf' h' hm hb,
      fun _ => ⟨_, rfl, isBoundsOf_images hb target.flat⟩, fun m hmem hn => absurd hn (hm m hmem)⟩

/-- The result are the bounds of the images of the samples, or the first sample without a finite image says what went
wrong. -/
theorem reproject_isBounds [LawfulCoordinate K] (t : TransformTable σ K) (e : Extent K) (target : ReferenceSystem)
    (budget : Nat) (w : σ) :
    let source := e.reference.flat
    let system := target.flat
    let codes := (source.code, system.code)
    let run := t.traced.reproject e target budget ([], w)
    t.reproject e target budget w = (run.1, run.2.2) ∧
      (source = system → run = (.value e.flat, ([], w))) ∧
      (source ≠ system → t.contains codes.1 codes.2 = false →
        run = (.failure (.unknownTransform codes.1 codes.2), ([], w))) ∧
      (source ≠ system → ∀ transform, t.find codes.1 codes.2 = .ok transform →
        ∃ ms v, transform.Maps (e.toBox.samples budget) w ms v ∧ run.2 = (ms.map (codes, ·), v) ∧
          ((∀ m ∈ ms, m.image? ≠ none) → ms.map Mapping.point = e.toBox.samples budget ∧
            ms.length = 4 * max 1 (min budget 10000 / 4) ∧
            ∃ image, run.1 = .value image ∧ image.IsBoundsOf system (ms.filterMap Mapping.image?)) ∧
          ∀ m ∈ ms, m.image? = none → run.1 = m.breakOff transform.name) ∧
      ∀ detail, run.1 = .failure (.invalidExtent detail) →
        ∃ call ∈ run.2.1, call.2.answer = .failure (.invalidExtent detail) := by
  intro source system codes run
  by_cases hr : source = system
  · have hrun : run = (.value e.flat, ([], w)) := t.traced.reproject_of_eq hr budget _
    rw [hrun]
    exact ⟨t.reproject_of_eq hr budget w, fun _ => rfl, fun h => absurd hr h, fun h => absurd hr h, nofun⟩
  cases hc : t.contains codes.1 codes.2 with
  | false =>
    have hf := find_of_contains_eq_false hc
    have hrun : run = (.failure (.unknownTransform codes.1 codes.2), ([], w)) :=
      t.traced.reproject_of_error hr ((t.find_traced _ _).trans (congrArg _ hf)) budget _
    rw [hrun]
    refine ⟨t.reproject_of_error hr hf budget w, fun h => absurd h hr, fun _ _ => rfl, fun _ transform h => ?_, nofun⟩
    cases hf.symm.trans h
  | true =>
    obtain ⟨transform, hf⟩ := exists_find_of_contains hc
    -- The run exists whatever the transform answers; whether all its points have images decides what it comes to.
    obtain ⟨ms, v, h⟩ := transform.exists_maps (e.toBox.samples budget) w
    obtain ⟨r, ht, hrun, himages, hstop⟩ := reproject_of_maps hr hf h
    have hrun : run = (r, (ms.map (codes, ·), v)) := hrun
    rw [hrun]
    refine ⟨ht, fun h => absurd h hr, nofun, fun _ transform' h' => ?_, fun detail hd => ?_⟩
    · cases hf.symm.trans h'
      refine ⟨ms, v, h, rfl, fun hm => ⟨h.map_point hm, ?_, himages hm⟩, hstop⟩
      rw [← List.length_map Mapping.point, h.map_point hm, e.toBox.length_samples]
      rfl
    · by_cases hnone : ∃ m ∈ ms, m.image? = none
      · obtain ⟨m, hmem, hn⟩ := hnone
        exact ⟨(codes, m), List.mem_map_of_mem hmem, Mapping.answer_of_breakOff ((hstop m hmem hn).symm.trans hd)⟩
      · obtain ⟨image, hv, -⟩ := himages fun m hmem hn => hnone ⟨m, hmem, hn⟩
        cases hv.symm.trans hd

theorem reproject_isBounds_notFinite :
    let transform : Transform Nat Float := ⟨"third", fun _ n => (.value (if n < 2 then ⟨7, 7⟩ else ⟨0 / 0, 7⟩), n + 1)⟩
    let table : TransformTable Nat Float := .register .empty "a" "b" transform
    let e : Extent Float := ⟨⟨⟨0, 1⟩, ⟨0, 1⟩⟩, some ⟨0, 1⟩, .compound "c" "a" "v"⟩
    let run := table.traced.reproject e (.horizontal "b") 8 ([], 0)
    run.1 = .failure (.transform "third produced a non-finite coordinate for (1, 0)") ∧ run.2.1.length = 3 ∧
      run.2.2 = 3 := by
  intro transform table e run
  obtain ⟨-, -, -, h, -⟩ := reproject_isBounds table e (.horizontal "b") 8 0
  obtain ⟨ms, v, h, hrun, -, hstop⟩ := h (by decide) transform (find_register _ _ _ _)
  have htext : (e.toBox.samples 8)[2]?.map Point.text = some "(1, 0)" := by decide +kernel
  have hrun : run.2 = (ms.map (("a", "b"), ·), v) := hrun
  generalize e.toBox.samples 8 = samples at h htext
  obtain _ | ⟨p, _ | ⟨q, _ | ⟨r, rest⟩⟩⟩ := samples
  · cases htext
  · cases htext
  · cases htext
  cases h with
  | stop _ ha hn => cases ha; cases hn
  | cons ha _ h =>
    cases ha
    cases h with
    | stop _ ha hn => cases ha; cases hn
    | cons ha _ h =>
      cases ha
      cases h with
      | cons ha hq _ => cases ha; cases hq
      | stop _ ha hn =>
        cases ha
        have hr : r.text = "(1, 0)" := by simpa using htext
        refine ⟨(hstop _ (by simp) hn).trans ?_, by rw [hrun]; rfl, by rw [hrun]⟩
        show Outcome.failure (Fault.transform ("third produced a non-finite coordinate for " ++ r.text)) = _
        rw [hr]
        rfl

end TransformTable

end ExtentLedger
