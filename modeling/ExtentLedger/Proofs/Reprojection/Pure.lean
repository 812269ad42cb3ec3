import ExtentLedger.Proofs.Reprojection.Bounds
import ExtentLedger.Proofs.Reprojection.Merging

/-!
# Reprojection by pure transforms

A transform whose answers depend on the point alone decides point by point: an extent has an image where all its samples
have images, and then the image is the hull of these.
-/

namespace ExtentLedger

variable {σ K : Type} [Coordinate K]

def Transform.image? (t : Transform σ K) (w : σ) (p : Point K) : Option (Point K) :=
  Mapping.image? ⟨p, (t.apply p w).1⟩

theorem Mapping.breakOff_ne_value {α : Type} (m : Mapping K) (transform : String) (a : α) :
    m.breakOff transform ≠ .value a := by
  intro h
  obtain ⟨p, q | f | c⟩ := m <;> cases h

namespace Transform

variable {t : Transform σ K} {ps : List (Point K)} {ms : List (Mapping K)} {w v : σ}

theorem Maps.of_isPure (h : t.Maps ps w ms v) (ht : ∀ p, (t.apply p).IsPure) :
    v = w ∧ ∀ m ∈ ms, m.point ∈ ps ∧ m.answer = (t.apply m.point w).1 := by
  induction h with
  | nil => exact ⟨rfl, nofun⟩
  | @cons p q ps answer ms w v u ha _ _ ih =>
    rw [(ht p).apply w, Prod.mk.injEq] at ha
    obtain ⟨ha, rfl⟩ := ha
    obtain ⟨hu, hm⟩ := ih
    refine ⟨hu, List.forall_mem_cons.mpr ⟨⟨List.mem_cons_self, ha.symm⟩, fun m hmem => ?_⟩⟩
    exact ⟨List.mem_cons_of_mem _ (hm m hmem).1, (hm m hmem).2⟩
  | @stop p answer w v ps ha _ =>
    rw [(ht p).apply w, Prod.mk.injEq] at ha
    exact ⟨ha.2.symm, List.forall_mem_singleton.mpr ⟨List.mem_cons_self, ha.1.symm⟩⟩

end Transform

namespace TransformTable

variable [LawfulCoordinate K] {t : TransformTable σ K} {e : Extent K} {target : ReferenceSystem}
  {transform : Transform σ K}

theorem reproject_of_isPure (hne : e.reference.flat ≠ target.flat)
    (hf : t.find e.reference.flat.code target.flat.code = .ok transform) (ht : ∀ p, (transform.apply p).IsPure)
    (budget : Nat) (w : σ) :
    (∃ image, t.reproject e target budget w = (.value image, w) ∧ image.IsFlat target.flat ∧
        (∀ p ∈ e.toBox.samples budget, transform.image? w p ≠ none) ∧
        image.toBox.IsHull (((e.toBox.samples budget).filterMap (transform.image? w)).map Box.point)) ∨
      ∃ p ∈ e.toBox.samples budget, transform.image? w p = none ∧
        t.reproject e target budget w = (Mapping.breakOff transform.name ⟨p, (transform.apply p w).1⟩, w) := by
  obtain ⟨ms, v, h⟩ := transform.exists_maps (e.toBox.samples budget) w
  obtain ⟨rfl, hanswer⟩ := h.of_isPure ht
  have himage : ∀ m ∈ ms, m.image? = transform.image? v m.point := by
    intro m hm
    rw [Transform.image?, ← (hanswer m hm).2]
  by_cases hstop : ∃ m ∈ ms, m.image? = none
  · obtain ⟨m, hm, hn⟩ := hstop
    refine .inr ⟨m.point, (hanswer m hm).1, himage m hm ▸ hn, ?_⟩
    rw [reproject_of_breakOff hne hf h hm hn, ← (hanswer m hm).2]
  · have hm : ∀ m ∈ ms, m.image? ≠ none := fun m hmem hn => hstop ⟨m, hmem, hn⟩
    obtain ⟨b, hb⟩ := exists_ofPoints?_images h hm (samples_ne_nil _ _)
    have hh := (isHull_images hb).inOrder
    have hpoints : e.toBox.samples budget = ms.map Mapping.point := (h.map_point hm).symm
    refine .inl ⟨_, reproject_of_images hne hf h hm hb, ⟨hh.valid, rfl, rfl⟩, ?_, ?_⟩
    · rw [hpoints]
      exact List.forall_mem_map.mpr fun m hmem => himage m hmem ▸ hm m hmem
    · have himages : ms.filterMap Mapping.image? = ms.filterMap (transform.image? v ∘ Mapping.point) :=
        List.filterMap_congr himage
      rwa [hpoints, List.filterMap_map, ← himages]

end TransformTable

end ExtentLedger
