import ExtentLedger.Proofs.Reprojection.Bounds
import ExtentLedger.Proofs.Reprojection.Monotone

/-!
# Reprojection by monotone transforms

In exact arithmetic, a transform that is monotone in both coordinates clips nothing: however few samples are taken, the
image of an extent is the hull of the images of its corners, and it holds the image of every point of the extent.
-/

namespace ExtentLedger

variable {σ K : Type} [Coordinate K] [ExactCoordinate K]

/-- The hull of the images of the samples is the hull of the images of the corners. -/
theorem Box.IsHull.of_samples {b c : Box K} {f : Point K → Point K} {budget : Nat} (hb : b.IsValid)
    (hx : b.IsMonotone fun p => (f p).x) (hy : b.IsMonotone fun p => (f p).y)
    (hc : c.IsHull (((b.samples budget).map f).map point)) : c.IsHull ((b.cornerList.map f).map point) := by
  refine ⟨hc.valid, fun d => ?_⟩
  rw [hc.covers_iff]
  simp only [List.forall_mem_map, covers_point]
  constructor
  · intro h q hq
    exact h q (mem_samples_of_mem_cornerList budget hq)
  · intro h p hp
    exact holds_of_corners hb hx hy h (hb.holds_of_mem_samples hp)

namespace TransformTable

theorem reproject_of_isMonotoneOn {t : TransformTable σ K} {e : Extent K} (he : e.IsValid) {target : ReferenceSystem}
    {transform : Transform σ K} {f : Point K → Point K} (hne : e.reference.flat ≠ target.flat)
    (hf : t.find e.reference.flat.code target.flat.code = .ok transform) (hm : transform.IsMonotoneOn e.toBox f)
    {d : Box K} (hd : d.IsHull ((e.toBox.cornerList.map f).map Box.point)) (budget : Nat) (w : σ) :
    (t.reproject e target budget w).1 = .value ⟨d, none, target.flat⟩ := by
  obtain ⟨ms, v, h⟩ := transform.exists_maps (e.toBox.samples budget) w
  have hs : ∀ p ∈ e.toBox.samples budget, (f p).isFinite = true ∧ ∀ w, (transform.apply p w).1 = .value (f p) :=
    fun p hp => ⟨by simp [Point.isFinite, ExactCoordinate.isFinite], hm.apply p (he.box.holds_of_mem_samples hp)⟩
  obtain ⟨himage, himages⟩ := h.images_of_function hs
  obtain ⟨b, hb⟩ := exists_ofPoints?_images h himage (samples_ne_nil _ _)
  have hh := (isHull_images hb).inOrder
  rw [himages] at hh
  rw [reproject_of_images hne hf h himage hb, (hh.of_samples he.box hm.x hm.y).eq hd]

/-- By a transform that is monotone on the extent, the image is the hull of the images of the corners, and it holds the
images of all points in between. -/
theorem reproject_isHull_corners :
    (∀ (t : TransformTable σ K) (e : Extent K) (target : ReferenceSystem) (transform : Transform σ K)
      (f : Point K → Point K), e.IsValid → e.reference.flat ≠ target.flat →
      t.find e.reference.flat.code target.flat.code = .ok transform → transform.IsMonotoneOn e.toBox f →
      ∃ d : Box K, d.IsHull ((e.toBox.cornerList.map f).map Box.point) ∧
        (∀ budget w, (t.reproject e target budget w).1 = .value ⟨d, none, target.flat⟩) ∧
        ∀ p, e.toBox.Holds p → d.Holds (f p)) ∧
      (∀ b : Box K, (Transform.identity : Transform σ K).IsMonotoneOn b id) ∧
      (∀ (a : Affine K) (b : Box K), (a.transform : Transform σ K).IsMonotoneOn b a.map) ∧
      (∀ b : Box K, (Transform.swap : Transform σ K).IsMonotoneOn b fun p => ⟨p.y, p.x⟩) ∧
      (∀ m : Mercator K, m.IsMonotone → ∀ b : Box K,
        ((∀ p, b.Holds p → Mercator.isGeographic p = true) →
          (m.forward : Transform σ K).IsMonotoneOn b fun p => ⟨m.easting p.x, m.northing (m.clamp p.y)⟩) ∧
        (m.backward : Transform σ K).IsMonotoneOn b fun p => ⟨m.longitude p.x, m.latitude p.y⟩) ∧
      Mercator.exactSphere.IsMonotone := by
  refine ⟨fun t e target transform f he hne hf hm => ?_, Transform.isMonotoneOn_identity, Affine.isMonotoneOn_transform,
    Transform.isMonotoneOn_swap, fun m hm b => ⟨m.isMonotoneOn_forward hm, m.isMonotoneOn_backward hm b⟩,
    Mercator.isMonotone_exactSphere⟩
  have hne' : e.toBox.cornerList.map f ≠ [] := List.cons_ne_nil _ _
  obtain ⟨d, hd⟩ := Box.exists_ofPoints? hne'
  have hh : d.IsHull ((e.toBox.cornerList.map f).map Box.point) :=
    Box.isHull_ofPoints? (fun p _ => by simp [Point.isFinite, ExactCoordinate.isFinite]) hd
  refine ⟨d, hh, reproject_of_isMonotoneOn he hne hf hm hh, fun p hp => ?_⟩
  exact Box.holds_of_corners he.box hm.x hm.y (fun q hq => hh.holds (List.mem_map_of_mem hq)) hp

theorem reproject_isHull_corners_turned :
    let a : Affine Rat := ⟨⟨-2, 0⟩, ⟨1, 5⟩⟩
    let table : TransformTable Unit Rat := .register .empty "a" "b" a.transform
    let e : Extent Rat := ⟨⟨⟨0, 1⟩, ⟨2, 3⟩⟩, some ⟨0, 9⟩, .compound "c" "a" "v"⟩
    let target : ReferenceSystem := .compound "d" "b" "v"
    e.IsValid ∧ e.reference.flat ≠ target.flat ∧
      table.find e.reference.flat.code target.flat.code = .ok a.transform ∧
      (a.transform : Transform Unit Rat).IsMonotoneOn e.toBox a.map ∧
      ∃ d : Box Rat, d.IsHull ((e.toBox.cornerList.map a.map).map Box.point) ∧
        (∀ budget w, (table.reproject e target budget w).1 = .value ⟨d, none, .horizontal "b"⟩) ∧
        ∀ p, e.toBox.Holds p → d.Holds (a.map p) := by
  intro a table e target
  have he : e.IsValid := ⟨⟨rfl, by decide⟩, ⟨rfl, by decide⟩, fun z hz => by cases hz; exact ⟨rfl, by decide⟩, rfl⟩
  have hne : e.reference.flat ≠ target.flat := by decide
  have hf : table.find e.reference.flat.code target.flat.code = .ok a.transform := find_register _ _ _ _
  obtain ⟨hmain, -, haffine, -⟩ := reproject_isHull_corners (σ := Unit) (K := Rat)
  have hm := haffine a e.toBox
  exact ⟨he, hne, hf, hm, hmain table e target a.transform a.map he hne hf hm⟩

end TransformTable

end ExtentLedger
