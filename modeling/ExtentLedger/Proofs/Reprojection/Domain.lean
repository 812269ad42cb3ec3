import ExtentLedger.Proofs.Reprojection.Identity
import ExtentLedger.Proofs.Reprojection.Monotone

/-!
# The domain of the projection from degrees

Each sample is checked by itself, and yet the extent alone decides: the samples of a box stay on the globe exactly where
the box does, since its corners are among them and the globe is a box. So no budget gets an extent through that sticks out,
and none stops one that does not. This holds in exact arithmetic, and in doubles too.
-/

namespace ExtentLedger

variable {σ K : Type} [Coordinate K]

def Box.globe : Box K :=
  ⟨⟨-Coordinate.ofNat 180, Coordinate.ofNat 180⟩, ⟨-Coordinate.ofNat 90, Coordinate.ofNat 90⟩⟩

structure Mercator.IsFinite (m : Mercator K) : Prop where
  easting : ∀ lon, isWithin 180 lon = true → Coordinate.isFinite (m.easting lon) = true
  northing : ∀ lat, isWithin 90 lat = true → Coordinate.isFinite (m.northing (m.clamp lat)) = true

theorem Mercator.isFinite_of_exact [ExactCoordinate K] (m : Mercator K) : m.IsFinite :=
  ⟨fun _ _ => ExactCoordinate.isFinite _, fun _ _ => ExactCoordinate.isFinite _⟩

theorem Mercator.isGeographic_iff {p : Point K} : isGeographic p = true ↔ Box.globe.Holds p := by
  simp only [isGeographic, isWithin, Bool.and_eq_true, decide_eq_true_eq]
  exact ⟨fun h => ⟨h.1, h.2⟩, fun h => ⟨h.x, h.y⟩⟩

/-! ## Samples on the globe -/

/-- Numbers in which the samples of a box stay on the globe where the box does. -/
class FairSamples (K : Type) [Coordinate K] extends LawfulCoordinate K where
  covers_iff : ∀ {b : Box K}, b.IsValid → ∀ budget,
    Box.globe.covers b = true ↔ ∀ p ∈ b.samples budget, Box.globe.Holds p

theorem Box.IsHull.covers_iff_holds {b c : Box K} {ps : List (Point K)} (h : b.IsHull (ps.map point)) :
    c.covers b = true ↔ ∀ p ∈ ps, c.Holds p := by
  rw [h.covers_iff, List.forall_mem_map]
  exact forall₂_congr fun _ _ => covers_point

instance [ExactCoordinate K] : FairSamples K where
  covers_iff {b} hb budget := by
    refine Box.IsHull.covers_iff_holds (hb.isHull_of_corners (fun p => hb.holds_of_mem_samples) fun p hp => ?_)
    have hself : ∀ a : K, (a == a) = true := fun a =>
      LawfulCoordinate.beq_iff.mpr ⟨ExactCoordinate.le_refl a, ExactCoordinate.le_refl a⟩
    exact ⟨p, Box.mem_samples_of_mem_cornerList budget hp, hself p.x, hself p.y⟩

section
open Double

theorem Box.isFinite_of_globe {p : Point Float} (h : globe.Holds p) : p.isFinite = true :=
  Bool.and_eq_true_iff.mpr ⟨isFinite_between h.x.1 h.x.2 (by decide +kernel) (by decide +kernel),
    isFinite_between h.y.1 h.y.2 (by decide +kernel) (by decide +kernel)⟩

theorem Span.isFinite_width {s : Span Float} (hs : s.IsValid) {n : ℕ} (hn : n ≤ 180)
    (h : (⟨-Coordinate.ofNat n, Coordinate.ofNat n⟩ : Span Float).covers s = true) : s.width.isFinite = true := by
  obtain ⟨hlo, hhi⟩ := hs.finite
  obtain ⟨hn', hval⟩ := ofNat_finite (n := n) (by omega)
  obtain ⟨hneg, hnegval⟩ := neg_finite hn'
  obtain ⟨hmax, hmaxval⟩ := ofNat_finite (n := 360) (by norm_num)
  rw [covers_iff] at h
  have hl : -(n : ℚ) ≤ value s.lo := by
    rw [← hval, ← hnegval]
    exact (value_le hneg hlo).mpr h.1
  have hh : value s.hi ≤ n := by
    rw [← hval]
    exact (value_le hhi hn').mpr h.2
  have hle : value s.lo ≤ value s.hi := (value_le hlo hhi).mpr hs.2
  have hn : (n : ℚ) ≤ 180 := by exact_mod_cast hn
  refine (yields_sub hhi hlo).isFinite hmax ?_
  rw [hmaxval, abs_of_nonneg (sub_nonneg.mpr hle)]
  norm_num
  linarith

instance : FairSamples Float where
  covers_iff {b} hb budget := by
    by_cases hw : b.x.width.isFinite = true ∧ b.y.width.isFinite = true
    · exact (hb.isHull_samples hw.1 hw.2 budget).2.covers_iff_holds
    · -- A box that is too wide or too high for doubles is not on the globe, and one of its samples is no point.
      constructor
      · intro h
        obtain ⟨hx, hy⟩ := Box.covers_iff.mp h
        exact absurd ⟨Span.isFinite_width hb.x le_rfl hx, Span.isFinite_width hb.y (by norm_num) hy⟩ hw
      · intro h
        obtain ⟨p, hp, hfalse⟩ := Box.exists_sample_not_isFinite hw budget
        rw [Box.isFinite_of_globe (h p hp)] at hfalse
        cases hfalse

end

/-! ## The first point that is refused -/

namespace Transform

variable {t : Transform σ K} {ps : List (Point K)} {ms : List (Mapping K)} {w v : σ} {p : Point K}

theorem Maps.mem_of_find? (h : t.Maps ps w ms v) (ht : ∀ p, (t.apply p).IsPure)
    (hp : ps.find? (fun p => (t.image? w p).isNone) = some p) : (⟨p, (t.apply p w).1⟩ : Mapping K) ∈ ms := by
  induction h with
  | nil => cases hp
  | @cons q r ps answer ms w v u ha hr _ ih =>
    have hq := (ht q).apply w
    rw [ha, Prod.mk.injEq] at hq
    obtain ⟨-, rfl⟩ := hq
    have hi : t.image? v q = some r := by rw [image?, ha, hr]
    rw [List.find?_cons_of_neg (by rw [hi]; simp)] at hp
    exact List.mem_cons_of_mem _ (ih hp)
  | @stop q answer w v ps ha hn =>
    have hi : t.image? w q = none := by rw [image?, ha, hn]
    rw [List.find?_cons_of_pos (by rw [hi]; rfl), Option.some.injEq] at hp
    rw [← hp, ha]
    exact List.mem_singleton_self _

end Transform

namespace TransformTable

variable {t : TransformTable σ K} {e : Extent K} {target : ReferenceSystem} {transform : Transform σ K}

theorem reproject_of_find? (hne : e.reference.flat ≠ target.flat)
    (hf : t.find e.reference.flat.code target.flat.code = .ok transform) (ht : ∀ p, (transform.apply p).IsPure)
    {budget : Nat} {w : σ} {p : Point K}
    (hp : (e.toBox.samples budget).find? (fun p => (transform.image? w p).isNone) = some p) :
    t.reproject e target budget w = (Mapping.breakOff transform.name ⟨p, (transform.apply p w).1⟩, w) := by
  obtain ⟨ms, v, h⟩ := transform.exists_maps (e.toBox.samples budget) w
  have hnone : (transform.image? w p).isNone = true := by simpa using List.find?_some hp
  have hn : Mapping.image? ⟨p, (transform.apply p w).1⟩ = none := Option.isNone_iff_eq_none.mp hnone
  have hm := h.mem_of_find? ht hp
  obtain ⟨rfl, -⟩ := h.of_isPure ht
  exact reproject_of_breakOff hne hf h hm hn

theorem find_standard_forward (m : Mercator K) {target : String}
    (h : target = ReferenceSystem.webMercator ∨ target = ReferenceSystem.webMercatorAlias) :
    (standard m : TransformTable σ K).find ReferenceSystem.geographic target = .ok m.forward := by
  unfold standard
  rcases h with rfl | rfl
  · iterate 5 rw [find_register_of_ne _ _ (by decide)]
    exact find_register _ _ _ _
  · iterate 3 rw [find_register_of_ne _ _ (by decide)]
    exact find_register _ _ _ _

theorem isNone_image?_forward {m : Mercator K} (hm : m.IsFinite) (w : σ) (p : Point K) :
    ((m.forward : Transform σ K).image? w p).isNone = !Mercator.isGeographic p := by
  cases hp : Mercator.isGeographic p with
  | false =>
    simp [Transform.image?, Mercator.forward, Transform.ofFunction, Mercator.project, hp, Attempt.ofExcept, Attempt.fail,
      Mapping.image?]
  | true =>
    obtain ⟨hx, hy⟩ := Bool.and_eq_true_iff.mp hp
    have hfinite : (⟨m.easting p.x, m.northing (m.clamp p.y)⟩ : Point K).isFinite = true :=
      Bool.and_eq_true_iff.mpr ⟨hm.easting p.x hx, hm.northing p.y hy⟩
    simp [Transform.image?, Mercator.forward, Transform.ofFunction, Mercator.project, hp, Attempt.ofExcept,
      Mapping.image?, hfinite]

/-- A rectangle that is not on the globe has a first sample that is not. -/
theorem exists_find?_of_not_covers [FairSamples K] {b : Box K} (hb : b.IsValid) (budget : Nat)
    (h : Box.globe.covers b = false) :
    ∃ p, (b.samples budget).find? (fun p => !Mercator.isGeographic p) = some p ∧ Mercator.isGeographic p = false := by
  have hsome : ((b.samples budget).find? fun p => !Mercator.isGeographic p).isSome = true := by
    rw [List.find?_isSome]
    by_contra hnone
    refine absurd ((FairSamples.covers_iff hb budget).mpr fun p hp => Mercator.isGeographic_iff.mp ?_)
      (Bool.not_eq_true _ ▸ h)
    by_contra hp'
    exact hnone ⟨p, hp, by simpa using hp'⟩
  obtain ⟨p, hp⟩ := Option.isSome_iff_exists.mp hsome
  exact ⟨p, hp, by simpa using List.find?_some hp⟩

theorem breakOff_forward {α : Type} (m : Mercator K) {p : Point K} (hp : Mercator.isGeographic p = false) (w : σ) :
    Mapping.breakOff (m.forward : Transform σ K).name ⟨p, ((m.forward : Transform σ K).apply p w).1⟩ =
      (.failure (.transform ("coordinate " ++ p.text ++ " is outside the geographic domain")) : Outcome Fault α) := by
  simp [Mercator.forward, Transform.ofFunction, Mercator.project, hp, Attempt.ofExcept, Attempt.fail, Mapping.breakOff]

/-- An extent in degrees is projected to spherical Mercator exactly where it lies on the globe; elsewhere its first
sample off the globe is refused. -/
theorem reproject_degrees [FairSamples K] {m : Mercator K} (hm : m.IsFinite) {e : Extent K} (he : e.IsValid)
    (hsource : e.reference.flat = .horizontal ReferenceSystem.geographic) {target : ReferenceSystem}
    (htarget : target.flat = .horizontal ReferenceSystem.webMercator ∨
      target.flat = .horizontal ReferenceSystem.webMercatorAlias) (budget : Nat) (w : σ) :
    ((∃ image, (standard m).reproject e target budget w = (.value image, w)) ↔ Box.globe.covers e.toBox = true) ∧
      (Box.globe.covers e.toBox = false →
        ∃ p, (e.toBox.samples budget).find? (fun p => !Mercator.isGeographic p) = some p ∧
          (standard m).reproject e target budget w =
            (.failure (.transform ("coordinate " ++ p.text ++ " is outside the geographic domain")), w)) := by
  have hne : e.reference.flat ≠ target.flat := by
    rw [hsource]
    rcases htarget with h | h <;> rw [h] <;> decide
  have hf : (standard m : TransformTable σ K).find e.reference.flat.code target.flat.code = .ok m.forward := by
    rw [hsource]
    refine find_standard_forward m (htarget.imp ?_ ?_) <;> exact congrArg ReferenceSystem.code
  have hpure : ∀ p, ((m.forward : Transform σ K).apply p).IsPure := Transform.isPure_ofFunction _ _
  have hfalse : Box.globe.covers e.toBox = false →
      ∃ p, (e.toBox.samples budget).find? (fun p => !Mercator.isGeographic p) = some p ∧
        (standard m).reproject e target budget w =
          (.failure (.transform ("coordinate " ++ p.text ++ " is outside the geographic domain")), w) := by
    intro hout
    obtain ⟨p, hp, hoff⟩ := exists_find?_of_not_covers he.box budget hout
    refine ⟨p, hp, ?_⟩
    simp only [← isNone_image?_forward hm w] at hp
    rw [reproject_of_find? hne hf hpure hp, breakOff_forward m hoff]
  refine ⟨⟨fun h => ?_, fun h => ?_⟩, hfalse⟩
  · obtain ⟨image, h⟩ := h
    by_contra hout
    obtain ⟨p, -, hp⟩ := hfalse (Bool.not_eq_true _ ▸ hout)
    rw [hp] at h
    cases h
  · rcases reproject_of_isPure hne hf hpure budget w with ⟨image, hr, -⟩ | ⟨p, hp, hn, -⟩
    · exact ⟨image, hr⟩
    · have hgeo := Mercator.isGeographic_iff.mpr ((FairSamples.covers_iff he.box budget).mp h p hp)
      have := isNone_image?_forward hm w p
      rw [hn, hgeo] at this
      cases this

theorem reproject_degrees_world :
    let degrees : ReferenceSystem := .compound "EPSG:4326+5773" "EPSG:4326" "EPSG:5773"
    let world : Extent ℝ := ⟨⟨⟨-180, 180⟩, ⟨-90, 90⟩⟩, some ⟨0, 1⟩, degrees⟩
    let target : ReferenceSystem := .compound "EPSG:900913+5773" "EPSG:900913" "EPSG:5773"
    let e : Extent Rat := ⟨⟨⟨0, 200⟩, ⟨0, 10⟩⟩, none, degrees.flat⟩
    let m : Mercator Rat := ⟨85, fun lon => lon * 111319, fun lat => lat * 111319, id, id⟩
    Mercator.exactSphere.IsFinite ∧ m.IsFinite ∧ world.IsValid ∧ e.IsValid ∧
      (∃ image, (standard Mercator.exactSphere).reproject world (.horizontal "EPSG:3857") 7 () = (.value image, ())) ∧
      (standard m).reproject e target 0 () =
        (.failure (.transform "coordinate (200/1, 0/1) is outside the geographic domain"), ()) := by
  intro degrees world target e m
  have hworld : world.IsValid := by
    refine ⟨⟨rfl, ?_⟩, ⟨rfl, ?_⟩, fun z hz => ?_, rfl⟩
    · show (-180 : ℝ) ≤ 180
      norm_num
    · show (-90 : ℝ) ≤ 90
      norm_num
    · cases hz
      exact ⟨rfl, zero_le_one⟩
  have he : e.IsValid := ⟨by decide, by decide, nofun, rfl⟩
  have hglobe : Box.globe.covers world.toBox = true :=
    Box.covers_iff.mpr ⟨Span.covers_iff.mpr ⟨le_refl _, le_refl _⟩, Span.covers_iff.mpr ⟨le_refl _, le_refl _⟩⟩
  have hfirst : ((e.toBox.samples 0).find? fun p => !Mercator.isGeographic p).map (fun p => (p.x, p.y)) =
      some (200, 0) := by decide +kernel
  have hmap : target.flat = .horizontal ReferenceSystem.webMercatorAlias := rfl
  have hm := m.isFinite_of_exact
  have hsphere := Mercator.exactSphere.isFinite_of_exact
  refine ⟨hsphere, hm, hworld, he, (reproject_degrees hsphere hworld rfl (.inl rfl) 7 ()).1.mpr hglobe, ?_⟩
  obtain ⟨⟨x, y⟩, hp, hr⟩ := (reproject_degrees hm he rfl (.inr hmap) 0 ()).2 (by decide +kernel)
  rw [hp, Option.map_some, Option.some.injEq, Prod.mk.injEq] at hfirst
  obtain ⟨rfl, rfl⟩ := hfirst
  rw [hr]
  rfl

end TransformTable

end ExtentLedger
