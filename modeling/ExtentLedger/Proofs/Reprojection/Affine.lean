import ExtentLedger.Proofs.Extent.Join
import ExtentLedger.Proofs.Reprojection.Corners
import ExtentLedger.Proofs.Reprojection.Merging
import Mathlib.Tactic.FieldSimp

/-!
# Affine reprojection

In exact arithmetic an affine reprojection is given by the images of two opposite corners, whatever the budget. It carries
hulls to hulls, so extents can be united before it or after it, and where no axis is scaled to nothing the inverse map
undoes it.
-/

namespace ExtentLedger

variable {σ K : Type} [Coordinate K]

def Span.through (s : Span K) (g : K → K) : Span K := .sorted (g s.lo) (g s.hi)

def Affine.image (a : Affine K) (b : Box K) : Box K :=
  .between (a.map ⟨b.x.lo, b.y.lo⟩) (a.map ⟨b.x.hi, b.y.hi⟩)

/-- The hull of some boxes goes to the hull of what they go to. -/
def Box.KeepsHulls (f : Box K → Box K) : Prop :=
  ∀ (b : Box K) (parts : List (Box K)), b.IsHull parts → parts ≠ [] → (∀ p ∈ parts, p.IsValid) →
    (f b).IsHull (parts.map f)

/-- From one system to the other, extents are carried over by a function of their boxes. -/
def TransformTable.ActsBy (t : TransformTable σ K) (source target : ReferenceSystem) (f : Box K → Box K) : Prop :=
  ∀ e : Extent K, e.IsValid → e.reference.flat = source.flat → ∀ budget w,
    t.reproject e target budget w = (.value ⟨f e.toBox, none, target.flat⟩, w)

variable [ExactCoordinate K]

open ExactCoordinate

theorem ExactCoordinate.total (a b : K) : a ≤ b ∨ b ≤ a := LawfulCoordinate.le_total (isFinite a) (isFinite b)

theorem ExactCoordinate.eq_of_beq {a b : K} (h : (a == b) = true) : a = b :=
  eq_of_le (LawfulCoordinate.beq_iff.mp h).1 (LawfulCoordinate.beq_iff.mp h).2

theorem ExactCoordinate.beq_eq_true {a b : K} : (a == b) = true ↔ a = b :=
  ⟨eq_of_beq, fun h => h ▸ LawfulCoordinate.beq_iff.mpr ⟨le_refl a, le_refl a⟩⟩

/-! ## Spans -/

namespace Span

variable {s t c : Span K} {f g : K → K} {a b : K}

theorem sorted_of_le (h : a ≤ b) : sorted a b = ⟨a, b⟩ := by
  unfold sorted
  by_cases hlt : a < b
  · exact if_pos hlt
  · have hba := LawfulCoordinate.le_of_not_lt (ExactCoordinate.isFinite a) (ExactCoordinate.isFinite b) hlt
    rw [if_neg hlt, eq_of_le h hba]

theorem sorted_of_ge (h : b ≤ a) : sorted a b = ⟨b, a⟩ :=
  if_neg fun hlt => (LawfulCoordinate.lt_iff.mp hlt).2 h

theorem isValid_sorted (a b : K) : (sorted a b).IsValid := by
  have hf : ∀ s : Span K, s.isFinite = true := fun s => by simp [Span.isFinite, ExactCoordinate.isFinite]
  rcases ExactCoordinate.total a b with h | h
  · rw [sorted_of_le h]
    exact ⟨hf _, h⟩
  · rw [sorted_of_ge h]
    exact ⟨hf _, h⟩

theorem covers_sorted_iff : c.covers (sorted a b) = true ↔ c.Holds a ∧ c.Holds b := by
  rw [covers_iff]
  rcases ExactCoordinate.total a b with h | h
  · rw [sorted_of_le h]
    exact ⟨fun hc => ⟨⟨hc.1, LawfulCoordinate.le_trans h hc.2⟩, LawfulCoordinate.le_trans hc.1 h, hc.2⟩,
      fun hc => ⟨hc.1.1, hc.2.2⟩⟩
  · rw [sorted_of_ge h]
    exact ⟨fun hc => ⟨⟨LawfulCoordinate.le_trans hc.1 h, hc.2⟩, hc.1, LawfulCoordinate.le_trans h hc.2⟩,
      fun hc => ⟨hc.2.1, hc.1.2⟩⟩

theorem through_holds (hs : s.IsValid) (hg : s.Ascends g ∨ s.Descends g) (ha : s.Holds a) : (s.through g).Holds (g a) := by
  have hlo := hs.holds_of_isEnd (.inl rfl)
  have hhi := hs.holds_of_isEnd (.inr rfl)
  unfold through
  rcases hg with hg | hg
  · rw [sorted_of_le (hg _ _ hlo hhi hs.2)]
    exact ⟨hg _ _ hlo ha ha.1, hg _ _ ha hhi ha.2⟩
  · rw [sorted_of_ge (hg _ _ hlo hhi hs.2)]
    exact ⟨hg _ _ ha hhi ha.2, hg _ _ hlo ha ha.1⟩

theorem through_covers (hs : s.IsValid) (ht : t.IsValid) (hg : s.Ascends g ∨ s.Descends g) (h : s.covers t = true) :
    (s.through g).covers (t.through g) = true := by
  obtain ⟨hl, hh⟩ := covers_iff.mp h
  refine covers_sorted_iff.mpr ⟨through_holds hs hg ⟨hl, ?_⟩, through_holds hs hg ⟨?_, hh⟩⟩
  · exact LawfulCoordinate.le_trans ht.2 hh
  · exact LawfulCoordinate.le_trans hl ht.2

/-- What undoes a function undoes it on spans, also where the bounds change places. -/
theorem through_through (hs : s.IsValid) (h : ∀ a, f (g a) = a) : (s.through g).through f = s := by
  rcases ExactCoordinate.total (g s.lo) (g s.hi) with hle | hle
  · rw [through, through, sorted_of_le hle, h, h, sorted_of_le hs.2]
  · rw [through, through, sorted_of_ge hle, h, h, sorted_of_ge hs.2]

end Span

/-! ## Boxes -/

namespace Affine

variable {a i : Affine K} {b c : Box K}

theorem isValid_image (a : Affine K) (b : Box K) : (a.image b).IsValid :=
  ⟨Span.isValid_sorted _ _, Span.isValid_sorted _ _⟩

theorem image_covers (hb : b.IsValid) (hc : c.IsValid) (h : b.covers c = true) : (a.image b).covers (a.image c) = true := by
  obtain ⟨hx, hy⟩ := Box.covers_iff.mp h
  exact Box.covers_iff.mpr ⟨Span.through_covers hb.x hc.x (b.x.ascends_or_descends _ _) hx,
    Span.through_covers hb.y hc.y (b.y.ascends_or_descends _ _) hy⟩

/-- Each bound of a hull is the bound of a part, and so what covers the images of the parts covers that of the hull. -/
theorem keepsHulls_image (a : Affine K) : Box.KeepsHulls a.image := by
  intro b parts h hne hv
  refine ⟨a.isValid_image b, fun c => ?_⟩
  rw [List.forall_mem_map]
  constructor
  · intro hc p hp
    exact Box.covers_trans hc (image_covers h.valid (hv p hp) (h.covers hp))
  · intro hc
    have hc : ∀ p ∈ parts, c.Holds (a.map ⟨p.x.lo, p.y.lo⟩) ∧ c.Holds (a.map ⟨p.x.hi, p.y.hi⟩) := by
      intro p hp
      obtain ⟨hx, hy⟩ := Box.covers_iff.mp (hc p hp)
      obtain ⟨hl, hr⟩ := Span.covers_sorted_iff.mp hx
      obtain ⟨hd, hu⟩ := Span.covers_sorted_iff.mp hy
      exact ⟨⟨hl, hd⟩, hr, hu⟩
    obtain ⟨⟨l, hl, hxl⟩, ⟨r, hr, hxr⟩, ⟨d, hd, hyd⟩, ⟨u, hu, hyu⟩⟩ := h.attained hne hv
    rw [Box.covers_iff]
    unfold image
    rw [eq_of_beq hxl, eq_of_beq hxr, eq_of_beq hyd, eq_of_beq hyu]
    exact ⟨Span.covers_sorted_iff.mpr ⟨(hc l hl).1.x, (hc r hr).2.x⟩,
      Span.covers_sorted_iff.mpr ⟨(hc d hd).1.y, (hc u hu).2.y⟩⟩

theorem isHull_image (a : Affine K) (hb : b.IsValid) : (a.image b).IsHull ((b.cornerList.map a.map).map Box.point) := by
  refine ⟨a.isValid_image b, fun c => ?_⟩
  simp only [List.forall_mem_map, Box.covers_point]
  constructor
  · intro hc p hp
    have hp := hb.holds_of_mem_cornerList hp
    obtain ⟨hx, hy⟩ := Box.covers_iff.mp hc
    have hx' := Span.through_holds hb.x (b.x.ascends_or_descends a.scale.x a.offset.x) hp.x
    have hy' := Span.through_holds hb.y (b.y.ascends_or_descends a.scale.y a.offset.y) hp.y
    rw [Span.covers_iff] at hx hy
    exact ⟨⟨LawfulCoordinate.le_trans hx.1 hx'.1, LawfulCoordinate.le_trans hx'.2 hx.2⟩,
      LawfulCoordinate.le_trans hy.1 hy'.1, LawfulCoordinate.le_trans hy'.2 hy.2⟩
  · intro hc
    have hl := hc ⟨b.x.lo, b.y.lo⟩ (Box.mem_cornerList.mpr ⟨.inl rfl, .inl rfl⟩)
    have hh := hc ⟨b.x.hi, b.y.hi⟩ (Box.mem_cornerList.mpr ⟨.inr rfl, .inr rfl⟩)
    exact Box.covers_iff.mpr ⟨Span.covers_sorted_iff.mpr ⟨hl.x, hh.x⟩, Span.covers_sorted_iff.mpr ⟨hl.y, hh.y⟩⟩

/-! ## The inverse map -/

theorem inverse?_isSome (a : Affine K) :
    a.inverse?.isSome = true ↔ a.scale.x ≠ Coordinate.ofNat 0 ∧ a.scale.y ≠ Coordinate.ofNat 0 := by
  unfold inverse?
  by_cases h : (a.scale.x == Coordinate.ofNat 0 || a.scale.y == Coordinate.ofNat 0) = true
  · simp only [h, if_true, Option.isSome_none, Bool.false_eq_true, false_iff]
    rw [Bool.or_eq_true, beq_eq_true, beq_eq_true] at h
    tauto
  · simp only [h]
    rw [Bool.or_eq_true, beq_eq_true, beq_eq_true] at h
    simpa using h

theorem inverse?_map (h : a.inverse? = some i) : (∀ p, i.map (a.map p) = p) ∧ ∀ p, a.map (i.map p) = p := by
  obtain ⟨hx, hy⟩ := a.inverse?_isSome.mp (Option.isSome_of_eq_some h)
  have hz : ∀ k : K, k ≠ Coordinate.ofNat 0 → value k ≠ 0 := by
    intro k hk h
    exact hk (value_injective (by rw [h, value_ofNat, Nat.cast_zero]))
  have hx := hz _ hx
  have hy := hz _ hy
  have hi : i = ⟨⟨Coordinate.ofNat 1 / a.scale.x, Coordinate.ofNat 1 / a.scale.y⟩,
      ⟨-a.offset.x / a.scale.x, -a.offset.y / a.scale.y⟩⟩ := by
    unfold inverse? at h
    dsimp only at h
    split at h
    · cases h
    · exact (Option.some.inj h).symm
  subst hi
  have hback : ∀ s o v : K, value s ≠ 0 → Coordinate.ofNat 1 / s * (s * v + o) + -o / s = v := by
    intro s o v hs
    apply value_injective
    simp only [value_add, value_mul, value_div, value_neg, value_ofNat, Nat.cast_one]
    field_simp
    ring
  have hforth : ∀ s o v : K, value s ≠ 0 → s * (Coordinate.ofNat 1 / s * v + -o / s) + o = v := by
    intro s o v hs
    apply value_injective
    simp only [value_add, value_mul, value_div, value_neg, value_ofNat, Nat.cast_one]
    field_simp
    ring
  exact ⟨fun p => by simp only [map, hback _ _ _ hx, hback _ _ _ hy],
    fun p => by simp only [map, hforth _ _ _ hx, hforth _ _ _ hy]⟩

theorem image_image (hb : b.IsValid) (h : ∀ p, i.map (a.map p) = p) : i.image (a.image b) = b := by
  have hx : ∀ v, i.scale.x * (a.scale.x * v + a.offset.x) + i.offset.x = v := fun v => congrArg Point.x (h ⟨v, v⟩)
  have hy : ∀ v, i.scale.y * (a.scale.y * v + a.offset.y) + i.offset.y = v := fun v => congrArg Point.y (h ⟨v, v⟩)
  have hx := Span.through_through (f := fun v => i.scale.x * v + i.offset.x) hb.x hx
  have hy := Span.through_through (f := fun v => i.scale.y * v + i.offset.y) hb.y hy
  exact (congrArg₂ Box.mk hx hy : (⟨_, _⟩ : Box K) = ⟨b.x, b.y⟩)

end Affine

/-! ## Tables -/

omit [ExactCoordinate K] in
theorem Extent.IsFlat.eq {e f : Extent K} {r : ReferenceSystem} (he : e.IsFlat r) (hf : f.IsFlat r)
    (h : e.toBox = f.toBox) : e = f := by
  obtain ⟨b, z, s⟩ := e
  obtain ⟨c, y, q⟩ := f
  rw [Extent.mk.injEq]
  exact ⟨h, he.vertical.trans hf.vertical.symm, he.reference.trans hf.reference.symm⟩

omit [ExactCoordinate K] in
theorem Box.KeepsHulls.isValid {f : Box K → Box K} (hf : KeepsHulls f) {b : Box K} (hb : b.IsValid) : (f b).IsValid :=
  (hf b [b] (.single hb) (List.cons_ne_nil _ _) (List.forall_mem_singleton.mpr hb)).valid

namespace TransformTable

variable {t : TransformTable σ K} {source target : ReferenceSystem} {a i : Affine K} {f : Box K → Box K} {e : Extent K}

omit [ExactCoordinate K] in
theorem actsBy_id (t : TransformTable σ K) (h : source.flat = target.flat) : t.ActsBy source target id := by
  intro e _ hr budget w
  rw [t.reproject_of_eq (hr.trans h), Extent.flat, hr, h]
  rfl

theorem actsBy_image (h : source.flat ≠ target.flat) (hf : t.find source.flat.code target.flat.code = .ok a.transform) :
    t.ActsBy source target a.image := by
  intro e he hr budget w
  rw [← hr] at h hf
  have hp := isPure_reproject_of_find hf (fun p => .ofExcept (.ok (a.map p))) budget
  rw [hp.apply w, reproject_of_isMonotoneOn he h hf (a.isMonotoneOn_transform e.toBox) (a.isHull_image he.box)]

theorem exists_actsBy (hf : t.find source.flat.code target.flat.code = .ok a.transform) :
    ∃ f, t.ActsBy source target f ∧ Box.KeepsHulls f := by
  by_cases h : source.flat = target.flat
  · exact ⟨id, t.actsBy_id h, fun b parts hb _ _ => by rwa [List.map_id]⟩
  · exact ⟨a.image, actsBy_image h hf, a.keepsHulls_image⟩

theorem exists_reproject_back (hf : t.find source.flat.code target.flat.code = .ok a.transform)
    (hb : t.find target.flat.code source.flat.code = .ok i.transform) (hi : ∀ p, i.map (a.map p) = p) (he : e.IsValid)
    (hr : e.reference.flat = source.flat) (budget budget' : Nat) (w w' : σ) :
    ∃ image, (t.reproject e target budget w).1 = .value image ∧
      (t.reproject image source budget' w').1 = .value e.flat := by
  have hflat : e.flat = ⟨e.toBox, none, source.flat⟩ := by rw [Extent.flat, hr]
  by_cases h : source.flat = target.flat
  · refine ⟨e.flat, by rw [t.reproject_of_eq (hr.trans h)], ?_⟩
    rw [t.reproject_of_isFlat (hr ▸ Extent.isFlat_flat he.box)]
  · have hv : (⟨a.image e.toBox, none, target.flat⟩ : Extent K).IsValid :=
      .of_isFlat ⟨a.isValid_image e.toBox, rfl, rfl⟩
    refine ⟨_, by rw [actsBy_image h hf e he hr], ?_⟩
    rw [actsBy_image (Ne.symm h) hb _ hv target.flat_flat, Affine.image_image he.box hi, hflat]

theorem ActsBy.exists_union (ht : t.ActsBy source target f) (hf : Box.KeepsHulls f) {d : Extent K} (hd : d.IsValid)
    (he : e.IsValid) (hr : d.reference = e.reference) (hs : d.reference.flat = source.flat) (b c k : Nat) (w : σ) :
    ∃ u d' e' u', d.union e = .ok u ∧ (t.reproject d target b w).1 = .value d' ∧
      (t.reproject e target c w).1 = .value e' ∧ d'.union e' = .ok u' ∧ (t.reproject u target k w).1 = .value u' := by
  obtain ⟨u, hu⟩ := Extent.exists_union_iff.mpr hr
  have hus : u.reference.flat = source.flat := by rw [Extent.reference_of_union hu, hs]
  have hd' : (⟨f d.toBox, none, target.flat⟩ : Extent K).IsFlat target.flat := ⟨hf.isValid hd.box, rfl, rfl⟩
  have he' : (⟨f e.toBox, none, target.flat⟩ : Extent K).IsFlat target.flat := ⟨hf.isValid he.box, rfl, rfl⟩
  obtain ⟨u', hu', hflat, hull⟩ := Extent.union_of_isFlat hd' he' (.single hd'.box) (.single he'.box)
  -- The image of the union and the union of the images are hulls of the same two boxes.
  have hbox : u.toBox.IsHull [d.toBox, e.toBox] := by
    rw [Extent.box_of_union hu]
    exact ((Box.IsHull.single hd.box).join (.single he.box)).inOrder
  have hv : ∀ p ∈ [d.toBox, e.toBox], p.IsValid := by simp [hd.box, he.box]
  have himage := hf _ _ hbox (List.cons_ne_nil _ _) hv
  have heq : (⟨f u.toBox, none, target.flat⟩ : Extent K) = u' :=
    Extent.IsFlat.eq ⟨himage.valid, rfl, rfl⟩ hflat (himage.eq hull)
  refine ⟨u, _, _, u', hu, by rw [ht d hd hs], by rw [ht e he (hr ▸ hs)], hu', ?_⟩
  rw [ht u (hd.union he hu) hus, heq]

omit [ExactCoordinate K] in
theorem ActsBy.reprojects (ht : t.ActsBy source target f) (budget : Nat) (w : σ) :
    ∀ es : List (Extent K), (∀ e ∈ es, e.IsValid ∧ e.reference.flat = source.flat) →
      t.Reprojects target budget es w (es.map fun e => ⟨f e.toBox, none, target.flat⟩) w
  | [], _ => .nil w
  | e :: es, h => by
    rw [List.forall_mem_cons] at h
    exact .cons (ht e h.1.1 h.1.2 budget w) (ActsBy.reprojects ht budget w es h.2)

theorem ActsBy.exists_merged (ht : t.ActsBy source target f) {es : List (Extent K)} (hne : es ≠ [])
    (h : ∀ e ∈ es, e.IsValid ∧ e.reference.flat = source.flat) (budget : Nat) (w : σ) :
    ∃ m, (Merger.reprojecting t budget target es w).1 = .value (some m) ∧ m.IsFlat target.flat ∧
      m.toBox.IsHull ((es.map Extent.toBox).map f) := by
  obtain ⟨r, hv, hm⟩ := Merger.reprojecting_of_reprojects (ht.reprojects budget w es h) fun e he => (h e he).1.box
  rw [List.map_map] at hm
  cases r with
  | none => exact absurd (List.map_eq_nil_iff.mp hm) hne
  | some m => exact ⟨m, by rw [hv], hm.1, by rw [List.map_map]; exact hm.2⟩

/-- Extents of one system can be merged there and the result reprojected, or they can be merged in the target system. -/
theorem ActsBy.exists_merged_image (ht : t.ActsBy source target f) (hf : Box.KeepsHulls f) {es : List (Extent K)}
    (hne : es ≠ []) (h : ∀ e ∈ es, e.IsValid ∧ e.reference.flat = source.flat) (b c k : Nat) (w : σ) :
    ∃ m image, (Merger.reprojecting t b source es w).1 = .value (some m) ∧
      (t.reproject m target c w).1 = .value image ∧
      (Merger.reprojecting t k target es w).1 = .value (some image) := by
  obtain ⟨m, hm, hflat, hull⟩ := (t.actsBy_id (rfl : source.flat = source.flat)).exists_merged hne h b w
  obtain ⟨image, himage, hflat', hull'⟩ := ht.exists_merged hne h k w
  rw [List.map_id] at hull
  have hv : ∀ p ∈ es.map Extent.toBox, p.IsValid := by
    intro p hp
    obtain ⟨e, he, rfl⟩ := List.mem_map.mp hp
    exact (h e he).1.box
  have hms : m.reference.flat = source.flat := by rw [hflat.reference, ReferenceSystem.flat_flat]
  have hfm := hf _ _ hull (fun hn => hne (List.map_eq_nil_iff.mp hn)) hv
  refine ⟨m, image, hm, ?_, himage⟩
  rw [ht m (.of_isFlat hflat) hms]
  exact congrArg Outcome.value (Extent.IsFlat.eq ⟨hfm.valid, rfl, rfl⟩ hflat' (hfm.eq hull'))

/-- An affine reprojection comes to the box between the images of two opposite corners; it can be exchanged with
merging, and undone where no axis is scaled to nothing. -/
theorem reproject_affine (a : Affine K) (t : TransformTable σ K) (source target : ReferenceSystem)
    (hf : t.find source.flat.code target.flat.code = .ok a.transform) :
    (a.inverse?.isSome = true ↔ a.scale.x ≠ Coordinate.ofNat 0 ∧ a.scale.y ≠ Coordinate.ofNat 0) ∧
      (∀ e : Extent K, e.IsValid → e.reference.flat = source.flat → source.flat ≠ target.flat → ∀ budget w,
        t.reproject e target budget w =
          (.value ⟨.between (a.map ⟨e.x.lo, e.y.lo⟩) (a.map ⟨e.x.hi, e.y.hi⟩), none, target.flat⟩, w)) ∧
      (∀ i, a.inverse? = some i → t.find target.flat.code source.flat.code = .ok i.transform → ∀ budget budget' w w',
        (∀ e : Extent K, e.IsValid → e.reference.flat = source.flat → (e.reference = source.flat → e.flat = e) ∧
          ∃ image, (t.reproject e target budget w).1 = .value image ∧
            (t.reproject image source budget' w').1 = .value e.flat) ∧
        ∀ e : Extent K, e.IsValid → e.reference.flat = target.flat → (e.reference = target.flat → e.flat = e) ∧
          ∃ image, (t.reproject e source budget w).1 = .value image ∧
            (t.reproject image target budget' w').1 = .value e.flat) ∧
      (∀ d e : Extent K, d.IsValid → e.IsValid → d.reference = e.reference → d.reference.flat = source.flat →
        ∀ b c k w, ∃ u d' e' u', d.union e = .ok u ∧ (t.reproject d target b w).1 = .value d' ∧
          (t.reproject e target c w).1 = .value e' ∧ d'.union e' = .ok u' ∧
          (t.reproject u target k w).1 = .value u') ∧
      ∀ es : List (Extent K), es ≠ [] → (∀ e ∈ es, e.IsValid ∧ e.reference.flat = source.flat) → ∀ b c k w,
        ∃ m image, (Merger.reprojecting t b source es w).1 = .value (some m) ∧
          (t.reproject m target c w).1 = .value image ∧
          (Merger.reprojecting t k target es w).1 = .value (some image) := by
  obtain ⟨f, ht, hkeep⟩ := exists_actsBy hf
  have hflat : ∀ {e : Extent K} {r : ReferenceSystem}, e.IsValid → e.reference = r.flat → e.flat = e := by
    intro e r he hr
    have hc : e.reference.isCompound = false := by rw [hr, ReferenceSystem.isCompound_flat]
    exact Extent.IsFlat.eq (hr ▸ Extent.isFlat_flat he.box)
      ⟨he.box, he.vertical_eq_none hc, by rw [hr, ReferenceSystem.flat_flat]⟩ rfl
  refine ⟨a.inverse?_isSome, fun e he hr hne => actsBy_image hne hf e he hr, fun i hi hb budget budget' w w' => ?_,
    fun d e hd he hr hs => ht.exists_union hkeep hd he hr hs, fun es hne h => ht.exists_merged_image hkeep hne h⟩
  obtain ⟨hback, hforth⟩ := Affine.inverse?_map hi
  exact ⟨fun e he hr => ⟨hflat he, exists_reproject_back hf hb hback he hr budget budget' w w'⟩,
    fun e he hr => ⟨hflat he, exists_reproject_back hb hf hforth he hr budget budget' w w'⟩⟩

theorem reproject_affine_mirrored :
    let a : Affine Rat := ⟨⟨-2, 1 / 2⟩, ⟨10, -4⟩⟩
    let i : Affine Rat := ⟨⟨-1 / 2, 2⟩, ⟨5, 8⟩⟩
    let table : TransformTable Unit Rat := (empty.register "b" "a" i.transform).register "a" "b" a.transform
    let source : ReferenceSystem := .horizontal "a"
    let target : ReferenceSystem := .horizontal "b"
    let d : Extent Rat := ⟨⟨⟨0, 1⟩, ⟨2, 3⟩⟩, none, source⟩
    let e : Extent Rat := ⟨⟨⟨4, 7⟩, ⟨-1, 2⟩⟩, none, source⟩
    a.inverse? = some i ∧ table.find "a" "b" = .ok a.transform ∧ table.find "b" "a" = .ok i.transform ∧
      d.IsValid ∧ e.IsValid ∧ [d, e] ≠ [] ∧
      (∃ image, (table.reproject d target 8 ()).1 = .value image ∧ (table.reproject image source 0 ()).1 = .value d) ∧
      (∃ u d' e' u', d.union e = .ok u ∧ (table.reproject d target 8 ()).1 = .value d' ∧
        (table.reproject e target 0 ()).1 = .value e' ∧ d'.union e' = .ok u' ∧
        (table.reproject u target 4 ()).1 = .value u') ∧
      ∃ m image, (Merger.reprojecting table 8 source [d, e] ()).1 = .value (some m) ∧
        (table.reproject m target 0 ()).1 = .value image ∧
        (Merger.reprojecting table 4 target [d, e] ()).1 = .value (some image) := by
  intro a i table source target d e
  have hi : a.inverse? = some i := by norm_num [a, i, Affine.inverse?, Coordinate.ofNat]
  have hf : table.find "a" "b" = .ok a.transform := find_register _ _ _ _
  have hb : table.find "b" "a" = .ok i.transform := by
    rw [find_register_of_ne _ _ (by decide)]
    exact find_register _ _ _ _
  have hd : d.IsValid := ⟨by decide, by decide, nofun, rfl⟩
  have he : e.IsValid := ⟨by decide, by decide, nofun, rfl⟩
  have hde : ∀ x ∈ [d, e], x.IsValid ∧ x.reference.flat = source.flat := by
    rw [List.forall_mem_cons, List.forall_mem_singleton]
    exact ⟨⟨hd, rfl⟩, he, rfl⟩
  obtain ⟨-, -, hback, hunion, hmerge⟩ := reproject_affine a table source target hf
  exact ⟨hi, hf, hb, hd, he, List.cons_ne_nil _ _, ((hback i hi hb 8 0 () ()).1 d hd rfl).2,
    hunion d e hd he rfl rfl 8 0 4 (), hmerge [d, e] (List.cons_ne_nil _ _) hde 8 0 4 ()⟩

end TransformTable

end ExtentLedger
