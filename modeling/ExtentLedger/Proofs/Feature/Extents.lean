import ExtentLedger.Proofs.Extent.Join
import ExtentLedger.Proofs.Feature.Boxes
import ExtentLedger.Proofs.Reprojection.Bounds

/-!
# Extents of features

The boxes of all shapes are made extents one after another and united. That succeeds exactly when each box is valid, and
then gives the hull of the boxes, which for finite vertices is their exact bounding box.
-/

namespace ExtentLedger

variable {K : Type} [Coordinate K]

/-! ## Bounds of extents -/

namespace Extent

variable {e f : Extent K} {r : ReferenceSystem} {ps qs : List (Point K)}

def together? : Option (Extent K) → Option (Extent K) → Except Fault (Option (Extent K))
  | some e, some f => some <$> e.union f
  | e, f => .ok (e.or f)

theorem IsBoundsOf.bounds (h : e.IsBoundsOf r ps) : e.toBox.Bounds ps := .of_holds_touches h.holds h.touches

theorem IsBoundsOf.isFlat (h : e.IsBoundsOf r ps) (hf : ∀ p ∈ ps, p.isFinite = true) : e.IsFlat r :=
  ⟨h.bounds.isValid hf, h.vertical, h.reference⟩

end Extent

/-! ## Unions of boxes -/

namespace Box

variable {b c : Box K} {ps qs : List (Point K)}

def ends (b : Box K) : List (Point K) := [⟨b.x.lo, b.y.lo⟩, ⟨b.x.hi, b.y.hi⟩]

omit [Coordinate K] in
theorem touches_ends (b : Box K) : b.Touches b.ends := by
  constructor <;> simp [ends]

omit [Coordinate K] in
theorem Touches.of_ends {bs : List (Box K)} (h : b.Touches (bs.flatMap ends)) (hbs : ∀ c ∈ bs, c.Touches ps) :
    b.Touches ps := by
  have hx : ∀ a ∈ (bs.flatMap ends).map Point.x, a ∈ ps.map Point.x := by
    rw [List.forall_mem_map]
    intro p hp
    obtain ⟨c, hc, hp⟩ := List.mem_flatMap.mp hp
    rcases List.mem_pair.mp hp with rfl | rfl
    · exact (hbs c hc).left
    · exact (hbs c hc).right
  have hy : ∀ a ∈ (bs.flatMap ends).map Point.y, a ∈ ps.map Point.y := by
    rw [List.forall_mem_map]
    intro p hp
    obtain ⟨c, hc, hp⟩ := List.mem_flatMap.mp hp
    rcases List.mem_pair.mp hp with rfl | rfl
    · exact (hbs c hc).bottom
    · exact (hbs c hc).top
  exact ⟨hx _ h.left, hx _ h.right, hy _ h.bottom, hy _ h.top⟩

theorem Holds.of_covers [LawfulCoordinate K] {p : Point K} (h : b.Holds p) (hc : c.covers b = true) : c.Holds p :=
  covers_point.mp (covers_trans hc (covers_point.mpr h))

end Box

namespace Features

variable {r : ReferenceSystem} {o : Option (Extent K)} {b : Box K} {bs cs : List (Box K)}

def isInOrder (f : Features K) : Bool := f.shapes.all Shape.isInOrder

def boxes (f : Features K) : List (Box K) := f.shapes.filterMap Shape.box?

theorem grow_append (o : Option (Extent K)) (bs cs : List (Box K)) :
    grow r o (bs ++ cs) = grow r o bs >>= fun larger => grow r larger cs := by
  induction bs generalizing o with
  | nil => rfl
  | cons b bs ih =>
    rw [List.cons_append, grow, grow]
    simp only [ih, bind_assoc]

theorem grow_toList (o : Option (Extent K)) (b : Option (Box K)) :
    grow r o b.toList = grow r none b.toList >>= Extent.together? o := by
  cases b with
  | none => cases o <;> rfl
  | some b =>
    simp only [Option.toList, grow]
    cases Extent.planar b r with
    | error f => rfl
    | ok e =>
      cases o with
      | none => rfl
      | some d =>
        show (d.union e >>= fun u => .ok (some u)) = some <$> d.union e
        cases d.union e <;> rfl

theorem extent?_push (f : Features K) (s : Shape K) : (f.push s).extent? = (do
    let sofar ← f.extent?
    let pushed ← extent? ⟨f.reference, [s]⟩
    Extent.together? sofar pushed) := by
  have h : [s].filterMap Shape.box? = s.box?.toList := by cases hs : s.box? <;> simp [hs]
  simp only [extent?, push, List.filterMap_append, grow_append, h]
  exact congrArg _ (funext fun o => grow_toList o s.box?)

theorem mem_boxes {f : Features K} : b ∈ f.boxes ↔ ∃ s ∈ f.shapes, s.box? = some b := List.mem_filterMap

theorem boxes_eq_nil {f : Features K} : f.boxes = [] ↔ f.vertices = [] := by
  simp only [boxes, vertices, List.filterMap_eq_nil_iff, List.flatMap_eq_nil_iff, Shape.box?_eq_none]

theorem extent?_of_vertices_eq_nil {f : Features K} (h : f.vertices = []) : f.extent? = .ok none := by
  show grow f.reference none f.boxes = _
  rw [boxes_eq_nil.mpr h]
  rfl

/-- A compound system has no extents without heights, so the first box is refused. -/
theorem extent?_of_isCompound {f : Features K} (hr : f.reference.isCompound = true) (h : f.vertices ≠ []) :
    f.extent? = Extent.refuse (Extent.Defect.planarInCompound f.reference : Extent.Defect K) := by
  obtain ⟨b, bs, hcons⟩ := List.exists_cons_of_ne_nil (mt boxes_eq_nil.mp h)
  show grow f.reference none f.boxes = _
  rw [hcons, grow, Extent.planar, if_pos hr]
  rfl

variable [LawfulCoordinate K]

theorem isValid_of_grow (h : ∃ larger, grow r o bs = .ok larger) : ∀ b ∈ bs, r.isCompound = false ∧ b.IsValid := by
  induction bs generalizing o with
  | nil => exact nofun
  | cons b bs ih =>
    obtain ⟨larger, h⟩ := h
    rw [grow, bind_eq_ok] at h
    obtain ⟨e, he, h⟩ := h
    obtain ⟨hr, hb, -⟩ := Extent.planar_eq_ok.mp he
    rw [bind_eq_ok] at h
    obtain ⟨u, -, h⟩ := h
    exact List.forall_mem_cons.mpr ⟨⟨hr, hb⟩, ih ⟨larger, h⟩⟩

theorem grow_isHull (hr : r.isCompound = false) (hcs : ∀ c ∈ cs, c.IsValid) {e : Extent K} (he : e.IsFlat r)
    (hbs : e.toBox.IsHull bs) (ht : e.toBox.Touches (bs.flatMap Box.ends)) :
    ∃ u : Extent K, grow r (some e) cs = .ok (some u) ∧ u.IsFlat r ∧ u.toBox.IsHull (bs ++ cs) ∧
      u.toBox.Touches ((bs ++ cs).flatMap Box.ends) := by
  induction cs generalizing e bs with
  | nil => exact ⟨e, rfl, he, by rwa [List.append_nil], by rwa [List.append_nil]⟩
  | cons c cs ih =>
    obtain ⟨hc, hcs⟩ := List.forall_mem_cons.mp hcs
    have hp : Extent.planar c r = .ok ⟨c.inOrder, none, r⟩ := Extent.planar_eq_ok.mpr ⟨hr, hc, rfl⟩
    have hflat : (⟨c.inOrder, none, r⟩ : Extent K).IsFlat r := ⟨hc.inOrder, rfl, rfl⟩
    obtain ⟨u, hu, huflat, huhull⟩ := Extent.union_of_isFlat he hflat hbs (Box.IsHull.single hc).inOrder
    have htouch : u.toBox.Touches ((bs ++ [c]).flatMap Box.ends) := by
      rw [Extent.box_of_union hu, List.flatMap_append, List.flatMap_singleton]
      exact (ht.join c.touches_ends.inOrder).inOrder
    obtain ⟨v, hv, hrest⟩ := ih hcs huflat huhull htouch
    rw [List.append_cons]
    exact ⟨v, bind_eq_ok.mpr ⟨_, hp, bind_eq_ok.mpr ⟨u, hu, hv⟩⟩, hrest⟩

theorem extent?_isHull {f : Features K} (hr : f.reference.isCompound = false) (hbs : ∀ b ∈ f.boxes, b.IsValid)
    (hne : f.boxes ≠ []) :
    ∃ e : Extent K, f.extent? = .ok (some e) ∧ e.IsFlat f.reference ∧ e.toBox.IsHull f.boxes ∧
      e.toBox.Touches (f.boxes.flatMap Box.ends) := by
  obtain ⟨b, bs, hcons⟩ := List.exists_cons_of_ne_nil hne
  obtain ⟨hb, hbs⟩ := List.forall_mem_cons.mp (hcons ▸ hbs)
  have hp : Extent.planar b f.reference = .ok ⟨b.inOrder, none, f.reference⟩ := Extent.planar_eq_ok.mpr ⟨hr, hb, rfl⟩
  have ht : b.inOrder.Touches ([b].flatMap Box.ends) := by
    rw [List.flatMap_singleton]
    exact b.touches_ends.inOrder
  have hflat : (⟨b.inOrder, none, f.reference⟩ : Extent K).IsFlat f.reference := ⟨hb.inOrder, rfl, rfl⟩
  obtain ⟨e, he, hrest⟩ := grow_isHull hr hbs hflat (Box.IsHull.single hb).inOrder ht
  have hgrow : f.extent? = grow f.reference none (b :: bs) := congrArg _ hcons
  rw [hcons]
  exact ⟨e, hgrow.trans (bind_eq_ok.mpr ⟨_, hp, he⟩), hrest⟩

theorem exists_extent?_iff {f : Features K} :
    (∃ o, f.extent? = .ok o) ↔ ∀ b ∈ f.boxes, f.reference.isCompound = false ∧ b.IsValid := by
  refine ⟨isValid_of_grow, fun h => ?_⟩
  by_cases hne : f.boxes = []
  · exact ⟨none, extent?_of_vertices_eq_nil (boxes_eq_nil.mp hne)⟩
  · obtain ⟨b, hb⟩ := List.exists_mem_of_ne_nil _ hne
    obtain ⟨e, he, -⟩ := extent?_isHull (h b hb).1 (fun b hb => (h b hb).2) hne
    exact ⟨some e, he⟩

theorem exists_covers_of_extent? {f : Features K} {o : Option (Extent K)} (h : f.extent? = .ok o) (hb : b ∈ f.boxes) :
    ∃ e, o = some e ∧ b.IsValid ∧ e.toBox.covers b = true := by
  have hbs := exists_extent?_iff.mp ⟨o, h⟩
  obtain ⟨e, he, -, hhull, -⟩ := extent?_isHull (hbs b hb).1 (fun b hb => (hbs b hb).2) (List.ne_nil_of_mem hb)
  rw [h, Except.ok.injEq] at he
  exact ⟨e, he, (hbs b hb).2, hhull.covers hb⟩

section
variable {P : K → Prop} {f : Features K} (hP : ∀ {a b : K}, P a → P b → a ≤ b ∨ b ≤ a) (ho : f.isInOrder = true)
  (hv : ∀ p ∈ f.vertices, P p.x ∧ P p.y)
include hP ho hv

theorem bounds?_box? {s : Shape K} (hs : s ∈ f.shapes) : Box.Bounds? s.box? s.vertices :=
  Shape.bounds?_box? hP s (List.all_eq_true.mp ho s hs) fun p hp => hv p (List.mem_flatMap.mpr ⟨s, hs, hp⟩)

theorem isBoundsOf_vertices {e : Extent K} (he : e.IsFlat f.reference) (hhull : e.toBox.IsHull f.boxes)
    (ht : e.toBox.Touches (f.boxes.flatMap Box.ends)) : e.IsBoundsOf f.reference f.vertices := by
  refine ⟨fun p hp => ?_, ht.of_ends fun b hb => ?_, he.vertical, he.reference⟩
  · obtain ⟨s, hs, hp⟩ := List.mem_flatMap.mp hp
    rcases bounds?_box? hP ho hv hs with ⟨-, hnil⟩ | ⟨b, hb, hbounds⟩
    · rw [hnil] at hp
      cases hp
    · have hc := hhull.covers (mem_boxes.mpr ⟨s, hs, hb⟩)
      exact (hbounds.holds hp).of_covers hc
  · obtain ⟨s, hs, hb⟩ := mem_boxes.mp hb
    rcases bounds?_box? hP ho hv hs with ⟨hnone, -⟩ | ⟨c, hc, hbounds⟩
    · rw [hnone] at hb
      cases hb
    · cases hb.symm.trans hc
      exact hbounds.touches.mono fun p hp => List.mem_flatMap.mpr ⟨s, hs, hp⟩

end

/-! ## The exact bounding box -/

section
variable {f g : Features K} (ho : f.isInOrder = true) (hf : ∀ p ∈ f.vertices, p.isFinite = true)
include ho hf

theorem exists_extent?_isBoundsOf (hr : f.reference.isCompound = false) (hne : f.vertices ≠ []) :
    ∃ e, f.extent? = .ok (some e) ∧ e.IsBoundsOf f.reference f.vertices := by
  have hf' : ∀ p ∈ f.vertices, Coordinate.isFinite p.x = true ∧ Coordinate.isFinite p.y = true :=
    fun p hp => Bool.and_eq_true_iff.mp (hf p hp)
  have hbs : ∀ b ∈ f.boxes, b.IsValid := by
    intro b hb
    obtain ⟨s, hs, hb⟩ := mem_boxes.mp hb
    rcases bounds?_box? LawfulCoordinate.le_total ho hf' hs with ⟨hnone, -⟩ | ⟨c, hc, hbounds⟩
    · rw [hnone] at hb
      cases hb
    · cases hb.symm.trans hc
      exact hbounds.isValid fun p hp => hf p (List.mem_flatMap.mpr ⟨s, hs, hp⟩)
  obtain ⟨e, he, hflat, hhull, ht⟩ := extent?_isHull hr hbs (mt boxes_eq_nil.mp hne)
  exact ⟨e, he, isBoundsOf_vertices LawfulCoordinate.le_total ho hf' hflat hhull ht⟩

theorem exists_extent? (hr : f.reference.isCompound = false) : ∃ o, f.extent? = .ok o ∧
    ((o = none ∧ f.vertices = []) ∨ ∃ e, o = some e ∧ e.IsBoundsOf f.reference f.vertices) := by
  by_cases hne : f.vertices = []
  · exact ⟨none, extent?_of_vertices_eq_nil hne, .inl ⟨rfl, hne⟩⟩
  · obtain ⟨e, he, hbounds⟩ := exists_extent?_isBoundsOf ho hf hr hne
    exact ⟨some e, he, .inr ⟨e, rfl, hbounds⟩⟩

/-- Only which vertices there are counts, and neither their order nor what they are parts of. -/
theorem exists_extent?_beq (hr : f.reference.isCompound = false) (hg : g.reference = f.reference)
    (ho' : g.isInOrder = true) (hfg : ∀ p, p ∈ g.vertices ↔ p ∈ f.vertices) :
    ∃ o o', f.extent? = .ok o ∧ g.extent? = .ok o' ∧ (o == o') = true := by
  have hf' : ∀ p ∈ g.vertices, p.isFinite = true := fun p hp => hf p ((hfg p).mp hp)
  obtain ⟨o, h, hcase⟩ := exists_extent? ho hf hr
  obtain ⟨o', h', hcase'⟩ := exists_extent? ho' hf' (hg ▸ hr)
  refine ⟨o, o', h, h', ?_⟩
  have hnil : g.vertices = [] ↔ f.vertices = [] := by simp only [List.eq_nil_iff_forall_not_mem, hfg]
  rcases hcase with ⟨rfl, hf0⟩ | ⟨e, rfl, he⟩
  · rcases hcase' with ⟨rfl, -⟩ | ⟨e', rfl, he'⟩
    · rfl
    · exact absurd (hnil.mpr hf0) he'.bounds.ne_nil
  · rcases hcase' with ⟨rfl, hg0⟩ | ⟨e', rfl, he'⟩
    · exact absurd (hnil.mp hg0) he.bounds.ne_nil
    · have hflat := hg ▸ he'.isFlat hf'
      exact Extent.beq_of_isFlat (he.isFlat hf) hflat (he.bounds.beq (he'.bounds.congr hfg))

end

/-- The extent of features with finite vertices is their exact bounding box, however they are ordered and nested. -/
theorem extent?_isBoundsOf (f : Features K) :
    (f.reference.isCompound = false → f.isInOrder = true → (∀ p ∈ f.vertices, p.isFinite = true) →
      (f.extent? = .ok none ↔ f.vertices = []) ∧
      (f.vertices ≠ [] → ∃ e, f.extent? = .ok (some e) ∧ e.IsBoundsOf f.reference f.vertices) ∧
      (∀ g : Features K, g.reference = f.reference → g.isInOrder = true → (∀ p, p ∈ g.vertices ↔ p ∈ f.vertices) →
        ∃ o o', f.extent? = .ok o ∧ g.extent? = .ok o' ∧ (o == o') = true) ∧
      ∀ s : Shape K, s.isInOrder = true → (∀ p ∈ s.vertices, p.isFinite = true) →
        ∃ o pushed u, f.extent? = .ok o ∧ extent? ⟨f.reference, [s]⟩ = .ok pushed ∧
          Extent.together? o pushed = .ok u ∧ (f.push s).extent? = .ok u) ∧
    (f.reference.isCompound = true →
      (f.vertices = [] → f.extent? = .ok none) ∧
      (f.vertices ≠ [] →
        f.extent? = Extent.refuse (Extent.Defect.planarInCompound f.reference : Extent.Defect K))) := by
  refine ⟨fun hr ho hf => ⟨⟨fun h => ?_, extent?_of_vertices_eq_nil⟩, exists_extent?_isBoundsOf ho hf hr,
    fun g hg ho' hfg => exists_extent?_beq ho hf hr hg ho' hfg, fun s hs hsf => ?_⟩,
    fun hr => ⟨extent?_of_vertices_eq_nil, extent?_of_isCompound hr⟩⟩
  · by_contra hne
    obtain ⟨e, he, -⟩ := exists_extent?_isBoundsOf ho hf hr hne
    rw [h] at he
    cases he
  · have ho' : (f.push s).isInOrder = true := by simpa [isInOrder, push, hs] using ho
    have hf' : ∀ p ∈ (f.push s).vertices, p.isFinite = true := by
      rw [vertices_push]
      exact List.forall_mem_append.mpr ⟨hf, hsf⟩
    obtain ⟨u, hu, -⟩ := exists_extent? ho' hf' hr
    obtain ⟨o, h, hu'⟩ := bind_eq_ok.mp ((extent?_push f s).symm.trans hu)
    obtain ⟨pushed, hpushed, htogether⟩ := bind_eq_ok.mp hu'
    exact ⟨o, pushed, u, h, hpushed, htogether, hu⟩

theorem extent?_isBoundsOf_nested :
    let r : ReferenceSystem := .horizontal "EPSG:4326"
    let hole : List (Point Float) := [⟨-900, -900⟩, ⟨900, 900⟩]
    let f : Features Float := ⟨r, [.path [], .collection [.scatter [⟨-0.0, 7⟩],
      .collection [.polygons [⟨[], [hole]⟩, ⟨[⟨1, -4.5⟩, ⟨3, 2⟩], [hole]⟩], .collection []], .triangle ⟨0, 0⟩ ⟨1, 1⟩ ⟨1, 0⟩],
      .rectangle (.between ⟨2, 1⟩ ⟨-8, 0.25⟩)]⟩
    let g : Features Float := ⟨r, [.scatter f.vertices.reverse]⟩
    let s : Shape Float := .collection [.segment ⟨9, 0⟩ ⟨0, 20⟩]
    let c : Features Float := ⟨.compound "EPSG:7415" "EPSG:28992" "EPSG:5709", f.shapes⟩
    (f.isInOrder = true ∧ (∀ p ∈ f.vertices, p.isFinite = true) ∧ f.vertices ≠ [] ∧
      ∃ e, f.extent? = .ok (some e) ∧ e.IsBoundsOf r f.vertices) ∧
      (g.isInOrder = true ∧ (∀ p, p ∈ g.vertices ↔ p ∈ f.vertices) ∧
        ∃ o o', f.extent? = .ok o ∧ g.extent? = .ok o' ∧ (o == o') = true) ∧
      (s.isInOrder = true ∧ (∀ p ∈ s.vertices, p.isFinite = true) ∧
        ∃ o pushed u, f.extent? = .ok o ∧ extent? ⟨r, [s]⟩ = .ok pushed ∧ Extent.together? o pushed = .ok u ∧
          (f.push s).extent? = .ok u) ∧
      c.vertices ≠ [] ∧ c.extent? = .error (.invalidExtent
        "2D extent cannot use compound reference system EPSG:7415 (EPSG:28992 + EPSG:5709)") := by
  intro r hole f g s c
  have ho : f.isInOrder = true := by decide +kernel
  have hf : ∀ p ∈ f.vertices, p.isFinite = true := by decide +kernel
  have hne : f.vertices ≠ [] := List.ne_nil_of_length_pos (by decide +kernel)
  have hg : ∀ p, p ∈ g.vertices ↔ p ∈ f.vertices := fun p => by simp [g, vertices, Shape.vertices]
  obtain ⟨hmain, hcompound⟩ := extent?_isBoundsOf f
  obtain ⟨-, hbounds, horder, hpush⟩ := hmain rfl ho hf
  have hs : ∀ p ∈ s.vertices, p.isFinite = true := by decide +kernel
  exact ⟨⟨ho, hf, hne, hbounds hne⟩, ⟨rfl, hg, horder g rfl rfl hg⟩, ⟨rfl, hs, hpush s rfl hs⟩, hne,
    ((extent?_isBoundsOf c).2 rfl).2 hne⟩

end Features

end ExtentLedger
