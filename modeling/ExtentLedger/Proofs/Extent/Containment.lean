import ExtentLedger.Proofs.Extent.Obtainable

/-!
# Containment and union

One extent contains another where their union adds nothing to its box. `contains` does not look at heights, so the union
may still add to them: the union is the extent itself exactly where its heights cover those of the other as well, which
for extents without heights they always do.
-/

namespace ExtentLedger

variable {K : Type} [Coordinate K] [LawfulCoordinate K]

theorem Span.join_beq_iff {s t : Span K} (hs : s.IsValid) (ht : t.IsValid) :
    (s.join t == s) = true ↔ s.covers t = true := by
  have hl : (s.join t).covers s = true := ((covers_join hs ht).mp (hs.join ht).covers_self).1
  rw [beq_iff_covers, covers_join hs ht]
  exact ⟨fun h => h.2.2, fun h => ⟨hl, hs.covers_self, h⟩⟩

theorem Box.join_beq_iff {b c : Box K} (hb : b.IsValid) (hc : c.IsValid) :
    ((b.join c).inOrder == b) = true ↔ b.covers c = true := by
  have hh : (b.join c).inOrder.IsHull [b, c] := ((IsHull.single hb).join (.single hc)).inOrder
  have hl : (b.join c).inOrder.covers b = true := hh.covers (by simp)
  rw [beq_iff_covers, hh.covers_iff, List.forall_mem_cons, List.forall_mem_singleton]
  exact ⟨fun h => h.2.2, fun h => ⟨hl, hb.covers_self, h⟩⟩

namespace Extent

variable {e f g : Extent K}

omit [LawfulCoordinate K] in
theorem beq_iff : (e == f) = true ↔
    (e.toBox == f.toBox) = true ∧ (e.vertical == f.vertical) = true ∧ e.reference = f.reference := by
  have hb : (e == f) = (e.toBox == f.toBox && (e.vertical == f.vertical && e.reference == f.reference)) := rfl
  rw [hb, Bool.and_eq_true, Bool.and_eq_true, beq_iff_eq (a := e.reference)]

/-- In one system there is a union; it is equal in height to the first exactly where the first covers the second in
height. -/
theorem IsValid.exists_union (he : e.IsValid) (hf : f.IsValid) (hr : e.reference = f.reference) :
    ∃ u, e.union f = .ok u ∧ u.toBox = (e.toBox.join f.toBox).inOrder ∧ u.reference = e.reference ∧
      ((u.vertical == e.vertical) = true ↔ coversHeights e.vertical f.vertical = true) := by
  refine ⟨_, if_pos hr, rfl, rfl, ?_⟩
  rcases he.heights hf hr with ⟨hs, ht⟩ | ⟨s, t, hs, ht⟩
  · rw [hs, ht]
    exact ⟨fun _ => rfl, fun _ => rfl⟩
  · rw [hs, ht]
    exact Span.join_beq_iff (he.vertical s hs) (hf.vertical t ht)

theorem coversHeights_iff_beq (he : e.IsValid) (hf : f.IsValid) (hr : e.reference = f.reference) :
    (e.vertical == f.vertical) = true ↔
      coversHeights e.vertical f.vertical = true ∧ coversHeights f.vertical e.vertical = true := by
  rcases he.heights hf hr with ⟨hs, ht⟩ | ⟨s, t, hs, ht⟩
  · rw [hs, ht]
    exact ⟨fun _ => ⟨rfl, rfl⟩, fun _ => rfl⟩
  · rw [hs, ht]
    exact Span.beq_iff_covers

theorem contains_iff_exists_union (he : e.IsValid) (hf : f.IsValid) :
    e.contains f = true ↔ ∃ u, e.union f = .ok u ∧ (u.toBox == e.toBox) = true := by
  rw [contains_iff]
  constructor
  · intro h
    obtain ⟨hr, hc⟩ := h
    obtain ⟨u, hu, hb, -⟩ := he.exists_union hf hr
    refine ⟨u, hu, ?_⟩
    rw [hb]
    exact (Box.join_beq_iff he.box hf.box).mpr hc
  · intro h
    obtain ⟨u, hu, hb⟩ := h
    by_cases hr : e.reference = f.reference
    · obtain ⟨u', hu', hb', -⟩ := he.exists_union hf hr
      cases hu.symm.trans hu'
      rw [hb'] at hb
      exact ⟨hr, (Box.join_beq_iff he.box hf.box).mp hb⟩
    · rw [union, if_neg hr] at hu
      cases hu

theorem union_beq_iff (he : e.IsValid) (hf : f.IsValid) :
    (∃ u, e.union f = .ok u ∧ (u == e) = true) ↔
      e.contains f = true ∧ coversHeights e.vertical f.vertical = true := by
  rw [contains_iff_exists_union he hf]
  constructor
  · intro h
    obtain ⟨u, hu, he'⟩ := h
    obtain ⟨hb, hz, -⟩ := beq_iff.mp he'
    have hr := reference_eq_of_contains ((contains_iff_exists_union he hf).mpr ⟨u, hu, hb⟩)
    obtain ⟨u', hu', -, -, hv⟩ := he.exists_union hf hr
    cases hu.symm.trans hu'
    exact ⟨⟨u, hu, hb⟩, hv.mp hz⟩
  · intro h
    obtain ⟨⟨u, hu, hb⟩, hz⟩ := h
    have hr := reference_eq_of_contains ((contains_iff_exists_union he hf).mpr ⟨u, hu, hb⟩)
    obtain ⟨u', hu', -, hr', hv⟩ := he.exists_union hf hr
    cases hu.symm.trans hu'
    exact ⟨u, hu, beq_iff.mpr ⟨hb, hv.mpr hz, hr'⟩⟩

theorem contains_trans (h : e.contains f = true) (h' : f.contains g = true) : e.contains g = true := by
  rw [contains_iff] at h h' ⊢
  exact ⟨h.1.trans h'.1, Box.covers_trans h.2 h'.2⟩

theorem beq_iff_of_contains (he : e.IsValid) (hf : f.IsValid) (h : e.contains f = true) (h' : f.contains e = true) :
    (e == f) = true ↔
      coversHeights e.vertical f.vertical = true ∧ coversHeights f.vertical e.vertical = true := by
  have hr := reference_eq_of_contains h
  have hb : (e.toBox == f.toBox) = true := Box.beq_iff_covers.mpr ⟨(contains_iff.mp h).2, (contains_iff.mp h').2⟩
  rw [← coversHeights_iff_beq he hf hr, beq_iff]
  exact ⟨fun h => h.2.1, fun h => ⟨hb, h, hr⟩⟩

omit [LawfulCoordinate K] in
theorem coversHeights_of_planar (he : e.IsValid) (hf : f.IsValid) (hn : e.vertical = none) (h : e.contains f = true) :
    coversHeights e.vertical f.vertical = true ∧ coversHeights f.vertical e.vertical = true := by
  rcases he.heights hf (reference_eq_of_contains h) with ⟨-, ht⟩ | ⟨s, t, hs, -⟩
  · rw [hn, ht]
    exact ⟨rfl, rfl⟩
  · rw [hn] at hs
    cases hs

/-- Containment says all there is to say of the boxes, and so the union is the containing extent itself exactly where
its heights cover those of the other too. -/
theorem contains_iff_union (he : e.IsValid) (hf : f.IsValid) :
    ((∃ u, e.union f = .ok u ∧ (u == e) = true) ↔
        e.contains f = true ∧ coversHeights e.vertical f.vertical = true) ∧
      (e.contains f = true ↔ ∃ u, e.union f = .ok u ∧ (u.toBox == e.toBox) = true) ∧
      (e.contains f = true → f.contains e = true → ((e == f) = true ↔
        coversHeights e.vertical f.vertical = true ∧ coversHeights f.vertical e.vertical = true)) ∧
      (e.vertical = none →
        (e.contains f = true ↔ ∃ u, e.union f = .ok u ∧ (u == e) = true) ∧
        (e.contains f = true → f.contains e = true → (e == f) = true)) ∧
      ∀ g, e.contains f = true → f.contains g = true → e.contains g = true := by
  refine ⟨union_beq_iff he hf, contains_iff_exists_union he hf, beq_iff_of_contains he hf, fun hn => ⟨?_, fun h h' => ?_⟩,
    fun g => contains_trans⟩
  · rw [union_beq_iff he hf]
    exact ⟨fun h => ⟨h, (coversHeights_of_planar he hf hn h).1⟩, fun h => h.1⟩
  · exact (beq_iff_of_contains he hf h h').mpr (coversHeights_of_planar he hf hn h)

theorem contains_iff_union_solid :
    let r : ReferenceSystem := .compound "c" "a" "v"
    let e : Extent Rat := ⟨⟨⟨0, 2⟩, ⟨0, 2⟩⟩, some ⟨1, 4⟩, r⟩
    let f : Extent Rat := ⟨⟨⟨1, 2⟩, ⟨0, 1⟩⟩, some ⟨2, 4⟩, r⟩
    e.IsValid ∧ f.IsValid ∧ e.contains f = true ∧ coversHeights e.vertical f.vertical = true ∧
      ∃ u, e.union f = .ok u ∧ (u == e) = true := by
  intro r e f
  have he : e.IsValid := ⟨⟨rfl, by decide⟩, ⟨rfl, by decide⟩, fun z hz => by cases hz; exact ⟨rfl, by decide⟩, rfl⟩
  have hf : f.IsValid := ⟨⟨rfl, by decide⟩, ⟨rfl, by decide⟩, fun z hz => by cases hz; exact ⟨rfl, by decide⟩, rfl⟩
  have hc : e.contains f = true := by decide
  have hz : coversHeights e.vertical f.vertical = true := by decide
  exact ⟨he, hf, hc, hz, (contains_iff_union he hf).1.mpr ⟨hc, hz⟩⟩

/-- Two extents that differ in height alone contain each other; they are not equal, and their union is the higher one. -/
theorem contains_ne_union :
    let r : ReferenceSystem := .compound "EPSG:4326+5773" "EPSG:4326" "EPSG:5773"
    let b : Box Float := ⟨⟨0, 1⟩, ⟨0, 1⟩⟩
    let e : Extent Float := ⟨b, some ⟨1, 2⟩, r⟩
    let f : Extent Float := ⟨b, some ⟨1, 3⟩, r⟩
    solid b ⟨1, 2⟩ r = .ok e ∧ solid b ⟨1, 3⟩ r = .ok f ∧ e.contains f = true ∧ f.contains e = true ∧
      (e == f) = false ∧ ∀ u, e.union f = .ok u → (u == e) = false := by
  intro r b e f
  have hs : (⟨0, 1⟩ : Span Float).IsValid := ⟨by decide, by decide⟩
  have hb : b.inOrder = b := by
    have h : Span.sorted (0 : Float) 1 = ⟨0, 1⟩ := if_pos (by decide)
    rw [Box.inOrder, h]
  have hmade : ∀ z : Span Float, z.IsValid → solid b z r = .ok ⟨b, some z, r⟩ := fun z hz =>
    solid_eq_ok.mpr ⟨rfl, ⟨hs, hs⟩, hz, by rw [hb]⟩
  refine ⟨hmade ⟨1, 2⟩ ⟨by decide, by decide⟩, hmade ⟨1, 3⟩ ⟨by decide, by decide⟩, by decide, by decide, by decide,
    fun u hu => ?_⟩
  cases hu
  decide

end Extent

end ExtentLedger
