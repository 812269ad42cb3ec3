import ExtentLedger.Proofs.Extent.Containment

/-!
# Union as a join

Covering on every axis is an order on valid extents, up to `==`, and the union of two extents of one system is their least
upper bound in it. What covers a union is what covers both parts, and the laws of union follow from that alone.
-/

namespace ExtentLedger

variable {K : Type} [Coordinate K]

namespace Extent

variable {e f g u v : Extent K}

structure IsJoin (u e f : Extent K) : Prop where
  valid : u.IsValid
  reference : u.reference = e.reference
  dimension : u.dimension = e.dimension
  left : u.covers e = true
  right : u.covers f = true
  least : ∀ g : Extent K, g.IsValid → g.covers e = true → g.covers f = true → g.covers u = true

theorem covers_iff : e.covers f = true ↔
    e.reference = f.reference ∧ e.toBox.covers f.toBox = true ∧ coversHeights e.vertical f.vertical = true := by
  rw [covers, Bool.and_eq_true, contains_iff, and_assoc]

theorem IsValid.dimension (h : e.IsValid) : e.dimension = e.reference.dimension := by
  rw [Extent.dimension, h.solid_iff, ReferenceSystem.dimension]

/-! ## Unions -/

theorem exists_union_iff : (∃ u, e.union f = .ok u) ↔ e.reference = f.reference := by
  unfold union
  by_cases hr : e.reference = f.reference
  · simp [hr]
  · simp [hr]

theorem box_of_union (hu : e.union f = .ok u) : u.toBox = (e.toBox.join f.toBox).inOrder := by
  rw [union, if_pos (exists_union_iff.mp ⟨u, hu⟩)] at hu
  cases hu
  rfl

theorem reference_of_union (hu : e.union f = .ok u) : u.reference = e.reference := by
  rw [union, if_pos (exists_union_iff.mp ⟨u, hu⟩)] at hu
  cases hu
  rfl

/-- To grow an extent in place is to replace it by the union, and a refused one is kept. -/
theorem enlargeBy_eq (e f : Extent K) :
    f.enlargeBy e = match e.union f with
      | .ok u => (.value (), u)
      | .error fault => (.failure fault, e) := by
  unfold enlargeBy union
  by_cases hr : e.reference = f.reference
  · simp only [if_pos hr]
  · simp only [if_neg hr]

variable [LawfulCoordinate K]

theorem coversHeights_self (h : e.IsValid) : coversHeights e.vertical e.vertical = true := by
  cases hz : e.vertical with
  | none => rfl
  | some s => exact (h.vertical s hz).covers_self

theorem IsValid.covers_self (h : e.IsValid) : e.covers e = true :=
  covers_iff.mpr ⟨rfl, h.box.covers_self, coversHeights_self h⟩

theorem beq_iff_covers (he : e.IsValid) (hf : f.IsValid) :
    (e == f) = true ↔ e.covers f = true ∧ f.covers e = true := by
  rw [beq_iff, Box.beq_iff_covers, covers_iff, covers_iff]
  constructor
  · intro h
    obtain ⟨⟨hb, hb'⟩, hz, hr⟩ := h
    obtain ⟨hz, hz'⟩ := (coversHeights_iff_beq he hf hr).mp hz
    exact ⟨⟨hr, hb, hz⟩, hr.symm, hb', hz'⟩
  · intro h
    obtain ⟨⟨hr, hb, hz⟩, -, hb', hz'⟩ := h
    exact ⟨⟨hb, hb'⟩, (coversHeights_iff_beq he hf hr).mpr ⟨hz, hz'⟩, hr⟩

theorem coversHeights_union (he : e.IsValid) (hf : f.IsValid) (hu : e.union f = .ok u) (z : Option (Span K)) :
    coversHeights z u.vertical = true ↔ coversHeights z e.vertical = true ∧ coversHeights z f.vertical = true := by
  have hr := exists_union_iff.mp ⟨u, hu⟩
  rw [union, if_pos hr] at hu
  rcases he.heights hf hr with ⟨hs, ht⟩ | ⟨s, t, hs, ht⟩
  · rw [hs, ht] at hu ⊢
    cases hu
    exact (and_self_iff).symm
  · rw [hs, ht] at hu ⊢
    cases hu
    cases z with
    | none =>
      constructor
      · intro h
        cases h
      · intro h
        cases h.1
    | some r => exact Span.covers_join (he.vertical s hs) (hf.vertical t ht)

theorem covers_union (he : e.IsValid) (hf : f.IsValid) (hu : e.union f = .ok u) (g : Extent K) :
    g.covers u = true ↔ g.covers e = true ∧ g.covers f = true := by
  have hr := exists_union_iff.mp ⟨u, hu⟩
  rw [covers_iff, covers_iff, covers_iff, coversHeights_union he hf hu, reference_of_union hu, ← hr, box_of_union hu,
    Box.covers_inOrder (he.box.join hf.box), Box.covers_join he.box hf.box]
  tauto

theorem isJoin_union (he : e.IsValid) (hf : f.IsValid) (hu : e.union f = .ok u) : u.IsJoin e f := by
  have hv := he.union hf hu
  have hr := reference_of_union hu
  obtain ⟨hl, hl'⟩ := (covers_union he hf hu u).mp hv.covers_self
  exact ⟨hv, hr, by rw [hv.dimension, he.dimension, hr], hl, hl', fun g _ h h' => (covers_union he hf hu g).mpr ⟨h, h'⟩⟩

/-! ## Laws -/

theorem beq_of_covers_iff (hu : u.IsValid) (hv : v.IsValid)
    (h : ∀ g : Extent K, g.covers u = true ↔ g.covers v = true) : (u == v) = true :=
  (beq_iff_covers hu hv).mpr ⟨(h u).mp hu.covers_self, (h v).mpr hv.covers_self⟩

theorem exists_union_self (he : e.IsValid) : ∃ u, e.union e = .ok u ∧ (u == e) = true := by
  obtain ⟨u, hu⟩ := exists_union_iff.mpr (rfl : e.reference = e.reference)
  exact ⟨u, hu, beq_of_covers_iff (he.union he hu) he fun g => by rw [covers_union he he hu, and_self]⟩

theorem exists_union_comm (he : e.IsValid) (hf : f.IsValid) (hu : e.union f = .ok u) :
    ∃ v, f.union e = .ok v ∧ (u == v) = true := by
  obtain ⟨v, hv⟩ := exists_union_iff.mpr (exists_union_iff.mp ⟨u, hu⟩).symm
  refine ⟨v, hv, beq_of_covers_iff (he.union hf hu) (hf.union he hv) fun g => ?_⟩
  rw [covers_union he hf hu, covers_union hf he hv, and_comm]

theorem exists_unions (he : e.IsValid) (hf : f.IsValid) (hg : g.IsValid) (hef : e.reference = f.reference)
    (hfg : f.reference = g.reference) :
    ∃ x y, (e.union f >>= fun u => u.union g) = .ok x ∧ (f.union g >>= e.union) = .ok y ∧ (x == y) = true := by
  obtain ⟨u, hu⟩ := exists_union_iff.mpr hef
  obtain ⟨v, hv⟩ := exists_union_iff.mpr hfg
  obtain ⟨x, hx⟩ := exists_union_iff.mpr ((reference_of_union hu).trans (hef.trans hfg))
  obtain ⟨y, hy⟩ := exists_union_iff.mpr (hef.trans (reference_of_union hv).symm)
  have hu' := he.union hf hu
  have hv' := hf.union hg hv
  refine ⟨x, y, bind_eq_ok.mpr ⟨u, hu, hx⟩, bind_eq_ok.mpr ⟨v, hv, hy⟩, ?_⟩
  refine beq_of_covers_iff (hu'.union hg hx) (he.union hv' hy) fun c => ?_
  rw [covers_union hu' hg hx, covers_union he hv' hy, covers_union he hf hu, covers_union hf hg hv, and_assoc]

/-- There is a union where the systems are the same; it is the least extent over both on all axes. -/
theorem union_isJoin (he : e.IsValid) (hf : f.IsValid) (hg : g.IsValid) :
    ((∃ u, e.union f = .ok u) ↔ e.reference = f.reference) ∧
      (e.reference ≠ f.reference →
        e.union f = .error (.referenceMismatch e.reference.text f.reference.text) ∧
          f.enlargeBy e = (.failure (.referenceMismatch e.reference.text f.reference.text), e)) ∧
      (∀ u, e.union f = .ok u → f.enlargeBy e = (.value (), u) ∧ u.IsJoin e f) ∧
      (∃ u, e.union e = .ok u ∧ (u == e) = true) ∧
      (∀ u, e.union f = .ok u → ∃ v, f.union e = .ok v ∧ (u == v) = true) ∧
      (∀ x, (e.union f >>= fun u => u.union g) = .ok x →
        ∃ y, (f.union g >>= e.union) = .ok y ∧ (x == y) = true) ∧
      ∀ y, (f.union g >>= e.union) = .ok y →
        ∃ x, (e.union f >>= fun u => u.union g) = .ok x ∧ (x == y) = true := by
  refine ⟨exists_union_iff, fun hne => ?_, fun u hu => ⟨?_, isJoin_union he hf hu⟩, exists_union_self he,
    fun u => exists_union_comm he hf, fun x hx => ?_, fun y hy => ?_⟩
  · have hu : e.union f = .error (.referenceMismatch e.reference.text f.reference.text) := if_neg hne
    exact ⟨hu, by rw [enlargeBy_eq, hu]⟩
  · rw [enlargeBy_eq, hu]
  · obtain ⟨u, hu, hu'⟩ := bind_eq_ok.mp hx
    have hef := exists_union_iff.mp ⟨u, hu⟩
    have hfg := hef.symm.trans ((reference_of_union hu).symm.trans (exists_union_iff.mp ⟨x, hu'⟩))
    obtain ⟨x', y, hx', hy, hxy⟩ := exists_unions he hf hg hef hfg
    cases hx.symm.trans hx'
    exact ⟨y, hy, hxy⟩
  · obtain ⟨v, hv, hv'⟩ := bind_eq_ok.mp hy
    have hfg := exists_union_iff.mp ⟨v, hv⟩
    have hef := (exists_union_iff.mp ⟨y, hv'⟩).trans (reference_of_union hv)
    obtain ⟨x, y', hx, hy', hxy⟩ := exists_unions he hf hg hef hfg
    cases hy.symm.trans hy'
    exact ⟨x, hx, hxy⟩

theorem union_isJoin_solid :
    let r : ReferenceSystem := .compound "c" "a" "v"
    let e : Extent Float := ⟨⟨⟨0, 2⟩, ⟨-1, 1⟩⟩, some ⟨1, 4⟩, r⟩
    let f : Extent Float := ⟨⟨⟨-0.0, 3⟩, ⟨0, 0⟩⟩, some ⟨-2, 2⟩, r⟩
    let g : Extent Float := ⟨⟨⟨0, 2⟩, ⟨-1, 1⟩⟩, none, .horizontal "a"⟩
    let u : Extent Float := ⟨⟨⟨-0.0, 3⟩, ⟨-1, 1⟩⟩, some ⟨-2, 4⟩, r⟩
    e.IsValid ∧ f.IsValid ∧ g.IsValid ∧ e.union f = .ok u ∧ f.enlargeBy e = (.value (), u) ∧ u.IsJoin e f ∧
      e.reference ≠ g.reference ∧ g.enlargeBy e = (.failure (.referenceMismatch "c (a + v)" "a"), e) := by
  intro r e f g u
  have he : e.IsValid := ⟨by decide, by decide, fun z hz => by cases hz; decide, rfl⟩
  have hf : f.IsValid := ⟨by decide, by decide, fun z hz => by cases hz; decide, rfl⟩
  have hg : g.IsValid := ⟨by decide, by decide, nofun, rfl⟩
  have hu : e.union f = .ok u := by
    unfold e f u r
    exact if_pos rfl
  have hr : e.reference ≠ g.reference := by decide
  obtain ⟨-, -, hjoin, -⟩ := union_isJoin he hf hg
  obtain ⟨-, hkept, -⟩ := union_isJoin he hg hf
  exact ⟨he, hf, hg, hu, (hjoin u hu).1, (hjoin u hu).2, hr, (hkept hr).2⟩

end Extent

end ExtentLedger
