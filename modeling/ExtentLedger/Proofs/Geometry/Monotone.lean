import ExtentLedger.Geometry.Boundary
import ExtentLedger.Proofs.Coordinate.Exact
import ExtentLedger.Proofs.Geometry.Points
import Mathlib.Tactic.Linarith

/-!
# Monotone functions on a box

A function of points that goes one way along each axis has its least and its greatest value over a box at corners. So a
box that holds the images of the corners holds the image of every point between them, and in exact arithmetic all samples
of a boundary lie between the corners.
-/

namespace ExtentLedger

variable {K : Type} [Coordinate K]

namespace Span

def Ascends (s : Span K) (g : K → K) : Prop := ∀ a b, s.Holds a → s.Holds b → a ≤ b → g a ≤ g b

def Descends (s : Span K) (g : K → K) : Prop := ∀ a b, s.Holds a → s.Holds b → a ≤ b → g b ≤ g a

def IsEnd (s : Span K) (a : K) : Prop := a = s.lo ∨ a = s.hi

theorem IsValid.holds_of_isEnd [LawfulCoordinate K] {s : Span K} (h : s.IsValid) {a : K} (ha : s.IsEnd a) :
    s.Holds a := by
  rcases ha with rfl | rfl
  · exact ⟨LawfulCoordinate.le_refl h.finite.1, h.2⟩
  · exact ⟨h.2, LawfulCoordinate.le_refl h.finite.2⟩

section
variable {ι : Type} {P : ι → Prop} {g : ι → K → K} {s : Span K} [LawfulCoordinate K] (hs : s.IsValid)
  (h : (∀ i, P i → s.Ascends (g i)) ∨ ∀ i, P i → s.Descends (g i))
include hs h

/-- Functions that go the same way along a span have their least values at the same end. -/
theorem exists_end_le : ∃ a, s.IsEnd a ∧ ∀ i, P i → ∀ x, s.Holds x → g i a ≤ g i x := by
  have hlo := hs.holds_of_isEnd (.inl rfl)
  have hhi := hs.holds_of_isEnd (.inr rfl)
  rcases h with h | h
  · exact ⟨s.lo, .inl rfl, fun i hi x hx => h i hi _ _ hlo hx hx.1⟩
  · exact ⟨s.hi, .inr rfl, fun i hi x hx => h i hi _ _ hx hhi hx.2⟩

theorem exists_end_ge : ∃ a, s.IsEnd a ∧ ∀ i, P i → ∀ x, s.Holds x → g i x ≤ g i a := by
  have hlo := hs.holds_of_isEnd (.inl rfl)
  have hhi := hs.holds_of_isEnd (.inr rfl)
  rcases h with h | h
  · exact ⟨s.hi, .inr rfl, fun i hi x hx => h i hi _ _ hx hhi hx.2⟩
  · exact ⟨s.lo, .inl rfl, fun i hi x hx => h i hi _ _ hlo hx hx.1⟩

end

end Span

namespace Box

/-- The function goes one way along `x`, for every `y` the same, and one way along `y`. -/
structure IsMonotone (b : Box K) (g : Point K → K) : Prop where
  x : (∀ y, b.y.Holds y → b.x.Ascends fun x => g ⟨x, y⟩) ∨ ∀ y, b.y.Holds y → b.x.Descends fun x => g ⟨x, y⟩
  y : (∀ x, b.x.Holds x → b.y.Ascends fun y => g ⟨x, y⟩) ∨ ∀ x, b.x.Holds x → b.y.Descends fun y => g ⟨x, y⟩

def cornerList (b : Box K) : List (Point K) :=
  let (p, q, r, s) := b.corners
  [p, q, r, s]

def sides (b : Box K) : List (Point K × Point K) :=
  let (p, q, r, s) := b.corners
  [(p, q), (q, r), (r, s), (s, p)]

variable {b c : Box K} {p q : Point K} {f : Point K → Point K} {g : Point K → K}

omit [Coordinate K] in
theorem mem_cornerList : p ∈ b.cornerList ↔ b.x.IsEnd p.x ∧ b.y.IsEnd p.y := by
  obtain ⟨x, y⟩ := p
  simp only [cornerList, corners, List.mem_cons, List.not_mem_nil, or_false, Point.mk.injEq, Span.IsEnd]
  tauto

omit [Coordinate K] in
theorem mem_cornerList_of_mem_sides {side : Point K × Point K} (h : side ∈ b.sides) :
    side.1 ∈ b.cornerList ∧ side.2 ∈ b.cornerList := by
  simp only [sides, corners, List.mem_cons, List.not_mem_nil, or_false] at h
  rcases h with rfl | rfl | rfl | rfl <;> simp [cornerList, corners]

omit [Coordinate K] in
theorem exists_mem_sides (h : p ∈ b.cornerList) : ∃ q, (p, q) ∈ b.sides := by
  simp only [cornerList, corners, List.mem_cons, List.not_mem_nil, or_false] at h
  rcases h with rfl | rfl | rfl | rfl
  · exact ⟨_, List.mem_cons_self⟩
  · exact ⟨_, List.mem_cons_of_mem _ List.mem_cons_self⟩
  · exact ⟨_, List.mem_cons_of_mem _ (List.mem_cons_of_mem _ List.mem_cons_self)⟩
  · exact ⟨_, List.mem_cons_of_mem _ (List.mem_cons_of_mem _ (List.mem_cons_of_mem _ List.mem_cons_self))⟩

theorem mem_samples_iff {budget : Nat} : p ∈ b.samples budget ↔ ∃ side ∈ b.sides,
    ∃ step < Boundary.perSide budget, side.1.towards side.2 step (Boundary.perSide budget) = p := by
  simp [samples, sides, corners, Boundary.side]

variable [LawfulCoordinate K]

theorem IsValid.holds_of_mem_cornerList (hb : b.IsValid) (hp : p ∈ b.cornerList) : b.Holds p := by
  obtain ⟨hx, hy⟩ := mem_cornerList.mp hp
  exact ⟨hb.x.holds_of_isEnd hx, hb.y.holds_of_isEnd hy⟩

theorem IsMonotone.exists_corner_le (h : b.IsMonotone g) (hb : b.IsValid) :
    ∃ c ∈ b.cornerList, ∀ p, b.Holds p → g c ≤ g p := by
  obtain ⟨x, hx, hxl⟩ := Span.exists_end_le hb.x h.x
  obtain ⟨y, hy, hyl⟩ := Span.exists_end_le hb.y h.y
  refine ⟨⟨x, y⟩, mem_cornerList.mpr ⟨hx, hy⟩, fun p hp => ?_⟩
  have hp' : g ⟨x, p.y⟩ ≤ g p := hxl p.y hp.y p.x hp.x
  exact LawfulCoordinate.le_trans (hyl x (hb.x.holds_of_isEnd hx) p.y hp.y) hp'

theorem IsMonotone.exists_corner_ge (h : b.IsMonotone g) (hb : b.IsValid) :
    ∃ c ∈ b.cornerList, ∀ p, b.Holds p → g p ≤ g c := by
  obtain ⟨x, hx, hxl⟩ := Span.exists_end_ge hb.x h.x
  obtain ⟨y, hy, hyl⟩ := Span.exists_end_ge hb.y h.y
  refine ⟨⟨x, y⟩, mem_cornerList.mpr ⟨hx, hy⟩, fun p hp => ?_⟩
  have hp' : g p ≤ g ⟨x, p.y⟩ := hxl p.y hp.y p.x hp.x
  exact LawfulCoordinate.le_trans hp' (hyl x (hb.x.holds_of_isEnd hx) p.y hp.y)

theorem IsValid.isHull_of_corners (hb : b.IsValid) {ps : List (Point K)} (hps : ∀ p ∈ ps, b.Holds p)
    (hc : ∀ p ∈ b.cornerList, ∃ r ∈ ps, (r.x == p.x) = true ∧ (r.y == p.y) = true) : b.IsHull (ps.map point) := by
  refine ⟨hb, fun c => ?_⟩
  rw [List.forall_mem_map]
  refine ⟨fun hcb p hp => covers_trans hcb (covers_point.mpr (hps p hp)), fun hcp => ?_⟩
  have hholds : ∀ p ∈ b.cornerList, c.Holds p := by
    intro p hp
    obtain ⟨r, hr, hx, hy⟩ := hc p hp
    rw [LawfulCoordinate.beq_iff] at hx hy
    have hr := covers_point.mp (hcp r hr)
    exact ⟨⟨LawfulCoordinate.le_trans hr.x.1 hx.1, LawfulCoordinate.le_trans hx.2 hr.x.2⟩,
      LawfulCoordinate.le_trans hr.y.1 hy.1, LawfulCoordinate.le_trans hy.2 hr.y.2⟩
  have hl := hholds ⟨b.x.lo, b.y.lo⟩ (mem_cornerList.mpr ⟨.inl rfl, .inl rfl⟩)
  have hu := hholds ⟨b.x.hi, b.y.hi⟩ (mem_cornerList.mpr ⟨.inr rfl, .inr rfl⟩)
  exact covers_iff.mpr ⟨Span.covers_iff.mpr ⟨hl.x.1, hu.x.2⟩, Span.covers_iff.mpr ⟨hl.y.1, hu.y.2⟩⟩

/-- A box that holds the images of the corners holds the image of every point between them. -/
theorem holds_of_corners (hb : b.IsValid) (hx : b.IsMonotone fun p => (f p).x) (hy : b.IsMonotone fun p => (f p).y)
    (hc : ∀ q ∈ b.cornerList, c.Holds (f q)) (hp : b.Holds p) : c.Holds (f p) := by
  obtain ⟨l, hl, hxl⟩ := hx.exists_corner_le hb
  obtain ⟨r, hr, hxr⟩ := hx.exists_corner_ge hb
  obtain ⟨d, hd, hyd⟩ := hy.exists_corner_le hb
  obtain ⟨u, hu, hyu⟩ := hy.exists_corner_ge hb
  constructor
  · exact ⟨LawfulCoordinate.le_trans (hc l hl).x.1 (hxl p hp), LawfulCoordinate.le_trans (hxr p hp) (hc r hr).x.2⟩
  · exact ⟨LawfulCoordinate.le_trans (hc d hd).y.1 (hyd p hp), LawfulCoordinate.le_trans (hyu p hp) (hc u hu).y.2⟩

end Box

/-! ## Exact samples -/

section
variable [ExactCoordinate K] {b : Box K} {p q r : Point K} {s : Span K} {a c : K} {step steps : Nat}

open ExactCoordinate

theorem Span.holds_between (ha : s.Holds a) (hc : s.Holds c) (h : step ≤ steps) :
    s.Holds (a + (c - a) * (Coordinate.ofNat step / Coordinate.ofNat steps)) := by
  have ht₀ : (0 : ℝ) ≤ step / steps := by positivity
  have ht₁ : (step / steps : ℝ) ≤ 1 := div_le_one_of_le₀ (Nat.cast_le.mpr h) (Nat.cast_nonneg _)
  have hal := value_le.mpr ha.1
  have hah := value_le.mpr ha.2
  have hcl := value_le.mpr hc.1
  have hch := value_le.mpr hc.2
  constructor
  · rw [← value_le, value_add, value_mul, value_sub, value_div, value_ofNat, value_ofNat]
    nlinarith
  · rw [← value_le, value_add, value_mul, value_sub, value_div, value_ofNat, value_ofNat]
    nlinarith

theorem Point.towards_zero (p q : Point K) (steps : Nat) : p.towards q 0 steps = p := by
  have hz : ∀ a c : K, a + (c - a) * (Coordinate.ofNat 0 / Coordinate.ofNat steps) = a := by
    intro a c
    apply value_injective
    rw [value_add, value_mul, value_div, value_ofNat, Nat.cast_zero, zero_div, mul_zero, add_zero]
  simp only [Point.towards, hz]

namespace Box

theorem mem_samples_of_mem_cornerList (budget : Nat) (hp : p ∈ b.cornerList) : p ∈ b.samples budget := by
  obtain ⟨q, hq⟩ := exists_mem_sides hp
  exact mem_samples_iff.mpr ⟨(p, q), hq, 0, Boundary.perSide_pos budget, p.towards_zero q _⟩

theorem IsValid.holds_of_mem_samples (hb : b.IsValid) {budget : Nat} (hr : r ∈ b.samples budget) : b.Holds r := by
  obtain ⟨side, hside, step, hstep, rfl⟩ := mem_samples_iff.mp hr
  obtain ⟨hp, hq⟩ := mem_cornerList_of_mem_sides hside
  have hp := hb.holds_of_mem_cornerList hp
  have hq := hb.holds_of_mem_cornerList hq
  exact ⟨Span.holds_between hp.x hq.x hstep.le, Span.holds_between hp.y hq.y hstep.le⟩

end Box

/-! ## Exact boxes -/

theorem Span.eq_of_covers {s t : Span K} (h : s.covers t = true) (h' : t.covers s = true) : s = t := by
  rw [covers_iff] at h h'
  obtain ⟨lo, hi⟩ := s
  obtain ⟨lo', hi'⟩ := t
  rw [Span.mk.injEq]
  exact ⟨eq_of_le h.1 h'.1, eq_of_le h'.2 h.2⟩

namespace Box

theorem eq_of_covers {c : Box K} (h : b.covers c = true) (h' : c.covers b = true) : b = c := by
  obtain ⟨x, y⟩ := b
  obtain ⟨x', y'⟩ := c
  have h := Box.covers_iff.mp h
  have h' := Box.covers_iff.mp h'
  rw [Box.mk.injEq]
  exact ⟨Span.eq_of_covers h.1 h'.1, Span.eq_of_covers h.2 h'.2⟩

theorem IsHull.eq {c : Box K} {parts : List (Box K)} (hb : b.IsHull parts) (hc : c.IsHull parts) : b = c := by
  obtain ⟨h, h'⟩ := beq_iff_covers.mp (hb.beq hc)
  exact eq_of_covers h h'

theorem IsMonotone.of_x {h : K → K} (hh : b.x.Ascends h ∨ b.x.Descends h) : b.IsMonotone fun p => h p.x :=
  ⟨hh.imp (fun hh _ _ => hh) fun hh _ _ => hh, .inl fun x _ _ _ _ _ _ => le_refl (h x)⟩

theorem IsMonotone.of_y {h : K → K} (hh : b.y.Ascends h ∨ b.y.Descends h) : b.IsMonotone fun p => h p.y :=
  ⟨.inl fun y _ _ _ _ _ _ => le_refl (h y), hh.imp (fun hh _ _ => hh) fun hh _ _ => hh⟩

end Box

end

end ExtentLedger
