import Mathlib.Algebra.Order.Archimedean.Real.Basic
import ExtentLedger.Proofs.Geometry.Monotone

/-!
# The walk along a boundary

In exact arithmetic the samples of a box walk once round its boundary. They set out from its lower left corner, come by
the other corners after equally many steps, and close up behind the last one: on every side, the last one included, each
point lies between two samples that follow each other.
-/

namespace ExtentLedger

/-! ## Lists of equal parts -/

theorem getElem?_flatMap_of_length {α β : Type} {f : α → List β} {n : Nat} (hf : ∀ a, (f a).length = n) {j : Nat}
    (hj : j < n) (l : List α) (k : Nat) : (l.flatMap f)[k * n + j]? = l[k]?.bind fun a => (f a)[j]? := by
  induction l generalizing k with
  | nil => rfl
  | cons a l ih =>
    rw [List.flatMap_cons]
    cases k with
    | zero => rw [Nat.zero_mul, Nat.zero_add, List.getElem?_append_left (by rwa [hf])]; rfl
    | succ k =>
      have hk : (k + 1) * n + j - n = k * n + j := by rw [Nat.succ_mul]; omega
      rw [List.getElem?_append_right (by rw [hf, Nat.succ_mul]; omega), hf, hk, ih]
      rfl

theorem exists_step {t : ℝ} {steps : Nat} (hsteps : 0 < steps) (h0 : 0 ≤ t) (h1 : t ≤ 1) :
    ∃ step < steps, |step / steps - t| ≤ 1 / steps ∧ |t - (step + 1 : Nat) / steps| ≤ 1 / steps := by
  have hreach : ∀ n : Nat, 0 < n → t * steps ≤ n → ∃ step < n, step ≤ t * steps ∧ t * steps ≤ step + 1 := by
    intro n hn ht
    induction n, hn using Nat.le_induction with
    | base => exact ⟨0, Nat.zero_lt_one, by push_cast; positivity, by simpa using ht⟩
    | succ n _ ih =>
      rcases le_total (t * steps) n with h | h
      · obtain ⟨step, hs, h⟩ := ih h
        exact ⟨step, Nat.lt_succ_of_lt hs, h⟩
      · exact ⟨n, Nat.lt_succ_self n, h, by exact_mod_cast ht⟩
  have hpos : (0 : ℝ) < steps := Nat.cast_pos.mpr hsteps
  obtain ⟨step, hs, hlo, hhi⟩ := hreach steps hsteps (mul_le_of_le_one_left hpos.le h1)
  have hlo := (div_le_iff₀ hpos).mpr hlo
  have hhi := (le_div_iff₀ hpos).mpr hhi
  rw [add_div] at hhi
  refine ⟨step, hs, ?_, ?_⟩
  · rw [abs_le]
    constructor <;> linarith
  · rw [Nat.cast_succ, add_div, abs_le]
    constructor <;> linarith

theorem exists_part {a c z : ℝ} (hlo : min a c ≤ z) (hhi : z ≤ max a c) :
    ∃ t : ℝ, 0 ≤ t ∧ t ≤ 1 ∧ z = a + (c - a) * t := by
  rcases eq_or_ne a c with rfl | hne
  · rw [min_self] at hlo
    rw [max_self] at hhi
    exact ⟨0, le_rfl, zero_le_one, by linarith⟩
  · refine ⟨(z - a) / (c - a), ?_, ?_, ?_⟩
    · rcases le_total a c with h | h
      · rw [min_eq_left h] at hlo
        exact div_nonneg (sub_nonneg.mpr hlo) (sub_nonneg.mpr h)
      · rw [max_eq_left h] at hhi
        exact div_nonneg_of_nonpos (sub_nonpos.mpr hhi) (sub_nonpos.mpr h)
    · rcases lt_or_gt_of_ne hne with h | h
      · rw [max_eq_right h.le] at hhi
        exact div_le_one_of_le₀ (sub_le_sub_right hhi a) (sub_nonneg.mpr h.le)
      · rw [min_eq_right h.le] at hlo
        exact (div_le_one_of_neg (sub_neg.mpr h)).mpr (sub_le_sub_right hlo a)
    · rw [mul_div_cancel₀ _ (sub_ne_zero.mpr hne.symm)]
      ring

variable {K : Type}

/-! ## Sides -/

theorem Box.exists_next_side {b : Box K} {k : Nat} {side : Point K × Point K} (h : b.sides[k]? = some side) :
    b.cornerList[k]? = some side.1 ∧ ∃ next, b.sides[(k + 1) % 4]? = some next ∧ next.1 = side.2 := by
  match k with
  | 0 | 1 | 2 | 3 => cases h; exact ⟨rfl, _, rfl, rfl⟩
  | k + 4 => cases h

variable [Coordinate K]

/-- A side goes along one of the axes, so it is all of the box between its ends. -/
def Point.IsOn (r : Point K) (side : Point K × Point K) : Prop := (Box.between side.1 side.2).Holds r

structure Point.IsOnBoundary (r : Point K) (b : Box K) : Prop where
  holds : b.Holds r
  atEnd : b.x.IsEnd r.x ∨ b.y.IsEnd r.y

theorem Point.isOn_iff {p q r : Point K} :
    r.IsOn (p, q) ↔ (Span.sorted p.x q.x).Holds r.x ∧ (Span.sorted p.y q.y).Holds r.y :=
  ⟨fun h => ⟨h.x, h.y⟩, fun h => ⟨h.1, h.2⟩⟩

variable [ExactCoordinate K]

open ExactCoordinate

namespace Span

variable {a c z : K}

theorem holds_sorted : (sorted a c).Holds z ↔
    min (value a) (value c) ≤ value z ∧ value z ≤ max (value a) (value c) := by
  unfold sorted Holds
  by_cases h : a < c
  · have h' := (value_lt.mpr h).le
    rw [if_pos h, min_eq_left h', max_eq_right h', value_le, value_le]
  · have h' := not_lt.mp fun hlt => h (value_lt.mp hlt)
    rw [if_neg h, min_eq_right h', max_eq_left h', value_le, value_le]

theorem holds_sorted_comm : (sorted a c).Holds z ↔ (sorted c a).Holds z := by
  rw [holds_sorted, holds_sorted, min_comm, max_comm]

theorem holds_sorted_self : (sorted a a).Holds z ↔ z = a := by
  rw [holds_sorted, min_self, max_self, ← le_antisymm_iff, value_injective.eq_iff]
  exact eq_comm

theorem holds_sorted_of_le {s : Span K} (h : s.lo ≤ s.hi) : (sorted s.lo s.hi).Holds z ↔ s.Holds z := by
  rw [holds_sorted, min_eq_left (value_le.mpr h), max_eq_right (value_le.mpr h), value_le, value_le]
  rfl

end Span

theorem Point.isOnBoundary_iff {b : Box K} (hx : b.x.lo ≤ b.x.hi) (hy : b.y.lo ≤ b.y.hi) {r : Point K} :
    r.IsOnBoundary b ↔ ∃ side ∈ b.sides, r.IsOn side := by
  have hlower : r.IsOn (⟨b.x.lo, b.y.lo⟩, ⟨b.x.hi, b.y.lo⟩) ↔ b.x.Holds r.x ∧ r.y = b.y.lo := by
    rw [isOn_iff, Span.holds_sorted_of_le hx, Span.holds_sorted_self]
  have hright : r.IsOn (⟨b.x.hi, b.y.lo⟩, ⟨b.x.hi, b.y.hi⟩) ↔ r.x = b.x.hi ∧ b.y.Holds r.y := by
    rw [isOn_iff, Span.holds_sorted_of_le hy, Span.holds_sorted_self]
  have hupper : r.IsOn (⟨b.x.hi, b.y.hi⟩, ⟨b.x.lo, b.y.hi⟩) ↔ b.x.Holds r.x ∧ r.y = b.y.hi := by
    rw [isOn_iff, Span.holds_sorted_comm, Span.holds_sorted_of_le hx, Span.holds_sorted_self]
  have hleft : r.IsOn (⟨b.x.lo, b.y.hi⟩, ⟨b.x.lo, b.y.lo⟩) ↔ r.x = b.x.lo ∧ b.y.Holds r.y := by
    rw [isOn_iff, Span.holds_sorted_self, Span.holds_sorted_comm, Span.holds_sorted_of_le hy]
  simp only [Box.sides, Box.corners, List.mem_cons, List.not_mem_nil, or_false, exists_eq_or_imp, exists_eq_left,
    hlower, hright, hupper, hleft]
  constructor
  · intro h
    obtain ⟨⟨hrx, hry⟩, (h | h) | h | h⟩ := h
    · exact .inr (.inr (.inr ⟨h, hry⟩))
    · exact .inr (.inl ⟨h, hry⟩)
    · exact .inl ⟨hrx, h⟩
    · exact .inr (.inr (.inl ⟨hrx, h⟩))
  · intro h
    have hends : ∀ {s : Span K}, s.lo ≤ s.hi → ∀ {a}, s.IsEnd a → s.Holds a := by
      intro s hs a ha
      rcases ha with rfl | rfl
      · exact ⟨le_refl _, hs⟩
      · exact ⟨hs, le_refl _⟩
    rcases h with ⟨hrx, h⟩ | ⟨h, hry⟩ | ⟨hrx, h⟩ | ⟨h, hry⟩
    · exact ⟨⟨hrx, hends hy (.inl h)⟩, .inr (.inl h)⟩
    · exact ⟨⟨hends hx (.inr h), hry⟩, .inl (.inr h)⟩
    · exact ⟨⟨hrx, hends hy (.inr h)⟩, .inr (.inr h)⟩
    · exact ⟨⟨hends hx (.inl h), hry⟩, .inl (.inl h)⟩

/-! ## Ways along a side -/

noncomputable def Point.distance (p q : Point K) : ℝ := |value p.x - value q.x| + |value p.y - value q.y|

structure Point.IsAt (p q : Point K) (t : ℝ) (r : Point K) : Prop where
  x : value r.x = value p.x + (value q.x - value p.x) * t
  y : value r.y = value p.y + (value q.y - value p.y) * t

namespace Point

variable {p q r s : Point K} {t u : ℝ}

theorem isAt_towards (p q : Point K) (step steps : Nat) : p.IsAt q (step / steps) (p.towards q step steps) := by
  constructor <;> simp only [towards, value_add, value_mul, value_sub, value_div, value_ofNat]

theorem IsAt.distance (hr : p.IsAt q t r) (hs : p.IsAt q u s) : r.distance s = p.distance q * |t - u| := by
  have hx : value r.x - value s.x = (value p.x - value q.x) * (u - t) := by rw [hr.x, hs.x]; ring
  have hy : value r.y - value s.y = (value p.y - value q.y) * (u - t) := by rw [hr.y, hs.y]; ring
  rw [Point.distance, Point.distance, hx, hy, abs_mul, abs_mul, ← add_mul, abs_sub_comm t u]

theorem IsAt.isOn (hr : p.IsAt q t r) (h0 : 0 ≤ t) (h1 : t ≤ 1) : r.IsOn (p, q) := by
  have hz : ∀ a c : ℝ, min a c ≤ a + (c - a) * t ∧ a + (c - a) * t ≤ max a c := by
    intro a c
    rcases le_total a c with h | h
    · rw [min_eq_left h, max_eq_right h]
      constructor <;> nlinarith
    · rw [min_eq_right h, max_eq_left h]
      constructor <;> nlinarith
  exact ⟨Span.holds_sorted.mpr (hr.x ▸ hz _ _), Span.holds_sorted.mpr (hr.y ▸ hz _ _)⟩

theorem exists_isAt {b : Box K} {side : Point K × Point K} (hside : side ∈ b.sides) (hr : r.IsOn side) :
    ∃ t, 0 ≤ t ∧ t ≤ 1 ∧ side.1.IsAt side.2 t r := by
  obtain ⟨p, q⟩ := side
  obtain ⟨hx, hy⟩ := hr
  have hx := Span.holds_sorted.mp hx
  have hy := Span.holds_sorted.mp hy
  -- One of the coordinates stays the same along a side.
  have haxis : q.x = p.x ∨ q.y = p.y := by
    simp only [Box.sides, Box.corners, List.mem_cons, List.not_mem_nil, or_false, Prod.mk.injEq] at hside
    rcases hside with h | h | h | h <;> rw [h.1, h.2] <;> simp
  rcases haxis with h | h
  · obtain ⟨t, h0, h1, ht⟩ := exists_part hy.1 hy.2
    simp only [h, min_self, max_self] at hx
    exact ⟨t, h0, h1, by simp [h, le_antisymm hx.2 hx.1], ht⟩
  · obtain ⟨t, h0, h1, ht⟩ := exists_part hx.1 hx.2
    simp only [h, min_self, max_self] at hy
    exact ⟨t, h0, h1, ht, by simp [h, le_antisymm hy.2 hy.1]⟩

theorem towards_self (p q : Point K) {steps : Nat} (h : 0 < steps) : p.towards q steps steps = q := by
  have hz := p.isAt_towards q steps steps
  rw [div_self (Nat.cast_ne_zero.mpr h.ne')] at hz
  have hx : (p.towards q steps steps).x = q.x := value_injective (by rw [hz.x]; ring)
  have hy : (p.towards q steps steps).y = q.y := value_injective (by rw [hz.y]; ring)
  exact congr (congrArg mk hx) hy

end Point

/-! ## Samples -/

namespace Box

open Boundary (perSide)

variable {b : Box K} {budget k step : Nat} {side : Point K × Point K}

omit [ExactCoordinate K] in
theorem getElem?_samples (h : b.sides[k]? = some side) (hstep : step < perSide budget) :
    (b.samples budget)[k * perSide budget + step]? = some (side.1.towards side.2 step (perSide budget)) := by
  have hs : b.samples budget = b.sides.flatMap fun side => Boundary.side (perSide budget) side.1 side.2 := by
    simp [samples, sides, corners]
  rw [hs, getElem?_flatMap_of_length (fun _ => by simp [Boundary.side]) hstep, h]
  simp [Boundary.side, hstep]

/-- The sample behind a step along a side is where the step ends. -/
theorem getElem?_samples_next (h : b.sides[k]? = some side) (hstep : step < perSide budget) :
    (b.samples budget)[(k * perSide budget + step + 1) % (4 * perSide budget)]? =
      some (side.1.towards side.2 (step + 1) (perSide budget)) := by
  have hk : k < 4 := by simpa [sides, corners] using (List.getElem?_eq_some_iff.mp h).1
  have hpos := Boundary.perSide_pos budget
  rcases Nat.lt_or_ge (step + 1) (perSide budget) with hlt | hge
  · have hbound : k * perSide budget + (step + 1) < 4 * perSide budget :=
      calc k * perSide budget + (step + 1) < (k + 1) * perSide budget := by rw [Nat.succ_mul]; omega
        _ ≤ 4 * perSide budget := Nat.mul_le_mul_right _ hk
    rw [Nat.add_assoc, Nat.mod_eq_of_lt hbound, getElem?_samples h hlt]
  · -- The step ends in a corner, which is the first sample of the next side; the last side is followed by the first.
    have heq : step + 1 = perSide budget := by omega
    obtain ⟨-, next, hnext, hcorner⟩ := exists_next_side h
    have hindex : (k * perSide budget + (step + 1)) % (4 * perSide budget) = (k + 1) % 4 * perSide budget + 0 := by
      rw [heq, ← Nat.succ_mul, Nat.mul_mod_mul_right, Nat.add_zero]
    rw [Nat.add_assoc, hindex, getElem?_samples hnext hpos, Point.towards_zero, hcorner, heq,
      Point.towards_self _ _ hpos]

theorem getElem?_samples_corner (h : b.sides[k]? = some side) :
    (b.samples budget)[k * perSide budget]? = some side.1 := by
  rw [← Nat.add_zero (k * perSide budget), getElem?_samples h (Boundary.perSide_pos budget), Point.towards_zero]

/-- Each point of a side lies between two samples that follow each other on that side. -/
theorem exists_samples_around (hside : side ∈ b.sides) {r : Point K} (hr : r.IsOn side) (budget : Nat) :
    ∃ i q s, (b.samples budget)[i]? = some q ∧ (b.samples budget)[(i + 1) % (4 * perSide budget)]? = some s ∧
      q.IsOn side ∧ s.IsOn side ∧ q.distance r ≤ side.1.distance side.2 / perSide budget ∧
      r.distance s ≤ side.1.distance side.2 / perSide budget := by
  obtain ⟨k, hk⟩ := List.mem_iff_getElem?.mp hside
  obtain ⟨t, h0, h1, ht⟩ := Point.exists_isAt hside hr
  obtain ⟨step, hstep, hbefore, hbehind⟩ := exists_step (Boundary.perSide_pos budget) h0 h1
  have hq := side.1.isAt_towards side.2 step (perSide budget)
  have hs := side.1.isAt_towards side.2 (step + 1) (perSide budget)
  have hpart : ∀ n ≤ perSide budget, (0 : ℝ) ≤ n / perSide budget ∧ (n / perSide budget : ℝ) ≤ 1 := fun n hn =>
    ⟨by positivity, div_le_one_of_le₀ (Nat.cast_le.mpr hn) (Nat.cast_nonneg _)⟩
  have hlength : (0 : ℝ) ≤ side.1.distance side.2 := add_nonneg (abs_nonneg _) (abs_nonneg _)
  refine ⟨_, _, _, getElem?_samples hk hstep, getElem?_samples_next hk hstep,
    hq.isOn (hpart _ hstep.le).1 (hpart _ hstep.le).2, hs.isOn (hpart _ hstep).1 (hpart _ hstep).2, ?_, ?_⟩
  · have h := mul_le_mul_of_nonneg_left hbefore hlength
    rwa [← hq.distance ht, mul_one_div] at h
  · have h := mul_le_mul_of_nonneg_left hbehind hlength
    rwa [← ht.distance hs, mul_one_div] at h

theorem isOnBoundary_of_mem_samples (hx : b.x.lo ≤ b.x.hi) (hy : b.y.lo ≤ b.y.hi) {r : Point K}
    (hr : r ∈ b.samples budget) : r.IsOnBoundary b := by
  obtain ⟨side, hside, step, hstep, rfl⟩ := mem_samples_iff.mp hr
  refine (Point.isOnBoundary_iff hx hy).mpr ⟨side, hside, (side.1.isAt_towards side.2 step _).isOn (by positivity) ?_⟩
  exact div_le_one_of_le₀ (Nat.cast_le.mpr hstep.le) (Nat.cast_nonneg _)

/-- The samples go once round the boundary, corner by corner, and each point of it is no further than a step from two
samples that follow each other. -/
theorem samples_walk (b : Box K) (hx : b.x.lo ≤ b.x.hi) (hy : b.y.lo ≤ b.y.hi) (budget : Nat) :
    let steps := max 1 (min budget 10000 / 4)
    let samples := b.samples budget
    (samples.length = 4 * steps ∧ 4 ≤ samples.length ∧ samples.length ≤ 10000 ∧
      (4 ≤ budget → samples.length ≤ budget)) ∧
    (samples[0 * steps]? = some ⟨b.x.lo, b.y.lo⟩ ∧ samples[1 * steps]? = some ⟨b.x.hi, b.y.lo⟩ ∧
      samples[2 * steps]? = some ⟨b.x.hi, b.y.hi⟩ ∧ samples[3 * steps]? = some ⟨b.x.lo, b.y.hi⟩) ∧
    (∀ r ∈ samples, r.IsOnBoundary b) ∧
    (∀ r : Point K, r.IsOnBoundary b → ∃ side ∈ b.sides, r.IsOn side) ∧
    ∀ side ∈ b.sides, ∀ r : Point K, r.IsOn side →
      ∃ i q s, samples[i]? = some q ∧ samples[(i + 1) % (4 * steps)]? = some s ∧ q.IsOn side ∧ s.IsOn side ∧
        q.distance r ≤ side.1.distance side.2 / steps ∧ r.distance s ≤ side.1.distance side.2 / steps := by
  intro steps samples
  have hlength : samples.length = 4 * steps := b.length_samples budget
  have hcorner : ∀ k side, b.sides[k]? = some side → samples[k * steps]? = some side.1 := fun k side h =>
    getElem?_samples_corner h
  refine ⟨⟨hlength, ?_, ?_, fun hb => ?_⟩, ⟨hcorner 0 _ rfl, hcorner 1 _ rfl, hcorner 2 _ rfl, hcorner 3 _ rfl⟩,
    fun r => isOnBoundary_of_mem_samples hx hy, fun r => (Point.isOnBoundary_iff hx hy).mp,
    fun side hside r hr => exists_samples_around hside hr budget⟩
  · omega
  · omega
  · omega

theorem samples_walk_flat :
    let b : Box Rat := ⟨⟨-1, 2⟩, ⟨3, 3⟩⟩
    b.x.lo ≤ b.x.hi ∧ b.y.lo ≤ b.y.hi ∧ (b.samples 11).length = 8 ∧ (b.samples 11)[4]? = some ⟨2, 3⟩ := by
  intro b
  have hx : b.x.lo ≤ b.x.hi := by decide
  have hy : b.y.lo ≤ b.y.hi := by decide
  obtain ⟨⟨hlength, -⟩, ⟨-, -, hcorner, -⟩, -⟩ := samples_walk b hx hy 11
  exact ⟨hx, hy, hlength, hcorner⟩

end Box

end ExtentLedger
