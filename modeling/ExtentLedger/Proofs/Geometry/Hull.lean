import ExtentLedger.Extent.Covering
import ExtentLedger.Proofs.Coordinate.Lawful
import Mathlib.Data.List.Basic

/-!
# Hulls

The hull of some boxes is the smallest box that covers them, up to `==` of its bounds. Joining boxes joins their hulls,
and a box whose bounds are put in order keeps what it covers and what covers it.
-/

namespace ExtentLedger

variable {K : Type} [Coordinate K] [LawfulCoordinate K]

namespace LawfulCoordinate

variable {a b c : K}

theorem le_refl (h : Coordinate.isFinite a = true) : a ≤ a := (le_total h h).elim id id

theorem le_of_not_lt (ha : Coordinate.isFinite a = true) (hb : Coordinate.isFinite b = true) (h : ¬ a < b) : b ≤ a := by
  rcases le_total ha hb with hab | hba
  · by_contra hba
    exact h (lt_iff.mpr ⟨hab, hba⟩)
  · exact hba

theorem le_least (ha : Coordinate.isFinite a = true) (hb : Coordinate.isFinite b = true) :
    c ≤ Coordinate.least a b ↔ c ≤ a ∧ c ≤ b := by
  unfold Coordinate.least
  by_cases h : a < b
  · rw [if_pos h]
    exact ⟨fun hc => ⟨hc, le_trans hc (lt_iff.mp h).1⟩, And.left⟩
  · rw [if_neg h]
    exact ⟨fun hc => ⟨le_trans hc (le_of_not_lt ha hb h), hc⟩, And.right⟩

theorem greatest_le (ha : Coordinate.isFinite a = true) (hb : Coordinate.isFinite b = true) :
    Coordinate.greatest a b ≤ c ↔ a ≤ c ∧ b ≤ c := by
  unfold Coordinate.greatest
  by_cases h : b < a
  · rw [if_pos h]
    exact ⟨fun hc => ⟨hc, le_trans (lt_iff.mp h).1 hc⟩, And.left⟩
  · rw [if_neg h]
    exact ⟨fun hc => ⟨le_trans (le_of_not_lt hb ha h) hc, hc⟩, And.right⟩

/-- A list that a transitive relation puts in order has a member in front of all. -/
theorem exists_first {α : Type} {r : α → α → Prop} (htrans : ∀ {x y z}, r x y → r y z → r x z) {l : List α}
    (hne : l ≠ []) (htotal : ∀ x ∈ l, ∀ y ∈ l, r x y ∨ r y x) : ∃ x ∈ l, ∀ y ∈ l, r x y := by
  induction l with
  | nil => exact absurd rfl hne
  | cons x l ih =>
    have hx : r x x := (htotal x (by simp) x (by simp)).elim id id
    by_cases hn : l = []
    · subst hn
      exact ⟨x, by simp, by simpa using hx⟩
    · have hl : ∀ y ∈ l, ∀ z ∈ l, r y z ∨ r z y := fun y hy z hz =>
        htotal y (List.mem_cons_of_mem _ hy) z (List.mem_cons_of_mem _ hz)
      obtain ⟨y, hy, hfirst⟩ := ih hn hl
      rcases htotal x (by simp) y (List.mem_cons_of_mem _ hy) with h | h
      · exact ⟨x, by simp, List.forall_mem_cons.mpr ⟨hx, fun z hz => htrans h (hfirst z hz)⟩⟩
      · exact ⟨y, List.mem_cons_of_mem _ hy, List.forall_mem_cons.mpr ⟨h, hfirst⟩⟩

theorem exists_forall_le {α : Type} {l : List α} (hne : l ≠ []) (f : α → K)
    (hf : ∀ x ∈ l, Coordinate.isFinite (f x) = true) : ∃ x ∈ l, ∀ y ∈ l, f x ≤ f y :=
  exists_first (r := fun x y => f x ≤ f y) le_trans hne fun x hx y hy => le_total (hf x hx) (hf y hy)

theorem exists_forall_ge {α : Type} {l : List α} (hne : l ≠ []) (f : α → K)
    (hf : ∀ x ∈ l, Coordinate.isFinite (f x) = true) : ∃ x ∈ l, ∀ y ∈ l, f y ≤ f x :=
  exists_first (r := fun x y => f y ≤ f x) (fun h h' => le_trans h' h) hne fun x hx y hy =>
    le_total (hf y hy) (hf x hx)

end LawfulCoordinate

open LawfulCoordinate

/-! ## Spans -/

namespace Span

variable {s t u : Span K}

omit [LawfulCoordinate K] in
theorem covers_iff : s.covers t = true ↔ s.lo ≤ t.lo ∧ t.hi ≤ s.hi := by
  simp [covers]

omit [LawfulCoordinate K] in
theorem IsValid.finite (h : s.IsValid) :
    Coordinate.isFinite s.lo = true ∧ Coordinate.isFinite s.hi = true := by
  simpa [isFinite] using h.1

theorem IsValid.covers_self (h : s.IsValid) : s.covers s = true :=
  covers_iff.mpr ⟨le_refl h.finite.1, le_refl h.finite.2⟩

theorem covers_trans (h : s.covers t = true) (h' : t.covers u = true) : s.covers u = true := by
  rw [covers_iff] at h h' ⊢
  exact ⟨le_trans h.1 h'.1, le_trans h'.2 h.2⟩

theorem covers_join (hs : s.IsValid) (ht : t.IsValid) :
    u.covers (s.join t) = true ↔ u.covers s = true ∧ u.covers t = true := by
  rw [covers_iff, covers_iff, covers_iff, join, le_least hs.finite.1 ht.finite.1,
    greatest_le hs.finite.2 ht.finite.2, and_and_and_comm]

theorem IsValid.join (hs : s.IsValid) (ht : t.IsValid) : (s.join t).IsValid := by
  obtain ⟨hs₁, hs₂⟩ := hs.finite
  obtain ⟨ht₁, ht₂⟩ := ht.finite
  refine ⟨?_, ?_⟩
  · unfold Span.join Coordinate.least Coordinate.greatest isFinite
    by_cases h : s.lo < t.lo <;> by_cases h' : t.hi < s.hi <;> simp [h, h', hs₁, hs₂, ht₁, ht₂]
  · have hl : (s.join t).lo ≤ s.lo := ((le_least hs₁ ht₁).mp (le_refl ?_)).1
    · have hh : s.hi ≤ (s.join t).hi := ((greatest_le hs₂ ht₂).mp (le_refl ?_)).1
      · exact le_trans hl (le_trans hs.2 hh)
      · unfold Coordinate.greatest
        by_cases h : t.hi < s.hi <;> simp [h, hs₂, ht₂]
    · unfold Coordinate.least
      by_cases h : s.lo < t.lo <;> simp [h, hs₁, ht₁]

theorem beq_iff_covers : (s == t) = true ↔ s.covers t = true ∧ t.covers s = true := by
  have hb : (s == t) = (s.lo == t.lo && s.hi == t.hi) := rfl
  rw [hb, Bool.and_eq_true, LawfulCoordinate.beq_iff, LawfulCoordinate.beq_iff, covers_iff, covers_iff]
  constructor
  · intro h
    obtain ⟨⟨h₁, h₂⟩, h₃, h₄⟩ := h
    exact ⟨⟨h₁, h₄⟩, h₂, h₃⟩
  · intro h
    obtain ⟨⟨h₁, h₄⟩, h₂, h₃⟩ := h
    exact ⟨⟨h₁, h₂⟩, h₃, h₄⟩

/-- A span whose bounds are put in order is the same up to `==`. -/
theorem IsValid.sorted_eq_or (h : s.IsValid) :
    sorted s.lo s.hi = s ∨ s.hi ≤ s.lo ∧ sorted s.lo s.hi = ⟨s.hi, s.lo⟩ := by
  unfold sorted
  by_cases hl : s.lo < s.hi
  · exact .inl (if_pos hl)
  · exact .inr ⟨le_of_not_lt h.finite.1 h.finite.2 hl, if_neg hl⟩

theorem IsValid.sorted (h : s.IsValid) : (Span.sorted s.lo s.hi).IsValid := by
  rcases h.sorted_eq_or with hs | ⟨hle, hs⟩
  · rwa [hs]
  · rw [hs]
    exact ⟨by simp [isFinite, h.finite.1, h.finite.2], hle⟩

theorem covers_sorted (h : s.IsValid) : u.covers (Span.sorted s.lo s.hi) = true ↔ u.covers s = true := by
  rcases h.sorted_eq_or with hs | ⟨hle, hs⟩
  · rw [hs]
  · rw [hs, covers_iff, covers_iff]
    constructor
    · intro hu
      obtain ⟨hl, hh⟩ := hu
      exact ⟨le_trans hl hle, le_trans hle hh⟩
    · intro hu
      obtain ⟨hl, hh⟩ := hu
      exact ⟨le_trans hl h.2, le_trans h.2 hh⟩

end Span

/-! ## Boxes -/

namespace Box

structure IsValid (b : Box K) : Prop where
  x : b.x.IsValid
  y : b.y.IsValid

def inOrder (b : Box K) : Box K := ⟨.sorted b.x.lo b.x.hi, .sorted b.y.lo b.y.hi⟩

variable {b c d : Box K}

omit [LawfulCoordinate K] in
theorem covers_iff : b.covers c = true ↔ b.x.covers c.x = true ∧ b.y.covers c.y = true := by
  simp [covers]

theorem IsValid.covers_self (h : b.IsValid) : b.covers b = true :=
  covers_iff.mpr ⟨h.x.covers_self, h.y.covers_self⟩

theorem covers_trans (h : b.covers c = true) (h' : c.covers d = true) : b.covers d = true := by
  rw [covers_iff] at h h' ⊢
  exact ⟨Span.covers_trans h.1 h'.1, Span.covers_trans h.2 h'.2⟩

theorem covers_join (hb : b.IsValid) (hc : c.IsValid) :
    d.covers (b.join c) = true ↔ d.covers b = true ∧ d.covers c = true := by
  rw [covers_iff, covers_iff, covers_iff, join, Span.covers_join hb.x hc.x, Span.covers_join hb.y hc.y,
    and_and_and_comm]

theorem IsValid.join (hb : b.IsValid) (hc : c.IsValid) : (b.join c).IsValid := ⟨hb.x.join hc.x, hb.y.join hc.y⟩

theorem IsValid.inOrder (h : b.IsValid) : b.inOrder.IsValid := ⟨h.x.sorted, h.y.sorted⟩

theorem covers_inOrder (h : b.IsValid) : d.covers b.inOrder = true ↔ d.covers b = true := by
  rw [covers_iff, covers_iff, Box.inOrder, Span.covers_sorted h.x, Span.covers_sorted h.y]

theorem beq_iff_covers : (b == c) = true ↔ b.covers c = true ∧ c.covers b = true := by
  have hb : (b == c) = (b.x == c.x && b.y == c.y) := rfl
  rw [hb, Bool.and_eq_true, Span.beq_iff_covers, Span.beq_iff_covers, covers_iff, covers_iff, and_and_and_comm]

/-- The smallest box that covers the parts. -/
structure IsHull (b : Box K) (parts : List (Box K)) : Prop where
  valid : b.IsValid
  covers_iff : ∀ c : Box K, c.covers b = true ↔ ∀ p ∈ parts, c.covers p = true

namespace IsHull

variable {ps qs : List (Box K)}

theorem covers (h : b.IsHull ps) {p : Box K} (hp : p ∈ ps) : b.covers p = true :=
  (h.covers_iff b).mp h.valid.covers_self p hp

theorem beq (hb : b.IsHull ps) (hc : c.IsHull ps) : (b == c) = true :=
  beq_iff_covers.mpr ⟨(hc.covers_iff b).mpr fun _ hp => hb.covers hp, (hb.covers_iff c).mpr fun _ hp => hc.covers hp⟩

omit [LawfulCoordinate K] in
theorem single (h : b.IsValid) : b.IsHull [b] := ⟨h, fun c => by simp⟩

omit [LawfulCoordinate K] in
theorem congr (h : b.IsHull ps) (hpq : ∀ p, p ∈ ps ↔ p ∈ qs) : b.IsHull qs :=
  ⟨h.valid, fun c => (h.covers_iff c).trans (forall_congr' fun p => imp_congr_left (hpq p))⟩

theorem join (hb : b.IsHull ps) (hc : c.IsHull qs) : (b.join c).IsHull (ps ++ qs) := by
  refine ⟨hb.valid.join hc.valid, fun d => ?_⟩
  rw [covers_join hb.valid hc.valid, hb.covers_iff, hc.covers_iff, List.forall_mem_append]

theorem inOrder (h : b.IsHull ps) : b.inOrder.IsHull ps :=
  ⟨h.valid.inOrder, fun d => (covers_inOrder h.valid).trans (h.covers_iff d)⟩

/-- Each bound of a hull is the bound of one of the parts. -/
theorem attained (h : b.IsHull ps) (hne : ps ≠ []) (hps : ∀ p ∈ ps, p.IsValid) :
    (∃ p ∈ ps, (b.x.lo == p.x.lo) = true) ∧ (∃ p ∈ ps, (b.x.hi == p.x.hi) = true) ∧
      (∃ p ∈ ps, (b.y.lo == p.y.lo) = true) ∧ ∃ p ∈ ps, (b.y.hi == p.y.hi) = true := by
  obtain ⟨pl, hpl, hxl⟩ := exists_forall_le hne (Span.lo ∘ Box.x) fun p hp => (hps p hp).x.finite.1
  obtain ⟨pr, hpr, hxr⟩ := exists_forall_ge hne (Span.hi ∘ Box.x) fun p hp => (hps p hp).x.finite.2
  obtain ⟨ql, hql, hyl⟩ := exists_forall_le hne (Span.lo ∘ Box.y) fun p hp => (hps p hp).y.finite.1
  obtain ⟨qr, hqr, hyr⟩ := exists_forall_ge hne (Span.hi ∘ Box.y) fun p hp => (hps p hp).y.finite.2
  have hc : Box.covers ⟨⟨pl.x.lo, pr.x.hi⟩, ⟨ql.y.lo, qr.y.hi⟩⟩ b = true := by
    refine (h.covers_iff _).mpr fun p hp => Box.covers_iff.mpr ⟨Span.covers_iff.mpr ?_, Span.covers_iff.mpr ?_⟩
    · exact ⟨hxl p hp, hxr p hp⟩
    · exact ⟨hyl p hp, hyr p hp⟩
  obtain ⟨hx, hy⟩ := Box.covers_iff.mp hc
  rw [Span.covers_iff] at hx hy
  have hb : ∀ p ∈ ps, (b.x.lo ≤ p.x.lo ∧ p.x.hi ≤ b.x.hi) ∧ b.y.lo ≤ p.y.lo ∧ p.y.hi ≤ b.y.hi := by
    intro p hp
    have hp := Box.covers_iff.mp (h.covers hp)
    rwa [Span.covers_iff, Span.covers_iff] at hp
  refine ⟨⟨pl, hpl, ?_⟩, ⟨pr, hpr, ?_⟩, ⟨ql, hql, ?_⟩, ⟨qr, hqr, ?_⟩⟩
  · exact LawfulCoordinate.beq_iff.mpr ⟨(hb pl hpl).1.1, hx.1⟩
  · exact LawfulCoordinate.beq_iff.mpr ⟨hx.2, (hb pr hpr).1.2⟩
  · exact LawfulCoordinate.beq_iff.mpr ⟨(hb ql hql).2.1, hy.1⟩
  · exact LawfulCoordinate.beq_iff.mpr ⟨hy.2, (hb qr hqr).2.2⟩

end IsHull

end Box

end ExtentLedger
