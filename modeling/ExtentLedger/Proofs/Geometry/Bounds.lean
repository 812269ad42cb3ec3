import ExtentLedger.Feature.Shape
import ExtentLedger.Proofs.Geometry.Points

/-!
# Bounds of coordinates

A span touches some numbers when its ends are two of them, and bounds them when it holds them all besides. Whatever numbers
are put in order, stretched over or joined, the result touches them. It bounds them as long as they compare with each
other; they need not be finite.
-/

namespace ExtentLedger

variable {K : Type} [Coordinate K] {a b c : K} {as cs : List K}

namespace LawfulCoordinate

variable [LawfulCoordinate K]

theorem le_of_or (h : a ≤ b ∨ b ≤ a) (hn : ¬ a < b) : b ≤ a := by
  by_contra hba
  exact hn (lt_iff.mpr ⟨h.resolve_right hba, hba⟩)

theorem least_le_left (h : a ≤ b ∨ b ≤ a) (ha : a ≤ a) : Coordinate.least a b ≤ a := by
  unfold Coordinate.least
  by_cases hlt : a < b
  · rwa [if_pos hlt]
  · rw [if_neg hlt]
    exact le_of_or h hlt

theorem least_le_right (hb : b ≤ b) : Coordinate.least a b ≤ b := by
  unfold Coordinate.least
  by_cases hlt : a < b
  · rw [if_pos hlt]
    exact (lt_iff.mp hlt).1
  · rwa [if_neg hlt]

theorem le_greatest_left (h : a ≤ b ∨ b ≤ a) (ha : a ≤ a) : a ≤ Coordinate.greatest a b := by
  unfold Coordinate.greatest
  by_cases hlt : b < a
  · rwa [if_pos hlt]
  · rw [if_neg hlt]
    exact le_of_or h.symm hlt

theorem le_greatest_right (hb : b ≤ b) : b ≤ Coordinate.greatest a b := by
  unfold Coordinate.greatest
  by_cases hlt : b < a
  · rw [if_pos hlt]
    exact (lt_iff.mp hlt).1
  · rwa [if_neg hlt]

end LawfulCoordinate

open LawfulCoordinate

/-! ## Spans -/

namespace Span

variable {s t : Span K}

structure Touches (s : Span K) (as : List K) : Prop where
  lo : s.lo ∈ as
  hi : s.hi ∈ as

namespace Touches

omit [Coordinate K] in
theorem mono (h : s.Touches as) (hac : ∀ a ∈ as, a ∈ cs) : s.Touches cs := ⟨hac _ h.lo, hac _ h.hi⟩

theorem sorted (ha : a ∈ as) (hb : b ∈ as) : (Span.sorted a b).Touches as := by
  unfold Span.sorted
  split
  · exact ⟨ha, hb⟩
  · exact ⟨hb, ha⟩

theorem stretch (h : s.Touches as) (c : K) : (s.stretch c).Touches (as ++ [c]) := by
  have hs := h.mono fun a ha => List.mem_append_left [c] ha
  have hc : c ∈ as ++ [c] := List.mem_append_right _ (List.mem_singleton_self c)
  unfold Span.stretch
  split
  · exact ⟨hs.lo, hc⟩
  split
  · exact ⟨hc, hs.hi⟩
  · exact hs

theorem join (h : s.Touches as) (h' : t.Touches cs) : (s.join t).Touches (as ++ cs) := by
  have hs := h.mono fun a ha => List.mem_append_left cs ha
  have ht := h'.mono fun a ha => List.mem_append_right as ha
  unfold Span.join Coordinate.least Coordinate.greatest
  constructor
  · show (if s.lo < t.lo then s.lo else t.lo) ∈ as ++ cs
    split
    · exact hs.lo
    · exact ht.lo
  · show (if t.hi < s.hi then s.hi else t.hi) ∈ as ++ cs
    split
    · exact hs.hi
    · exact ht.hi

theorem followedBy (h : s.Touches as) (h' : t.Touches cs) : (s.followedBy t).Touches (as ++ cs) :=
  .sorted (h.join h').lo (h.join h').hi

end Touches

structure Bounds (s : Span K) (as : List K) : Prop where
  touches : s.Touches as
  holds : ∀ a ∈ as, s.Holds a

namespace Bounds

theorem le (h : s.Bounds as) : s.lo ≤ s.hi := (h.holds _ h.touches.hi).1

theorem congr (h : s.Bounds as) (hac : ∀ a, a ∈ as ↔ a ∈ cs) : s.Bounds cs :=
  ⟨h.touches.mono fun a => (hac a).mp, fun a ha => h.holds a ((hac a).mpr ha)⟩

variable [LawfulCoordinate K]

theorem beq (hs : s.Bounds as) (ht : t.Bounds as) : (s == t) = true := by
  obtain ⟨hlo, hhi⟩ := hs.touches
  obtain ⟨hlo', hhi'⟩ := ht.touches
  exact beq_iff_covers.mpr ⟨covers_iff.mpr ⟨(hs.holds _ hlo').1, (hs.holds _ hhi').2⟩,
    covers_iff.mpr ⟨(ht.holds _ hlo).1, (ht.holds _ hhi).2⟩⟩

variable {P : K → Prop} (hP : ∀ {a b : K}, P a → P b → a ≤ b ∨ b ≤ a)
include hP

omit [LawfulCoordinate K] in
theorem single (ha : P a) : (⟨a, a⟩ : Span K).Bounds [a] := by
  have hself : a ≤ a := (hP ha ha).elim id id
  have hmem := List.mem_singleton_self a
  exact ⟨⟨hmem, hmem⟩, List.forall_mem_singleton.mpr ⟨hself, hself⟩⟩

theorem of_not_lt (ha : P a) (hb : P b) (h : ¬ b < a) : (⟨a, b⟩ : Span K).Bounds [a, b] := by
  have hle := le_of_or (hP hb ha) h
  refine ⟨⟨List.mem_cons_self, List.mem_cons_of_mem _ (List.mem_singleton_self b)⟩, ?_⟩
  rw [List.forall_mem_cons, List.forall_mem_singleton]
  exact ⟨⟨(hP ha ha).elim id id, hle⟩, hle, (hP hb hb).elim id id⟩

theorem pair (ha : P a) (hb : P b) : (sorted a b).Bounds [a, b] := by
  unfold sorted
  by_cases hab : a < b
  · rw [if_pos hab]
    exact .of_not_lt hP ha hb fun hba => (lt_iff.mp hba).2 (lt_iff.mp hab).1
  · rw [if_neg hab]
    refine (of_not_lt hP hb ha hab).congr fun c => ?_
    simp only [List.mem_pair, or_comm]

theorem inOrder (h : s.Bounds as) (has : ∀ a ∈ as, P a) : (sorted s.lo s.hi).Bounds as := by
  obtain ⟨hlo, hhi⟩ := h.touches
  refine ⟨.sorted hlo hhi, fun a ha => ?_⟩
  unfold sorted
  by_cases hlt : s.lo < s.hi
  · rw [if_pos hlt]
    exact h.holds a ha
  · rw [if_neg hlt]
    have hle := le_of_or (hP (has _ hlo) (has _ hhi)) hlt
    exact ⟨le_trans hle (h.holds a ha).1, le_trans (h.holds a ha).2 hle⟩

theorem stretch (h : s.Bounds as) (has : ∀ a ∈ as, P a) (hc : P c) : (s.stretch c).Bounds (as ++ [c]) := by
  obtain ⟨hmemlo, hmemhi⟩ := h.touches
  have hself : c ≤ c := (hP hc hc).elim id id
  refine ⟨h.touches.stretch c, ?_⟩
  rw [List.forall_mem_append, List.forall_mem_singleton]
  unfold Span.stretch
  by_cases hhi : s.hi < c
  · have hle := (lt_iff.mp hhi).1
    rw [if_pos hhi]
    exact ⟨fun a ha => ⟨(h.holds a ha).1, le_trans (h.holds a ha).2 hle⟩, le_trans h.le hle, hself⟩
  rw [if_neg hhi]
  have hle := le_of_or (hP (has _ hmemhi) hc) hhi
  by_cases hlo : c < s.lo
  · have hle' := (lt_iff.mp hlo).1
    rw [if_pos hlo]
    exact ⟨fun a ha => ⟨le_trans hle' (h.holds a ha).1, (h.holds a ha).2⟩, hself, hle⟩
  · rw [if_neg hlo]
    exact ⟨h.holds, le_of_or (hP hc (has _ hmemlo)) hlo, hle⟩

theorem join (h : s.Bounds as) (h' : t.Bounds cs) (has : ∀ a ∈ as, P a) (hcs : ∀ c ∈ cs, P c) :
    (s.join t).Bounds (as ++ cs) := by
  obtain ⟨hslo, hshi⟩ := h.touches
  obtain ⟨htlo, hthi⟩ := h'.touches
  have hlo : (s.join t).lo ≤ s.lo ∧ (s.join t).lo ≤ t.lo :=
    ⟨least_le_left (hP (has _ hslo) (hcs _ htlo)) (h.holds _ hslo).1, least_le_right (h'.holds _ htlo).1⟩
  have hhi : s.hi ≤ (s.join t).hi ∧ t.hi ≤ (s.join t).hi :=
    ⟨le_greatest_left (hP (has _ hshi) (hcs _ hthi)) (h.holds _ hshi).2, le_greatest_right (h'.holds _ hthi).2⟩
  refine ⟨h.touches.join h'.touches, List.forall_mem_append.mpr ⟨fun a ha => ?_, fun c hc => ?_⟩⟩
  · exact ⟨le_trans hlo.1 (h.holds a ha).1, le_trans (h.holds a ha).2 hhi.1⟩
  · exact ⟨le_trans hlo.2 (h'.holds c hc).1, le_trans (h'.holds c hc).2 hhi.2⟩

theorem followedBy (h : s.Bounds as) (h' : t.Bounds cs) (has : ∀ a ∈ as, P a) (hcs : ∀ c ∈ cs, P c) :
    (s.followedBy t).Bounds (as ++ cs) :=
  (h.join hP h' has hcs).inOrder hP (List.forall_mem_append.mpr ⟨has, hcs⟩)

end Bounds

end Span

/-! ## Boxes -/

namespace Box

variable {b c : Box K} {ps qs : List (Point K)} {p q : Point K}

namespace Touches

omit [Coordinate K] in
theorem of_spans (hx : b.x.Touches (ps.map Point.x)) (hy : b.y.Touches (ps.map Point.y)) : b.Touches ps :=
  ⟨hx.lo, hx.hi, hy.lo, hy.hi⟩

omit [Coordinate K] in
theorem x (h : b.Touches ps) : b.x.Touches (ps.map Point.x) := ⟨h.left, h.right⟩

omit [Coordinate K] in
theorem y (h : b.Touches ps) : b.y.Touches (ps.map Point.y) := ⟨h.bottom, h.top⟩

omit [Coordinate K] in
theorem mono (h : b.Touches ps) (hpq : ∀ p ∈ ps, p ∈ qs) : b.Touches qs :=
  .of_spans (h.x.mono (List.forall_mem_map.mpr fun p hp => List.mem_map_of_mem (hpq p hp)))
    (h.y.mono (List.forall_mem_map.mpr fun p hp => List.mem_map_of_mem (hpq p hp)))

theorem between (p q : Point K) : (Box.between p q).Touches [p, q] :=
  .of_spans (.sorted List.mem_cons_self (List.mem_cons_of_mem _ (List.mem_singleton_self _)))
    (.sorted List.mem_cons_self (List.mem_cons_of_mem _ (List.mem_singleton_self _)))

theorem foldl_stretch (h : b.Touches ps) (qs : List (Point K)) :
    (qs.foldl (fun b q => (⟨b.x.stretch q.x, b.y.stretch q.y⟩ : Box K)) b).Touches (ps ++ qs) := by
  induction qs generalizing b ps with
  | nil => rwa [List.append_nil]
  | cons q qs ih =>
    rw [List.append_cons]
    refine ih (.of_spans ?_ ?_)
    · rw [List.map_append]
      exact h.x.stretch q.x
    · rw [List.map_append]
      exact h.y.stretch q.y

theorem join (h : b.Touches ps) (h' : c.Touches qs) : (b.join c).Touches (ps ++ qs) := by
  refine .of_spans ?_ ?_
  · rw [List.map_append]
    exact h.x.join h'.x
  · rw [List.map_append]
    exact h.y.join h'.y

theorem followedBy (h : b.Touches ps) (h' : c.Touches qs) :
    (⟨b.x.followedBy c.x, b.y.followedBy c.y⟩ : Box K).Touches (ps ++ qs) := by
  refine .of_spans ?_ ?_
  · rw [List.map_append]
    exact h.x.followedBy h'.x
  · rw [List.map_append]
    exact h.y.followedBy h'.y

end Touches

structure Bounds (b : Box K) (ps : List (Point K)) : Prop where
  x : b.x.Bounds (ps.map Point.x)
  y : b.y.Bounds (ps.map Point.y)

namespace Bounds

theorem holds (h : b.Bounds ps) (hp : p ∈ ps) : b.Holds p :=
  ⟨h.x.holds _ (List.mem_map_of_mem hp), h.y.holds _ (List.mem_map_of_mem hp)⟩

theorem touches (h : b.Bounds ps) : b.Touches ps := .of_spans h.x.touches h.y.touches

theorem of_holds_touches (h : ∀ p ∈ ps, b.Holds p) (h' : b.Touches ps) : b.Bounds ps :=
  ⟨⟨h'.x, List.forall_mem_map.mpr fun p hp => (h p hp).x⟩, h'.y, List.forall_mem_map.mpr fun p hp => (h p hp).y⟩

theorem ne_nil (h : b.Bounds ps) : ps ≠ [] := by
  rintro rfl
  cases h.x.touches.lo

theorem congr (h : b.Bounds ps) (hpq : ∀ p, p ∈ ps ↔ p ∈ qs) : b.Bounds qs := by
  constructor
  · exact h.x.congr fun a => by simp only [List.mem_map, hpq]
  · exact h.y.congr fun a => by simp only [List.mem_map, hpq]

theorem isValid (h : b.Bounds ps) (hf : ∀ p ∈ ps, p.isFinite = true) : b.IsValid := by
  have hx : ∀ a ∈ ps.map Point.x, Coordinate.isFinite a = true :=
    List.forall_mem_map.mpr fun p hp => (Bool.and_eq_true_iff.mp (hf p hp)).1
  have hy : ∀ a ∈ ps.map Point.y, Coordinate.isFinite a = true :=
    List.forall_mem_map.mpr fun p hp => (Bool.and_eq_true_iff.mp (hf p hp)).2
  exact ⟨⟨Bool.and_eq_true_iff.mpr ⟨hx _ h.x.touches.lo, hx _ h.x.touches.hi⟩, h.x.le⟩,
    Bool.and_eq_true_iff.mpr ⟨hy _ h.y.touches.lo, hy _ h.y.touches.hi⟩, h.y.le⟩

variable [LawfulCoordinate K]

theorem beq (hb : b.Bounds ps) (hc : c.Bounds ps) : (b == c) = true :=
  Bool.and_eq_true_iff.mpr ⟨hb.x.beq hc.x, hb.y.beq hc.y⟩

variable {P : K → Prop} (hP : ∀ {a b : K}, P a → P b → a ≤ b ∨ b ≤ a)
include hP

theorem between (hp : P p.x ∧ P p.y) (hq : P q.x ∧ P q.y) : (Box.between p q).Bounds [p, q] :=
  ⟨.pair hP hp.1 hq.1, .pair hP hp.2 hq.2⟩

theorem foldl_stretch (h : b.Bounds ps) (hps : ∀ p ∈ ps, P p.x ∧ P p.y) (hqs : ∀ q ∈ qs, P q.x ∧ P q.y) :
    (qs.foldl (fun b q => (⟨b.x.stretch q.x, b.y.stretch q.y⟩ : Box K)) b).Bounds (ps ++ qs) := by
  induction qs generalizing b ps with
  | nil => rwa [List.append_nil]
  | cons q qs ih =>
    rw [List.forall_mem_cons] at hqs
    have hb : (⟨b.x.stretch q.x, b.y.stretch q.y⟩ : Box K).Bounds (ps ++ [q]) := by
      constructor
      · rw [List.map_append]
        exact h.x.stretch hP (List.forall_mem_map.mpr fun p hp => (hps p hp).1) hqs.1.1
      · rw [List.map_append]
        exact h.y.stretch hP (List.forall_mem_map.mpr fun p hp => (hps p hp).2) hqs.1.2
    rw [List.append_cons]
    exact ih hb (List.forall_mem_append.mpr ⟨hps, List.forall_mem_singleton.mpr hqs.1⟩) hqs.2

theorem inOrder (h : b.Bounds ps) (hps : ∀ p ∈ ps, P p.x ∧ P p.y) : b.inOrder.Bounds ps :=
  ⟨h.x.inOrder hP (List.forall_mem_map.mpr fun p hp => (hps p hp).1),
    h.y.inOrder hP (List.forall_mem_map.mpr fun p hp => (hps p hp).2)⟩

theorem followedBy (h : b.Bounds ps) (h' : c.Bounds qs) (hps : ∀ p ∈ ps, P p.x ∧ P p.y)
    (hqs : ∀ q ∈ qs, P q.x ∧ P q.y) : (⟨b.x.followedBy c.x, b.y.followedBy c.y⟩ : Box K).Bounds (ps ++ qs) := by
  constructor
  · rw [List.map_append]
    exact h.x.followedBy hP h'.x (List.forall_mem_map.mpr fun p hp => (hps p hp).1)
      (List.forall_mem_map.mpr fun q hq => (hqs q hq).1)
  · rw [List.map_append]
    exact h.y.followedBy hP h'.y (List.forall_mem_map.mpr fun p hp => (hps p hp).2)
      (List.forall_mem_map.mpr fun q hq => (hqs q hq).2)

end Bounds

end Box

end ExtentLedger
