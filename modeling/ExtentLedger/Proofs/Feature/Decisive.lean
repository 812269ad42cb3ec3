import ExtentLedger.Proofs.Coordinate.Doubles
import ExtentLedger.Proofs.Feature.Extents

/-!
# Decisive vertices

A coordinate that is not a number compares with nothing, so whether it shows in a box depends on where it stands: in a
sequence of points the first one decides, in a collection the last member that has any points. These are the decisive
vertices. Infinite coordinates compare with all numbers and show wherever they are.
-/

namespace ExtentLedger

open Double LawfulCoordinate

/-! ## Spans -/

namespace Span

variable {s t : Span Float} {a b d : Float} {ds as : List Float}

def hasNaN (s : Span Float) : Bool := s.lo.isNaN || s.hi.isNaN

/-- The span has an end that is not a number only if a decisive one is not, and holds them all otherwise. -/
structure IsDecidedBy (s : Span Float) (ds : List Float) : Prop where
  ne_nil : ds ≠ []
  of_hasNaN : s.hasNaN = true → ∃ d ∈ ds, d.isNaN = true
  holds : s.hasNaN = false → ∀ d ∈ ds, s.Holds d

theorem hasNaN_eq_false : s.hasNaN = false ↔ s.lo.isNaN = false ∧ s.hi.isNaN = false := Bool.or_eq_false_iff

theorem hasNaN_of_holds (h : s.Holds d) : s.hasNaN = false :=
  hasNaN_eq_false.mpr ⟨(isNaN_of_le h.1).1, (isNaN_of_le h.2).2⟩

theorem hasNaN_sorted (a b : Float) : (sorted a b).hasNaN = (a.isNaN || b.isNaN) := by
  unfold sorted hasNaN
  split
  · rfl
  · exact Bool.or_comm _ _

/-- Of the ends of a join, those of the second span decide whether there is a number. -/
theorem hasNaN_join (s t : Span Float) : (s.join t).hasNaN = t.hasNaN := by
  have hlo : (Coordinate.least s.lo t.lo).isNaN = t.lo.isNaN := by
    unfold Coordinate.least
    by_cases h : s.lo < t.lo
    · have hle := isNaN_of_le (LawfulCoordinate.lt_iff.mp h).1
      rw [if_pos h, hle.1, hle.2]
    · rw [if_neg h]
  have hhi : (Coordinate.greatest s.hi t.hi).isNaN = t.hi.isNaN := by
    unfold Coordinate.greatest
    by_cases h : t.hi < s.hi
    · have hle := isNaN_of_le (LawfulCoordinate.lt_iff.mp h).1
      rw [if_pos h, hle.1, hle.2]
    · rw [if_neg h]
  exact congrArg₂ or hlo hhi

namespace IsDecidedBy

theorem le (h : s.IsDecidedBy ds) (hs : s.hasNaN = false) : s.lo ≤ s.hi := by
  obtain ⟨d, hd⟩ := List.exists_mem_of_ne_nil ds h.ne_nil
  exact le_trans (h.holds hs d hd).1 (h.holds hs d hd).2

theorem of_bounds (h : s.Bounds as) (hds : ∀ d ∈ ds, d ∈ as) (hne : ds ≠ []) : s.IsDecidedBy ds where
  ne_nil := hne
  of_hasNaN hs := by
    rw [hasNaN_of_holds (h.holds _ h.touches.lo)] at hs
    cases hs
  holds _ d hd := h.holds d (hds d hd)

theorem pair (h : a.isNaN = false → b.isNaN = false → s.Bounds [a, b]) (hs : s.hasNaN = (a.isNaN || b.isNaN)) :
    s.IsDecidedBy [a, b] where
  ne_nil := List.cons_ne_nil _ _
  of_hasNaN hn := by
    rw [hs, Bool.or_eq_true] at hn
    rcases hn with ha | hb
    · exact ⟨a, List.mem_cons_self, ha⟩
    · exact ⟨b, List.mem_cons_of_mem _ (List.mem_singleton_self b), hb⟩
  holds hn := by
    rw [hs, Bool.or_eq_false_iff] at hn
    exact (h hn.1 hn.2).holds

theorem inOrder (h : s.IsDecidedBy ds) : (sorted s.lo s.hi).IsDecidedBy ds where
  ne_nil := h.ne_nil
  of_hasNaN hs := h.of_hasNaN ((hasNaN_sorted s.lo s.hi).symm.trans hs)
  holds hs d hd := by
    rw [hasNaN_sorted] at hs
    obtain ⟨hl, hh⟩ := h.holds hs d hd
    obtain ⟨hnl, hnh⟩ := hasNaN_eq_false.mp hs
    unfold sorted
    by_cases hlt : s.lo < s.hi
    · rw [if_pos hlt]
      exact ⟨hl, hh⟩
    · rw [if_neg hlt]
      have hle := le_of_or (le_total_of_isNaN hnl hnh) hlt
      exact ⟨le_trans hle hl, le_trans hh hle⟩

theorem followedBy (h : t.IsDecidedBy ds) (s : Span Float) : (s.followedBy t).IsDecidedBy ds := by
  have hj : (s.join t).IsDecidedBy ds := by
    refine ⟨h.ne_nil, fun hs => h.of_hasNaN (hasNaN_join s t ▸ hs), fun hs d hd => ?_⟩
    rw [hasNaN_join] at hs
    obtain ⟨hnl, hnh⟩ := hasNaN_eq_false.mp hs
    obtain ⟨hl, hh⟩ := h.holds hs d hd
    exact ⟨le_trans (least_le_right (le_self_of_isNaN hnl)) hl, le_trans hh (le_greatest_right (le_self_of_isNaN hnh))⟩
  exact hj.inOrder

theorem single (h : s.Holds d ∨ d.isNaN = true ∧ s = ⟨d, d⟩) : s.IsDecidedBy [d] where
  ne_nil := List.cons_ne_nil _ _
  of_hasNaN hs := by
    rcases h with h | ⟨hd, -⟩
    · rw [hasNaN_of_holds h] at hs
      cases hs
    · exact ⟨d, List.mem_singleton_self d, hd⟩
  holds hs := by
    rcases h with h | ⟨hd, rfl⟩
    · exact List.forall_mem_singleton.mpr h
    · rw [hasNaN, hd] at hs
      cases hs

end IsDecidedBy

/-- A span that starts as one number holds it, or stays as it is where that is not a number. -/
theorem holds_stretch_or (h : s.Holds d ∨ d.isNaN = true ∧ s = ⟨d, d⟩) (c : Float) :
    (s.stretch c).Holds d ∨ d.isNaN = true ∧ s.stretch c = ⟨d, d⟩ := by
  unfold Span.stretch
  rcases h with ⟨hl, hh⟩ | ⟨hd, rfl⟩
  · left
    by_cases hhi : s.hi < c
    · rw [if_pos hhi]
      exact ⟨hl, le_trans hh (LawfulCoordinate.lt_iff.mp hhi).1⟩
    rw [if_neg hhi]
    by_cases hlo : c < s.lo
    · rw [if_pos hlo]
      exact ⟨le_trans (LawfulCoordinate.lt_iff.mp hlo).1 hl, hh⟩
    · rw [if_neg hlo]
      exact ⟨hl, hh⟩
  · have hne : ¬ d.isNaN = false := by rw [hd]; exact Bool.true_eq_false.mp
    rw [if_neg fun hlt => hne (isNaN_of_le (LawfulCoordinate.lt_iff.mp hlt).1).1,
      if_neg fun hlt => hne (isNaN_of_le (LawfulCoordinate.lt_iff.mp hlt).1).2]
    exact .inr ⟨hd, rfl⟩

end Span

/-! ## Boxes -/

namespace Box

variable {b c : Box Float} {p q r : Point Float} {ds ps : List (Point Float)}

structure IsDecidedBy (b : Box Float) (ds : List (Point Float)) : Prop where
  x : b.x.IsDecidedBy (ds.map Point.x)
  y : b.y.IsDecidedBy (ds.map Point.y)

namespace IsDecidedBy

theorem between (p q : Point Float) : (Box.between p q).IsDecidedBy [p, q] :=
  ⟨.pair (.pair le_total_of_isNaN) (Span.hasNaN_sorted _ _), .pair (.pair le_total_of_isNaN) (Span.hasNaN_sorted _ _)⟩

theorem followedBy (h : c.IsDecidedBy ds) (b : Box Float) :
    (⟨b.x.followedBy c.x, b.y.followedBy c.y⟩ : Box Float).IsDecidedBy ds :=
  ⟨h.x.followedBy b.x, h.y.followedBy b.y⟩

theorem of_bounds (h : b.Bounds ps) (hds : ∀ p ∈ ds, p ∈ ps) (hne : ds ≠ []) : b.IsDecidedBy ds := by
  have hne' : ∀ f : Point Float → Float, ds.map f ≠ [] := fun f => by simpa using hne
  exact ⟨.of_bounds h.x (List.forall_mem_map.mpr fun p hp => List.mem_map_of_mem (hds p hp)) (hne' _),
    .of_bounds h.y (List.forall_mem_map.mpr fun p hp => List.mem_map_of_mem (hds p hp)) (hne' _)⟩

end IsDecidedBy

theorem isDecidedBy_around? (h : around? ps = some b) : b.IsDecidedBy (ps.take 1) := by
  cases ps with
  | nil => cases h
  | cons p ps =>
    have hfold : ∀ (qs : List (Point Float)) (c : Box Float),
        (c.x.Holds p.x ∨ p.x.isNaN = true ∧ c.x = ⟨p.x, p.x⟩) → (c.y.Holds p.y ∨ p.y.isNaN = true ∧ c.y = ⟨p.y, p.y⟩) →
        (qs.foldl (fun b q => (⟨b.x.stretch q.x, b.y.stretch q.y⟩ : Box Float)) c).IsDecidedBy [p] := by
      intro qs
      induction qs with
      | nil => exact fun c hx hy => ⟨.single hx, .single hy⟩
      | cons q qs ih => exact fun c hx hy => ih _ (Span.holds_stretch_or hx q.x) (Span.holds_stretch_or hy q.y)
    have hstart : ∀ a : Float, (⟨a, a⟩ : Span Float).Holds a ∨ a.isNaN = true ∧ (⟨a, a⟩ : Span Float) = ⟨a, a⟩ := by
      intro a
      cases ha : a.isNaN with
      | false => exact .inl ⟨le_self_of_isNaN ha, le_self_of_isNaN ha⟩
      | true => exact .inr ⟨rfl, rfl⟩
    cases h
    have hd := hfold ps (point p) (hstart p.x) (hstart p.y)
    exact ⟨hd.x.inOrder, hd.y.inOrder⟩

theorem isDecidedBy_counterclockwise (h : around? (p.counterclockwise q r) = some b) : b.IsDecidedBy [p] := by
  unfold Point.counterclockwise at h
  dsimp only at h
  split at h
  next hturn =>
    obtain ⟨hx, hy⟩ := isNaN_of_sub (isNaN_of_le (LawfulCoordinate.lt_iff.mp hturn).1).1
    obtain ⟨hqx, hry⟩ := isNaN_of_mul hx
    obtain ⟨hqy, hrx⟩ := isNaN_of_mul hy
    obtain ⟨hqx, hpx⟩ := isNaN_of_sub hqx
    obtain ⟨hqy, hpy⟩ := isNaN_of_sub hqy
    have hr : r.x.isNaN = false ∧ r.y.isNaN = false := ⟨(isNaN_of_sub hrx).1, (isNaN_of_sub hry).1⟩
    have hv : ∀ a ∈ [r, q, p], a.x.isNaN = false ∧ a.y.isNaN = false := by
      rw [List.forall_mem_cons, List.forall_mem_cons, List.forall_mem_singleton]
      exact ⟨hr, ⟨hqx, hqy⟩, hpx, hpy⟩
    rcases bounds?_around? le_total_of_isNaN hv with ⟨hn, -⟩ | ⟨c, hc, hbounds⟩
    · rw [h] at hn
      cases hn
    · cases h.symm.trans hc
      exact .of_bounds hbounds (by simp) (List.cons_ne_nil _ _)
  next => exact isDecidedBy_around? h

end Box

namespace Shape

mutual

/-- The vertices that decide whether the box of a shape is made of numbers. -/
def decisive : Shape Float → List (Point Float)
  | .point p | .triangle p _ _ => [p]
  | .segment p q => [p, q]
  | .path ps | .scatter ps => ps.take 1
  | .polygon p => p.outer.take 1
  | .paths parts => parts.flatten.take 1
  | .polygons parts => (parts.flatMap Polygon.outer).take 1
  | .rectangle b => [⟨b.x.lo, b.y.lo⟩, ⟨b.x.hi, b.y.hi⟩]
  | .collection members => decisiveOfAll members

def decisiveOfAll : List (Shape Float) → List (Point Float)
  | [] => []
  | s :: ss => if (verticesOfAll ss).isEmpty then s.decisive else decisiveOfAll ss

end

mutual

theorem decisive_subset : ∀ s : Shape Float, ∀ p ∈ s.decisive, p ∈ s.vertices
  | .point p | .segment p q | .rectangle b => by simp [decisive, vertices]
  | .triangle p q r => by simp [decisive, vertices]
  | .path ps | .scatter ps | .polygon p | .paths parts | .polygons parts => by
    rw [decisive, vertices]
    exact fun p => List.mem_of_mem_take
  | .collection members => by
    rw [decisive, vertices]
    exact decisiveOfAll_subset members

theorem decisiveOfAll_subset : ∀ ss : List (Shape Float), ∀ p ∈ decisiveOfAll ss, p ∈ verticesOfAll ss
  | [] => by simp [decisiveOfAll]
  | s :: ss => by
    rw [decisiveOfAll, verticesOfAll]
    split
    · exact fun p hp => List.mem_append_left _ (decisive_subset s p hp)
    · exact fun p hp => List.mem_append_right _ (decisiveOfAll_subset ss p hp)

end

mutual

/-- The induction follows the members, of which a later one covers up what an earlier one decided. -/
theorem isDecidedBy_box? : ∀ (s : Shape Float) (b : Box Float), s.isInOrder = true → s.box? = some b →
    b.IsDecidedBy s.decisive
  | .point p, b, _, h => by
    rw [box?] at h
    rw [decisive]
    exact Box.isDecidedBy_around? (show Box.around? [p] = some b from h)
  | .segment p q, b, _, h => by
    simp only [box?, Option.some.injEq] at h
    rw [decisive, ← h]
    exact .between p q
  | .rectangle c, b, ho, h => by
    simp only [box?, Option.some.injEq] at h
    simp only [isInOrder, Bool.and_eq_true, Bool.not_eq_true', decide_eq_false_iff_not] at ho
    rw [decisive, ← h]
    exact ⟨.pair (fun ha hb => .of_not_lt le_total_of_isNaN ha hb ho.1) rfl,
      .pair (fun ha hb => .of_not_lt le_total_of_isNaN ha hb ho.2) rfl⟩
  | .triangle p q r, b, _, h => by
    simp only [box?] at h
    rw [decisive]
    exact Box.isDecidedBy_counterclockwise h
  | .path ps, b, _, h | .scatter ps, b, _, h | .polygon p, b, _, h | .paths parts, b, _, h | .polygons parts, b, _, h => by
    simp only [box?] at h
    rw [decisive]
    exact Box.isDecidedBy_around? h
  | .collection members, b, ho, h => by
    simp only [box?] at h
    simp only [isInOrder] at ho
    rw [decisive]
    rcases isDecidedBy_boxOfAll members none b ho h with ⟨-, hb⟩ | ⟨-, hb⟩
    · cases hb
    · exact hb

theorem isDecidedBy_boxOfAll : ∀ (ss : List (Shape Float)) (o : Option (Box Float)) (b : Box Float),
    allInOrder ss = true → boxOfAll o ss = some b →
    (verticesOfAll ss = [] ∧ o = some b) ∨ verticesOfAll ss ≠ [] ∧ b.IsDecidedBy (decisiveOfAll ss)
  | [], o, b, _, h => by
    rw [boxOfAll] at h
    exact .inl ⟨by rw [verticesOfAll], h⟩
  | s :: ss, o, b, ho, h => by
    rw [allInOrder, Bool.and_eq_true] at ho
    rw [boxOfAll] at h
    rw [decisiveOfAll]
    rcases isDecidedBy_boxOfAll ss _ b ho.2 h with ⟨hss, hb⟩ | ⟨hss, hb⟩
    · rw [if_pos (by rw [hss]; rfl), verticesOfAll, hss, List.append_nil]
      cases hs : s.box? with
      | none =>
        rw [hs] at hb
        exact .inl ⟨box?_eq_none.mp hs, by cases o <;> exact hb⟩
      | some c =>
        have hc := isDecidedBy_box? s c ho.1 hs
        have hne : s.vertices ≠ [] := fun hnil => by rw [box?_eq_none.mpr hnil] at hs; cases hs
        rw [hs] at hb
        cases o with
        | none =>
          cases hb
          exact .inr ⟨hne, hc⟩
        | some d =>
          cases hb
          exact .inr ⟨hne, hc.followedBy d⟩
    · rw [if_neg fun hnil => hss (List.isEmpty_iff.mp hnil), verticesOfAll]
      exact .inr ⟨fun hnil => hss (List.append_eq_nil_iff.mp hnil).2, hb⟩

end

end Shape

/-! ## Extents -/

theorem Box.IsValid.isFinite {b : Box Float} {p : Point Float} (hb : b.IsValid) (h : b.Holds p) : p.isFinite = true :=
  Bool.and_eq_true_iff.mpr ⟨isFinite_between h.x.1 h.x.2 hb.x.finite.1 hb.x.finite.2,
    isFinite_between h.y.1 h.y.2 hb.y.finite.1 hb.y.finite.2⟩

theorem Span.IsDecidedBy.isValid {s : Span Float} {ds as : List Float} (h : s.IsDecidedBy ds) (ht : s.Touches as)
    (hds : ∀ d ∈ ds, d.isNaN = false) (has : ∀ a ∈ as, a.isInf = false) : s.IsValid := by
  have hs : s.hasNaN = false := by
    by_contra hn
    obtain ⟨d, hd, hnan⟩ := h.of_hasNaN (by simpa using hn)
    rw [hds d hd] at hnan
    cases hnan
  obtain ⟨hlo, hhi⟩ := Span.hasNaN_eq_false.mp hs
  have hfinite : ∀ {a : Float}, a.isNaN = false → a.isInf = false → a.isFinite = true := by
    intro a hn hi
    rw [isFinite_eq, hn, hi]
    rfl
  exact ⟨Bool.and_eq_true_iff.mpr ⟨hfinite hlo (has _ ht.lo), hfinite hhi (has _ ht.hi)⟩, h.le hs⟩

namespace Features

def decisive (f : Features Float) : List (Point Float) := f.shapes.flatMap Shape.decisive

section
variable {f : Features Float} (ho : f.isInOrder = true)
include ho

theorem isDecidedBy_box? {s : Shape Float} {b : Box Float} (hs : s ∈ f.shapes) (hb : s.box? = some b) :
    b.IsDecidedBy s.decisive :=
  Shape.isDecidedBy_box? s b (List.all_eq_true.mp ho s hs) hb

theorem holds_decisive {o : Option (Extent Float)} (h : f.extent? = .ok o) {p : Point Float} (hp : p ∈ f.decisive) :
    p.isFinite = true ∧ ∃ e, o = some e ∧ e.toBox.Holds p := by
  obtain ⟨s, hs, hp⟩ := List.mem_flatMap.mp hp
  obtain ⟨b, hb⟩ : ∃ b, s.box? = some b := by
    refine Option.ne_none_iff_exists'.mp fun hn => ?_
    have hv := s.decisive_subset p hp
    rw [Shape.box?_eq_none.mp hn] at hv
    cases hv
  obtain ⟨e, he, hvalid, hc⟩ := exists_covers_of_extent? h (mem_boxes.mpr ⟨s, hs, hb⟩)
  have hd := isDecidedBy_box? ho hs hb
  have hnan : ∀ {a : Float}, Coordinate.isFinite a = true → a.isNaN = false := isNaN_of_isFinite
  have hx : b.x.hasNaN = false := Span.hasNaN_eq_false.mpr ⟨hnan hvalid.x.finite.1, hnan hvalid.x.finite.2⟩
  have hy : b.y.hasNaN = false := Span.hasNaN_eq_false.mpr ⟨hnan hvalid.y.finite.1, hnan hvalid.y.finite.2⟩
  have hholds : b.Holds p := ⟨hd.x.holds hx _ (List.mem_map_of_mem hp), hd.y.holds hy _ (List.mem_map_of_mem hp)⟩
  exact ⟨hvalid.isFinite hholds, e, he, hholds.of_covers hc⟩

theorem exists_extent?_iff_decisive (hr : f.reference.isCompound = false)
    (hinf : ∀ p ∈ f.vertices, p.x.isInf = false ∧ p.y.isInf = false) :
    (∃ o, f.extent? = .ok o) ↔ ∀ p ∈ f.decisive, p.isFinite = true := by
  constructor
  · rintro ⟨o, h⟩ p hp
    exact (holds_decisive ho h hp).1
  · intro h
    refine exists_extent?_iff.mpr fun b hb => ⟨hr, ?_⟩
    obtain ⟨s, hs, hb⟩ := mem_boxes.mp hb
    have hd := isDecidedBy_box? ho hs hb
    have ht := Shape.touches_box? s b hb
    have hfinite : ∀ p ∈ s.decisive, Coordinate.isFinite p.x = true ∧ Coordinate.isFinite p.y = true :=
      fun p hp => Bool.and_eq_true_iff.mp (h p (List.mem_flatMap.mpr ⟨s, hs, hp⟩))
    have hv : ∀ p ∈ s.vertices, p.x.isInf = false ∧ p.y.isInf = false :=
      fun p hp => hinf p (List.mem_flatMap.mpr ⟨s, hs, hp⟩)
    constructor
    · exact hd.x.isValid ht.x (List.forall_mem_map.mpr fun p hp => isNaN_of_isFinite (hfinite p hp).1)
        (List.forall_mem_map.mpr fun p hp => (hv p hp).1)
    · exact hd.y.isValid ht.y (List.forall_mem_map.mpr fun p hp => isNaN_of_isFinite (hfinite p hp).2)
        (List.forall_mem_map.mpr fun p hp => (hv p hp).2)

section
variable (hnan : ∀ p ∈ f.vertices, p.x.isNaN = false ∧ p.y.isNaN = false)
include hnan

theorem holds_vertex {o : Option (Extent Float)} (h : f.extent? = .ok o) {p : Point Float} (hp : p ∈ f.vertices) :
    p.isFinite = true ∧ ∃ e, o = some e ∧ e.toBox.Holds p := by
  obtain ⟨s, hs, hp⟩ := List.mem_flatMap.mp hp
  rcases bounds?_box? le_total_of_isNaN ho hnan hs with ⟨-, hnil⟩ | ⟨b, hb, hbounds⟩
  · rw [hnil] at hp
    cases hp
  · obtain ⟨e, he, hvalid, hc⟩ := exists_covers_of_extent? h (mem_boxes.mpr ⟨s, hs, hb⟩)
    have hholds := hbounds.holds hp
    exact ⟨hvalid.isFinite hholds, e, he, hholds.of_covers hc⟩

theorem exists_extent?_iff_isFinite (hr : f.reference.isCompound = false) :
    (∃ o, f.extent? = .ok o) ↔ ∀ p ∈ f.vertices, p.isFinite = true := by
  constructor
  · rintro ⟨o, h⟩ p hp
    exact (holds_vertex ho hnan h hp).1
  · intro h
    obtain ⟨o, ho, -⟩ := exists_extent? ho h hr
    exact ⟨o, ho⟩

end

end

/-- No decisive vertex is ignored, and without infinite coordinates nothing but these can be refused. -/
theorem extent?_decisive {f : Features Float} (ho : f.isInOrder = true) :
    (∀ o, f.extent? = .ok o → ∀ p ∈ f.decisive, p.isFinite = true ∧ ∃ e, o = some e ∧ e.toBox.Holds p) ∧
      (f.reference.isCompound = false → (∀ p ∈ f.vertices, p.x.isInf = false ∧ p.y.isInf = false) →
        ((∃ o, f.extent? = .ok o) ↔ ∀ p ∈ f.decisive, p.isFinite = true)) ∧
      (f.reference.isCompound = false → (∀ p ∈ f.vertices, p.x.isNaN = false ∧ p.y.isNaN = false) →
        ((∃ o, f.extent? = .ok o) ↔ ∀ p ∈ f.vertices, p.isFinite = true) ∧
        (∀ o, f.extent? = .ok o → ∀ p ∈ f.vertices, ∃ e, o = some e ∧ e.toBox.Holds p) ∧
        ∀ g : Features Float, g.reference = f.reference → g.isInOrder = true →
          (∀ p, p ∈ g.vertices ↔ p ∈ f.vertices) → ((∃ o, g.extent? = .ok o) ↔ ∃ o, f.extent? = .ok o)) ∧
      (f.reference.isCompound = true → ((∃ o, f.extent? = .ok o) ↔ f.vertices = [])) := by
  refine ⟨fun o h p => holds_decisive ho h, exists_extent?_iff_decisive ho, fun hr hnan => ?_, fun hr => ⟨?_, ?_⟩⟩
  · have hiff := exists_extent?_iff_isFinite ho hnan hr
    refine ⟨hiff, fun o h p hp => (holds_vertex ho hnan h hp).2, fun g hg ho' hfg => ?_⟩
    have hiff' := exists_extent?_iff_isFinite ho' (fun p hp => hnan p ((hfg p).mp hp)) (hg ▸ hr)
    rw [hiff, hiff']
    exact forall_congr' fun p => imp_congr_left (hfg p)
  · rintro ⟨o, h⟩
    by_contra hne
    rw [extent?_of_isCompound hr hne] at h
    cases h
  · exact fun h => ⟨none, extent?_of_vertices_eq_nil h⟩

theorem extent?_decisive_mixed :
    let nan : Float := 0 / 0
    let r : ReferenceSystem := .horizontal "EPSG:4326"
    let f : Features Float := ⟨r, [.path [⟨0, 0⟩, ⟨nan, 1⟩],
      .collection [.point ⟨nan, nan⟩, .collection [], .triangle ⟨0, 5⟩ ⟨2, 2⟩ ⟨3, nan⟩]]⟩
    let g : Features Float := ⟨r, [.point ⟨2, 2⟩, .collection [.scatter [⟨0, 1⟩, ⟨1 / 0, 0⟩], .point ⟨3, 4⟩]]⟩
    (f.isInOrder = true ∧ (∀ p ∈ f.vertices, p.x.isInf = false ∧ p.y.isInf = false) ∧
      (∃ p ∈ f.vertices, p.isFinite = false) ∧ ∃ o, f.extent? = .ok o) ∧
      g.isInOrder = true ∧ (∀ p ∈ g.vertices, p.x.isNaN = false ∧ p.y.isNaN = false) ∧ ¬ ∃ o, g.extent? = .ok o := by
  intro nan r f g
  have hf : ∀ p ∈ f.vertices, p.x.isInf = false ∧ p.y.isInf = false := by decide +kernel
  have hg : ∀ p ∈ g.vertices, p.x.isNaN = false ∧ p.y.isNaN = false := by decide +kernel
  obtain ⟨-, hdecisive, -, -⟩ := extent?_decisive (f := f) rfl
  obtain ⟨-, -, hnumbers, -⟩ := extent?_decisive (f := g) rfl
  refine ⟨⟨rfl, hf, by decide +kernel, (hdecisive rfl hf).mpr (by decide +kernel)⟩, rfl, hg, fun h => ?_⟩
  exact absurd ((hnumbers rfl hg).1.mp h) (by decide +kernel)

/-- A vertex that is not a number, and another one with it, is missing from an extent. -/
theorem extent?_ignores_vertices :
    let nan : Float := 0 / 0
    let r : ReferenceSystem := .horizontal "EPSG:4326"
    let f : Features Float := ⟨r, [.collection [.point ⟨0, 0⟩, .point ⟨nan, 1⟩, .point ⟨2, 2⟩]]⟩
    let g : Features Float := ⟨r, [.collection [.point ⟨0, 0⟩, .point ⟨2, 2⟩, .point ⟨nan, 1⟩]]⟩
    (∃ p ∈ f.vertices, p.isFinite = false) ∧ (∀ p, p ∈ g.vertices ↔ p ∈ f.vertices) ∧
      (∃ e, f.extent? = .ok (some e) ∧ ∃ p ∈ f.vertices, p.isFinite = true ∧ ¬ e.toBox.Holds p) ∧
      ¬ ∃ o, g.extent? = .ok o := by
  intro nan r f g
  have hf : ∀ p ∈ f.vertices, p.x.isInf = false ∧ p.y.isInf = false := by decide +kernel
  have hg : ∀ p ∈ g.vertices, p.x.isInf = false ∧ p.y.isInf = false := by decide +kernel
  obtain ⟨o, h⟩ := (exists_extent?_iff_decisive (f := f) rfl rfl hf).mpr (by decide +kernel)
  have hcheck : f.extent?.toOption.any (Option.any fun e => !decide (e.x.lo ≤ 0)) = true := by decide +kernel
  rw [h] at hcheck
  obtain ⟨e, rfl, hlo⟩ := (Option.any_eq_true _ o).mp hcheck
  have hvertices : ∀ p, p ∈ g.vertices ↔ p ∈ f.vertices := by
    intro p
    simp only [f, g, vertices, Shape.vertices, Shape.verticesOfAll, List.flatMap_cons, List.flatMap_nil,
      List.append_nil, List.mem_append, List.mem_singleton]
    exact or_congr_right or_comm
  refine ⟨by decide +kernel, hvertices, ⟨e, h, ⟨0, 0⟩, ?_, by decide +kernel, fun hholds => ?_⟩, fun h => ?_⟩
  · simp [f, vertices, Shape.vertices, Shape.verticesOfAll]
  · simp only [Bool.not_eq_true', decide_eq_false_iff_not] at hlo
    exact hlo hholds.x.1
  · exact absurd ((exists_extent?_iff_decisive (f := g) rfl rfl hg).mp h) (by decide +kernel)

end Features

end ExtentLedger
