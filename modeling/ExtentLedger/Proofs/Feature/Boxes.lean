import ExtentLedger.Feature.Vertices
import ExtentLedger.Proofs.Geometry.Bounds

/-!
# Boxes of shapes

The box of a shape bounds its vertices where these compare with each other, however deep they are nested, and a shape
without vertices has no box.
-/

namespace ExtentLedger

variable {K : Type} [Coordinate K]

namespace Shape

mutual

def isInOrder : Shape K → Bool
  | .rectangle b => !decide (b.x.hi < b.x.lo) && !decide (b.y.hi < b.y.lo)
  | .collection members => allInOrder members
  | _ => true

def allInOrder : List (Shape K) → Bool
  | [] => true
  | s :: ss => s.isInOrder && allInOrder ss

end

end Shape

namespace Box

theorem around?_eq_none {ps : List (Point K)} : around? ps = none ↔ ps = [] := by
  cases ps <;> simp [around?]

theorem followedBy?_eq_none {b c : Option (Box K)} : followedBy? b c = none ↔ b = none ∧ c = none := by
  cases b <;> cases c <;> simp [followedBy?]

end Box

namespace Shape

mutual

theorem box?_eq_none : ∀ {s : Shape K}, s.box? = none ↔ s.vertices = []
  | .point p | .segment p q | .rectangle b => by simp [box?, vertices]
  | .path ps | .scatter ps | .polygon p | .paths parts | .polygons parts => by
    simp only [box?, vertices, Box.around?_eq_none]
  | .triangle p q r => by
    rw [box?, vertices, Box.around?_eq_none]
    refine iff_of_false ?_ (List.cons_ne_nil _ _)
    unfold Point.counterclockwise
    dsimp only
    split <;> exact List.cons_ne_nil _ _
  | .collection members => by
    rw [box?, vertices, boxOfAll_eq_none]
    exact and_iff_right rfl

theorem boxOfAll_eq_none : ∀ {ss : List (Shape K)} {b : Option (Box K)},
    boxOfAll b ss = none ↔ b = none ∧ verticesOfAll ss = []
  | [], b => by simp [boxOfAll, verticesOfAll]
  | s :: ss, b => by
    rw [boxOfAll, verticesOfAll, boxOfAll_eq_none, Box.followedBy?_eq_none, box?_eq_none, List.append_eq_nil_iff, and_assoc]

end

end Shape

/-! ## Touching -/

namespace Box

variable {b c : Box K} {ps qs : List (Point K)}

theorem touches_around? (h : around? ps = some b) : b.Touches ps := by
  cases ps with
  | nil => cases h
  | cons p ps =>
    cases h
    exact ((touches_point p).foldl_stretch ps).inOrder

theorem touches_followedBy? {o o' : Option (Box K)} (ho : ∀ b ∈ o, b.Touches ps) (ho' : ∀ c ∈ o', c.Touches qs) :
    ∀ d ∈ followedBy? o o', d.Touches (ps ++ qs) := by
  intro d hd
  cases o with
  | none => exact (ho' d (by simpa [followedBy?] using hd)).mono fun p hp => List.mem_append_right _ hp
  | some b =>
    cases o' with
    | none => exact (ho d (by simpa [followedBy?] using hd)).mono fun p hp => List.mem_append_left _ hp
    | some c =>
      cases hd
      exact (ho b rfl).followedBy (ho' c rfl)

end Box

namespace Shape

theorem mem_counterclockwise {p q r a : Point K} : a ∈ p.counterclockwise q r ↔ a ∈ [p, q, r] := by
  unfold Point.counterclockwise
  dsimp only
  split
  · simp only [List.mem_cons, List.not_mem_nil, or_false]
    tauto
  · exact Iff.rfl

mutual

theorem touches_box? : ∀ (s : Shape K) (b : Box K), s.box? = some b → b.Touches s.vertices
  | .point p, b, h => by
    rw [box?] at h
    rw [vertices]
    exact Box.touches_around? (show Box.around? [p] = some b from h)
  | .segment p q, b, h => by
    simp only [box?, Option.some.injEq] at h
    rw [vertices, ← h]
    exact .between p q
  | .rectangle c, b, h => by
    simp only [box?, Option.some.injEq] at h
    rw [vertices, ← h]
    constructor <;> simp
  | .triangle p q r, b, h => by
    simp only [box?] at h
    rw [vertices]
    exact (Box.touches_around? h).mono fun a => mem_counterclockwise.mp
  | .path ps, b, h | .scatter ps, b, h | .polygon p, b, h | .paths parts, b, h | .polygons parts, b, h => by
    simp only [box?] at h
    rw [vertices]
    exact Box.touches_around? h
  | .collection members, b, h => by
    simp only [box?] at h
    rw [vertices]
    exact touches_boxOfAll members none [] nofun b h

theorem touches_boxOfAll : ∀ (ss : List (Shape K)) (o : Option (Box K)) (ps : List (Point K)),
    (∀ b ∈ o, b.Touches ps) → ∀ b, boxOfAll o ss = some b → b.Touches (ps ++ verticesOfAll ss)
  | [], o, ps, ho, b, h => by
    rw [boxOfAll] at h
    rw [verticesOfAll, List.append_nil]
    exact ho b h
  | s :: ss, o, ps, ho, b, h => by
    rw [boxOfAll] at h
    rw [verticesOfAll, ← List.append_assoc]
    exact touches_boxOfAll ss _ _ (Box.touches_followedBy? ho (touches_box? s)) b h

end

end Shape

/-! ## Bounding -/

namespace Box

def Bounds? (b : Option (Box K)) (ps : List (Point K)) : Prop :=
  (b = none ∧ ps = []) ∨ ∃ c, b = some c ∧ c.Bounds ps

variable {b c : Option (Box K)} {ps qs : List (Point K)} {P : K → Prop}

theorem Bounds?.congr (h : Bounds? b ps) (hpq : ∀ p, p ∈ ps ↔ p ∈ qs) : Bounds? b qs := by
  rcases h with ⟨hb, rfl⟩ | ⟨c, hc, hbounds⟩
  · exact .inl ⟨hb, List.eq_nil_iff_forall_not_mem.mpr fun p hp => List.not_mem_nil ((hpq p).mpr hp)⟩
  · exact .inr ⟨c, hc, hbounds.congr hpq⟩

variable [LawfulCoordinate K] (hP : ∀ {a b : K}, P a → P b → a ≤ b ∨ b ≤ a)
include hP

theorem bounds?_around? (hps : ∀ p ∈ ps, P p.x ∧ P p.y) : Bounds? (around? ps) ps := by
  cases ps with
  | nil => exact .inl ⟨rfl, rfl⟩
  | cons p ps =>
    obtain ⟨hp, hps'⟩ := List.forall_mem_cons.mp hps
    have hpoint : (point p).Bounds [p] :=
      ⟨.single hP hp.1, .single hP hp.2⟩
    exact .inr ⟨_, rfl, (hpoint.foldl_stretch hP (List.forall_mem_singleton.mpr hp) hps').inOrder hP hps⟩

theorem Bounds?.followedBy? (h : Bounds? b ps) (h' : Bounds? c qs) (hps : ∀ p ∈ ps, P p.x ∧ P p.y)
    (hqs : ∀ q ∈ qs, P q.x ∧ P q.y) : Bounds? (followedBy? b c) (ps ++ qs) := by
  rcases h with ⟨rfl, rfl⟩ | ⟨b, rfl, hb⟩
  · rcases h' with ⟨rfl, rfl⟩ | ⟨c, rfl, hc⟩
    · exact .inl ⟨rfl, rfl⟩
    · exact .inr ⟨c, rfl, hc⟩
  · rcases h' with ⟨rfl, rfl⟩ | ⟨c, rfl, hc⟩
    · exact .inr ⟨b, rfl, by rwa [List.append_nil]⟩
    · exact .inr ⟨_, rfl, hb.followedBy hP hc hps hqs⟩

end Box

namespace Shape

variable [LawfulCoordinate K] {P : K → Prop} (hP : ∀ {a b : K}, P a → P b → a ≤ b ∨ b ≤ a)
include hP

mutual

/-- The induction follows the members; only a collection has any. -/
theorem bounds?_box? : ∀ s : Shape K, s.isInOrder = true → (∀ p ∈ s.vertices, P p.x ∧ P p.y) →
    Box.Bounds? s.box? s.vertices
  | .point p, _, hv => by
    rw [vertices] at hv
    rw [box?, vertices]
    exact Box.bounds?_around? hP hv
  | .segment p q, _, hv => by
    refine .inr ⟨_, by rw [box?], ?_⟩
    rw [vertices]
    exact Box.Bounds.between hP (hv p (by simp [vertices])) (hv q (by simp [vertices]))
  | .path ps, _, hv | .scatter ps, _, hv | .polygon p, _, hv | .paths parts, _, hv | .polygons parts, _, hv => by
    simp only [vertices, box?] at hv ⊢
    exact Box.bounds?_around? hP hv
  | .rectangle b, ho, hv => by
    have hlo := hv ⟨b.x.lo, b.y.lo⟩ (by simp [vertices])
    have hhi := hv ⟨b.x.hi, b.y.hi⟩ (by simp [vertices])
    simp only [isInOrder, Bool.and_eq_true, Bool.not_eq_true', decide_eq_false_iff_not] at ho
    refine .inr ⟨b, by rw [box?], ?_⟩
    rw [vertices]
    exact ⟨.of_not_lt hP hlo.1 hhi.1 ho.1, .of_not_lt hP hlo.2 hhi.2 ho.2⟩
  | .triangle p q r, _, hv => by
    simp only [vertices, box?] at hv ⊢
    refine (Box.bounds?_around? hP fun a ha => hv a ?_).congr fun a => mem_counterclockwise
    exact mem_counterclockwise.mp ha
  | .collection members, ho, hv => by
    simp only [vertices, box?, isInOrder] at hv ho ⊢
    exact bounds?_boxOfAll members none [] (.inl ⟨rfl, rfl⟩) nofun ho hv

theorem bounds?_boxOfAll : ∀ (ss : List (Shape K)) (b : Option (Box K)) (ps : List (Point K)), Box.Bounds? b ps →
    (∀ p ∈ ps, P p.x ∧ P p.y) → allInOrder ss = true → (∀ p ∈ verticesOfAll ss, P p.x ∧ P p.y) →
    Box.Bounds? (boxOfAll b ss) (ps ++ verticesOfAll ss)
  | [], b, ps, hb, _, _, _ => by
    rw [boxOfAll, verticesOfAll, List.append_nil]
    exact hb
  | s :: ss, b, ps, hb, hps, ho, hv => by
    rw [allInOrder, Bool.and_eq_true] at ho
    rw [verticesOfAll, List.forall_mem_append] at hv
    rw [boxOfAll, verticesOfAll, ← List.append_assoc]
    have hs := bounds?_box? s ho.1 hv.1
    exact bounds?_boxOfAll ss _ _ (hb.followedBy? hP hs hps hv.1) (List.forall_mem_append.mpr ⟨hps, hv.1⟩) ho.2 hv.2

end

end Shape

end ExtentLedger
