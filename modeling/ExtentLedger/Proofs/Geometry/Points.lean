import ExtentLedger.Proofs.Geometry.Hull

/-!
# Boxes over points

The box over some finite points holds them all, and each of its bounds is a coordinate of one of them: the same number,
not only an equal one.
-/

namespace ExtentLedger

variable {K : Type} [Coordinate K]

def Span.Holds (s : Span K) (a : K) : Prop := s.lo ≤ a ∧ a ≤ s.hi

namespace Box

structure Holds (b : Box K) (p : Point K) : Prop where
  x : b.x.Holds p.x
  y : b.y.Holds p.y

structure Touches (b : Box K) (ps : List (Point K)) : Prop where
  left : b.x.lo ∈ ps.map Point.x
  right : b.x.hi ∈ ps.map Point.x
  bottom : b.y.lo ∈ ps.map Point.y
  top : b.y.hi ∈ ps.map Point.y

variable {b : Box K} {p q : Point K} {ps : List (Point K)}

theorem covers_point : b.covers (point p) = true ↔ b.Holds p := by
  rw [covers_iff, Span.covers_iff, Span.covers_iff]
  exact ⟨fun h => ⟨h.1, h.2⟩, fun h => ⟨h.x, h.y⟩⟩

theorem exists_ofPoints? (h : ps ≠ []) : ∃ b, ofPoints? ps = some b := by
  cases ps with
  | nil => exact absurd rfl h
  | cons p ps => exact ⟨_, rfl⟩

/-! ## Bounds -/

omit [Coordinate K] in
theorem touches_point (p : Point K) : (point p).Touches [p] := by
  constructor <;> exact List.mem_singleton_self _

theorem Touches.join_point (h : b.Touches ps) (q : Point K) : (b.join (point q)).Touches (ps ++ [q]) := by
  have hlo : ∀ {a c : K} {as : List K}, a ∈ as → Coordinate.least a c ∈ as ++ [c] := by
    intro a c as ha
    by_cases hlt : a < c
    · simp [Coordinate.least, hlt, ha]
    · simp [Coordinate.least, hlt]
  have hhi : ∀ {a c : K} {as : List K}, a ∈ as → Coordinate.greatest a c ∈ as ++ [c] := by
    intro a c as ha
    by_cases hlt : c < a
    · simp [Coordinate.greatest, hlt, ha]
    · simp [Coordinate.greatest, hlt]
  constructor <;> rw [List.map_append]
  · exact hlo h.left
  · exact hhi h.right
  · exact hlo h.bottom
  · exact hhi h.top

theorem Touches.foldl_join (h : b.Touches ps) (qs : List (Point K)) :
    (qs.foldl (fun b q => b.join (point q)) b).Touches (ps ++ qs) := by
  induction qs generalizing b ps with
  | nil => simpa using h
  | cons q qs ih =>
    have := ih (h.join_point q)
    rwa [List.append_assoc] at this

theorem touches_ofPoints? (h : ofPoints? ps = some b) : b.Touches ps := by
  cases ps with
  | nil => cases h
  | cons p ps =>
    cases h
    exact (touches_point p).foldl_join ps

theorem Touches.inOrder (h : b.Touches ps) : b.inOrder.Touches ps := by
  have hs : ∀ {s : Span K} {as : List K}, s.lo ∈ as → s.hi ∈ as →
      (Span.sorted s.lo s.hi).lo ∈ as ∧ (Span.sorted s.lo s.hi).hi ∈ as := by
    intro s as hl hh
    by_cases hlt : s.lo < s.hi
    · simp [Span.sorted, hlt, hl, hh]
    · simp [Span.sorted, hlt, hl, hh]
  exact ⟨(hs h.left h.right).1, (hs h.left h.right).2, (hs h.bottom h.top).1, (hs h.bottom h.top).2⟩

/-! ## Hulls -/

variable [LawfulCoordinate K]

theorem isValid_point (h : p.isFinite = true) : (point p).IsValid := by
  simp only [Point.isFinite, Bool.and_eq_true] at h
  have hs : ∀ {a : K}, Coordinate.isFinite a = true → (⟨a, a⟩ : Span K).IsValid := fun ha =>
    ⟨by simp [Span.isFinite, ha], LawfulCoordinate.le_refl ha⟩
  exact ⟨hs h.1, hs h.2⟩

theorem IsHull.foldl_join {parts : List (Box K)} (h : b.IsHull parts) {qs : List (Point K)}
    (hf : ∀ q ∈ qs, q.isFinite = true) :
    (qs.foldl (fun b q => b.join (point q)) b).IsHull (parts ++ qs.map point) := by
  induction qs generalizing b parts with
  | nil => simpa using h
  | cons q qs ih =>
    rw [List.forall_mem_cons] at hf
    have := ih (h.join (.single (isValid_point hf.1))) hf.2
    rwa [List.append_assoc] at this

theorem isHull_ofPoints? (hf : ∀ p ∈ ps, p.isFinite = true) (h : ofPoints? ps = some b) : b.IsHull (ps.map point) := by
  cases ps with
  | nil => cases h
  | cons p ps =>
    cases h
    rw [List.forall_mem_cons] at hf
    exact (IsHull.single (isValid_point hf.1)).foldl_join hf.2

theorem IsHull.holds (h : b.IsHull (ps.map point)) (hp : p ∈ ps) : b.Holds p :=
  covers_point.mp (h.covers (List.mem_map_of_mem hp))

end Box

end ExtentLedger
