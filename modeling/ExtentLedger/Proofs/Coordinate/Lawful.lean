import ExtentLedger.Coordinate
import Mathlib.Algebra.Order.Group.Int
import Mathlib.Algebra.Order.Ring.Rat
import Mathlib.Data.Prod.Lex
import Mathlib.Order.Compare

/-!
# Lawful coordinates

What geometry needs of the order of coordinates, and no more: the order is transitive, it is total among finite
coordinates, and `<` and `==` say what they should in terms of `≤`. Rationals are lawful, and doubles are lawful with
their zeros of either sign, their infinities and their numbers that compare with nothing.
-/

namespace ExtentLedger

class LawfulCoordinate (K : Type) [Coordinate K] : Prop where
  le_trans : ∀ {a b c : K}, a ≤ b → b ≤ c → a ≤ c
  le_total : ∀ {a b : K}, Coordinate.isFinite a = true → Coordinate.isFinite b = true → a ≤ b ∨ b ≤ a
  lt_iff : ∀ {a b : K}, a < b ↔ a ≤ b ∧ ¬ b ≤ a
  beq_iff : ∀ {a b : K}, (a == b) = true ↔ a ≤ b ∧ b ≤ a

instance : LawfulCoordinate Rat where
  le_trans := Rat.le_trans
  le_total _ _ := Rat.le_total
  lt_iff := lt_iff_le_not_ge
  beq_iff := beq_iff_eq.trans ⟨fun h => h ▸ ⟨Rat.le_refl, Rat.le_refl⟩, fun h => Rat.le_antisymm h.1 h.2⟩

/-! ## Doubles -/

namespace Double

open Float.Model UnpackedFloat

/-- Where a double stands among the others: by its sign and size first, then by its exponent, then by its mantissa. -/
def key? : UnpackedFloat → Option (ℤ ×ₗ ℤ ×ₗ ℤ)
  | .notANumber => none
  | .infinity .negative => some (toLex (-2, toLex (0, 0)))
  | .finite .negative m e _ => some (toLex (-1, toLex (-e, -(m : ℤ))))
  | .zero _ => some (toLex (0, toLex (0, 0)))
  | .finite .positive m e _ => some (toLex (1, toLex (e, (m : ℤ))))
  | .infinity .positive => some (toLex (2, toLex (0, 0)))

theorem compare_toLex (r r' e e' m m' : ℤ) :
    compare (toLex (r, toLex (e, m))) (toLex (r', toLex (e', m'))) =
      (compare r r').then ((compare e e').then (compare m m')) := rfl

theorem compare_cast (m m' : ℕ) : compare (m : ℤ) (m' : ℤ) = compare m m' := by
  rcases lt_trichotomy m m' with h | h | h
  · rw [compare_lt_iff_lt.mpr h, compare_lt_iff_lt.mpr (Int.ofNat_lt.mpr h)]
  · rw [h, compare_eq_iff_eq.mpr rfl, compare_eq_iff_eq.mpr rfl]
  · rw [compare_gt_iff_gt.mpr h, compare_gt_iff_gt.mpr (Int.ofNat_lt.mpr h)]

theorem compare_neg {α : Type} [AddCommGroup α] [LinearOrder α] [IsOrderedAddMonoid α] (a b : α) :
    compare (-a) (-b) = (compare a b).swap := by
  rcases lt_trichotomy a b with h | h | h
  · rw [compare_lt_iff_lt.mpr h, compare_gt_iff_gt.mpr (neg_lt_neg h)]
    rfl
  · rw [h, compare_eq_iff_eq.mpr rfl, compare_eq_iff_eq.mpr rfl]
    rfl
  · rw [compare_gt_iff_gt.mpr h, compare_lt_iff_lt.mpr (neg_lt_neg h)]
    rfl

theorem compare_eq (a b : UnpackedFloat) :
    a.compare b = (key? a).bind fun x => (key? b).map fun y => compare x y := by
  cases a with
  | notANumber => rfl
  | infinity s =>
    cases s <;> rcases b with ⟨_ | _⟩ | _ | _ | ⟨_ | _, m, e, _⟩ <;> rfl
  | zero s => rcases b with ⟨_ | _⟩ | _ | _ | ⟨_ | _, m, e, _⟩ <;> rfl
  | finite s m e hm =>
    cases s with
    | negative =>
      rcases b with ⟨_ | _⟩ | _ | _ | ⟨_ | _, m', e', _⟩
      case finite.negative =>
        show _ = some (compare (toLex (-1, toLex (-e, -(m : ℤ)))) (toLex (-1, toLex (-e', -(m' : ℤ)))))
        rw [compare_toLex, compare_neg e, compare_neg (m : ℤ), compare_cast, ← Ordering.swap_then]
        rfl
      all_goals rfl
    | positive =>
      rcases b with ⟨_ | _⟩ | _ | _ | ⟨_ | _, m', e', _⟩
      case finite.positive =>
        show _ = some (compare (toLex (1, toLex (e, (m : ℤ)))) (toLex (1, toLex (e', (m' : ℤ)))))
        rw [compare_toLex, compare_cast]
        rfl
      all_goals rfl

def keyOf? (a : Float) : Option (ℤ ×ₗ ℤ ×ₗ ℤ) := key? a.toModel.unpack

theorem compare_eq_some {a b : Float} {o : Ordering} :
    a.toModel.unpack.compare b.toModel.unpack = some o ↔
      ∃ x y, keyOf? a = some x ∧ keyOf? b = some y ∧ compare x y = o := by
  rw [compare_eq, Option.bind_eq_some_iff]
  constructor
  · intro h
    obtain ⟨x, hx, h⟩ := h
    obtain ⟨y, hy, hxy⟩ := Option.map_eq_some_iff.mp h
    exact ⟨x, y, hx, hy, hxy⟩
  · intro h
    obtain ⟨x, y, hx, hy, hxy⟩ := h
    exact ⟨x, hx, Option.map_eq_some_iff.mpr ⟨y, hy, hxy⟩⟩

theorem isLE_compare {x y : ℤ ×ₗ ℤ ×ₗ ℤ} : (compare x y).isLE = true ↔ x ≤ y := by
  rw [← not_lt, ← compare_gt_iff_gt]
  cases compare x y <;> decide

theorem le_iff {a b : Float} : a ≤ b ↔ ∃ x y, keyOf? a = some x ∧ keyOf? b = some y ∧ x ≤ y := by
  have h : a ≤ b ↔ ∃ o, a.toModel.unpack.compare b.toModel.unpack = some o ∧ o.isLE = true :=
    decide_eq_true_iff.trans (Option.any_eq_true _ _)
  rw [h]
  constructor
  · intro h
    obtain ⟨o, hc, ho⟩ := h
    obtain ⟨x, y, hx, hy, rfl⟩ := compare_eq_some.mp hc
    exact ⟨x, y, hx, hy, isLE_compare.mp ho⟩
  · intro h
    obtain ⟨x, y, hx, hy, hxy⟩ := h
    exact ⟨_, compare_eq_some.mpr ⟨x, y, hx, hy, rfl⟩, isLE_compare.mpr hxy⟩

theorem lt_iff {a b : Float} : a < b ↔ ∃ x y, keyOf? a = some x ∧ keyOf? b = some y ∧ x < y := by
  have h : a < b ↔ a.toModel.unpack.compare b.toModel.unpack = some .lt :=
    decide_eq_true_iff.trans beq_iff_eq
  simp only [h, compare_eq_some, compare_lt_iff_lt]

theorem beq_iff {a b : Float} : (a == b) = true ↔ ∃ x y, keyOf? a = some x ∧ keyOf? b = some y ∧ x = y := by
  have h : (a == b) = true ↔ a.toModel.unpack.compare b.toModel.unpack = some .eq :=
    beq_iff_eq (a := a.toModel.unpack.compare b.toModel.unpack)
  simp only [h, compare_eq_some, compare_eq_iff_eq]

theorem exists_key_of_isNaN {a : Float} (h : a.isNaN = false) : ∃ x, keyOf? a = some x := by
  have hn : a.toModel.unpack.isNaN = false := h
  unfold keyOf?
  generalize a.toModel.unpack = u at hn
  rcases u with ⟨_ | _⟩ | _ | _ | ⟨_ | _, m, e, _⟩
  case notANumber => cases hn
  all_goals exact ⟨_, rfl⟩

theorem isNaN_of_le {a b : Float} (h : a ≤ b) : a.isNaN = false ∧ b.isNaN = false := by
  have hkey : ∀ {c : Float} {x}, keyOf? c = some x → c.isNaN = false := by
    intro c x hx
    show c.toModel.unpack.isNaN = false
    unfold keyOf? at hx
    generalize c.toModel.unpack = u at hx
    rcases u with _ | _ | _ | _
    case notANumber => cases hx
    all_goals rfl
  obtain ⟨x, y, hx, hy, -⟩ := le_iff.mp h
  exact ⟨hkey hx, hkey hy⟩

theorem le_total_of_isNaN {a b : Float} (ha : a.isNaN = false) (hb : b.isNaN = false) : a ≤ b ∨ b ≤ a := by
  obtain ⟨x, hx⟩ := exists_key_of_isNaN ha
  obtain ⟨y, hy⟩ := exists_key_of_isNaN hb
  exact (le_total x y).imp (fun h => le_iff.mpr ⟨x, y, hx, hy, h⟩) fun h => le_iff.mpr ⟨y, x, hy, hx, h⟩

theorem le_self_of_isNaN {a : Float} (h : a.isNaN = false) : a ≤ a := (le_total_of_isNaN h h).elim id id

theorem isFinite_eq (a : Float) : a.isFinite = (!a.isNaN && !a.isInf) := by
  show a.toModel.unpack.isFinite = (!a.toModel.unpack.isNaN && !a.toModel.unpack.isInf)
  cases a.toModel.unpack <;> rfl

theorem isNaN_of_isFinite {a : Float} (h : a.isFinite = true) : a.isNaN = false := by
  rw [isFinite_eq, Bool.and_eq_true, Bool.not_eq_true'] at h
  exact h.1

theorem isFinite_iff {a : Float} :
    a.isFinite = true ↔ ∃ x, keyOf? a = some x ∧ -1 ≤ (ofLex x).1 ∧ (ofLex x).1 ≤ 1 := by
  show a.toModel.unpack.isFinite = true ↔ ∃ x, key? a.toModel.unpack = some x ∧ _
  generalize a.toModel.unpack = u
  have hinside : ∀ {v : UnpackedFloat} {k : ℤ} {n : ℤ ×ₗ ℤ}, v.isFinite = true → key? v = some (toLex (k, n)) →
      -1 ≤ k → k ≤ 1 → (v.isFinite = true ↔ ∃ x, key? v = some x ∧ -1 ≤ (ofLex x).1 ∧ (ofLex x).1 ≤ 1) :=
    fun hv hk hlo hhi => iff_of_true hv ⟨_, hk, hlo, hhi⟩
  rcases u with ⟨_ | _⟩ | _ | _ | ⟨_ | _, m, e, _⟩
  case infinity.positive =>
    refine iff_of_false Bool.false_ne_true ?_
    rintro ⟨x, hx, -, hhi⟩
    cases hx
    exact absurd hhi (by decide)
  case infinity.negative =>
    refine iff_of_false Bool.false_ne_true ?_
    rintro ⟨x, hx, hlo, -⟩
    cases hx
    exact absurd hlo (by decide)
  case notANumber => exact iff_of_false Bool.false_ne_true fun ⟨x, hx, _⟩ => nomatch hx
  all_goals exact hinside rfl rfl (by decide) (by decide)

theorem isFinite_between {a b c : Float} (hab : a ≤ b) (hbc : b ≤ c) (ha : a.isFinite = true) (hc : c.isFinite = true) :
    b.isFinite = true := by
  obtain ⟨x, y, hx, hy, hxy⟩ := le_iff.mp hab
  obtain ⟨y', z, hy', hz, hyz⟩ := le_iff.mp hbc
  obtain ⟨x', hx', hlo, -⟩ := isFinite_iff.mp ha
  obtain ⟨z', hz', -, hhi⟩ := isFinite_iff.mp hc
  cases hy.symm.trans hy'
  cases hx.symm.trans hx'
  cases hz.symm.trans hz'
  exact isFinite_iff.mpr ⟨y, hy, hlo.trans (Prod.Lex.monotone_fst _ _ hxy), (Prod.Lex.monotone_fst _ _ hyz).trans hhi⟩

end Double

open Double in
instance : LawfulCoordinate Float where
  le_trans {a b c} hab hbc := by
    obtain ⟨x, y, hx, hy, hxy⟩ := le_iff.mp hab
    obtain ⟨y', z, hy', hz, hyz⟩ := le_iff.mp hbc
    cases hy.symm.trans hy'
    exact le_iff.mpr ⟨x, z, hx, hz, hxy.trans hyz⟩
  le_total ha hb := le_total_of_isNaN (isNaN_of_isFinite ha) (isNaN_of_isFinite hb)
  lt_iff {a b} := by
    constructor
    · intro h
      obtain ⟨x, y, hx, hy, hxy⟩ := lt_iff.mp h
      refine ⟨le_iff.mpr ⟨x, y, hx, hy, hxy.le⟩, fun hba => ?_⟩
      obtain ⟨y', x', hy', hx', hyx⟩ := le_iff.mp hba
      cases hx.symm.trans hx'
      cases hy.symm.trans hy'
      exact hxy.not_ge hyx
    · intro h
      obtain ⟨hab, hba⟩ := h
      obtain ⟨x, y, hx, hy, hxy⟩ := le_iff.mp hab
      exact lt_iff.mpr ⟨x, y, hx, hy, lt_of_not_ge fun h => hba (le_iff.mpr ⟨y, x, hy, hx, h⟩)⟩
  beq_iff {a b} := by
    constructor
    · intro h
      obtain ⟨x, y, hx, hy, rfl⟩ := beq_iff.mp h
      exact ⟨le_iff.mpr ⟨x, x, hx, hy, le_rfl⟩, le_iff.mpr ⟨x, x, hy, hx, le_rfl⟩⟩
    · intro h
      obtain ⟨hab, hba⟩ := h
      obtain ⟨x, y, hx, hy, hxy⟩ := le_iff.mp hab
      obtain ⟨y', x', hy', hx', hyx⟩ := le_iff.mp hba
      cases hx.symm.trans hx'
      cases hy.symm.trans hy'
      exact beq_iff.mpr ⟨x, y, hx, hy, le_antisymm hxy hyx⟩

end ExtentLedger
