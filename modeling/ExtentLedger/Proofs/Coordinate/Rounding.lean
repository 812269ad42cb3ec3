import Mathlib

/-!
# Rounding

How doubles round, over the rationals. A positive number has a step: the place of the last of the 53 digits that are kept
of it, or of the last digit that doubles have. Its mantissa counts the steps, a round bit and a sticky bit tell what is left,
and shifting keeps what they tell. So what a number is rounded to depends on the number alone, and no number of so few
digits lies strictly between the two.
-/

namespace ExtentLedger.Double

open Float.Model UnpackedFloat

/-- At most 53 binary digits, the last of them no finer than doubles have it. -/
def HasDigits (x : ℚ) : Prop := ∃ n e : ℤ, |n| ≤ 2 ^ 53 ∧ -1074 ≤ e ∧ x = n * 2 ^ e

/-- No number of so few digits separates the two. -/
structure Faithful (x y : ℚ) : Prop where
  le : ∀ v, HasDigits v → x ≤ v → y ≤ v
  ge : ∀ v, HasDigits v → v ≤ x → v ≤ y

/-- The place of the last digit that is kept of a positive number. -/
structure IsStep (x : ℚ) (t : ℤ) : Prop where
  least : -1074 ≤ t
  lower : t = -1074 ∨ 2 ^ 52 * 2 ^ t ≤ x
  upper : x < 2 ^ 53 * 2 ^ t

def halves (em : ExtendedMantissa) : ℕ := 2 * em.mantissa + em.roundBit.toNat

/-- The half steps reach up to the number, and the sticky bit tells of a rest. -/
structure Marks (em : ExtendedMantissa) (y : ℚ) : Prop where
  lower : halves em ≤ 2 * y
  upper : 2 * y < halves em + 1
  sticky : em.stickyBit = true ↔ halves em ≠ 2 * y

def settled (s : Sign) (r : ℕ) (t : ℤ) : UnpackedFloat :=
  if h : r = 0 then .zero s
  else if r < 2 ^ 53 then .finite s r t (Nat.pos_of_ne_zero h)
  else .finite s (2 ^ 52) (t + 1) (by decide)

def IsRounded (s : Sign) (x : ℚ) (u : UnpackedFloat) : Prop :=
  ∃ t em, IsStep x t ∧ Marks em (x / 2 ^ t) ∧ u = settled s em.roundedMantissa t

theorem two_zpow_pos (t : ℤ) : (0 : ℚ) < 2 ^ t := zpow_pos (by norm_num) t

theorem two_zpow_succ (t : ℤ) : (2 : ℚ) ^ (t + 1) = 2 * 2 ^ t := by
  rw [zpow_add_one₀ (by norm_num), mul_comm]

theorem two_zpow_mono {s t : ℤ} (h : s ≤ t) : (2 : ℚ) ^ s ≤ 2 ^ t := zpow_le_zpow_right₀ (by norm_num) h

theorem size_pos {m : ℕ} (h : 0 < m) (e : ℤ) : (0 : ℚ) < m * 2 ^ e := mul_pos (Nat.cast_pos.mpr h) (two_zpow_pos e)

theorem two_zpow_add_nat (n : ℕ) (t : ℤ) : (2 : ℚ) ^ (n + t) = 2 ^ n * 2 ^ t := by
  rw [zpow_add₀ (by norm_num), zpow_natCast]

/-! ## Numbers of few digits -/

theorem HasDigits.neg {x : ℚ} (h : HasDigits x) : HasDigits (-x) := by
  obtain ⟨n, e, hn, he, rfl⟩ := h
  exact ⟨-n, e, by rwa [abs_neg], he, by push_cast; ring⟩

theorem HasDigits.abs {x : ℚ} (h : HasDigits x) : HasDigits |x| := by
  rcases abs_choice x with hx | hx
  · rwa [hx]
  · rw [hx]
    exact h.neg

theorem hasDigits_zero : HasDigits 0 := ⟨0, 0, by norm_num, by norm_num, by norm_num⟩

theorem hasDigits_natCast {n : ℕ} (h : n ≤ 2 ^ 53) : HasDigits n :=
  ⟨n, 0, by rw [Nat.abs_cast]; exact_mod_cast h, by norm_num, by norm_num⟩

/-- Digits can be counted from the first one on, unless the last place is reached before. -/
theorem HasDigits.exists_normal {x : ℚ} (h : HasDigits x) :
    ∃ n e : ℤ, |n| ≤ 2 ^ 53 ∧ -1074 ≤ e ∧ x = n * 2 ^ e ∧ (2 ^ 52 ≤ |n| ∨ e = -1074) := by
  obtain ⟨n, e, hn, he, rfl⟩ := h
  obtain ⟨k, rfl⟩ : ∃ k : ℕ, e = -1074 + k := ⟨(e + 1074).toNat, by omega⟩
  clear he
  induction k generalizing n with
  | zero => exact ⟨n, -1074, hn, le_rfl, by norm_num, .inr rfl⟩
  | succ k ih =>
    by_cases hl : 2 ^ 52 ≤ |n|
    · exact ⟨n, _, hn, by omega, rfl, .inl hl⟩
    · have hn' : |2 * n| ≤ 2 ^ 53 := by
        rw [abs_mul, abs_two]
        omega
      obtain ⟨m, e, hm, he, hv, hl⟩ := ih (2 * n) hn'
      refine ⟨m, e, hm, he, ?_, hl⟩
      rw [← hv, Nat.cast_succ, ← add_assoc, two_zpow_succ]
      push_cast
      ring

theorem Faithful.refl (x : ℚ) : Faithful x x := ⟨fun _ _ h => h, fun _ _ h => h⟩

theorem Faithful.neg {x y : ℚ} (h : Faithful x y) : Faithful (-x) (-y) where
  le _ hv hx := neg_le.mp (h.ge _ hv.neg (neg_le.mp hx))
  ge _ hv hx := le_neg.mp (h.le _ hv.neg (le_neg.mp hx))

theorem Faithful.abs_le_abs {x y v : ℚ} (h : Faithful x y) (hv : HasDigits v) (hx : |x| ≤ |v|) : |y| ≤ |v| := by
  obtain ⟨hlo, hhi⟩ := abs_le.mp hx
  exact abs_le.mpr ⟨h.ge _ hv.abs.neg hlo, h.le _ hv.abs hhi⟩

theorem Faithful.eq {x y : ℚ} (h : Faithful x y) (hx : HasDigits x) : y = x :=
  le_antisymm (h.le x hx le_rfl) (h.ge x hx le_rfl)

/-! ## Steps -/

theorem IsStep.unique {x : ℚ} {s t : ℤ} (hs : IsStep x s) (ht : IsStep x t) : s = t := by
  have hle : ∀ {s t : ℤ}, IsStep x s → IsStep x t → s ≤ t := by
    intro s t hs ht
    by_contra hlt
    have hlower := hs.lower.resolve_left (by have := ht.least; omega)
    have hmono : (2 : ℚ) ^ (t + 1) ≤ 2 ^ s := two_zpow_mono (by omega)
    rw [two_zpow_succ] at hmono
    have := ht.upper
    linarith
  exact le_antisymm (hle hs ht) (hle ht hs)

/-- A number of few digits is a whole number of steps, or it is below the first number that has all of them. -/
theorem IsStep.whole_or_le {x v : ℚ} {t : ℤ} (h : IsStep x t) (hv : HasDigits v) (hv0 : 0 < v) :
    (∃ n : ℕ, v = n * 2 ^ t) ∨ v ≤ 2 ^ 52 * 2 ^ t ∧ 2 ^ 52 * 2 ^ t ≤ x := by
  obtain ⟨n, e, hn, he, rfl⟩ := hv
  have hn0 : 0 < n := by
    have := pos_of_mul_pos_left hv0 (two_zpow_pos e).le
    exact_mod_cast this
  obtain ⟨n, rfl⟩ := Int.eq_ofNat_of_zero_le hn0.le
  rcases le_or_gt t e with hte | hte
  · obtain ⟨k, rfl⟩ : ∃ k : ℕ, e = k + t := ⟨(e - t).toNat, by omega⟩
    exact .inl ⟨n * 2 ^ k, by rw [two_zpow_add_nat]; push_cast; ring⟩
  · refine .inr ⟨?_, h.lower.resolve_left (by omega)⟩
    have hmono : (2 : ℚ) ^ (e + 1) ≤ 2 ^ t := two_zpow_mono hte
    rw [two_zpow_succ] at hmono
    have hn : (n : ℚ) ≤ 2 ^ 53 := by
      rw [Nat.abs_cast] at hn
      exact_mod_cast hn
    have hpos := two_zpow_pos e
    push_cast
    nlinarith

theorem IsStep.faithful {x : ℚ} {t : ℤ} (h : IsStep x t) (hx : 0 < x) {r : ℕ} (hle : ∀ n : ℕ, x ≤ n * 2 ^ t → r ≤ n)
    (hge : ∀ n : ℕ, n * 2 ^ t ≤ x → n ≤ r) : Faithful x (r * 2 ^ t) := by
  have ht := two_zpow_pos t
  constructor
  · intro v hv hxv
    rcases h.whole_or_le hv (hx.trans_le hxv) with ⟨n, rfl⟩ | ⟨hv, hx'⟩
    · have := hle n hxv
      gcongr
    · have hv : v = (2 ^ 52 : ℕ) * 2 ^ t := by push_cast; linarith
      have := hle (2 ^ 52) (hv ▸ hxv)
      rw [hv]
      gcongr
  · intro v hv hxv
    rcases le_or_gt v 0 with hv0 | hv0
    · exact hv0.trans (by positivity)
    rcases h.whole_or_le hv hv0 with ⟨n, rfl⟩ | ⟨hv, hx'⟩
    · have := hge n hxv
      gcongr
    · have := hge (2 ^ 52) (by push_cast; exact hx')
      have hr : (2 ^ 52 : ℚ) ≤ r := by exact_mod_cast this
      exact hv.trans (mul_le_mul_of_nonneg_right hr ht.le)

/-! ## Marks -/

variable {em em' : ExtendedMantissa} {x y : ℚ} {s : Sign} {t e : ℤ} {m : ℕ}

theorem halves_cast (em : ExtendedMantissa) : (halves em : ℚ) = 2 * em.mantissa + em.roundBit.toNat := by
  simp [halves]

theorem halves_shiftRightOne (em : ExtendedMantissa) : halves em.shiftRightOne = em.mantissa := by
  have hb : (em.mantissa % 2 != 0).toNat = em.mantissa % 2 := by
    rcases Nat.mod_two_eq_zero_or_one em.mantissa with hm | hm <;> rw [hm] <;> rfl
  show 2 * (em.mantissa / 2) + (em.mantissa % 2 != 0).toNat = em.mantissa
  rw [hb, Nat.div_add_mod]

theorem marks_exact (m : ℕ) : Marks (.ofMantissaAndAccuracy m .exact) m := by
  have hh : (halves (.ofMantissaAndAccuracy m .exact) : ℚ) = 2 * m := by
    simp [halves, ExtendedMantissa.ofMantissaAndAccuracy]
  exact ⟨hh.le, by linarith, fun h => (Bool.false_ne_true h).elim, fun h => absurd hh h⟩

theorem Marks.floor (h : Marks em y) : em.mantissa ≤ y ∧ y < em.mantissa + 1 := by
  obtain ⟨hlower, hupper, -⟩ := h
  have hr : (em.roundBit.toNat : ℚ) ≤ 1 := by exact_mod_cast Bool.toNat_le em.roundBit
  have hr0 : (0 : ℚ) ≤ em.roundBit.toNat := Nat.cast_nonneg _
  rw [halves_cast] at hlower hupper
  constructor <;> linarith

theorem Marks.shiftRightOne (h : Marks em y) : Marks em.shiftRightOne (y / 2) := by
  have hy : 2 * (y / 2) = y := by ring
  have hf := h.floor
  refine ⟨?_, ?_, ?_⟩
  · rw [hy, halves_shiftRightOne]
    exact hf.1
  · rw [hy, halves_shiftRightOne]
    exact hf.2
  · rw [hy, halves_shiftRightOne]
    have hsticky := h.sticky
    rw [halves_cast] at hsticky
    cases hb : em.roundBit
    · have hne : em.mantissa ≠ y ↔ (2 * em.mantissa : ℚ) ≠ 2 * y := by simp
      simp only [hb, Bool.toNat_false, Nat.cast_zero, add_zero] at hsticky
      rw [hne, ← hsticky]
      simp [ExtendedMantissa.shiftRightOne, hb]
    · have hlower := h.lower
      simp only [halves_cast, hb, Bool.toNat_true, Nat.cast_one] at hlower
      have hne : (em.mantissa : ℚ) ≠ y := by linarith
      simp [ExtendedMantissa.shiftRightOne, hb, hne]

theorem Marks.shiftRight (h : Marks em y) (k : ℕ) : Marks (em >>> k) (y / 2 ^ k) := by
  induction k with
  | zero =>
    rw [pow_zero, div_one]
    exact h
  | succ k ih =>
    rw [pow_succ, ← div_div]
    exact ih.shiftRightOne

theorem Marks.unique (h : Marks em y) (h' : Marks em' y) : em = em' := by
  have hle : ∀ {em em' : ExtendedMantissa}, Marks em y → Marks em' y → halves em ≤ halves em' := by
    intro em em' h h'
    have hlt : (halves em : ℚ) < halves em' + 1 := h.lower.trans_lt h'.upper
    exact Nat.lt_succ_iff.mp (by exact_mod_cast hlt)
  have hh : halves em = halves em' := le_antisymm (hle h h') (hle h' h)
  have hs : em.stickyBit = em'.stickyBit := Bool.eq_iff_iff.mpr (by rw [h.sticky, h'.sticky, hh])
  obtain ⟨m, r, s⟩ := em
  obtain ⟨m', r', s'⟩ := em'
  have hr := Bool.toNat_le r
  have hr' := Bool.toNat_le r'
  simp only [halves] at hh
  obtain rfl : m = m' := by omega
  obtain rfl : s = s' := hs
  cases r <;> cases r' <;> simp_all

/-! ## Rounded mantissas -/

theorem roundedMantissa_bounds (em : ExtendedMantissa) :
    em.mantissa ≤ em.roundedMantissa ∧ em.roundedMantissa ≤ em.mantissa + em.roundBit.toNat := by
  obtain ⟨m, r, s⟩ := em
  cases r <;> cases s <;>
    simp [ExtendedMantissa.roundedMantissa, ExtendedMantissa.accuracy, Accuracy.roundToNearestEven]
  omega

theorem Marks.roundedMantissa_le (h : Marks em y) {n : ℕ} (hn : y ≤ n) : em.roundedMantissa ≤ n := by
  have hlt : (halves em : ℚ) ≤ (2 * n : ℕ) := by
    push_cast
    linarith [h.lower]
  have hle : 2 * em.mantissa + em.roundBit.toNat ≤ 2 * n := by exact_mod_cast hlt
  have := (roundedMantissa_bounds em).2
  have := Bool.toNat_le em.roundBit
  omega

theorem Marks.le_roundedMantissa (h : Marks em y) {n : ℕ} (hn : n ≤ y) : n ≤ em.roundedMantissa := by
  have hlt : (n : ℚ) < em.mantissa + 1 := hn.trans_lt h.floor.2
  have hle : n ≤ em.mantissa := Nat.lt_succ_iff.mp (by exact_mod_cast hlt)
  exact hle.trans (roundedMantissa_bounds em).1

/-- A tie goes to the even side. -/
theorem roundedMantissa_lt_iff (em : ExtendedMantissa) {n : ℕ} (hn : Even n) :
    em.roundedMantissa < n ↔ halves em + 1 < 2 * n := by
  obtain ⟨k, rfl⟩ := hn
  obtain ⟨m, r, s⟩ := em
  cases r <;> cases s <;>
    simp only [ExtendedMantissa.roundedMantissa, ExtendedMantissa.accuracy, Accuracy.roundToNearestEven, halves,
      Bool.toNat_false, Bool.toNat_true] <;>
    omega

theorem Marks.roundedMantissa_lt (h : Marks em y) {n : ℕ} (hn : Even n) : em.roundedMantissa < n ↔ 2 * y < 2 * n - 1 := by
  rw [roundedMantissa_lt_iff em hn]
  have := h.lower
  have := h.upper
  constructor
  · intro hlt
    have hle : (halves em + 2 : ℚ) ≤ 2 * n := by exact_mod_cast hlt
    linarith
  · intro hlt
    have hle : (halves em + 1 : ℚ) < 2 * n := by linarith
    exact_mod_cast hle

/-! ## Rounding -/

theorem targetExponent_eq (m : ℕ) (e : ℤ) :
    Format.binary64.targetExponent (totalExponent m e) = max (m.log2 + e - 52) (-1074) := by
  simp only [Format.targetExponent, totalExponent, Format.mantissaBits, Format.minExponent]
  norm_num
  omega

theorem isStep_targetExponent (hm : m * 2 ^ e ≤ x) (hx : x < (m + 1) * 2 ^ e) (h : m ≠ 0 ∨ e ≤ -1074) :
    IsStep x (Format.binary64.targetExponent (totalExponent m e)) := by
  have he := two_zpow_pos e
  have hlog : (m : ℚ) + 1 ≤ 2 ^ (m.log2 + 1) := by exact_mod_cast Nat.lt_log2_self
  rw [targetExponent_eq]
  refine ⟨le_max_right _ _, ?_, ?_⟩
  · rcases max_choice (m.log2 + e - 52) (-1074) with ht | ht
    · rw [ht]
      by_cases hm0 : m = 0
      · left
        subst hm0
        rw [Nat.log2_zero] at ht ⊢
        omega
      · right
        have hself : (2 : ℚ) ^ m.log2 ≤ m := by exact_mod_cast Nat.log2_self_le hm0
        calc (2 : ℚ) ^ 52 * 2 ^ (m.log2 + e - 52) = 2 ^ (m.log2 + e) := by
              rw [← two_zpow_add_nat]; congr 1; push_cast; ring
          _ = 2 ^ m.log2 * 2 ^ e := two_zpow_add_nat _ _
          _ ≤ m * 2 ^ e := by gcongr
          _ ≤ x := hm
    · exact .inl ht
  · calc x < (m + 1) * 2 ^ e := hx
      _ ≤ 2 ^ (m.log2 + 1) * 2 ^ e := by gcongr
      _ = 2 ^ 53 * 2 ^ (m.log2 + e - 52) := by
        rw [← two_zpow_add_nat, ← two_zpow_add_nat]; congr 1; push_cast; ring
      _ ≤ 2 ^ 53 * 2 ^ max (m.log2 + e - 52) (-1074) := by
        gcongr
        · norm_num
        · exact le_max_left _ _

theorem shiftToTargetExponent_eq (m : ℕ) {e : ℤ} (acc : Accuracy) {k : ℕ}
    (hk : Format.binary64.targetExponent (totalExponent m e) = e + k) :
    shiftToTargetExponent Format.binary64 m e acc = (ExtendedMantissa.ofMantissaAndAccuracy m acc >>> k, e + k) := by
  have : (Format.binary64.targetExponent (totalExponent m e) - e).toNat = k := by omega
  simp [shiftToTargetExponent, shiftToExponent, this]

theorem shiftToTargetExponent_of_le {r : ℕ} (hr : r < 2 ^ 53) (ht : -1074 ≤ t) :
    shiftToTargetExponent Format.binary64 r t .exact = (⟨r, false, false⟩, t) := by
  have hlog : r.log2 ≤ 52 := by
    by_cases h : r = 0
    · simp [h]
    · have := (Nat.log2_lt h).mpr hr
      omega
  have : (Format.binary64.targetExponent (totalExponent r t) - t).toNat = 0 := by
    rw [targetExponent_eq]
    omega
  simp only [shiftToTargetExponent, shiftToExponent, this]
  simp
  rfl

theorem shiftToTargetExponent_carry (ht : -1074 ≤ t) :
    shiftToTargetExponent Format.binary64 (2 ^ 53) t .exact = (⟨2 ^ 52, false, false⟩, t + 1) := by
  rw [shiftToTargetExponent_eq (k := 1)]
  · rfl
  · rw [targetExponent_eq, Nat.log2_two_pow]
    omega

theorem Marks.roundedMantissa_le_of_isStep (h : Marks em (x / 2 ^ t)) (hx : IsStep x t) :
    em.roundedMantissa ≤ 2 ^ 53 := by
  refine h.roundedMantissa_le ?_
  rw [div_le_iff₀ (two_zpow_pos t)]
  exact_mod_cast hx.upper.le

theorem settled_of_lt (s : Sign) {r : ℕ} (h0 : 0 < r) (hr : r < 2 ^ 53) (t : ℤ) : settled s r t = .finite s r t h0 := by
  rw [settled, dif_neg h0.ne', if_pos hr]

theorem exists_settled_eq (s : Sign) {r : ℕ} (hr : r ≤ 2 ^ 53) (t : ℤ) :
    r = 0 ∧ settled s r t = .zero s ∨ (∃ h0 : 0 < r, r < 2 ^ 53 ∧ settled s r t = .finite s r t h0) ∨
      r = 2 ^ 53 ∧ settled s r t = .finite s (2 ^ 52) (t + 1) (by decide) := by
  rcases Nat.eq_zero_or_pos r with rfl | h0
  · exact .inl ⟨rfl, rfl⟩
  rcases hr.lt_or_eq with hr | rfl
  · exact .inr (.inl ⟨h0, hr, settled_of_lt s h0 hr t⟩)
  · exact .inr (.inr ⟨rfl, rfl⟩)

theorem roundWithAccuracy_eq {acc : Accuracy} (hem : shiftToTargetExponent Format.binary64 m e acc = (em, t))
    (ht : -1074 ≤ t) (hr : em.roundedMantissa ≤ 2 ^ 53) :
    roundWithAccuracy Format.binary64 s m e acc = settled s em.roundedMantissa t := by
  unfold roundWithAccuracy
  rw [hem]
  dsimp only
  generalize em.roundedMantissa = r at hr
  rcases exists_settled_eq s hr t with ⟨rfl, h⟩ | ⟨h0, hr, h⟩ | ⟨rfl, h⟩
  · rw [h, shiftToTargetExponent_of_le (by decide) ht]
    rfl
  · rw [h, shiftToTargetExponent_of_le hr ht]
    exact dif_neg h0.ne'
  · rw [h, shiftToTargetExponent_carry ht]
    rfl

/-- A number that is known by a mantissa with its accuracy is rounded, if the mantissa has enough digits. -/
theorem isRounded_roundWithAccuracy (s : Sign) {acc : Accuracy}
    (hx : Marks (.ofMantissaAndAccuracy m acc) (x / 2 ^ e))
    (he : e ≤ Format.binary64.targetExponent (totalExponent m e)) (h0 : m ≠ 0 ∨ e ≤ -1074) :
    IsRounded s x (roundWithAccuracy Format.binary64 s m e acc) := by
  have hpos := two_zpow_pos e
  have hm : (ExtendedMantissa.ofMantissaAndAccuracy m acc).mantissa = m := by
    rcases acc with _ | _ | _ | _ <;> rfl
  obtain ⟨hlo, hhi⟩ := hx.floor
  rw [hm, le_div_iff₀ hpos] at hlo
  rw [hm, div_lt_iff₀ hpos] at hhi
  have hstep := isStep_targetExponent hlo hhi h0
  obtain ⟨k, hk⟩ := Int.le.dest he
  have hmarks := hx.shiftRight k
  rw [div_div, mul_comm, ← two_zpow_add_nat, add_comm, hk] at hmarks
  refine ⟨_, _, hstep, hmarks, ?_⟩
  refine roundWithAccuracy_eq ?_ hstep.least (hmarks.roundedMantissa_le_of_isStep hstep)
  rw [shiftToTargetExponent_eq m acc hk.symm, hk]

theorem log2_shiftLeft (hm : m ≠ 0) (k : ℕ) : (m <<< k).log2 = m.log2 + k := by
  rw [Nat.shiftLeft_eq]
  refine (Nat.log2_eq_iff (by positivity)).mpr ⟨?_, ?_⟩
  · rw [pow_add]
    exact Nat.mul_le_mul_right _ (Nat.log2_self_le hm)
  · rw [add_right_comm, pow_add]
    exact Nat.mul_lt_mul_of_pos_right Nat.lt_log2_self (by positivity)

theorem isRounded_round (s : Sign) (hm : m ≠ 0) (e : ℤ) :
    IsRounded s (m * 2 ^ e) (UnpackedFloat.round Format.binary64 s m e) := by
  unfold UnpackedFloat.round
  simp only [decreaseExponent]
  generalize hk : (e - Format.binary64.targetExponent (totalExponent m e)).toNat = k
  have hx : (m * 2 ^ e : ℚ) = (m <<< k : ℕ) * 2 ^ (e - k) := by
    rw [Nat.shiftLeft_eq]
    push_cast
    rw [mul_assoc, ← two_zpow_add_nat]
    congr 2
    ring
  rw [targetExponent_eq] at hk
  rw [hx]
  refine isRounded_roundWithAccuracy s ?_ ?_ ?_
  · rw [mul_div_cancel_right₀ _ (two_zpow_pos _).ne']
    exact marks_exact _
  · rw [targetExponent_eq, log2_shiftLeft hm]
    push_cast
    omega
  · left
    rw [Nat.shiftLeft_eq]
    positivity

end ExtentLedger.Double
