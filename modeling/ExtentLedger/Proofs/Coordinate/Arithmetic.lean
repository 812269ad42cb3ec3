import ExtentLedger.Proofs.Coordinate.Lawful
import ExtentLedger.Proofs.Coordinate.Rounding

/-!
# Arithmetic of rounded numbers

A sum, a difference, a product or a quotient of numbers as doubles keep them is the exact result, rounded: to the nearest
number of 53 digits, with no bound on the exponent. They compare as what they mean does.
-/

namespace ExtentLedger.Double

open Float.Model UnpackedFloat

/-- A number as it is kept: cut to 53 binary digits, and to all of them unless the last place is reached. -/
inductive IsNumber : UnpackedFloat → Prop
  | zero (s : Sign) : IsNumber (.zero s)
  | finite (s : Sign) {m : ℕ} {e : ℤ} (hm : 0 < m) : m < 2 ^ 53 → -1074 ≤ e → 2 ^ 52 ≤ m ∨ e = -1074 →
      IsNumber (.finite s m e hm)

def signed : Sign → ℚ → ℚ
  | .positive, x => x
  | .negative, x => -x

def worth : UnpackedFloat → ℚ
  | .finite s m e _ => signed s (m * 2 ^ e)
  | _ => 0

inductive Rounds : ℚ → UnpackedFloat → Prop
  | zero (s : Sign) : Rounds 0 (.zero s)
  | signed (s : Sign) {x : ℚ} {u : UnpackedFloat} : 0 < x → IsRounded s x u → Rounds (signed s x) u

variable {u v : UnpackedFloat} {x : ℚ} {s : Sign}

@[simp] theorem signed_neg (s : Sign) (x : ℚ) : signed (-s) x = -signed s x := by
  cases s
  · exact (neg_neg x).symm
  · rfl

theorem signed_mul (s t : Sign) (x y : ℚ) : signed (s * t) (x * y) = signed s x * signed t y := by
  cases s <;> cases t
  · exact (neg_mul_neg x y).symm
  · exact (neg_mul x y).symm
  · exact (mul_neg x y).symm
  · rfl

theorem signed_div (s t : Sign) (x y : ℚ) : signed (s / t) (x / y) = signed s x / signed t y := by
  cases s <;> cases t
  · exact (neg_div_neg_eq x y).symm
  · exact (neg_div y x).symm
  · exact (div_neg x).symm
  · rfl

@[simp] theorem worth_zero (s : Sign) : worth (.zero s) = 0 := rfl

@[simp] theorem worth_neg (u : UnpackedFloat) : worth u.neg = -worth u := by
  rcases u with _ | _ | _ | ⟨s, m, e, h⟩
  · exact neg_zero.symm
  · exact neg_zero.symm
  · exact neg_zero.symm
  · exact signed_neg s _

/-! ## Rounded numbers -/

theorem IsRounded.unique (hu : IsRounded s x u) (hv : IsRounded s x v) : u = v := by
  obtain ⟨t, em, ht, hem, rfl⟩ := hu
  obtain ⟨t', em', ht', hem', rfl⟩ := hv
  obtain rfl := ht.unique ht'
  rw [hem.unique hem']

theorem settled_neg (s : Sign) (r : ℕ) (t : ℤ) : (settled s r t).neg = settled (-s) r t := by
  unfold settled
  split
  · rfl
  · split <;> rfl

theorem IsRounded.neg (h : IsRounded s x u) : IsRounded (-s) x u.neg := by
  obtain ⟨t, em, ht, hem, rfl⟩ := h
  exact ⟨t, em, ht, hem, settled_neg _ _ _⟩

theorem worth_settled (s : Sign) {r : ℕ} (hr : r ≤ 2 ^ 53) (t : ℤ) : worth (settled s r t) = signed s (r * 2 ^ t) := by
  rcases exists_settled_eq s hr t with ⟨rfl, h⟩ | ⟨h0, -, h⟩ | ⟨rfl, h⟩
  · rw [h]
    cases s <;> simp [worth, signed]
  · rw [h]
    rfl
  · rw [h]
    show signed s ((2 ^ 52 : ℕ) * 2 ^ (t + 1)) = signed s ((2 ^ 53 : ℕ) * 2 ^ t)
    rw [two_zpow_succ]
    push_cast
    congr 1
    ring

theorem IsRounded.isNumber (h : IsRounded s x u) : IsNumber u := by
  obtain ⟨t, em, ht, hem, rfl⟩ := h
  rcases exists_settled_eq s (hem.roundedMantissa_le_of_isStep ht) t with ⟨-, h⟩ | ⟨h0, hr, h⟩ | ⟨-, h⟩
  · rw [h]
    exact .zero s
  · rw [h]
    refine .finite s h0 hr ht.least (ht.lower.symm.imp_left fun hlower => ?_)
    refine hem.le_roundedMantissa ?_
    rw [le_div_iff₀ (two_zpow_pos t)]
    exact_mod_cast hlower
  · rw [h]
    exact .finite s _ (by norm_num) (by have := ht.least; omega) (.inl le_rfl)

theorem IsRounded.faithful (h : IsRounded s x u) (hx : 0 < x) : Faithful (signed s x) (worth u) := by
  obtain ⟨t, em, ht, hem, rfl⟩ := h
  have hpos := two_zpow_pos t
  have hf : Faithful x (em.roundedMantissa * 2 ^ t) := by
    refine ht.faithful hx (fun n hn => hem.roundedMantissa_le ?_) fun n hn => hem.le_roundedMantissa ?_
    · rwa [div_le_iff₀ hpos]
    · rwa [le_div_iff₀ hpos]
  rw [worth_settled _ (hem.roundedMantissa_le_of_isStep ht)]
  cases s with
  | positive => exact hf
  | negative => exact hf.neg

theorem isRounded_finite (s : Sign) {m : ℕ} {e : ℤ} (h0 : 0 < m) (hm : m < 2 ^ 53) (he : -1074 ≤ e)
    (h : 2 ^ 52 ≤ m ∨ e = -1074) : IsRounded s (m * 2 ^ e) (.finite s m e h0) := by
  have hpos := two_zpow_pos e
  refine ⟨e, .ofMantissaAndAccuracy m .exact, ⟨he, ?_, ?_⟩, ?_, ?_⟩
  · refine h.symm.imp_right fun h => mul_le_mul_of_nonneg_right ?_ hpos.le
    exact_mod_cast h
  · refine mul_lt_mul_of_pos_right ?_ hpos
    exact_mod_cast hm
  · rw [mul_div_cancel_right₀ _ hpos.ne']
    exact marks_exact m
  · exact (settled_of_lt s h0 hm e).symm

theorem IsNumber.rounds (h : IsNumber u) : Rounds (worth u) u := by
  cases h with
  | zero s => exact .zero s
  | finite s h0 hm he h =>
    exact .signed s (size_pos h0 _) (isRounded_finite s h0 hm he h)

theorem IsNumber.neg (h : IsNumber u) : IsNumber u.neg := by
  cases h with
  | zero s => exact .zero (-s)
  | finite s h0 hm he h => exact .finite (-s) h0 hm he h

theorem IsNumber.hasDigits (h : IsNumber u) : HasDigits (worth u) := by
  cases h with
  | zero s => exact hasDigits_zero
  | @finite s m e h0 hm he h =>
    have hd : HasDigits (m * 2 ^ e) := ⟨m, e, by rw [Nat.abs_cast]; exact_mod_cast hm.le, he, by push_cast; rfl⟩
    cases s with
    | positive => exact hd
    | negative => exact hd.neg

namespace Rounds

theorem isNumber (h : Rounds x u) : IsNumber u := by
  cases h with
  | zero s => exact .zero s
  | signed s hx h => exact h.isNumber

theorem faithful (h : Rounds x u) : Faithful x (worth u) := by
  cases h with
  | zero s => exact .refl 0
  | signed s hx h => exact h.faithful hx

theorem neg (h : Rounds x u) : Rounds (-x) u.neg := by
  cases h with
  | zero s =>
    rw [neg_zero]
    exact .zero (-s)
  | signed s hx h =>
    rw [← signed_neg]
    exact .signed (-s) hx h.neg

/-- Only a zero can be rounded to different signs. -/
theorem unique (hu : Rounds x u) (hv : Rounds x v) (hx : x ≠ 0) : u = v := by
  cases hu with
  | zero s => exact absurd rfl hx
  | @signed s y u hy hu =>
    generalize hz : Double.signed s y = z at hv
    cases hv with
    | zero s' => exact absurd hz hx
    | @signed s' y' v hy' hv =>
      cases s <;> cases s' <;> simp only [Double.signed] at hz
      · obtain rfl := neg_injective hz
        exact hu.unique hv
      · linarith
      · linarith
      · rw [← hz] at hv
        exact hu.unique hv

end Rounds

/-! ## Arithmetic -/

theorem rounds_normalize (z e : ℤ) (s : Sign) : Rounds (z * 2 ^ e) (UnpackedFloat.normalize Format.binary64 z e s) := by
  unfold UnpackedFloat.normalize
  rcases lt_trichotomy z 0 with hz | rfl | hz
  · rw [compare_lt_iff_lt.mpr hz]
    obtain ⟨n, rfl⟩ : ∃ n : ℕ, z = -n := ⟨(-z).toNat, by omega⟩
    have hn : 0 < n := by omega
    have h := Rounds.signed .negative (size_pos hn e) (isRounded_round .negative hn.ne' e)
    simpa [signed] using h
  · rw [compare_eq_iff_eq.mpr rfl]
    simpa using Rounds.zero s
  · rw [compare_gt_iff_gt.mpr hz]
    obtain ⟨n, rfl⟩ := Int.eq_ofNat_of_zero_le hz.le
    have hn : 0 < n := by omega
    have h := Rounds.signed .positive (size_pos hn e) (isRounded_round .positive hn.ne' e)
    simpa [signed] using h

theorem apply_decreaseExponent (s : Sign) (m : ℕ) {e t : ℤ} (h : t ≤ e) :
    (s.apply (decreaseExponent m e t).1 : ℚ) * 2 ^ t = signed s (m * 2 ^ e) := by
  obtain ⟨k, rfl⟩ := Int.le.dest h
  have hm : ((decreaseExponent m (t + k) t).1 : ℚ) * 2 ^ t = m * 2 ^ (t + k) := by
    simp only [decreaseExponent, add_sub_cancel_left, Int.toNat_natCast, Nat.shiftLeft_eq]
    rw [add_comm, two_zpow_add_nat]
    push_cast
    ring
  rw [← hm]
  cases s <;> simp [Sign.apply, signed]

theorem rounds_add (hu : IsNumber u) (hv : IsNumber v) :
    Rounds (worth u + worth v) (UnpackedFloat.add Format.binary64 u v) := by
  rcases hu with s | ⟨s, h0, hm, he, h⟩
  · rcases hv with t | ⟨t, h0', hm', he', h'⟩
    · show Rounds (0 + 0) (if (s == t) = true then .zero s else .zero .positive)
      rw [add_zero]
      split <;> exact .zero _
    · show Rounds (0 + _) _
      rw [zero_add]
      exact (IsNumber.finite t h0' hm' he' h').rounds
  · rcases hv with t | ⟨t, h0', hm', he', h'⟩
    · show Rounds (_ + 0) _
      rw [add_zero]
      exact (IsNumber.finite s h0 hm he h).rounds
    · rename_i m e m' e'
      show Rounds (signed s (m * 2 ^ e) + signed t (m' * 2 ^ e')) (UnpackedFloat.normalize _ _ _ _)
      rw [← apply_decreaseExponent s m (min_le_left e e'), ← apply_decreaseExponent t m' (min_le_right e e'), ← add_mul,
        ← Int.cast_add]
      exact rounds_normalize _ _ _

theorem sub_eq_add (u v : UnpackedFloat) :
    UnpackedFloat.sub Format.binary64 u v = UnpackedFloat.add Format.binary64 u v.neg := by
  rcases u with _ | _ | _ | ⟨s, m, e, hm⟩ <;> rcases v with _ | _ | _ | ⟨t, m', e', hm'⟩ <;> try rfl
  simp only [UnpackedFloat.sub, UnpackedFloat.add, UnpackedFloat.neg]
  cases t
  · show UnpackedFloat.normalize _ (_ - -_) _ _ = _
    rw [sub_neg_eq_add]
    rfl
  · show UnpackedFloat.normalize _ (_ - _) _ _ = _
    rw [sub_eq_add_neg]
    rfl

theorem rounds_sub (hu : IsNumber u) (hv : IsNumber v) :
    Rounds (worth u - worth v) (UnpackedFloat.sub Format.binary64 u v) := by
  rw [sub_eq_add, sub_eq_add_neg, ← worth_neg]
  exact rounds_add hu hv.neg

theorem Rounds.of_eq_zero (h : x = 0) (s : Sign) : Rounds x (.zero s) := by
  rw [h]
  exact .zero s

theorem isRounded_product (s : Sign) {m m' : ℕ} {e e' : ℤ} (h0 : 0 < m) (h0' : 0 < m') (h : 2 ^ 52 ≤ m ∨ e = -1074)
    (h' : 2 ^ 52 ≤ m' ∨ e' = -1074) :
    IsRounded s (m * 2 ^ e * (m' * 2 ^ e')) (roundWithAccuracy Format.binary64 s (m * m') (e + e') .exact) := by
  have hx : (m * 2 ^ e * (m' * 2 ^ e') : ℚ) = (m * m' : ℕ) * 2 ^ (e + e') := by
    rw [zpow_add₀ (by norm_num)]
    push_cast
    ring
  have hne : m * m' ≠ 0 := Nat.mul_ne_zero h0.ne' h0'.ne'
  refine isRounded_roundWithAccuracy _ ?_ ?_ (.inl hne)
  · rw [hx, mul_div_cancel_right₀ _ (two_zpow_pos _).ne']
    exact marks_exact _
  · -- A product of two numbers has 53 digits, or both factors end in the last place.
    rw [targetExponent_eq]
    by_cases hlast : e = -1074 ∧ e' = -1074
    · omega
    · have hlarge : 2 ^ 52 ≤ m * m' := by
        by_cases hl : e = -1074
        · exact (h'.resolve_right fun hl' => hlast ⟨hl, hl'⟩).trans (Nat.le_mul_of_pos_left m' h0)
        · exact (h.resolve_right hl).trans (Nat.le_mul_of_pos_right m h0')
      have := (Nat.le_log2 hne).mpr hlarge
      omega

theorem rounds_mul (hu : IsNumber u) (hv : IsNumber v) :
    Rounds (worth u * worth v) (UnpackedFloat.mul Format.binary64 u v) := by
  rcases hu with s | ⟨s, h0, hm, he, h⟩
  · rcases hv with t | ⟨t, h0', hm', he', h'⟩ <;> exact .of_eq_zero (zero_mul _) _
  · rcases hv with t | ⟨t, h0', hm', he', h'⟩
    · exact .of_eq_zero (mul_zero _) _
    rename_i m e m' e'
    show Rounds (signed s (m * 2 ^ e) * signed t (m' * 2 ^ e')) (roundWithAccuracy _ (s * t) (m * m') (e + e') .exact)
    rw [← signed_mul]
    exact .signed _ (mul_pos (size_pos h0 e) (size_pos h0' e')) (isRounded_product _ h0 h0' h h')

/-- The mantissa of a fraction and its accuracy tell the whole fraction. -/
theorem marks_fraction (n : ℕ) {d : ℕ} (hd : 0 < d) :
    Marks (.ofMantissaAndAccuracy (n / d) (accuracyOfFraction (n % d) d)) (n / d : ℚ) := by
  have hd0 : (0 : ℚ) < d := Nat.cast_pos.mpr hd
  have hy : 2 * (n / d : ℚ) = 2 * (n / d : ℕ) + (2 * (n % d) : ℕ) / d := by
    have hn : (n : ℚ) = d * (n / d : ℕ) + (n % d : ℕ) := by exact_mod_cast (Nat.div_add_mod n d).symm
    rw [hn]
    push_cast
    field_simp
  have hr := Nat.mod_lt n hd
  generalize n / d = q at hy ⊢
  generalize n % d = r at hy hr ⊢
  rw [accuracyOfFraction]
  by_cases hr0 : r = 0
  · rw [if_pos hr0]
    rw [hr0, mul_zero, Nat.cast_zero, zero_div, add_zero] at hy
    rw [mul_left_cancel₀ two_ne_zero hy]
    exact marks_exact q
  rw [if_neg hr0]
  have hpos : (0 : ℚ) < (2 * r : ℕ) / d := div_pos (Nat.cast_pos.mpr (by omega)) hd0
  rcases lt_trichotomy (2 * r) d with hlt | heq | hgt
  · rw [compare_lt_iff_lt.mpr hlt]
    have hh : (2 * r : ℕ) / (d : ℚ) < 1 := (div_lt_one hd0).mpr (by exact_mod_cast hlt)
    have hq : (halves (.ofMantissaAndAccuracy q (.inexact .lt)) : ℚ) = 2 * q := by
      simp [halves, ExtendedMantissa.ofMantissaAndAccuracy]
    exact ⟨by linarith, by linarith, iff_of_true rfl (by linarith : (_ : ℚ) < _).ne⟩
  · rw [compare_eq_iff_eq.mpr heq]
    have hh : (2 * r : ℕ) / (d : ℚ) = 1 := by rw [heq, div_self hd0.ne']
    have hq : (halves (.ofMantissaAndAccuracy q (.inexact .eq)) : ℚ) = 2 * q + 1 := by
      simp [halves, ExtendedMantissa.ofMantissaAndAccuracy]
    exact ⟨by linarith, by linarith, iff_of_false Bool.false_ne_true (not_not.mpr (by linarith))⟩
  · rw [compare_gt_iff_gt.mpr hgt]
    have hh : 1 < (2 * r : ℕ) / (d : ℚ) := (one_lt_div hd0).mpr (by exact_mod_cast hgt)
    have hh' : (2 * r : ℕ) / (d : ℚ) < 2 := by
      rw [div_lt_iff₀ hd0]
      exact_mod_cast (Nat.mul_lt_mul_left two_pos).mpr hr
    have hq : (halves (.ofMantissaAndAccuracy q (.inexact .gt)) : ℚ) = 2 * q + 1 := by
      simp [halves, ExtendedMantissa.ofMantissaAndAccuracy]
    exact ⟨by linarith, by linarith, iff_of_true rfl (by linarith : (_ : ℚ) < _).ne⟩

theorem le_log2_quotient {m m' k : ℕ} (h0 : 0 < m) (h0' : 0 < m') (h : m'.log2 + 53 ≤ m.log2 + k) :
    52 ≤ (m <<< k / m').log2 := by
  have hlarge : 2 ^ 52 ≤ m <<< k / m' := by
    rw [Nat.le_div_iff_mul_le h0', Nat.shiftLeft_eq]
    calc 2 ^ 52 * m' ≤ 2 ^ 52 * 2 ^ (m'.log2 + 1) := Nat.mul_le_mul_left _ Nat.lt_log2_self.le
      _ = 2 ^ (m'.log2 + 53) := by rw [← pow_add]; congr 1; omega
      _ ≤ 2 ^ (m.log2 + k) := Nat.pow_le_pow_right two_pos h
      _ = 2 ^ m.log2 * 2 ^ k := pow_add _ _ _
      _ ≤ m * 2 ^ k := Nat.mul_le_mul_right _ (Nat.log2_self_le h0.ne')
  exact (Nat.le_log2 (by omega)).mpr hlarge

/-- A quotient has 53 digits, or it is counted in the last place. -/
theorem isRounded_divCore (s : Sign) {m m' : ℕ} {e e' : ℤ} (h0 : 0 < m) (h0' : 0 < m') :
    IsRounded s (m * 2 ^ e / (m' * 2 ^ e'))
      (let (q, t, acc) := divCore Format.binary64 m e m' e'
      roundWithAccuracy Format.binary64 s q t acc) := by
  unfold divCore
  generalize ht : min (e - e') (Format.binary64.targetExponent (totalExponent m e - totalExponent m' e')) = t
  have hle : t ≤ e - e' := ht ▸ min_le_left _ _
  obtain ⟨k, hk⟩ := Int.le.dest hle
  have hn : (e - e' - t).toNat = k := by omega
  simp only [hn]
  have hx : (m * 2 ^ e / (m' * 2 ^ e') / 2 ^ t : ℚ) = (m <<< k : ℕ) / m' := by
    have he : e = k + t + e' := by omega
    rw [he, Nat.shiftLeft_eq, zpow_add₀ two_ne_zero, two_zpow_add_nat]
    have := two_zpow_pos t
    have := two_zpow_pos e'
    push_cast
    field_simp
  -- Where the last place does not stop it, the numerator is shifted until the quotient has 53 digits.
  have htarget : t ≤ -1074 ∨ 52 ≤ (m <<< k / m').log2 := by
    rw [or_iff_not_imp_left]
    intro hlt
    have hexp : m'.log2 + 53 ≤ m.log2 + k := by
      simp only [Format.targetExponent, totalExponent, Format.mantissaBits, Format.minExponent] at ht
      norm_num at ht
      omega
    exact le_log2_quotient h0 h0' hexp
  refine isRounded_roundWithAccuracy s ?_ ?_ ?_
  · rw [hx]
    exact marks_fraction _ h0'
  · rw [targetExponent_eq]
    omega
  · refine htarget.symm.imp_left fun h h0 => ?_
    rw [h0] at h
    simp at h

theorem rounds_div (hu : IsNumber u) (hv : IsNumber v) (hv0 : worth v ≠ 0) :
    Rounds (worth u / worth v) (UnpackedFloat.div Format.binary64 u v) := by
  rcases hv with t | ⟨t, h0', hm', he', h'⟩
  · exact absurd rfl hv0
  rename_i m' e'
  rcases hu with s | ⟨s, h0, hm, he, h⟩
  · exact .of_eq_zero (zero_div _) _
  rename_i m e
  show Rounds (signed s (m * 2 ^ e) / signed t (m' * 2 ^ e')) _
  rw [← signed_div]
  exact .signed _ (div_pos (size_pos h0 e) (size_pos h0' e')) (isRounded_divCore _ h0 h0')

/-! ## Order -/

theorem size_lt {m m' : ℕ} {e e' : ℤ} (hm : m < 2 ^ 53) (he : -1074 ≤ e) (h : 2 ^ 52 ≤ m' ∨ e' = -1074) (hlt : e < e') :
    (m * 2 ^ e : ℚ) < m' * 2 ^ e' := by
  have hm' : (2 ^ 52 : ℚ) ≤ m' := by exact_mod_cast h.resolve_right (by omega)
  have he' : (2 : ℚ) ^ (e + 1) ≤ 2 ^ e' := two_zpow_mono hlt
  calc (m * 2 ^ e : ℚ) < 2 ^ 53 * 2 ^ e := mul_lt_mul_of_pos_right (by exact_mod_cast hm) (two_zpow_pos e)
    _ = 2 ^ 52 * 2 ^ (e + 1) := by rw [two_zpow_succ]; ring
    _ ≤ m' * 2 ^ e' := mul_le_mul hm' he' (two_zpow_pos _).le (Nat.cast_nonneg m')

theorem compare_size {m m' : ℕ} {e e' : ℤ} (hm : m < 2 ^ 53) (hm' : m' < 2 ^ 53) (he : -1074 ≤ e) (he' : -1074 ≤ e')
    (h : 2 ^ 52 ≤ m ∨ e = -1074) (h' : 2 ^ 52 ≤ m' ∨ e' = -1074) :
    (compare e e').then (compare m m') = compare (m * 2 ^ e : ℚ) (m' * 2 ^ e') := by
  rcases lt_trichotomy e e' with hlt | rfl | hgt
  · rw [compare_lt_iff_lt.mpr hlt, compare_lt_iff_lt.mpr (size_lt hm he h' hlt)]
    rfl
  · have hpos := two_zpow_pos e
    rw [compare_eq_iff_eq.mpr (Eq.refl e)]
    rcases lt_trichotomy m m' with hlt | rfl | hgt
    · rw [compare_lt_iff_lt.mpr hlt, compare_lt_iff_lt.mpr (mul_lt_mul_of_pos_right (by exact_mod_cast hlt) hpos)]
      rfl
    · rw [compare_eq_iff_eq.mpr (Eq.refl m), compare_eq_iff_eq.mpr rfl]
      rfl
    · rw [compare_gt_iff_gt.mpr hgt, compare_gt_iff_gt.mpr (mul_lt_mul_of_pos_right (by exact_mod_cast hgt) hpos)]
      rfl
  · rw [compare_gt_iff_gt.mpr hgt, compare_gt_iff_gt.mpr (size_lt hm' he' h hgt)]
    rfl

theorem compare_worth (hu : IsNumber u) (hv : IsNumber v) : u.compare v = some (compare (worth u) (worth v)) := by
  rcases hu with s | ⟨s, h0, hm, he, h⟩
  · rcases hv with t | ⟨t, h0', hm', he', h'⟩
    · rfl
    · cases t
      · exact congrArg some (compare_gt_iff_gt.mpr (neg_lt_zero.mpr (size_pos h0' _))).symm
      · exact congrArg some (compare_lt_iff_lt.mpr (size_pos h0' _)).symm
  · rcases hv with t | ⟨t, h0', hm', he', h'⟩
    · cases s
      · exact congrArg some (compare_lt_iff_lt.mpr (neg_lt_zero.mpr (size_pos h0 _))).symm
      · exact congrArg some (compare_gt_iff_gt.mpr (size_pos h0 _)).symm
    · have hsize := compare_size hm hm' he he' h h'
      cases s <;> cases t
      · show some ((compare _ _).then (compare _ _)).swap = some (compare (-_) (-_))
        rw [hsize, compare_neg]
      · exact congrArg some (compare_lt_iff_lt.mpr ((neg_lt_zero.mpr (size_pos h0 _)).trans (size_pos h0' _))).symm
      · exact congrArg some (compare_gt_iff_gt.mpr ((neg_lt_zero.mpr (size_pos h0' _)).trans (size_pos h0 _))).symm
      · exact congrArg some hsize

end ExtentLedger.Double
