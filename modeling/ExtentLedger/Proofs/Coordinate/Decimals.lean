import ExtentLedger.Proofs.Coordinate.Doubles

/-!
# Doubles from decimals

A whole number times a power of ten is rounded once, however many digits it has and however small the power is. So what
is too large among them is what is too large among results.
-/

namespace ExtentLedger.Double

open Float.Model UnpackedFloat

variable {a : Float} {x : ℚ}

/-! ## One rounding -/

theorem isRounded_exact (s : Sign) {m : ℕ} (hm : 2 ^ 52 ≤ m) (e : ℤ) :
    IsRounded s (m * 2 ^ e) (roundWithAccuracy Format.binary64 s m e .exact) := by
  have hne : m ≠ 0 := by
    rintro rfl
    norm_num at hm
  refine isRounded_roundWithAccuracy _ ?_ ?_ (.inl hne)
  · rw [mul_div_cancel_right₀ _ (two_zpow_pos _).ne']
    exact marks_exact _
  · rw [targetExponent_eq]
    have := (Nat.le_log2 hne).mpr hm
    omega

/-- Less than half of the last place is rounded to nothing. -/
theorem isRounded_zero (s : Sign) (hx : 0 < x) (h : x < 2 ^ (-1075 : ℤ)) : IsRounded s x (.zero s) := by
  have hpos := two_zpow_pos (-1074)
  have hhalf : (2 : ℚ) ^ (-1074 : ℤ) = 2 * 2 ^ (-1075 : ℤ) := by
    rw [← two_zpow_succ]
    congr 1
  have hlt : 2 * (x / 2 ^ (-1074 : ℤ)) < 1 := by
    rw [← mul_div_assoc, div_lt_one hpos, hhalf]
    exact mul_lt_mul_of_pos_left h two_pos
  have hdiv : 0 < x / 2 ^ (-1074 : ℤ) := div_pos hx hpos
  refine ⟨-1074, ⟨0, false, true⟩, ⟨le_rfl, .inl rfl, ?_⟩, ⟨?_, ?_, ?_⟩, rfl⟩
  · exact h.trans_le ((two_zpow_mono (by norm_num)).trans (le_mul_of_one_le_left hpos.le (by norm_num)))
  · rw [halves_cast]
    simpa using hdiv.le
  · rw [halves_cast]
    simpa using hlt
  · rw [halves_cast]
    simpa using hdiv.ne

theorem two_zpow_le_ten {e : ℤ} (he : 0 ≤ e) : (2 : ℚ) ^ e ≤ 10 ^ e := zpow_le_zpow_left₀ he (by norm_num) (by norm_num)

theorem ten_le_two_zpow {e : ℤ} (he : e ≤ 0) : (10 : ℚ) ^ e ≤ 2 ^ e := by
  obtain ⟨k, rfl⟩ : ∃ k : ℕ, e = -k := ⟨(-e).toNat, by omega⟩
  rw [zpow_neg, zpow_neg, zpow_natCast, zpow_natCast]
  exact inv_anti₀ (by positivity) (pow_le_pow_left₀ (by norm_num) (by norm_num) k)

theorem isRounded_mul_power {m : ℕ} (h0 : 0 < m) (k : ℕ) :
    IsRounded .positive (m * 10 ^ k)
      (roundWithAccuracy Format.binary64 .positive (m <<< 53 * 10 ^ k) (-53 + 0) .exact) := by
  have hx : (m * 10 ^ k : ℚ) = (m <<< 53 * 10 ^ k : ℕ) * 2 ^ (-53 + 0 : ℤ) := by
    rw [Nat.shiftLeft_eq]
    push_cast
    norm_num
    ring
  have hlarge : 2 ^ 52 ≤ m <<< 53 * 10 ^ k := by
    rw [Nat.shiftLeft_eq]
    calc 2 ^ 52 ≤ 2 ^ 53 := by norm_num
      _ ≤ m * 2 ^ 53 := Nat.le_mul_of_pos_left _ h0
      _ ≤ m * 2 ^ 53 * 10 ^ k := Nat.le_mul_of_pos_right _ (by positivity)
  exact hx ▸ isRounded_exact .positive hlarge (-53 + 0)

theorem isRounded_underflow {m : ℕ} (h0 : 0 < m) {e : ℤ} (he : e < -(2048 + m.log2 : ℤ)) :
    IsRounded .positive (m * 10 ^ e) (.zero .positive) := by
  refine isRounded_zero _ (by positivity) ?_
  have hm : (m : ℚ) < 2 ^ (m.log2 + 1) := by exact_mod_cast Nat.lt_log2_self
  calc (m * 10 ^ e : ℚ) < 2 ^ (m.log2 + 1) * 2 ^ e :=
        mul_lt_mul hm (ten_le_two_zpow (by omega)) (by positivity) (by positivity)
    _ = 2 ^ ((m.log2 + 1 : ℕ) + e) := (two_zpow_add_nat _ _).symm
    _ ≤ 2 ^ (-1075 : ℤ) := two_zpow_mono (by push_cast; omega)

theorem two_pow_exponentBits : (2 : ℤ) ^ Format.binary64.exponentBits = 2048 := by
  norm_num [Format.binary64, Format.exponentBits]

theorem rounds_ofScientific {m : ℕ} (h0 : 0 < m) {e : ℤ} (he : e ≤ 2048) :
    Rounds (m * 10 ^ e) (UnpackedFloat.ofScientific Format.binary64 m e) := by
  have hpos : (0 : ℚ) < m * 10 ^ e := by positivity
  refine Rounds.signed .positive hpos ?_
  have hmantissa : Format.binary64.mantissaBits = 53 := by norm_num [Format.mantissaBits]
  rw [UnpackedFloat.ofScientific, dif_neg h0.ne', two_pow_exponentBits, if_neg (not_lt.mpr he)]
  by_cases hunder : e < -(2048 + m.log2 : ℤ)
  · rw [if_pos hunder]
    exact isRounded_underflow h0 hunder
  rw [if_neg hunder]
  by_cases hneg : 0 ≤ e
  · rw [if_pos hneg]
    obtain ⟨k, rfl⟩ := Int.eq_ofNat_of_zero_le hneg
    rw [zpow_natCast, UnpackedFloat.mul, Int.toNat_natCast, hmantissa, Nat.cast_ofNat]
    exact isRounded_mul_power h0 k
  · rw [if_neg hneg]
    obtain ⟨k, rfl⟩ : ∃ k : ℕ, e = -k := ⟨(-e).toNat, by omega⟩
    have h : IsRounded .positive (m * 2 ^ (0 : ℤ) / ((10 ^ k : ℕ) * 2 ^ (0 : ℤ))) _ :=
      isRounded_divCore .positive h0 (by positivity)
    rw [zpow_zero, mul_one, mul_one, Nat.cast_pow, Nat.cast_ofNat, ← zpow_natCast, div_eq_mul_inv, ← zpow_neg] at h
    rw [UnpackedFloat.div, neg_neg, Int.toNat_natCast]
    exact h

/-! ## Powers of ten -/

def isWhole (n : ℕ) : UnpackedFloat → Bool
  | .finite .positive m e _ => if 0 ≤ e then m * 2 ^ e.toNat = n else m = n * 2 ^ (-e).toNat
  | _ => false

theorem finite_of_isWhole {n : ℕ} (h : isWhole n a.toModel.unpack = true) : a.isFinite = true ∧ value a = n := by
  unfold isWhole at h
  split at h
  · next m e h0 hu =>
    refine ⟨congrArg UnpackedFloat.isFinite hu, (congrArg worth hu).trans ?_⟩
    change (m : ℚ) * 2 ^ e = n
    split at h
    · next he =>
      obtain ⟨k, rfl⟩ := Int.eq_ofNat_of_zero_le he
      rw [← of_decide_eq_true h]
      push_cast
      simp
    · next he =>
      obtain ⟨k, rfl⟩ : ∃ k : ℕ, e = -k := ⟨(-e).toNat, by omega⟩
      rw [of_decide_eq_true h]
      push_cast
      simp
  · cases h

theorem isWhole_power : ∀ e : Fin 23,
    isWhole (10 ^ e.val) (Float.exactlyRepresentablePowersOfTen[e]).toModel.unpack = true := by
  decide +kernel

/-! ## Decimals -/

theorem yields_of_exact {m : ℕ} (hm : m < 2 ^ 53) {e : ℤ} (he : e.natAbs ≤ 22) :
    Yields (m * 10 ^ e) (.ofScientific m (e < 0) e.natAbs) := by
  obtain ⟨hfinite, hvalue⟩ := toUInt64_finite hm
  obtain ⟨hpower, hvalue'⟩ := finite_of_isWhole (isWhole_power ⟨e.natAbs, by omega⟩)
  rw [Float.ofScientific, dif_pos ⟨hm, he⟩]
  by_cases hneg : e < 0
  · have h := yields_div hfinite hpower (by rw [hvalue']; positivity)
    have he' : -(e.natAbs : ℤ) = e := by omega
    rw [hvalue, hvalue', Nat.cast_pow, Nat.cast_ofNat, ← zpow_natCast, div_eq_mul_inv, ← zpow_neg, he'] at h
    rw [if_pos (decide_eq_true hneg)]
    exact h
  · have h := yields_mul hfinite hpower
    have he' : (e.natAbs : ℤ) = e := by omega
    rw [hvalue, hvalue', Nat.cast_pow, Nat.cast_ofNat, ← zpow_natCast, he'] at h
    rw [if_neg (by rwa [decide_eq_true_iff])]
    exact h

theorem ofScientific_eq_pack {m : ℕ} {e : ℤ} (h : ¬ (m < 2 ^ 53 ∧ e.natAbs ≤ 22)) :
    Float.ofScientific m (e < 0) e.natAbs =
      ⟨Float.Model.pack (UnpackedFloat.ofScientific Format.binary64 m e)⟩ := by
  rw [Float.ofScientific, dif_neg h]
  by_cases hneg : e < 0
  · have he : Int.negOfNat e.natAbs = e := by rw [Int.negOfNat_eq, Int.ofNat_eq_natCast]; omega
    rw [if_pos (decide_eq_true hneg), he]
    rfl
  · have he : Int.ofNat e.natAbs = e := Int.natAbs_of_nonneg (not_lt.mp hneg)
    rw [if_neg (by rwa [decide_eq_true_iff]), he]
    rfl

theorem overflow_lt_of_large {m : ℕ} (h0 : 0 < m) {e : ℤ} (he : 2048 < e) : overflow < m * 10 ^ e := by
  calc overflow < limit := overflow_lt_limit
    _ = 2 ^ ((52 : ℕ) + 972 : ℤ) := (two_zpow_add_nat 52 972).symm
    _ ≤ 2 ^ e := two_zpow_mono (by omega)
    _ ≤ 10 ^ e := two_zpow_le_ten (by omega)
    _ ≤ m * 10 ^ e := le_mul_of_one_le_left (by positivity) (by exact_mod_cast h0)

/-- A decimal is rounded once. -/
theorem yields_ofScientific {m : ℕ} {e : ℤ} (h : 0 < m → e ≤ 2048) :
    Yields (m * 10 ^ e) (.ofScientific m (e < 0) e.natAbs) := by
  by_cases hexact : m < 2 ^ 53 ∧ e.natAbs ≤ 22
  · exact yields_of_exact hexact.1 hexact.2
  refine ⟨_, ?_, ofScientific_eq_pack hexact⟩
  rcases Nat.eq_zero_or_pos m with rfl | h0
  · exact .of_eq_zero (by rw [Nat.cast_zero, zero_mul]) .positive
  · exact rounds_ofScientific h0 (h h0)

theorem isFinite_ofScientific {m : ℕ} {e : ℤ} :
    (Float.ofScientific m (e < 0) e.natAbs).isFinite = true ↔ m * 10 ^ e < overflow := by
  by_cases h : 0 < m → e ≤ 2048
  · rw [(yields_ofScientific h).isFinite_iff, abs_of_nonneg (by positivity)]
  · -- Such a power of ten is too large itself.
    obtain ⟨h0, he⟩ := Classical.not_imp.mp h
    have hinf : UnpackedFloat.ofScientific Format.binary64 m e = .infinity .positive := by
      rw [UnpackedFloat.ofScientific, dif_neg h0.ne', two_pow_exponentBits, if_pos (not_le.mp he)]
    rw [ofScientific_eq_pack (by omega), hinf]
    exact iff_of_false Bool.false_ne_true (overflow_lt_of_large h0 (not_le.mp he)).not_gt

end ExtentLedger.Double
