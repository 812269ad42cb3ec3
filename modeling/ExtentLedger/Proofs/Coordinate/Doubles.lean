import ExtentLedger.Proofs.Coordinate.Arithmetic

/-!
# Doubles

Finite doubles as the rationals that they are. What is computed of them is the rounded exact result, unless that reaches
the middle between the largest double and the next number that would be one. So the finite doubles on both sides of the
exact result bound what comes of it. Whole numbers below `2 ^ 53` are doubles.
-/

namespace ExtentLedger.Double

open Float.Model UnpackedFloat

def limit : ℚ := 2 ^ 52 * 2 ^ (972 : ℤ)

variable {u v : UnpackedFloat} {x : ℚ} {s : Sign}

/-! ## Packing -/

/-- What the parts of a double mean: its sign, the exponent it is stored with, and the digits behind the first. -/
theorem unpack_packComponents (s : Sign) (e : BitVec 11) (m : BitVec 52) :
    UnpackedFloat.unpack Format.binary64 (packComponents Format.binary64 s e m) =
      if e = -1#11 then if m = 0#52 then .infinity s else .notANumber
      else if e = 0#11 then if h : m = 0#52 then .zero s
        else .finite s m.toNat (-1074) (Nat.pos_of_ne_zero fun h0 => h (BitVec.eq_of_toNat_eq h0))
      else .finite s (2 ^ 52 + m.toNat) (e.toNat - 1075) (by positivity) := by
  unfold UnpackedFloat.unpack
  simp only [unpackExponent_packComponents, unpackMantissa_packComponents, unpackSign_packComponents,
    Sign.ofBitVec_toBitVec]
  have hm : (1#1 ++ m).toNat = 2 ^ 52 + m.toNat := by
    rw [BitVec.toNat_append, ← Nat.shiftLeft_add_eq_or_of_lt m.isLt]
    rfl
  simp only [hm]
  by_cases h1 : e = -1#11
  · rw [if_pos h1, if_pos h1]
  rw [if_neg h1, if_neg h1]
  by_cases h0 : e = 0#11
  · subst h0
    rfl
  · rw [if_neg h0, if_neg h0]
    rfl

theorem unpack_infinity (s : Sign) : (Float.Model.pack (.infinity s)).unpack = .infinity s := by
  cases s <;> rfl

theorem unpack_notANumber : (Float.Model.pack .notANumber).unpack = .notANumber := rfl

theorem limit_pos : 0 < limit := mul_pos (by norm_num) (two_zpow_pos _)

theorem abs_signed (s : Sign) (hx : 0 ≤ x) : |signed s x| = x := by
  cases s with
  | positive => exact abs_of_nonneg hx
  | negative => rw [signed, abs_neg, abs_of_nonneg hx]

theorem exponent_le {m : ℕ} {e : ℤ} (h : 2 ^ 52 ≤ m ∨ e = -1074) (hb : m * 2 ^ e < limit) : e ≤ 971 := by
  by_contra hlt
  have hm : (2 ^ 52 : ℚ) ≤ m := by exact_mod_cast h.resolve_right (by omega)
  have he : (2 : ℚ) ^ (972 : ℤ) ≤ 2 ^ e := two_zpow_mono (by omega)
  exact hb.not_ge (mul_le_mul hm he (two_zpow_pos _).le (Nat.cast_nonneg m))

theorem size_lt_limit {m : ℕ} {e : ℤ} (hm : m < 2 ^ 53) (he : e ≤ 971) : m * 2 ^ e < limit := by
  have hm' : (m : ℚ) < 2 ^ 53 := by exact_mod_cast hm
  have he' : (2 : ℚ) ^ e ≤ 2 ^ (971 : ℤ) := two_zpow_mono he
  have hlimit : limit = 2 ^ 53 * 2 ^ (971 : ℤ) := by
    rw [limit, show (972 : ℤ) = 971 + 1 from rfl, two_zpow_succ, ← mul_assoc, ← pow_succ]
  rw [hlimit]
  exact mul_lt_mul hm' he' (two_zpow_pos e) (by norm_num)

theorem abs_worth_finite (s : Sign) {m : ℕ} (e : ℤ) (h0 : 0 < m) : |worth (.finite s m e h0)| = m * 2 ^ e :=
  abs_signed s (mul_nonneg (Nat.cast_nonneg m) (two_zpow_pos e).le)

theorem pack_finite (s : Sign) {m : ℕ} {e : ℤ} (h0 : 0 < m) :
    UnpackedFloat.pack Format.binary64 (.finite s m e h0) =
      if 2 ^ 11 ≤ (e + 1075).toNat + 1 then packedInfinity Format.binary64 s
      else if m.log2 + 1 = 53 then
        packComponents Format.binary64 s (BitVec.ofNat 11 (e + 1075).toNat) (BitVec.ofNat 52 m)
      else packComponents Format.binary64 s 0#11 (BitVec.ofNat 52 m) := by
  have he : e + 1023 + 52 = e + 1075 := by ring
  rw [← he]
  rfl

theorem finite_congr {m m' : ℕ} {e e' : ℤ} (hm : m = m') (he : e = e') (h : 0 < m) (h' : 0 < m') :
    UnpackedFloat.finite s m e h = .finite s m' e' h' := by
  subst hm he
  rfl

theorem IsNumber.unpack_pack (h : IsNumber u) (hb : |worth u| < limit) : (Float.Model.pack u).unpack = u := by
  rcases h with s | ⟨s, h0, hm, he, h⟩
  · cases s <;> rfl
  rename_i m e
  rw [abs_worth_finite] at hb
  have he' := exponent_le h hb
  show UnpackedFloat.unpack Format.binary64 (UnpackedFloat.pack Format.binary64 (.finite s m e h0)) = _
  rw [pack_finite, if_neg (by omega)]
  have hlog := (Nat.log2_lt h0.ne').mpr hm
  -- The first digit is left out when there are 53 of them; fewer are kept with the exponent zero.
  by_cases hl : 2 ^ 52 ≤ m
  · have := (Nat.le_log2 h0.ne').mpr hl
    have hk : (BitVec.ofNat 11 (e + 1075).toNat).toNat = (e + 1075).toNat := Nat.mod_eq_of_lt (by omega)
    rw [if_pos (by omega), unpack_packComponents, if_neg (by bv_omega), if_neg (by bv_omega)]
    refine finite_congr ?_ (by omega) _ _
    rw [BitVec.toNat_ofNat]
    omega
  · have := (Nat.log2_lt h0.ne').mpr (not_le.mp hl)
    have hk : (BitVec.ofNat 52 m).toNat = m := Nat.mod_eq_of_lt (by omega)
    rw [if_neg (by omega), unpack_packComponents, if_neg (by decide), if_pos (Eq.refl 0#11),
      dif_neg (by bv_omega)]
    exact finite_congr hk (h.resolve_left hl).symm _ _

theorem isNumber_packComponents (s : Sign) (e : BitVec 11) (m : BitVec 52)
    (h : (UnpackedFloat.unpack Format.binary64 (packComponents Format.binary64 s e m)).isFinite = true) :
    IsNumber (UnpackedFloat.unpack Format.binary64 (packComponents Format.binary64 s e m)) ∧
      |worth (UnpackedFloat.unpack Format.binary64 (packComponents Format.binary64 s e m))| < limit := by
  rw [unpack_packComponents] at h ⊢
  by_cases h1 : e = -1#11
  · rw [if_pos h1] at h
    split at h <;> cases h
  rw [if_neg h1]
  have hm := m.isLt
  by_cases h0 : e = 0#11
  · rw [if_pos h0]
    by_cases hm0 : m = 0#52
    · rw [dif_pos hm0]
      exact ⟨.zero s, by rw [worth_zero, abs_zero]; exact limit_pos⟩
    · rw [dif_neg hm0]
      refine ⟨.finite s _ (by omega) le_rfl (.inr rfl), ?_⟩
      rw [abs_worth_finite]
      exact size_lt_limit (by omega) (by norm_num)
  · rw [if_neg h0]
    have he0 : 1 ≤ e.toNat := by bv_omega
    have he1 : e.toNat ≤ 2046 := by bv_omega
    refine ⟨.finite s _ (by omega) (by omega) (.inl (by omega)), ?_⟩
    rw [abs_worth_finite]
    exact size_lt_limit (by omega) (by omega)

theorem isNumber_unpack {a : Float} (h : a.isFinite = true) :
    IsNumber a.toModel.unpack ∧ |worth a.toModel.unpack| < limit := by
  have hf : (UnpackedFloat.unpack Format.binary64 a.toModel.toBits.toBitVec).isFinite = true := h
  show IsNumber (UnpackedFloat.unpack Format.binary64 a.toModel.toBits.toBitVec) ∧
    |worth (UnpackedFloat.unpack Format.binary64 a.toModel.toBits.toBitVec)| < limit
  generalize a.toModel.toBits.toBitVec = b at hf ⊢
  rw [← @packComponents_unpackSign_unpackExponent_unpackMantissa Format.binary64 b] at hf ⊢
  exact isNumber_packComponents _ _ _ hf

/-! ## What is too large -/

def largest : ℚ := (2 ^ 53 - 1) * 2 ^ (971 : ℤ)

/-- The least number that is rounded beyond the largest double. -/
def overflow : ℚ := (2 ^ 53 - 1 / 2) * 2 ^ (971 : ℤ)

theorem largest_eq : largest = ((2 ^ 53 - 1) * 2 ^ 971 : ℕ) := by
  have htwo : (2 : ℚ) ^ (971 : ℤ) = 2 ^ 971 := zpow_natCast 2 971
  rw [largest, htwo, Nat.cast_mul, Nat.cast_pow, Nat.cast_ofNat]
  norm_num only

theorem largest_lt_overflow : largest < overflow := mul_lt_mul_of_pos_right (by norm_num) (two_zpow_pos _)

theorem limit_eq : limit = 2 ^ 53 * 2 ^ (971 : ℤ) := by
  have htwo : (2 : ℚ) ^ (972 : ℤ) = 2 * 2 ^ (971 : ℤ) := two_zpow_succ 971
  rw [limit, htwo]
  ring

theorem overflow_lt_limit : overflow < limit :=
  limit_eq ▸ mul_lt_mul_of_pos_right (by norm_num) (two_zpow_pos _)

theorem overflow_pos : 0 < overflow := mul_pos (by norm_num) (two_zpow_pos _)

theorem IsRounded.worth_lt_limit (h : IsRounded s x u) : |worth u| < limit ↔ x < overflow := by
  obtain ⟨t, em, hstep, hmarks, rfl⟩ := h
  have hpos := two_zpow_pos t
  have hle := hmarks.roundedMantissa_le_of_isStep hstep
  rw [worth_settled s hle, abs_signed s (mul_nonneg (Nat.cast_nonneg _) hpos.le)]
  rcases lt_trichotomy t 971 with hlt | rfl | hgt
  · -- All digits at this place do not reach the threshold.
    have hhalf : (2 : ℚ) ^ 53 * 2 ^ t ≤ overflow := by
      calc (2 : ℚ) ^ 53 * 2 ^ t ≤ (2 ^ 53 - 1 / 2) * (2 * 2 ^ t) := by
            rw [← mul_assoc]
            exact mul_le_mul_of_nonneg_right (by norm_num) hpos.le
        _ ≤ overflow := by
            rw [← two_zpow_succ]
            exact mul_le_mul_of_nonneg_left (two_zpow_mono (by omega)) (by norm_num)
    have hle : (em.roundedMantissa : ℚ) ≤ 2 ^ 53 := by exact_mod_cast hle
    exact iff_of_true ((mul_le_mul_of_nonneg_right hle hpos.le).trans_lt (hhalf.trans_lt overflow_lt_limit))
      (hstep.upper.trans_le hhalf)
  · -- This is the last place of the largest double. The next count of steps is even, so a tie goes up to it.
    have heven : Even (2 ^ 53) := by decide
    rw [limit_eq, mul_lt_mul_iff_left₀ hpos, overflow, ← div_lt_iff₀ hpos]
    have hcast : (em.roundedMantissa : ℚ) < 2 ^ 53 ↔ em.roundedMantissa < 2 ^ 53 := by exact_mod_cast Iff.rfl
    rw [hcast, hmarks.roundedMantissa_lt heven]
    generalize x / 2 ^ (971 : ℤ) = y
    push_cast
    constructor <;> intro h <;> linarith
  · -- The first number with all digits at this place is too large.
    have hlower := hstep.lower.resolve_left (by omega)
    have hfirst : limit ≤ 2 ^ 52 * 2 ^ t := mul_le_mul_of_nonneg_left (two_zpow_mono (by omega)) (by norm_num)
    have hge : 2 ^ 52 ≤ em.roundedMantissa := by
      refine hmarks.le_roundedMantissa ?_
      rw [le_div_iff₀ hpos]
      exact_mod_cast hlower
    have hge : (2 : ℚ) ^ 52 ≤ em.roundedMantissa := by exact_mod_cast hge
    exact iff_of_false (hfirst.trans (mul_le_mul_of_nonneg_right hge hpos.le)).not_gt
      ((overflow_lt_limit.le.trans hfirst).trans hlower).not_gt

theorem Rounds.worth_lt_limit (h : Rounds x u) : |worth u| < limit ↔ |x| < overflow := by
  cases h with
  | zero s =>
    rw [worth_zero, abs_zero]
    exact iff_of_true limit_pos overflow_pos
  | signed s hx h =>
    rw [abs_signed s hx.le]
    exact h.worth_lt_limit

theorem natCast_lt_overflow {k : ℕ} (h : k < 2 ^ 64) : k < overflow := by
  have hk : (k : ℚ) < 2 ^ (64 : ℤ) := by exact_mod_cast h
  exact hk.trans_le ((two_zpow_mono (by norm_num)).trans (le_mul_of_one_le_left (two_zpow_pos _).le (by norm_num)))

/-! ## Values -/

def value (a : Float) : ℚ := worth a.toModel.unpack

variable {a b : Float}

theorem hasDigits_value (ha : a.isFinite = true) : HasDigits (value a) := (isNumber_unpack ha).1.hasDigits

theorem value_le (ha : a.isFinite = true) (hb : b.isFinite = true) : value a ≤ value b ↔ a ≤ b := by
  have h : a ≤ b ↔ ∃ o, a.toModel.unpack.compare b.toModel.unpack = some o ∧ o.isLE = true :=
    decide_eq_true_iff.trans (Option.any_eq_true _ _)
  rw [h, compare_worth (isNumber_unpack ha).1 (isNumber_unpack hb).1, ← compare_le_iff_le]
  simp [Ordering.isLE_iff_ne_gt, value]

/-- A double is what an exact result is rounded to. -/
def Yields (x : ℚ) (a : Float) : Prop := ∃ u, Rounds x u ∧ a = ⟨Float.Model.pack u⟩

theorem yields_add (ha : a.isFinite = true) (hb : b.isFinite = true) : Yields (value a + value b) (a + b) :=
  ⟨_, rounds_add (isNumber_unpack ha).1 (isNumber_unpack hb).1, rfl⟩

theorem yields_sub (ha : a.isFinite = true) (hb : b.isFinite = true) : Yields (value a - value b) (a - b) :=
  ⟨_, rounds_sub (isNumber_unpack ha).1 (isNumber_unpack hb).1, rfl⟩

theorem yields_mul (ha : a.isFinite = true) (hb : b.isFinite = true) : Yields (value a * value b) (a * b) :=
  ⟨_, rounds_mul (isNumber_unpack ha).1 (isNumber_unpack hb).1, rfl⟩

theorem yields_div (ha : a.isFinite = true) (hb : b.isFinite = true) (h : value b ≠ 0) :
    Yields (value a / value b) (a / b) :=
  ⟨_, rounds_div (isNumber_unpack ha).1 (isNumber_unpack hb).1 h, rfl⟩

theorem IsNumber.isFinite_pack (h : IsNumber u) :
    (⟨Float.Model.pack u⟩ : Float).isFinite = true ↔ |worth u| < limit := by
  show (Float.Model.pack u).unpack.isFinite = true ↔ _
  constructor
  · intro hf
    by_contra hb
    rcases h with s | ⟨s, h0, hm, he, h⟩
    · exact hb (by rw [worth_zero, abs_zero]; exact limit_pos)
    · rename_i m e
      rw [abs_worth_finite] at hb
      have he' : 972 ≤ e := not_lt.mp fun he' => hb (size_lt_limit hm (by omega))
      have hp : (Float.Model.pack (.finite s m e h0)).unpack = .infinity s := by
        show UnpackedFloat.unpack Format.binary64 (UnpackedFloat.pack Format.binary64 (.finite s m e h0)) = _
        rw [pack_finite, if_pos (by omega)]
        exact unpack_infinity s
      rw [hp] at hf
      cases hf
  · intro hb
    rw [h.unpack_pack hb]
    cases h <;> rfl

namespace Yields

theorem value_eq (h : Yields x a) (ha : a.isFinite = true) :
    ∃ u, Rounds x u ∧ |worth u| < limit ∧ value a = worth u := by
  obtain ⟨u, hu, rfl⟩ := h
  have hb := hu.isNumber.isFinite_pack.mp ha
  exact ⟨u, hu, hb, congrArg worth (hu.isNumber.unpack_pack hb)⟩

theorem faithful (h : Yields x a) (ha : a.isFinite = true) : Faithful x (value a) := by
  obtain ⟨u, hu, -, hv⟩ := h.value_eq ha
  rw [hv]
  exact hu.faithful

theorem isFinite (h : Yields x a) (hb : b.isFinite = true) (hx : |x| ≤ |value b|) : a.isFinite = true := by
  obtain ⟨u, hu, rfl⟩ := h
  have hle := hu.faithful.abs_le_abs (hasDigits_value hb) hx
  exact hu.isNumber.isFinite_pack.mpr (hle.trans_lt (isNumber_unpack hb).2)

theorem isFinite_iff (h : Yields x a) : a.isFinite = true ↔ |x| < overflow := by
  obtain ⟨u, hu, rfl⟩ := h
  rw [hu.isNumber.isFinite_pack, hu.worth_lt_limit]

theorem isFinite_neg (h : Yields x a) (h' : Yields (-x) b) (ha : a.isFinite = true) : b.isFinite = true := by
  rw [h'.isFinite_iff, abs_neg]
  exact h.isFinite_iff.mp ha

theorem neg (h : Yields x a) (ha : a.isFinite = true) : Yields (-x) (-a) := by
  obtain ⟨u, hu, rfl⟩ := h
  have hb := hu.isNumber.isFinite_pack.mp ha
  refine ⟨u.neg, hu.neg, ?_⟩
  show Float.ofModel (Float.Model.pack (Float.Model.pack u).unpack.neg) = _
  rw [hu.isNumber.unpack_pack hb]

theorem unique (h : Yields x a) (h' : Yields x b) (hx : x ≠ 0) : a = b := by
  obtain ⟨u, hu, rfl⟩ := h
  obtain ⟨v, hv, rfl⟩ := h'
  rw [hu.unique hv hx]

end Yields

/-! ## Whole numbers -/

theorem IsNumber.finite_value (h : IsNumber u) (hb : |worth u| < limit) :
    (⟨Float.Model.pack u⟩ : Float).isFinite = true ∧ value ⟨Float.Model.pack u⟩ = worth u :=
  ⟨h.isFinite_pack.mpr hb, congrArg worth (h.unpack_pack hb)⟩

theorem neg_finite (ha : a.isFinite = true) : (-a).isFinite = true ∧ value (-a) = -value a := by
  obtain ⟨hn, hb⟩ := isNumber_unpack ha
  have h := hn.neg.finite_value (by rwa [worth_neg, abs_neg])
  rw [worth_neg] at h
  exact h

theorem one_finite :
    (Float.exactlyRepresentablePowersOfTen[0]).isFinite = true ∧ value Float.exactlyRepresentablePowersOfTen[0] = 1 := by
  have h : (Float.exactlyRepresentablePowersOfTen[0]).toModel.unpack = .finite .positive (2 ^ 52) (-52) (by decide) := by
    rfl
  refine ⟨congrArg UnpackedFloat.isFinite h, (congrArg worth h).trans ?_⟩
  norm_num [worth, signed]

theorem toUInt64_finite {n : ℕ} (hn : n < 2 ^ 53) :
    n.toUInt64.toFloat.isFinite = true ∧ value n.toUInt64.toFloat = n := by
  have hround : Rounds n (UnpackedFloat.ofNat Format.binary64 n.toUInt64.toNat) := by
    have h := rounds_normalize n 0 .positive
    rw [zpow_zero, mul_one, Int.cast_natCast] at h
    have hmod : n.toUInt64.toNat = n := Nat.mod_eq_of_lt (hn.trans (by norm_num))
    rw [hmod]
    exact h
  have hworth := hround.faithful.eq (hasDigits_natCast hn.le)
  have hlimit : |worth (UnpackedFloat.ofNat Format.binary64 n.toUInt64.toNat)| < limit := by
    have hlt := size_lt_limit (e := 0) hn (by norm_num)
    rwa [hworth, Nat.abs_cast, ← mul_one (n : ℚ), ← zpow_zero (2 : ℚ)]
  obtain ⟨hfin, hval⟩ := hround.isNumber.finite_value hlimit
  exact ⟨hfin, hval.trans hworth⟩

theorem ofNat_finite {n : ℕ} (hn : n < 2 ^ 53) : (Float.ofNat n).isFinite = true ∧ value (Float.ofNat n) = n := by
  have hproduct : Float.ofNat n = n.toUInt64.toFloat * Float.exactlyRepresentablePowersOfTen[0] := by
    show Float.ofScientific n false 0 = _
    unfold Float.ofScientific
    rw [dif_pos ⟨hn, by norm_num⟩]
    rfl
  obtain ⟨hfin, hval⟩ := toUInt64_finite hn
  have h := yields_mul hfin one_finite.1
  rw [hval, one_finite.2, mul_one, ← hproduct] at h
  have hfinite := h.isFinite hfin (by rw [hval])
  exact ⟨hfinite, (h.faithful hfinite).eq (hasDigits_natCast hn.le)⟩

theorem yields_fraction {k n : ℕ} (hk : k < 2 ^ 53) (hn : n < 2 ^ 53) (h : 0 < n) :
    Yields (k / n) (Float.ofNat k / Float.ofNat n) := by
  obtain ⟨hnum, hnum'⟩ := ofNat_finite hk
  obtain ⟨hden, hden'⟩ := ofNat_finite hn
  have hy := yields_div hnum hden (by rw [hden']; exact Nat.cast_ne_zero.mpr h.ne')
  rwa [hnum', hden'] at hy

theorem IsNumber.eq_zero (h : IsNumber u) (h0 : worth u = 0) : ∃ s, u = .zero s := by
  rcases h with s | ⟨s, hm, -, -, -⟩
  · exact ⟨s, rfl⟩
  · rename_i m e
    have hpos := abs_worth_finite s e hm
    rw [h0, abs_zero] at hpos
    exact absurd hpos (size_pos hm e).ne

/-- Whatever zero is divided by, the zero has the same sign. -/
theorem exists_zero_div :
    ∃ s, ∀ n : ℕ, 0 < n → n < 2 ^ 53 → Float.ofNat 0 / Float.ofNat n = ⟨Float.Model.pack (.zero s)⟩ := by
  obtain ⟨hf, hv⟩ := ofNat_finite (n := 0) (by norm_num)
  obtain ⟨s, hs⟩ := (isNumber_unpack hf).1.eq_zero (hv.trans Nat.cast_zero)
  refine ⟨s, fun n h0 hn => ?_⟩
  obtain ⟨hf, hv⟩ := ofNat_finite hn
  have hn := (isNumber_unpack hf).1
  have hpos : 0 < worth (Float.ofNat n).toModel.unpack := (Nat.cast_pos.mpr h0).trans_eq hv.symm
  have hdiv : Float.ofNat 0 / Float.ofNat n =
      ⟨Float.Model.pack ((Float.ofNat 0).toModel.unpack.div Format.binary64 (Float.ofNat n).toModel.unpack)⟩ := rfl
  rw [hdiv, hs]
  generalize (Float.ofNat n).toModel.unpack = v at hn hpos
  rcases hn with t | ⟨t, hm, -, -, -⟩
  · exact absurd rfl hpos.ne
  · cases t with
    | negative => exact absurd hpos (neg_lt_zero.mpr (size_pos hm _)).not_gt
    | positive => cases s <;> rfl

/-! ## What is not finite -/

theorem mul_zero_notANumber {d : Float} (hd : d.isFinite = false) (s : Sign) :
    (d * ⟨Float.Model.pack (.zero s)⟩).toModel.unpack = .notANumber := by
  have hd : d.toModel.unpack.isFinite = false := hd
  have hz : (Float.Model.pack (.zero s)).unpack = .zero s := by cases s <;> rfl
  show (Float.Model.pack (d.toModel.unpack.mul Format.binary64 (Float.Model.pack (.zero s)).unpack)).unpack = _
  rw [hz]
  generalize d.toModel.unpack = u at hd
  rcases u with _ | _ | _ | _
  · exact unpack_notANumber
  · exact unpack_notANumber
  · cases hd
  · cases hd

theorem add_notANumber (a : Float) {b : Float} (hb : b.toModel.unpack = .notANumber) : (a + b).isFinite = false := by
  show (Float.Model.pack (a.toModel.unpack.add Format.binary64 b.toModel.unpack)).unpack.isFinite = false
  rw [hb]
  generalize a.toModel.unpack = u
  rcases u with _ | _ | _ | _ <;> exact congrArg UnpackedFloat.isFinite unpack_notANumber

theorem isNaN_iff {a : Float} : a.isNaN = true ↔ a.toModel.unpack = .notANumber := by
  show a.toModel.unpack.isNaN = true ↔ _
  cases a.toModel.unpack with
  | notANumber => exact iff_of_true rfl rfl
  | _ => exact iff_of_false Bool.false_ne_true nofun

theorem isNaN_of_sub (h : (a - b).isNaN = false) : a.isNaN = false ∧ b.isNaN = false := by
  have hnan : a.toModel.unpack = .notANumber ∨ b.toModel.unpack = .notANumber → (a - b).isNaN = true := by
    rw [isNaN_iff]
    show _ → (Float.Model.pack (a.toModel.unpack.sub Format.binary64 b.toModel.unpack)).unpack = .notANumber
    rintro (ha | hb)
    · rw [ha]
      exact unpack_notANumber
    · rw [hb]
      cases a.toModel.unpack <;> exact unpack_notANumber
  rw [← isNaN_iff, ← isNaN_iff, h] at hnan
  simpa only [Bool.not_eq_true, not_or] using mt hnan Bool.false_ne_true

theorem isNaN_of_mul (h : (a * b).isNaN = false) : a.isNaN = false ∧ b.isNaN = false := by
  have hnan : a.toModel.unpack = .notANumber ∨ b.toModel.unpack = .notANumber → (a * b).isNaN = true := by
    rw [isNaN_iff]
    show _ → (Float.Model.pack (a.toModel.unpack.mul Format.binary64 b.toModel.unpack)).unpack = .notANumber
    rintro (ha | hb)
    · rw [ha]
      exact unpack_notANumber
    · rw [hb]
      cases a.toModel.unpack <;> exact unpack_notANumber
  rw [← isNaN_iff, ← isNaN_iff, h] at hnan
  simpa only [Bool.not_eq_true, not_or] using mt hnan Bool.false_ne_true

end ExtentLedger.Double
