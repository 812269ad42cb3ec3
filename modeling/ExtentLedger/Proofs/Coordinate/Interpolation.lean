import ExtentLedger.Proofs.Coordinate.Doubles

/-!
# Interpolation in doubles

A sample is its start and a part of the length of the side, each of the operations rounded. Wherever the length is finite,
the sample lies between the ends of the side; where it is not, the first sample is no number already.
-/

namespace ExtentLedger.Double

variable {p q d t y : ℚ}

theorem HasDigits.exists_places (h : HasDigits p) : ∃ k : ℤ, p = k * 2 ^ (-1074 : ℤ) := by
  obtain ⟨n, e, -, he, rfl⟩ := h
  obtain ⟨k, rfl⟩ := Int.le.dest he
  exact ⟨n * 2 ^ k, by rw [add_comm, two_zpow_add_nat, ← mul_assoc, Int.cast_mul, Int.cast_pow, Int.cast_ofNat]⟩

/-- A part of a rounded length, rounded, does not exceed the length. -/
theorem HasDigits.part_le (hp : HasDigits p) (hq : HasDigits q) (hd : Faithful (q - p) d) (hd' : HasDigits d)
    (hle : p ≤ q) (ht0 : 0 ≤ t) (ht : t ≤ 1 - 1 / 2 ^ 52) (hy : Faithful (d * t) y) : 0 ≤ y ∧ y ≤ q - p := by
  have hd0 : 0 ≤ d := hd.ge 0 hasDigits_zero (sub_nonneg.mpr hle)
  refine ⟨hy.ge 0 hasDigits_zero (mul_nonneg hd0 ht0), ?_⟩
  have hyd : y ≤ d := hy.le d hd' (mul_le_of_le_one_right hd0 (ht.trans (by norm_num)))
  rcases le_or_gt d (q - p) with hdle | hdlt
  · exact hyd.trans hdle
  obtain ⟨n, e, hn, he, rfl, hl⟩ := hd'.exists_normal
  have hpos := two_zpow_pos e
  have hn0 : 0 ≤ n := by exact_mod_cast nonneg_of_mul_nonneg_left hd0 hpos
  rw [abs_of_nonneg hn0] at hn hl
  rcases hl with hl | rfl
  · -- The rounded length has all its digits: one step less is still enough for the part, and within the length.
    have hl : (2 ^ 52 : ℚ) ≤ n := by exact_mod_cast hl
    have hstep : HasDigits ((n - 1 : ℤ) * 2 ^ e) := ⟨n - 1, e, by rw [abs_le]; omega, he, rfl⟩
    have hnt : n * t ≤ n - 1 :=
      calc n * t ≤ n * (1 - 1 / 2 ^ 52) := mul_le_mul_of_nonneg_left ht (by positivity)
        _ = n - n / 2 ^ 52 := by ring
        _ ≤ n - 1 := by gcongr; exact (one_le_div (by norm_num)).mpr hl
    have hpart : n * 2 ^ e * t ≤ (n - 1 : ℤ) * 2 ^ e := by
      rw [mul_right_comm]
      push_cast
      gcongr
    refine (hy.le _ hstep hpart).trans (not_lt.mp fun hlt => ?_)
    have hback := le_of_mul_le_mul_right (hd.le _ hstep hlt.le) hpos
    push_cast at hback
    linarith
  · -- The length is a whole number of last places, so it is not rounded at all.
    obtain ⟨k, rfl⟩ := hp.exists_places
    obtain ⟨l, rfl⟩ := hq.exists_places
    rw [← sub_mul, ← Int.cast_sub] at hd hdlt ⊢
    have hlt : l - k < n := by exact_mod_cast lt_of_mul_lt_mul_right hdlt hpos.le
    have hkl : k ≤ l := by exact_mod_cast le_of_mul_le_mul_right hle hpos
    have hlength : HasDigits ((l - k : ℤ) * 2 ^ (-1074 : ℤ)) := ⟨l - k, -1074, by rw [abs_le]; omega, le_rfl, rfl⟩
    exact hyd.trans (hd.eq hlength).le

theorem HasDigits.step_between (hp : HasDigits p) (hq : HasDigits q) (hd : Faithful (q - p) d) (hd' : HasDigits d)
    (ht0 : 0 ≤ t) (ht : t ≤ 1 - 1 / 2 ^ 52) (hy : Faithful (d * t) y) : min p q ≤ p + y ∧ p + y ≤ max p q := by
  rcases le_total p q with hle | hle
  · obtain ⟨h0, h⟩ := hp.part_le hq hd hd' hle ht0 ht hy
    rw [min_eq_left hle, max_eq_right hle]
    constructor <;> linarith
  · have hd := hd.neg
    have hy := hy.neg
    rw [neg_sub] at hd
    rw [← neg_mul] at hy
    obtain ⟨h0, h⟩ := hq.part_le hp hd hd'.neg hle ht0 ht hy
    rw [min_eq_right hle, max_eq_left hle]
    constructor <;> linarith

variable {a c : Float} {step steps : ℕ}

theorem step_fraction (h : step < steps) (hsteps : steps ≤ 2500) :
    let t := Float.ofNat step / Float.ofNat steps
    t.isFinite = true ∧ 0 ≤ value t ∧ value t ≤ 1 - 1 / 2 ^ 52 ∧ (step = 0 → value t = 0) := by
  intro t
  obtain ⟨hone, hone'⟩ := ofNat_finite (n := 1) (by norm_num)
  have hsteps0 : (0 : ℚ) < steps := by exact_mod_cast (Nat.zero_le _).trans_lt h
  have ht : Yields (step / steps) t := yields_fraction (by omega) (by omega) (by omega)
  have h0 : (0 : ℚ) ≤ step / steps := by positivity
  have hle : (step / steps : ℚ) ≤ 1 - 1 / 2 ^ 52 := by
    have hstep : (step + 1 : ℚ) ≤ steps := by exact_mod_cast h
    have hmax : (steps : ℚ) ≤ 2500 := by exact_mod_cast hsteps
    rw [div_le_iff₀ hsteps0]
    linarith
  have hfin : t.isFinite = true := ht.isFinite hone (by
    rw [hone', abs_of_nonneg h0, Nat.cast_one, abs_one]
    exact hle.trans (by norm_num))
  have hf := ht.faithful hfin
  refine ⟨hfin, hf.ge 0 hasDigits_zero h0, hf.le _ ?_ hle, ?_⟩
  · exact ⟨2 ^ 52 - 1, -52, by norm_num, by norm_num, by norm_num⟩
  · intro hstep
    rw [hstep, Nat.cast_zero, zero_div] at hf
    exact hf.eq hasDigits_zero

theorem exists_ends (ha : a.isFinite = true) (hc : c.isFinite = true) : ∃ l u : Float, l.isFinite = true ∧
    u.isFinite = true ∧ value l = min (value a) (value c) ∧ value u = max (value a) (value c) := by
  rcases le_total (value a) (value c) with h | h
  · exact ⟨a, c, ha, hc, (min_eq_left h).symm, (max_eq_right h).symm⟩
  · exact ⟨c, a, hc, ha, (min_eq_right h).symm, (max_eq_left h).symm⟩

theorem step_finite (ha : a.isFinite = true) (hc : c.isFinite = true) (hd : (c - a).isFinite = true) (h : step < steps)
    (hsteps : steps ≤ 2500) :
    let z := a + (c - a) * (Float.ofNat step / Float.ofNat steps)
    z.isFinite = true ∧ min (value a) (value c) ≤ value z ∧ value z ≤ max (value a) (value c) ∧
      (step = 0 → value z = value a) := by
  intro z
  obtain ⟨htf, ht0, ht1, htz⟩ := step_fraction h hsteps
  have hy := yields_mul hd htf
  have hyf := hy.isFinite hd (by
    rw [abs_mul, abs_of_nonneg ht0]
    exact mul_le_of_le_one_right (abs_nonneg _) (ht1.trans (by norm_num)))
  have hz : Yields _ z := yields_add ha hyf
  obtain ⟨hlo, hhi⟩ := (hasDigits_value ha).step_between (hasDigits_value hc) ((yields_sub hc ha).faithful hd)
    (hasDigits_value hd) ht0 ht1 (hy.faithful hyf)
  obtain ⟨l, u, hl, hu, hlv, huv⟩ := exists_ends ha hc
  rw [← hlv] at hlo ⊢
  rw [← huv] at hhi ⊢
  have hzf : z.isFinite = true := by
    rcases le_max_iff.mp (abs_le_max_abs_abs hlo hhi) with h | h
    · exact hz.isFinite hl h
    · exact hz.isFinite hu h
  have hf := hz.faithful hzf
  refine ⟨hzf, hf.ge _ (hasDigits_value hl) hlo, hf.le _ (hasDigits_value hu) hhi, ?_⟩
  intro hstep
  have hyz := hy.faithful hyf
  rw [htz hstep, mul_zero] at hyz
  rw [hyz.eq hasDigits_zero, add_zero] at hf
  exact hf.eq (hasDigits_value ha)

/-- What is not finite is lost at the start of a side already. -/
theorem not_isFinite_start (a : Float) {d : Float} (hd : d.isFinite = false) (h : 0 < steps) (hsteps : steps ≤ 2500) :
    (a + d * (Float.ofNat 0 / Float.ofNat steps)).isFinite = false := by
  obtain ⟨s, hs⟩ := exists_zero_div
  rw [hs steps h (by omega)]
  exact add_notANumber a (mul_zero_notANumber hd s)

end ExtentLedger.Double
