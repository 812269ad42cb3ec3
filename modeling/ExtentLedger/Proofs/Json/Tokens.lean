import ExtentLedger.Proofs.Json.Spelling

/-!
# The own characters of strings and integers

A string is spelled by its own characters, except that a control character without a letter of its own is spelled as the
unit that it is written as, which stands for the same character. So is an integer, which starts with a zero only where
it is zero.
-/

namespace ExtentLedger

namespace Json

/-! ## Strings -/

namespace Piece

def asRead : Piece → Piece
  | .char c => if escapeLetter? c = none ∧ c.toNat < 0x20 then .unit c.toNat else .char c
  | .unit n => .unit n

def FitsEscape : Piece → Prop
  | .char _ => True
  | .unit n => n < 0x10000

def spelling (s : String) : List Piece := s.toList.map fun c => (Piece.char c).asRead

theorem map_asRead_ofString (s : String) : (s.toList.map .char).map asRead = spelling s := by
  simp [spelling]

theorem decode?_asRead_cons (c : Char) (ps : List Piece) :
    decode? ((Piece.char c).asRead :: ps) = (decode? ps).map (c :: ·) := by
  rw [asRead]
  split
  · next h =>
    -- No control character is half of a pair of units, so its unit stands alone.
    have hh : isHighHalf c.toNat = false := by
      simp only [isHighHalf, Bool.and_eq_false_iff, decide_eq_false_iff_not]
      omega
    have hl : isLowHalf c.toNat = false := by
      simp only [isLowHalf, Bool.and_eq_false_iff, decide_eq_false_iff_not]
      omega
    conv_lhs => unfold decode?
    simp [hh, hl]
  · rfl

theorem decode?_spelling (s : String) : decode? (spelling s) = some s.toList := by
  have h (cs : List Char) : decode? (cs.map fun c => (Piece.char c).asRead) = some cs := by
    induction cs with
    | nil => rfl
    | cons c cs ih => rw [List.map_cons, decode?_asRead_cons, ih, Option.map_some]
  exact h s.toList

end Piece

namespace Piece

theorem mem_escapes_of_escapeLetter {c l : Char} (h : escapeLetter? c = some l) : (l, c) ∈ escapes := by
  unfold escapeLetter? at h
  repeat' split at h
  all_goals cases h
  all_goals
    subst c
    decide

theorem isSpelled_hexDigits {n : Nat} (h : n < 0x10000) :
    (Piece.unit n).IsSpelled ('\\' :: 'u' :: Text.hexDigits 4 n) := by
  have hd (m : Nat) : Text.hexValue? (Nat.digitChar (m % 16)) = some (m % 16) :=
    Text.hexValue?_digitChar _ (Nat.mod_lt _ (by decide))
  have hn : 16 * (16 * (16 * (n / 16 / 16 / 16 % 16) + n / 16 / 16 % 16) + n / 16 % 16) + n % 16 = n := by omega
  have hu := IsSpelled.unit (hd (n / 16 / 16 / 16)) (hd (n / 16 / 16)) (hd (n / 16)) (hd n)
  rw [hn] at hu
  simpa [Text.hexDigits] using hu

theorem isSpelled_chars {p : Piece} (h : p.FitsEscape) : p.asRead.IsSpelled p.chars := by
  cases p with
  | unit n => exact isSpelled_hexDigits h
  | char c =>
    cases hl : escapeLetter? c with
    | some l =>
      simp only [chars, asRead, hl]
      exact .escaped (mem_escapes_of_escapeLetter hl)
    | none =>
      by_cases hc : c.toNat < 0x20
      · simp only [chars, asRead, hl, hc, if_true, and_self]
        exact isSpelled_hexDigits (Nat.lt_trans hc (by decide))
      · have hq : c ≠ '"' := by rintro rfl; cases hl
        have hb : c ≠ '\\' := by rintro rfl; cases hl
        simp only [chars, asRead, hl, hc, if_false, and_false]
        exact .plain hq hb (Nat.le_of_not_lt hc)

theorem areSpelled_chars {ps : List Piece} (h : ∀ p ∈ ps, p.FitsEscape) :
    AreSpelled (ps.map asRead) (ps.flatMap chars) := by
  induction ps with
  | nil => exact .nil
  | cons p ps ih =>
    rw [List.forall_mem_cons] at h
    exact .cons (isSpelled_chars h.1) (ih h.2)

end Piece

theorem Token.isSpelled_string {ps : List Piece} (h : ∀ p ∈ ps, p.FitsEscape) :
    (Token.string (ps.map Piece.asRead)).IsSpelled (Token.string ps).chars :=
  .string (Piece.areSpelled_chars h)

/-! ## Integers -/

theorem eq_nil_of_toDigits {n : Nat} {ds : List Char} (h : Nat.toDigits 10 n = '0' :: ds) : ds = [] := by
  induction n using Nat.strongRecOn generalizing ds with
  | ind n ih =>
    -- The first digit of a long numeral is that of the numeral without its last digit.
    rcases Nat.lt_or_ge n 10 with hn | hn
    · rw [Nat.toDigits_of_lt_base hn] at h
      exact (List.cons.inj h).2.symm
    · obtain ⟨d, ds', he⟩ := List.exists_cons_of_ne_nil (Nat.toDigits_ne_nil (n := n / 10) (b := 10))
      rw [Nat.toDigits_of_base_le (by decide) hn, he, List.cons_append, List.cons.injEq] at h
      rw [h.1] at he
      have h0 : n / 10 = 0 := by
        rw [← Nat.ofDigitChars_ten_toDigits (n := n / 10), he, ih (n / 10) (by omega) he]
        rfl
      omega

theorem exists_toDigits (n : Nat) :
    ∃ d ds, Nat.toDigits 10 n = d :: ds ∧ d.isDigit ∧ (∀ c ∈ ds, c.isDigit) ∧ (d = '0' → ds = []) := by
  obtain ⟨d, ds, he⟩ := List.exists_cons_of_ne_nil (Nat.toDigits_ne_nil (n := n) (b := 10))
  have h : ∀ c ∈ Nat.toDigits 10 n, c.isDigit := fun c => Nat.isDigit_of_mem_toDigits (by decide) (by decide)
  rw [he, List.forall_mem_cons] at h
  exact ⟨d, ds, he, h.1, h.2, fun h0 => eq_nil_of_toDigits (h0 ▸ he)⟩

theorem Token.chars_ofInt (n : Int) :
    (Token.number (.ofInt n)).chars = (if n < 0 then ['-'] else []) ++ Nat.toDigits 10 n.natAbs := by
  change (Numeral.ofInt n).chars = _
  simp [Numeral.chars, Numeral.ofInt]

theorem Numeral.isWhole_toDigits (n : Nat) : IsWhole (Nat.toDigits 10 n) := by
  obtain ⟨d, ds, he, hd, hds, hz⟩ := exists_toDigits n
  rw [he]
  by_cases h0 : d = '0'
  · rw [h0, hz h0]
    exact .zero
  · exact .digits hd h0 hds

theorem Token.isSpelled_ofInt (n : Int) : (Token.number (.ofInt n)).IsSpelled (Token.number (.ofInt n)).chars := by
  have h := Numeral.IsSpelled.mk (decide (n < 0)) (Numeral.isWhole_toDigits n.natAbs) .none .none
  rw [chars_ofInt]
  simp only [List.append_nil, decide_eq_true_eq] at h
  exact .number h

/-- An integer keeps its value when 64 bits hold it, with a sign if it is negative and without one if it is not. -/
theorem value?_ofInt {n : Int} (hl : Int64.minValue.toInt ≤ n) (hh : n < UInt64.size) :
    (Numeral.ofInt n).value? = some (.integer n) := by
  have hv : Numeral.digitsValue (Nat.toDigits 10 n.natAbs) = n.natAbs := Nat.ofDigitChars_ten_toDigits
  by_cases hn : n < 0
  · have hs : 0 < n.natAbs ∧ Int64.minValue.toInt ≤ -(n.natAbs : Int) := by omega
    have he : -(n.natAbs : Int) = n := by omega
    simp only [Numeral.value?, Numeral.ofInt, hv, hn]
    rw [if_neg (by simp), if_pos (by simpa using hs), he]
  · have hs : n.natAbs < UInt64.size := by omega
    have he : (n.natAbs : Int) = n := by omega
    simp only [Numeral.value?, Numeral.ofInt, hv, hn]
    rw [if_pos (by simpa using hs), he]

end Json

end ExtentLedger
