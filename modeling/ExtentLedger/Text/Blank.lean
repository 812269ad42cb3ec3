import ExtentLedger.Text.CharSet

/-!
# Blank text

A text is blank when it holds nothing but white space: the characters of the Unicode property White_Space, 25 of them,
unchanged since version 6.3. The zero-width space and the byte order mark are not among them.
-/

namespace ExtentLedger

namespace Text

def whiteSpace : CharSet where
  ranges := [
    (0x09, 0x0D), (0x20, 0x20), (0x85, 0x85), (0xA0, 0xA0), (0x1680, 0x1680), (0x2000, 0x200A),
    (0x2028, 0x2029), (0x202F, 0x202F), (0x205F, 0x205F), (0x3000, 0x3000)
  ]

def isWhiteSpace (c : Char) : Bool := whiteSpace.contains c

def isBlank (s : String) : Bool := s.toList.all isWhiteSpace

/-- The table adds to the four characters that every notion of white space has. -/
theorem isWhiteSpace_of_isWhitespace {c : Char} (h : c.isWhitespace) : isWhiteSpace c := by
  simp only [Char.isWhitespace, Bool.or_eq_true, decide_eq_true_eq] at h
  rcases h with ((h | h) | h) | h <;> subst h <;> decide

example : whiteSpace.isApart = true ∧ whiteSpace.size = 25 := by decide

example : isBlank " \u3000\t" = true ∧ isBlank "\u200b" = false := by decide +kernel

end Text

end ExtentLedger
