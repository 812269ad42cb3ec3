import ExtentLedger.Text.CharSet

/-!
# Ignorable characters

The Unicode property Default_Ignorable_Code_Point as of version 17: characters that show nothing where they are not
supported. Some of them are letters, such as the fillers of Hangul syllables. None of them is ASCII.
-/

namespace ExtentLedger

namespace Text

def defaultIgnorable : CharSet where
  ranges := [
    (0xAD, 0xAD), (0x34F, 0x34F), (0x61C, 0x61C), (0x115F, 0x1160), (0x17B4, 0x17B5), (0x180B, 0x180F),
    (0x200B, 0x200F), (0x202A, 0x202E), (0x2060, 0x206F), (0x3164, 0x3164), (0xFE00, 0xFE0F), (0xFEFF, 0xFEFF),
    (0xFFA0, 0xFFA0), (0xFFF0, 0xFFF8), (0x1BCA0, 0x1BCA3), (0x1D173, 0x1D17A), (0xE0000, 0xE0FFF)
  ]

def isIgnorable (c : Char) : Bool := defaultIgnorable.contains c

theorem isIgnorable_eq_false {c : Char} (h : c.toNat ≤ 0x7E) : isIgnorable c = false :=
  CharSet.contains_eq_false (a := 0) (by decide +kernel) (Nat.zero_le _) h

example : defaultIgnorable.isApart = true ∧ defaultIgnorable.size = 4174 := by decide +kernel

end Text

end ExtentLedger
