import ExtentLedger.Text.GraphemeExtend
import ExtentLedger.Text.Ignorable
import ExtentLedger.Text.Printable

/-!
# Quoted text

How descriptions and decoding errors show a text: in double quotes, with a backslash before a quote and a backslash,
letters for the common control characters and the code point in braces for what would not show, or would not show
apart from its neighbour. Other characters stand for themselves.
-/

namespace ExtentLedger

namespace Text

/-- Does the character show, and apart from its neighbours? -/
def isVisible (c : Char) : Bool := isPrintable c && !isIgnorable c && !extendsGrapheme c

/-- Every ASCII character but the controls shows. -/
theorem isVisible_of_ascii {c : Char} (h : 0x20 ≤ c.toNat) (h' : c.toNat ≤ 0x7E) : isVisible c := by
  simp [isVisible, isPrintable_of_ascii h h', isIgnorable_eq_false h', extendsGrapheme_eq_false h']

def escape (c : Char) : List Char :=
  if c = '"' then ['\\', '"']
  else if c = '\\' then ['\\', '\\']
  else if c = '\n' then ['\\', 'n']
  else if c = '\r' then ['\\', 'r']
  else if c = '\t' then ['\\', 't']
  else if c = '\x00' then ['\\', '0']
  else if isVisible c then [c]
  else ['\\', 'u', '\x7b'] ++ Nat.toDigits 16 c.toNat ++ ['\x7d']

def quoted (s : String) : String :=
  String.ofList ('"' :: s.toList.flatMap escape ++ ['"'])

def bracketed (items : List String) : String :=
  "[" ++ ", ".intercalate items ++ "]"

example : quoted "e\u0301\u200b'" = "\"e\\u\x7b301\x7d\\u\x7b200b\x7d'\"" := by decide +kernel

end Text

end ExtentLedger
