import ExtentLedger.Json.Numeral
import ExtentLedger.Text.Hexadecimal

/-!
# Tokens of JSON texts

A text is read character by character. Each character either completes tokens or changes what is being read; the first
place where no token can be read becomes a broken token, and nothing after it is read. Strings are kept as they are
written, since a string that is passed over may hold escapes that stand for no character.
-/

namespace ExtentLedger

namespace Json

/-- A part of a string: a character, or an escape of a 16-bit unit. -/
inductive Piece
  | char (c : Char)
  | unit (n : Nat)
deriving DecidableEq, Repr

namespace Piece

def isHighHalf (n : Nat) : Bool := 0xD800 ≤ n && n < 0xDC00

def isLowHalf (n : Nat) : Bool := 0xDC00 ≤ n && n < 0xE000

/-- The characters of a string; a half of a pair of units needs its other half behind or before it. -/
def decode? : List Piece → Option (List Char)
  | [] => some []
  | .char c :: ps => (decode? ps).map (c :: ·)
  | .unit n :: ps =>
    if isHighHalf n then
      match ps with
      | .unit m :: ps =>
        if isLowHalf m then
          (decode? ps).map (Char.ofNat (0x10000 + (n - 0xD800) * 0x400 + (m - 0xDC00)) :: ·)
        else none
      | _ => none
    else if isLowHalf n then none
    else (decode? ps).map (Char.ofNat n :: ·)

end Piece

inductive Token
  | openBrace
  | closeBrace
  | openBracket
  | closeBracket
  | colon
  | comma
  | null
  | boolean (b : Bool)
  | number (n : Numeral)
  | string (pieces : List Piece)
  | broken
deriving DecidableEq, Repr

/-! ## Writing -/

def escapeLetter? (c : Char) : Option Char :=
  if c = '"' then some '"'
  else if c = '\\' then some '\\'
  else if c = '\x08' then some 'b'
  else if c = '\x0c' then some 'f'
  else if c = '\n' then some 'n'
  else if c = '\r' then some 'r'
  else if c = '\t' then some 't'
  else none

/-- A piece as it is written: control characters are escaped. -/
def Piece.chars : Piece → List Char
  | .char c =>
    match escapeLetter? c with
    | some l => ['\\', l]
    | none => if c.toNat < 0x20 then '\\' :: 'u' :: Text.hexDigits 4 c.toNat else [c]
  | .unit n => '\\' :: 'u' :: Text.hexDigits 4 n

def Token.chars : Token → List Char
  | .openBrace => ['\x7b']
  | .closeBrace => ['\x7d']
  | .openBracket => ['[']
  | .closeBracket => [']']
  | .colon => [':']
  | .comma => [',']
  | .null => "null".toList
  | .boolean true => "true".toList
  | .boolean false => "false".toList
  | .number n => n.chars
  | .string pieces => '"' :: pieces.flatMap Piece.chars ++ ['"']
  | .broken => []

/-! ## Reading -/

inductive NumeralStage
  | sign
  | zero
  | whole
  | point
  | fraction
  | mark
  | markSign
  | power
deriving DecidableEq, Repr

def NumeralStage.isComplete : NumeralStage → Bool
  | .zero | .whole | .fraction | .power => true
  | _ => false

/-- May the numeral end before a character that does not extend it? A zero in front of digits may not. -/
def NumeralStage.endsBefore (stage : NumeralStage) (c : Char) : Bool :=
  stage.isComplete && !(stage = .zero && c.isDigit)

inductive Reading
  | between
  /-- A word, of which some letters are still to come. -/
  | word (rest : List Char) (token : Token)
  /-- A string, its last piece first. -/
  | string (pieces : List Piece)
  | escape (pieces : List Piece)
  /-- A unit in hexadecimal digits, of which some are still to come. -/
  | unit (pieces : List Piece) (missing : Nat) (value : Nat)
  | numeral (stage : NumeralStage) (n : Numeral)
  | stopped
deriving DecidableEq, Repr

namespace Reading

def isSpace (c : Char) : Bool := c = ' ' || c = '\n' || c = '\t' || c = '\r'

/-- The numeral and its stage after one more character, if it goes on. -/
def extend? (stage : NumeralStage) (n : Numeral) (c : Char) : Option (NumeralStage × Numeral) :=
  let addWhole : Numeral := { n with whole := n.whole ++ [c] }
  let addFraction : Numeral := { n with fraction := n.fraction ++ [c] }
  let addPower : Numeral :=
    { n with exponent := n.exponent.map fun (negative, digits) => (negative, digits ++ [c]) }
  let atMark := c = 'e' || c = 'E'
  match stage with
  | .sign =>
    if c = '0' then some (.zero, addWhole) else if c.isDigit then some (.whole, addWhole) else none
  | .zero =>
    if c = '.' then some (.point, n)
    else if atMark then some (.mark, { n with exponent := some (false, []) })
    else none
  | .whole =>
    if c.isDigit then some (.whole, addWhole)
    else if c = '.' then some (.point, n)
    else if atMark then some (.mark, { n with exponent := some (false, []) })
    else none
  | .point => if c.isDigit then some (.fraction, addFraction) else none
  | .fraction =>
    if c.isDigit then some (.fraction, addFraction)
    else if atMark then some (.mark, { n with exponent := some (false, []) })
    else none
  | .mark =>
    if c = '+' then some (.markSign, n)
    else if c = '-' then some (.markSign, { n with exponent := some (true, []) })
    else if c.isDigit then some (.power, addPower)
    else none
  | .markSign | .power => if c.isDigit then some (.power, addPower) else none

def stop : List Token × Reading := ([.broken], .stopped)

def begin (c : Char) : List Token × Reading :=
  if isSpace c then ([], .between)
  else if c = '\x7b' then ([.openBrace], .between)
  else if c = '\x7d' then ([.closeBrace], .between)
  else if c = '[' then ([.openBracket], .between)
  else if c = ']' then ([.closeBracket], .between)
  else if c = ':' then ([.colon], .between)
  else if c = ',' then ([.comma], .between)
  else if c = 'n' then ([], .word "ull".toList .null)
  else if c = 't' then ([], .word "rue".toList (.boolean true))
  else if c = 'f' then ([], .word "alse".toList (.boolean false))
  else if c = '"' then ([], .string [])
  else if c = '-' then ([], .numeral .sign ⟨true, [], [], none⟩)
  else
    match extend? .sign ⟨false, [], [], none⟩ c with
    | some (stage, n) => ([], .numeral stage n)
    | none => stop

def escaped? (c : Char) : Option Char :=
  if c = '"' ∨ c = '\\' ∨ c = '/' then some c
  else if c = 'b' then some '\x08'
  else if c = 'f' then some '\x0c'
  else if c = 'n' then some '\n'
  else if c = 'r' then some '\r'
  else if c = 't' then some '\t'
  else none

/-- The tokens that a character completes, and what is being read after it. -/
def step : Reading → Char → List Token × Reading
  | .between, c => begin c
  | .word rest token, c =>
    match rest with
    | [] => stop
    | [r] => if c = r then ([token], .between) else stop
    | r :: rs => if c = r then ([], .word rs token) else stop
  | .string ps, c =>
    if c = '"' then ([.string ps.reverse], .between)
    else if c = '\\' then ([], .escape ps)
    else if c.toNat < 0x20 then stop
    else ([], .string (.char c :: ps))
  | .escape ps, c =>
    if c = 'u' then ([], .unit ps 4 0)
    else
      match escaped? c with
      | some d => ([], .string (.char d :: ps))
      | none => stop
  | .unit ps missing value, c =>
    match Text.hexValue? c with
    | none => stop
    | some d =>
      if missing ≤ 1 then ([], .string (.unit (16 * value + d) :: ps))
      else ([], .unit ps (missing - 1) (16 * value + d))
  | .numeral stage n, c =>
    match extend? stage n c with
    | some (stage, n) => ([], .numeral stage n)
    | none =>
      if stage.endsBefore c then
        let (tokens, next) := begin c
        (.number n :: tokens, next)
      else stop
  | .stopped, _ => ([], .stopped)

def finish : Reading → List Token
  | .between | .stopped => []
  | .numeral stage n => if stage.isComplete then [.number n] else [.broken]
  | _ => [.broken]

def tokens : Reading → List Char → List Token
  | r, [] => r.finish
  | r, c :: cs =>
    let (ts, next) := r.step c
    ts ++ tokens next cs

end Reading

def Token.ofChars (cs : List Char) : List Token := Reading.tokens .between cs

end Json

end ExtentLedger
