import ExtentLedger.Json.Tree
import ExtentLedger.Text.Quoted

/-!
# Decoding

A decoder turns a tree into a value of the domain, or says what is wrong at the first place where something is. A place
where the text is not well formed is as much a fault as a value of the wrong kind, and whichever comes first is told.
-/

namespace ExtentLedger

namespace Json

inductive Found
  | null
  | boolean (b : Bool)
  | integer (n : Int)
  | double (x : Float)
  | string (s : String)
  | sequence
  | map
deriving Repr

def Found.text : Found → String
  | .null => "null"
  | .boolean true => "boolean `true`"
  | .boolean false => "boolean `false`"
  | .integer n => "integer `" ++ toString n ++ "`"
  | .double x => "floating point `" ++ Decimal.quoted x ++ "`"
  | .string s => "string " ++ Text.quoted s
  | .sequence => "sequence"
  | .map => "map"

inductive DecodeError
  | malformed
  | missingField (name : String)
  | duplicateField (name : String)
  | unknownVariant (name : String) (expected : List String)
  | invalidType (found : Found) (expected : String)
  | invalidValue (found : Found) (expected : String)
  | invalidLength (length : Nat) (expected : String)
deriving Repr

def alternatives (names : List String) : String :=
  match names.map fun n => "`" ++ n ++ "`" with
  | [a] => a
  | [a, b] => a ++ " or " ++ b
  | names => "one of " ++ ", ".intercalate names

def DecodeError.message : DecodeError → String
  | .malformed => "syntax"
  | .missingField n => "missing field `" ++ n ++ "`"
  | .duplicateField n => "duplicate field `" ++ n ++ "`"
  | .unknownVariant n names => "unknown variant `" ++ n ++ "`, expected " ++ alternatives names
  | .invalidType found expected => "invalid type: " ++ found.text ++ ", expected " ++ expected
  | .invalidValue found expected => "invalid value: " ++ found.text ++ ", expected " ++ expected
  | .invalidLength n expected => "invalid length " ++ toString n ++ ", expected " ++ expected

abbrev Decoder (α : Type) := Tree → Except DecodeError α

namespace Decoder

variable {α : Type}

def pieces (ps : List Piece) : Except DecodeError String :=
  match Piece.decode? ps with
  | some cs => .ok (String.ofList cs)
  | none => .error .malformed

/-- Complains of a value of the wrong kind, if it can be told of what kind it is. -/
def mismatch (t : Tree) (expected : String) : Except DecodeError α := do
  let found ← match t with
    | .null => .ok .null
    | .boolean b => .ok (.boolean b)
    | .number n =>
      match n.value? with
      | some (.integer n) => .ok (.integer n)
      | some (.double x) => .ok (.double x)
      | none => .error .malformed
    | .string ps => (pieces ps).map .string
    | .array .. => .ok .sequence
    | .object .. => .ok .map
    | .broken => .error .malformed
  .error (.invalidType found expected)

def string (expected : String) : Decoder String
  | .string ps => pieces ps
  | t => mismatch t expected

def integer (low high : Int) (expected : String) : Decoder Int
  | .number n =>
    match n.value? with
    | some (.integer n) =>
      if low ≤ n ∧ n ≤ high then .ok n else .error (.invalidValue (.integer n) expected)
    | _ => mismatch (.number n) expected
  | t => mismatch t expected

def null : Decoder Unit
  | .null => .ok ()
  | t => mismatch t "unit"

def named (variants : List (String × α)) (name : String) : Except DecodeError α :=
  match variants.lookup name with
  | some a => .ok a
  | none => .error (.unknownVariant name (variants.map Prod.fst))

/-- One of some values that go by names. The name stands alone, or it is the only member of an object with a null behind
it. -/
def oneOf (variants : List (String × α)) : Decoder α
  | .string ps => do named variants (← pieces ps)
  | .object ((name, v) :: rest) stray => do
    let a ← named variants (← pieces name)
    null v
    if rest.isEmpty ∧ stray.isNone then .ok a else .error .malformed
  | _ => .error .malformed

def listOf (item : Decoder α) : Decoder (List α)
  | .array items closed => do
    let values ← items.mapM item
    if closed then .ok values else .error .malformed
  | t => mismatch t "a sequence"

/-- The value of a whole text, with nothing but spaces behind it. -/
def run (d : Decoder α) (s : String) : Except DecodeError α := do
  let (t, rest) := Tree.ofTokens (Token.ofChars s.toList)
  let a ← d t
  if rest.isEmpty then .ok a else .error .malformed

end Decoder

end Json

end ExtentLedger
