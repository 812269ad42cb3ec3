import ExtentLedger.Text.Hexadecimal

/-!
# Transaction identifiers

128 bits, written as 32 hexadecimal digits with or without hyphens between groups of them.
-/

namespace ExtentLedger

structure TransactionId where
  bits : BitVec 128
deriving DecidableEq, Repr

namespace TransactionId

def digits (t : TransactionId) : List Char := Text.hexDigits 32 t.bits.toNat

def groupLengths : List Nat := [8, 4, 4, 4, 12]

def groups : List Nat → List Char → List (List Char)
  | [], _ => []
  | n :: ns, cs => cs.take n :: groups ns (cs.drop n)

def hyphenated (t : TransactionId) : String :=
  "-".intercalate ((groups groupLengths t.digits).map String.ofList)

def text (t : TransactionId) : String := "txn-" ++ String.ofList t.digits

def ofDigits? (ds : List Char) : Option TransactionId := do
  let values ← ds.mapM Text.hexValue?
  if values.length = 32 then some ⟨.ofNat 128 (values.foldl (fun n d => 16 * n + d) 0)⟩ else none

def ungroup? : List Nat → List Char → Option (List Char)
  | [], cs => if cs.isEmpty then some [] else none
  | [n], cs => if cs.length = n then some cs else none
  | n :: ns, cs =>
    match cs.drop n with
    | '-' :: rest => (ungroup? ns rest).map (cs.take n ++ ·)
    | _ => none

def ofHyphenated? (cs : List Char) : Option TransactionId := (ungroup? groupLengths cs).bind ofDigits?

/-- The name space of identifiers among uniform resource names. -/
def scheme : List Char := "urn:uuid:".toList

/-- Reads 32 digits, or their groups with hyphens. The groups may stand in braces or behind the scheme, whose letters
may be of either case. -/
def ofText? (s : String) : Option TransactionId :=
  match s.toList with
  | '\x7b' :: cs => if cs.getLast? = some '\x7d' then ofHyphenated? cs.dropLast else none
  | cs =>
    if (cs.take scheme.length).map Char.toLower = scheme then ofHyphenated? (cs.drop scheme.length)
    else (ofHyphenated? cs).or (ofDigits? cs)

end TransactionId

end ExtentLedger
