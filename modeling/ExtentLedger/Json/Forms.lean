import ExtentLedger.Change.Operation
import ExtentLedger.Json.Decoding
import ExtentLedger.ReferenceSystem
import ExtentLedger.Transaction.Ledger

/-!
# JSON forms of the small types

Operations go by their words, entities are strings, and a reference system is an object whose member `kind` says which
of the two kinds it is. The members of a reference system may come in any order and others are passed over; it may also
be an array that starts with its kind.
-/

namespace ExtentLedger

open Json

def Operation.toTree (op : Operation) : Tree := .ofString op.word

def Operation.decoder : Decoder Operation := .oneOf (Operation.all.map fun op => (op.word, op))

def Entity.toTree (e : Entity) : Tree := .ofString e

def Entity.decoder : Decoder Entity := .string "a string"

namespace ReferenceSystem

inductive Kind
  | horizontal
  | compound
deriving DecidableEq, Repr

namespace Kind

def word : Kind → String
  | .horizontal => "horizontal"
  | .compound => "compound"

def title : Kind → String
  | .horizontal => "Horizontal"
  | .compound => "Compound"

def fields : Kind → List String
  | .horizontal => ["code"]
  | .compound => ["code", "horizontal", "vertical"]

def named (name : String) : Except DecodeError Kind :=
  Decoder.named ([Kind.horizontal, .compound].map fun k => (k.word, k)) name

def decoder : Decoder Kind := fun t => do named (← Decoder.string "variant identifier" t)

def build : Kind → List String → Option ReferenceSystem
  | .horizontal, [c] => some (.horizontal c)
  | .compound, [c, h, v] => some (.compound c h v)
  | _, _ => none

/-- How a decoding error names the fields that the kind wants in an array. -/
def arrayShape (k : Kind) : String :=
  let count := k.fields.length
  "struct variant ReferenceSystem::" ++ k.title ++ " with " ++ toString count ++
    (if count = 1 then " element" else " elements")

end Kind

def toTree : ReferenceSystem → Tree
  | .horizontal c => .ofMembers [("kind", .ofString "horizontal"), ("code", .ofString c)]
  | .compound c h v =>
    .ofMembers
      [("kind", .ofString "compound"), ("code", .ofString c), ("horizontal", .ofString h), ("vertical", .ofString v)]

/-- Containers are nested at most this deep, the outermost one not counted. -/
def maxDepth : Nat := 126

/-- The kind and the other members, all of which have to be readable whether they are wanted or not. -/
def split : Option Kind → List (List Piece × Tree) → Except DecodeError (Option Kind × List (String × Tree))
  | kind, [] => .ok (kind, [])
  | kind, (name, v) :: ms => do
    let name ← Decoder.pieces name
    if name = "kind" then
      if kind.isSome then .error (.duplicateField "kind")
      else
        let k ← Kind.decoder v
        split (some k) ms
    else if v.isReadable maxDepth then
      let (kind, rest) ← split kind ms
      .ok (kind, (name, v) :: rest)
    else .error .malformed

/-- The texts of the wanted fields in the order of `members`; no field may come twice. -/
def collect (fields : List String) : List (String × String) → List (String × Tree) →
    Except DecodeError (List (String × String))
  | found, [] => .ok found
  | found, (name, v) :: ms =>
    if name ∈ fields then
      if (found.lookup name).isSome then .error (.duplicateField name)
      else do
        let s ← Decoder.string "a string" v
        collect fields (found ++ [(name, s)]) ms
    else collect fields found ms

def pick (found : List (String × String)) (fields : List String) : Except DecodeError (List String) :=
  fields.mapM fun name =>
    match found.lookup name with
    | some s => .ok s
    | none => .error (.missingField name)

def ofMembers (members : List (List Piece × Tree)) (stray : Option Tree) : Except DecodeError ReferenceSystem := do
  let (kind, rest) ← split none members
  if stray.isSome then .error .malformed
  else
    match kind with
    | none => .error (.missingField "kind")
    | some kind =>
      let texts ← pick (← collect kind.fields [] rest) kind.fields
      match kind.build texts with
      | some r => .ok r
      | none => .error .malformed

/-- The texts of an array, one for each field; `length` of them have been read. -/
def itemTexts (kind : Kind) : Nat → List String → List Tree → Except DecodeError (List String)
  | _, [], [] => .ok []
  | length, [], items =>
    .error (.invalidLength (length + items.length)
      (toString length ++ (if length = 1 then " element" else " elements") ++ " in sequence"))
  | length, _ :: _, [] => .error (.invalidLength length kind.arrayShape)
  | length, _ :: fields, v :: items => do
    let s ← Decoder.string "a string" v
    let rest ← itemTexts kind (length + 1) fields items
    .ok (s :: rest)

def ofItems (items : List Tree) (closed : Bool) : Except DecodeError ReferenceSystem :=
  match items with
  | [] => .error (if closed then .missingField "kind" else .malformed)
  | v :: items => do
    let kind ← Kind.decoder v
    if Tree.itemsReadable maxDepth items ∧ closed then
      match kind.build (← itemTexts kind 0 kind.fields items) with
      | some r => .ok r
      | none => .error .malformed
    else .error .malformed

def decoder : Decoder ReferenceSystem
  | .object members stray => ofMembers members stray
  | .array items closed => ofItems items closed
  | t => Decoder.mismatch t "internally tagged enum ReferenceSystem"

end ReferenceSystem

end ExtentLedger
