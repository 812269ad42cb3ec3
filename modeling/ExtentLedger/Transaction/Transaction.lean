import ExtentLedger.Text.Quoted
import ExtentLedger.Transaction.Ledger
import ExtentLedger.Transaction.TransactionId

/-!
# Transactions

A transaction has an identifier and a bag of named properties, which lives as long as the transaction does. A property
has a value of one kind, and it is seen only by those who ask for that kind. The ledger is such a property: it is
attached when something is noted for the first time.
-/

namespace ExtentLedger

inductive PropertyKind
  | integer
  | text
  | texts
  | mark
  | ledger
deriving DecidableEq, Repr

abbrev PropertyKind.Value (K : Type) : PropertyKind → Type
  | .integer => Int64
  | .text => String
  | .texts => List String
  | .mark => Unit
  | .ledger => Ledger K

structure Property (K : Type) where
  kind : PropertyKind
  value : kind.Value K

def Property.as? {K : Type} (kind : PropertyKind) (p : Property K) : Option (kind.Value K) :=
  if h : p.kind = kind then some (h ▸ p.value) else none

structure Transaction (K : Type) where
  id : TransactionId
  properties : Std.ExtTreeMap String (Property K)

namespace Transaction

variable {K : Type}

def start (id : TransactionId) : Transaction K := ⟨id, ∅⟩

def contains (t : Transaction K) (key : String) : Bool := t.properties.contains key

def get? (t : Transaction K) (kind : PropertyKind) (key : String) : Option (kind.Value K) :=
  t.properties[key]?.bind (Property.as? kind)

def set (t : Transaction K) (kind : PropertyKind) (key : String) (value : kind.Value K) : Transaction K :=
  { t with properties := t.properties.insert key ⟨kind, value⟩ }

/-- Changes the property of this kind; the new value, if there was one. -/
def modify? (t : Transaction K) (kind : PropertyKind) (key : String) (f : kind.Value K → kind.Value K) :
    Option (kind.Value K × Transaction K) :=
  (t.get? kind key).map fun v => (f v, t.set kind key (f v))

/-- The property of this kind, set to `value` if there is none; a property of another kind is in the way. -/
def getOrSet (t : Transaction K) (kind : PropertyKind) (key : String) (value : kind.Value K) :
    Except Fault (kind.Value K × Transaction K) :=
  match t.properties[key]? with
  | none => .ok (value, t.set kind key value)
  | some p =>
    match p.as? kind with
    | some v => .ok (v, t)
    | none => .error (.config ("transaction property '" ++ key ++ "' holds a value of another type"))

def remove (t : Transaction K) (key : String) : Transaction K := { t with properties := t.properties.erase key }

def size (t : Transaction K) : Nat := t.properties.size

def text (t : Transaction K) : String :=
  "TransactionContext \x7b id: TransactionId(" ++ t.id.hyphenated ++ "), properties: " ++
    Text.bracketed (t.properties.keys.map Text.quoted) ++ " \x7d"

/-! ## The ledger -/

def ledgerKey : String := "dirtyregion.store"

def ledger? (t : Transaction K) : Option (Ledger K) := t.get? .ledger ledgerKey

def setLedger (t : Transaction K) (l : Ledger K) : Transaction K := t.set .ledger ledgerKey l

def attach (t : Transaction K) : Except Fault (Ledger K × Transaction K) := t.getOrSet .ledger ledgerKey .blank

def openPage (t : Transaction K) (scope : String) : Except Fault (Page K × Transaction K) := do
  let (l, t) ← t.attach
  return (l.page scope, t.setLedger (l.setPage scope (l.page scope)))

/-- Notes an extent for some entities. A page that was dispatched refuses the first of them, so nothing is noted by
halves. -/
def note (t : Transaction K) (scope : String) (entities : List Entity) (e : Extent K) :
    Except Fault (Transaction K) := do
  let (l, t) ← t.attach
  let p ← (l.page scope).appendAll entities e
  return t.setLedger (l.setPage scope p)

def takePage? (t : Transaction K) (scope : String) : Option (Regions K × Transaction K) := do
  let l ← t.ledger?
  let p ← l.page? scope
  return (p.take.1, t.setLedger (l.setPage scope p.take.2))

end Transaction

end ExtentLedger
