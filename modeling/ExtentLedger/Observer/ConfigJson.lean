import ExtentLedger.Json.Forms
import ExtentLedger.Observer.ObserverConfig

/-!
# Configurations as JSON

A configuration is an object with the members `namespace`, `operations`, `densify_points` and `priority`, or an array
of them in this order; only the first is required. Other members are passed over, whatever well-formed value they have.
-/

namespace ExtentLedger

namespace ObserverConfig

open Json

def toTree (c : ObserverConfig) : Tree :=
  .ofMembers
    [("namespace", .ofString c.scope),
      ("operations", .ofItems (c.operations.toList.map Operation.toTree)),
      ("densify_points", .ofInt c.budget.toNat),
      ("priority", .ofInt c.priority.toInt)]

def toJson (c : ObserverConfig) : String := c.toTree.text

/-! ## Fields -/

def scopeField : Decoder String := .string "a string"

def operationsField : Decoder OperationSet := fun t =>
  (Decoder.listOf Operation.decoder t).map fun ops => Std.ExtTreeSet.ofList ops

def budgetField : Decoder UInt64 := fun t =>
  (Decoder.integer 0 (UInt64.size - 1 : Nat) "usize" t).map fun n => UInt64.ofNat n.toNat

def priorityField : Decoder Int32 := fun t =>
  (Decoder.integer Int32.minValue.toInt Int32.maxValue.toInt "i32" t).map Int32.ofInt

structure Draft where
  scope : Option String
  operations : Option OperationSet
  budget : Option UInt64
  priority : Option Int32

def Draft.blank : Draft := ⟨none, none, none, none⟩

/-- The configuration with these fields; what was left out is as in a new configuration. -/
def Draft.finish? (d : Draft) : Option ObserverConfig :=
  d.scope.map fun scope =>
    let c := ObserverConfig.ofScope scope
    ⟨scope, d.operations.getD c.operations, d.budget.getD c.budget, d.priority.getD c.priority⟩

def once {α : Type} (name : String) (earlier : Option α) (d : Decoder α) (v : Tree) : Except DecodeError (Option α) :=
  if earlier.isSome then .error (.duplicateField name) else (d v).map some

def Draft.add (d : Draft) (name : String) (v : Tree) : Except DecodeError Draft :=
  if name = "namespace" then do return { d with scope := ← once name d.scope scopeField v }
  else if name = "operations" then do return { d with operations := ← once name d.operations operationsField v }
  else if name = "densify_points" then do return { d with budget := ← once name d.budget budgetField v }
  else if name = "priority" then do return { d with priority := ← once name d.priority priorityField v }
  else if v.isIntact then .ok d
  else .error .malformed

def addAll : Draft → List (List Piece × Tree) → Except DecodeError Draft
  | d, [] => .ok d
  | d, (name, v) :: ms => do
    let name ← Decoder.pieces name
    let d ← d.add name v
    addAll d ms

def next {α : Type} (d : Decoder α) : List Tree → Except DecodeError (Option α × List Tree)
  | [] => .ok (none, [])
  | v :: vs => (d v).map fun a => (some a, vs)

def ofItems (items : List Tree) (closed : Bool) : Except DecodeError ObserverConfig := do
  let (scope, items) ← next scopeField items
  let (operations, items) ← next operationsField items
  let (budget, items) ← next budgetField items
  let (priority, items) ← next priorityField items
  if items.isEmpty ∧ closed then
    match Draft.finish? ⟨scope, operations, budget, priority⟩ with
    | some c => .ok c
    | none => .error (.invalidLength 0 "struct ObserverConfig with 4 elements")
  else .error .malformed

def decoder : Decoder ObserverConfig
  | .object members stray => do
    let d ← addAll .blank members
    if stray.isSome then .error .malformed
    else
      match d.finish? with
      | some c => .ok c
      | none => .error (.missingField "namespace")
  | .array items closed => ofItems items closed
  | t => Decoder.mismatch t "struct ObserverConfig"

def ofJson (s : String) : Except Fault ObserverConfig :=
  match decoder.run s with
  | .error e => .error (.config e.message)
  | .ok c => do
    c.validate
    return c

end ObserverConfig

end ExtentLedger
