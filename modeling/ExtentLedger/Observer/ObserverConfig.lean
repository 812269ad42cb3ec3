import ExtentLedger.Change.Operation
import ExtentLedger.Fault
import ExtentLedger.Geometry.Boundary
import ExtentLedger.Text.Blank
import ExtentLedger.Text.Quoted

/-!
# Configuration of an observer

The scope that keeps an observer's regions apart from those of others, the operations it reacts to, how many samples a
reprojection may take, and its priority among the listeners.
-/

namespace ExtentLedger

structure ObserverConfig where
  scope : String
  operations : OperationSet
  budget : UInt64
  priority : Int32
deriving DecidableEq

namespace ObserverConfig

/-- Reacts to every operation that can move an extent. -/
def defaultOperations : OperationSet := .ofList [Operation.insert, Operation.update, Operation.delete]

def defaultBudget : UInt64 := .ofNat Boundary.defaultBudget

def ofScope (scope : String) : ObserverConfig := ⟨scope, defaultOperations, defaultBudget, 0⟩

def handles (c : ObserverConfig) (op : Operation) : Bool := op.changesExtent && c.operations.contains op

inductive Defect
  | blankScope
  | budgetTooSmall (budget : UInt64)
  | budgetTooLarge (budget : UInt64)
deriving DecidableEq, Repr

def Defect.message : Defect → String
  | .blankScope => "namespace must not be empty"
  | .budgetTooSmall n => "densify_points must be at least 4, got " ++ toString n.toNat
  | .budgetTooLarge n =>
    "densify_points must be at most " ++ toString Boundary.maxBudget ++ ", got " ++ toString n.toNat

/-- The first defect, if there is one. A budget has to allow one sample for each side. -/
def defect? (c : ObserverConfig) : Option Defect :=
  if Text.isBlank c.scope then some .blankScope
  else if c.budget.toNat < 4 then some (.budgetTooSmall c.budget)
  else if Boundary.maxBudget < c.budget.toNat then some (.budgetTooLarge c.budget)
  else none

def validate (c : ObserverConfig) : Except Fault Unit :=
  match c.defect? with
  | some d => .error (.config d.message)
  | none => .ok ()

def text (c : ObserverConfig) : String :=
  "ObserverConfig \x7b namespace: " ++ Text.quoted c.scope ++
    ", operations: \x7b" ++ ", ".intercalate (c.operations.toList.map Operation.title) ++ "\x7d" ++
    ", densify_points: " ++ toString c.budget.toNat ++ ", priority: " ++ toString c.priority.toInt ++ " \x7d"

end ObserverConfig

end ExtentLedger
