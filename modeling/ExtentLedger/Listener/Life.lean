import ExtentLedger.Listener.Host
import ExtentLedger.Observer.Course
import ExtentLedger.Transaction.LedgerStep

/-!
# The life of a transaction

A transaction is in the hands of observers, which are told of changes and of its end as often as the host likes, and of
the host, which may use the ledger itself. Whatever else happens in the meantime, in the transaction, in other ones or to
the collaborators, leaves the property of the ledger as it is.
-/

namespace ExtentLedger

variable {κ σ K : Type}

/-- Anything that does not touch the property of the ledger. -/
structure Aside (σ K : Type) where
  run : Scene σ K → Scene σ K
  keeps : ∀ s, (run s).1.properties[Transaction.ledgerKey]? = s.1.properties[Transaction.ledgerKey]?

def Aside.set (kind : PropertyKind) (key : String) (value : kind.Value K) (hk : key ≠ Transaction.ledgerKey) :
    Aside σ K where
  run := fun (t, w) => (t.set kind key value, w)
  keeps := fun (t, _) => by simp [Transaction.set, Std.ExtTreeMap.getElem?_insert, hk]

inductive Turn (κ σ K : Type)
  | tell (k : κ) (hook : Hook σ K)
  | aside (a : Aside σ K)

/-- A turn, or a step of the host on the ledger. -/
inductive Deed (κ σ K : Type)
  | turn (x : Turn κ σ K)
  | step (s : LedgerStep K)

/-! ## Capabilities -/

inductive Capability
  | affected
  | records
  | target
  | merge
  | handle
deriving DecidableEq, Repr

def Capability.isForCommit : Capability → Bool
  | affected | records => false
  | target | merge | handle => true

def Call.capability : Call K → Capability
  | affected .. => .affected
  | records _ => .records
  | target .. => .target
  | merge .. => .merge
  | handle .. => .handle

/-! ## Steps on the ledger -/

def Contribution.ledgerSteps (scope : String) (c : Contribution K) : List (LedgerStep K) :=
  .openPage scope :: c.entities.toList.map fun entity => .append scope entity c.extent

def Observer.ledgerSteps (o : Observer σ K) (w : σ) : Hook σ K → List (LedgerStep K)
  | .change c => (o.hear c w).1.contribution?.elim [] fun d => d.ledgerSteps o.config.scope
  | .finish committed => if committed then [.take o.config.scope] else []

variable [Journal σ K] (os : κ → Observer σ K)

namespace Turn

def run : Turn κ σ K → Scene σ K → Scene σ K
  | tell k hook, s => ((os k).told hook s).2
  | aside a, s => a.run s

def calls : Turn κ σ K → Scene σ K → List (Call K)
  | tell k hook, (t, w) => ((os k).traced.told hook.traced (t, ([], w))).2.2.1
  | aside _, _ => []

def report : Turn κ σ K → Scene σ K → Option DispatchReport
  | tell k hook, s => ((os k).told hook s).1
  | aside _, _ => none

theorem run_change (k : κ) (c : Change σ K) (s : Scene σ K) : (tell k (.change c)).run os s = (os k).onChange c s := rfl

theorem run_finish (k : κ) (committed : Bool) (s : Scene σ K) :
    (tell k (.finish committed)).run os s = ((os k).onEnd committed s).2 := rfl

end Turn

namespace Deed

def run : Deed κ σ K → Scene σ K → Scene σ K
  | turn x, s => x.run os s
  | step s, (t, w) => ((s.perform t).2, w)

omit [Journal σ K] in
def ledgerSteps : Deed κ σ K → Scene σ K → List (LedgerStep K)
  | turn (.tell k hook), (_, w) => (os k).ledgerSteps w hook
  | turn (.aside _), _ => []
  | step s, _ => [s]

end Deed

end ExtentLedger
