import ExtentLedger.Transaction.Transaction

/-!
# Single steps on a ledger

A ledger is attached to a transaction, a page of it is opened, an extent is appended for one entity, a page is taken.
Each of these is a step that leaves a transaction behind even when it is refused. Of several steps none is performed
after the first that is refused, and what was done before it stays done.
-/

namespace ExtentLedger

inductive LedgerStep (K : Type)
  | attach
  | openPage (scope : String)
  | append (scope : String) (entity : Entity) (extent : Extent K)
  | take (scope : String)

inductive LedgerAnswer (K : Type)
  | done
  | taken (regions : Regions K)
  /-- There was no page to take. -/
  | absent
  | refused (fault : Fault)

variable {K : Type}

def LedgerAnswer.isRefused : LedgerAnswer K → Bool
  | refused _ => true
  | _ => false

/-- Sets the page of a scope, in the ledger that is attached or else in a blank one. -/
def Transaction.setPage (t : Transaction K) (scope : String) (p : Page K) : Transaction K :=
  t.setLedger ((t.ledger?.getD .blank).setPage scope p)

namespace LedgerStep

/-- To append, the page is opened first, and it stays open when the extent is refused. -/
def perform : LedgerStep K → Transaction K → LedgerAnswer K × Transaction K
  | attach, t =>
    match t.attach with
    | .ok (_, t) => (.done, t)
    | .error f => (.refused f, t)
  | openPage scope, t =>
    match t.openPage scope with
    | .ok (_, t) => (.done, t)
    | .error f => (.refused f, t)
  | append scope entity e, t =>
    match t.openPage scope with
    | .error f => (.refused f, t)
    | .ok (p, t) =>
      match p.append entity e with
      | .ok p => (.done, t.setPage scope p)
      | .error f => (.refused f, t)
  | take scope, t =>
    match t.takePage? scope with
    | some (r, t) => (.taken r, t)
    | none => (.absent, t)

/-- One step after another, up to the first that is refused; each with its answer. -/
def performAll : List (LedgerStep K) → Transaction K → List (LedgerStep K × LedgerAnswer K) × Transaction K
  | [], t => ([], t)
  | s :: ss, t =>
    let (answer, t) := s.perform t
    if answer.isRefused then ([(s, answer)], t)
    else
      let (history, t) := performAll ss t
      ((s, answer) :: history, t)

end LedgerStep

end ExtentLedger
