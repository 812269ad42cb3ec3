import ExtentLedger.Transaction.Ledger

/-!
# Notices

What observers report of their own doing. Faults of collaborators go no further than the observer that met them, so a
notice is the only trace of one. The state of the collaborators keeps a journal of the notices.
-/

namespace ExtentLedger

/-- What came of a commit: entities acted on, entities with nothing to act on, and entities that failed. -/
structure DispatchReport where
  dispatched : Nat
  skipped : Nat
  failed : List Entity
deriving DecidableEq, Repr

namespace DispatchReport

def blank : DispatchReport := ⟨0, 0, []⟩

def total (r : DispatchReport) : Nat := r.dispatched + r.skipped + r.failed.length

def isClean (r : DispatchReport) : Bool := r.failed.isEmpty

end DispatchReport

inductive Notice (K : Type)
  | recorded (entities : Nat)
  | collectFailed (fault : Fault)
  | dispatchFailed (entity : Entity) (fault : Fault)
  | dispatchFinished (report : DispatchReport)
  | entityGone (entity : Entity) (extent : Extent K)
  | segmentGone (segment : String) (extent : Extent K)

namespace Notice

variable {K : Type} [Coordinate K]

def isWarning : Notice K → Bool
  | .recorded _ | .dispatchFinished _ => false
  | _ => true

def message : Notice K → String
  | .recorded _ => "dirty region recorded"
  | .collectFailed _ => "error pre computing the transaction's affected area"
  | .dispatchFailed .. => "dirty region dispatch failed, entity skipped for this commit"
  | .dispatchFinished _ => "dirty region dispatch finished"
  | .entityGone entity e => "entity '" ++ entity ++ "' no longer exists, bounds not updated with " ++ e.text
  | .segmentGone segment e =>
    "cache segment '" ++ segment ++ "' no longer exists, skipping truncation of " ++ e.text

end Notice

/-- A state that keeps notices. -/
class Journal (σ : Type) (K : outParam Type) where
  enter : Notice K → σ → σ

/-- A list of notices, the earliest first, is a journal. -/
instance {K : Type} : Journal (List (Notice K)) K where
  enter n notices := notices ++ [n]

/-- The second part of a state keeps the notices of both. -/
instance {τ σ K : Type} [Journal σ K] : Journal (τ × σ) K where
  enter n := fun (t, w) => (t, Journal.enter n w)

end ExtentLedger
