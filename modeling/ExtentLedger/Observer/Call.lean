import ExtentLedger.Observer.Observer

/-!
# Calls of capabilities

An observer whose capabilities are traced keeps, beside the state of its collaborators, the calls that it has made in
their order, each with the answer that it got. Tracing changes nothing else, so what is said of the calls of a traced
observer holds of the observer.
-/

namespace ExtentLedger

inductive Call (K : Type)
  | affected (source : String) (answer : Outcome Fault EntitySet)
  | records (answer : Outcome Fault (Option (Extent K)))
  | target (entity : Entity) (answer : Outcome Fault ReferenceSystem)
  | merge (target : ReferenceSystem) (extents : List (Extent K)) (answer : Outcome Fault (Option (Extent K)))
  | handle (entity : Entity) (extent : Extent K) (answer : Outcome Fault Unit)

/-- The calls so far, the earliest first, and the state of the collaborators. -/
abbrev Traced (σ K : Type) := List (Call K) × σ

variable {σ K ε α : Type}

/-- Writes down the call as soon as it is answered. -/
def Attempt.traced (call : Outcome ε α → Call K) (x : Attempt σ ε α) : Attempt (Traced σ K) ε α := fun (calls, w) =>
  let (r, w) := x w
  (r, (calls ++ [call r], w))

def Change.traced (c : Change σ K) : Change (Traced σ K) K :=
  ⟨c.source, c.operation, c.phase, Attempt.traced .records c.records⟩

def Observer.traced (o : Observer σ K) : Observer (Traced σ K) K where
  config := o.config
  resolver :=
    { affected := fun source => (o.resolver.affected source).traced (.affected source)
      target := fun entity => (o.resolver.target entity).traced (.target entity) }
  merger := fun target extents => (o.merger target extents).traced (.merge target extents)
  handler := fun entity e => (o.handler entity e).traced (.handle entity e)

end ExtentLedger
