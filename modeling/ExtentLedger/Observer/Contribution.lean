import ExtentLedger.Observer.Observer

/-!
# Contributions

What a commit ought to deal with, said without a ledger. A change contributes when the observer reacts to it, some
entity is affected and the records have an extent. The extents that wait for an entity are those of the contributions
that affect it, in the order of the changes.
-/

namespace ExtentLedger

structure Contribution (K : Type) where
  entities : EntitySet
  extent : Extent K

namespace Contribution

variable {K : Type}

def affects (c : Contribution K) (entity : Entity) : Bool := c.entities.contains entity

def extentsFor (cs : List (Contribution K)) (entity : Entity) : List (Extent K) :=
  (cs.filter fun c => c.affects entity).map extent

end Contribution

end ExtentLedger
