import Std.Data.ExtTreeMap
import ExtentLedger.Extent

/-!
# The ledger of a transaction

Extents that wait for the commit, one page for each scope and on it a list for each entity, in the order in which they
were noted. A page is empty at first, collects, and is taken once: from then on nothing can be added to it.
-/

namespace ExtentLedger

abbrev Entity := String

/-- Entities with their extents, in ascending order of their names. -/
abbrev Regions (K : Type) := Std.ExtTreeMap Entity (List (Extent K))

inductive PageState
  | empty
  | collecting
  | dispatched
deriving DecidableEq, Repr

def PageState.name : PageState → String
  | .empty => "EMPTY"
  | .collecting => "COLLECTING"
  | .dispatched => "DISPATCHED"

structure Page (K : Type) where
  state : PageState
  regions : Regions K

namespace Page

variable {K : Type}

def blank : Page K := ⟨.empty, ∅⟩

def append (p : Page K) (entity : Entity) (e : Extent K) : Except Fault (Page K) :=
  if p.state = .dispatched then
    .error (.dispatch ("cannot record dirty region for '" ++ entity ++ "': namespace already dispatched"))
  else .ok ⟨.collecting, p.regions.insert entity (p.regions.getD entity [] ++ [e])⟩

def appendAll (p : Page K) (entities : List Entity) (e : Extent K) : Except Fault (Page K) :=
  entities.foldlM (fun p entity => p.append entity e) p

/-- What is pending, and the page after it was taken. -/
def take (p : Page K) : Regions K × Page K := (p.regions, ⟨.dispatched, ∅⟩)

end Page

structure Ledger (K : Type) where
  pages : Std.ExtTreeMap String (Page K)

namespace Ledger

variable {K : Type}

def blank : Ledger K := ⟨∅⟩

def page? (l : Ledger K) (scope : String) : Option (Page K) := l.pages[scope]?

/-- The page of a scope, a blank one if there is none yet. -/
def page (l : Ledger K) (scope : String) : Page K := l.pages.getD scope .blank

def setPage (l : Ledger K) (scope : String) (p : Page K) : Ledger K := ⟨l.pages.insert scope p⟩

end Ledger

end ExtentLedger
