import ExtentLedger.Observer.Observer

/-!
# Listeners

The host tells its listeners of a transaction: its start, each change, the moment before the commit, and the end. The
roster calls them in descending order of priority, those of equal priority in the order of their registration.
-/

namespace ExtentLedger

structure Listener (σ K : Type) where
  name : String
  priority : Int32
  beforeTransaction : Scene σ K → Scene σ K
  onChange : Change σ K → Scene σ K → Scene σ K
  beforeCommit : Scene σ K → Scene σ K
  afterTransaction : Bool → Scene σ K → Scene σ K

variable {σ K : Type}

def Observer.listener [Journal σ K] (o : Observer σ K) : Listener σ K where
  name := o.config.scope
  priority := o.config.priority
  beforeTransaction := id
  onChange := o.onChange
  beforeCommit := id
  afterTransaction committed s := (o.onEnd committed s).2

structure Roster (σ K : Type) where
  listeners : List (Listener σ K)

namespace Roster

def empty : Roster σ K := ⟨[]⟩

/-- Puts a listener before the first one of lower priority. -/
def insert (l : Listener σ K) : List (Listener σ K) → List (Listener σ K)
  | [] => [l]
  | m :: ms => if m.priority < l.priority then l :: m :: ms else m :: insert l ms

def register (r : Roster σ K) (l : Listener σ K) : Roster σ K := ⟨insert l r.listeners⟩

def names (r : Roster σ K) : List String := r.listeners.map Listener.name

def size (r : Roster σ K) : Nat := r.listeners.length

def each (r : Roster σ K) (call : Listener σ K → Scene σ K → Scene σ K) (s : Scene σ K) : Scene σ K :=
  r.listeners.foldl (fun s l => call l s) s

def beforeTransaction (r : Roster σ K) : Scene σ K → Scene σ K := r.each fun l => l.beforeTransaction

def onChange (r : Roster σ K) (c : Change σ K) : Scene σ K → Scene σ K := r.each fun l => l.onChange c

def beforeCommit (r : Roster σ K) : Scene σ K → Scene σ K := r.each fun l => l.beforeCommit

def afterTransaction (r : Roster σ K) (committed : Bool) : Scene σ K → Scene σ K :=
  r.each fun l => l.afterTransaction committed

end Roster

end ExtentLedger
