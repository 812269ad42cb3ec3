import ExtentLedger.Listener.Roster
import ExtentLedger.Observer.Call
import Mathlib.Data.List.Sort
import Mathlib.Logic.Function.Basic

/-!
# Hosts

A host runs several transactions side by side, each in its context, and calls the hooks of observers for them in any
order: one observer at a time, or all the observers of a roster. An account is kept of each visit of an observer to a
context: the calls it made, with the answers it got, and the report it gave.
-/

namespace ExtentLedger

/-- What an observer is told: a change, or the end of the transaction. -/
inductive Hook (σ K : Type)
  | change (c : Change σ K)
  | finish (committed : Bool)

variable {κ ι σ K : Type}

def Hook.traced : Hook σ K → Hook (Traced σ K) K
  | change c => .change c.traced
  | finish committed => .finish committed

/-- Tells an observer; only the end of a transaction gives a report. -/
def Observer.told [Journal σ K] (o : Observer σ K) : Hook σ K → Scene σ K → Option DispatchReport × Scene σ K
  | .change c, s => (none, o.onChange c s)
  | .finish committed, s =>
    let (r, s) := o.onEnd committed s
    (some r, s)

def Roster.told (r : Roster σ K) : Hook σ K → Scene σ K → Scene σ K
  | .change c => r.onChange c
  | .finish committed => r.afterTransaction committed

structure Visit (κ ι σ K : Type) where
  observer : κ
  context : ι
  hook : Hook σ K

structure Account (κ ι K : Type) where
  observer : κ
  context : ι
  calls : List (Call K)
  report : Option DispatchReport

def Visit.isOf [DecidableEq κ] [DecidableEq ι] (k : κ) (i : ι) (v : Visit κ ι σ K) : Bool :=
  v.observer = k && v.context = i

def Account.isOf [DecidableEq κ] [DecidableEq ι] (k : κ) (i : ι) (a : Account κ ι K) : Bool :=
  a.observer = k && a.context = i

/-- What a host does: it tells one observer, or a roster in which observers were registered one after another. -/
inductive Event (κ ι σ K : Type)
  | direct (visit : Visit κ ι σ K)
  | fanOut (registered : List κ) (context : ι) (hook : Hook σ K)

def Event.hook : Event κ ι σ K → Hook σ K
  | direct v => v.hook
  | fanOut _ _ hook => hook

def Visit.traced (v : Visit κ ι σ K) : Visit κ ι (Traced σ K) K := ⟨v.observer, v.context, v.hook.traced⟩

def Event.traced : Event κ ι σ K → Event κ ι (Traced σ K) K
  | direct v => .direct v.traced
  | fanOut ks i hook => .fanOut ks i hook.traced

structure Host (ι σ K : Type) where
  contexts : ι → Transaction K
  world : σ

def Host.traced (h : Host ι σ K) : Host ι (Traced σ K) K := ⟨h.contexts, ([], h.world)⟩

variable [DecidableEq ι] [Journal σ K]

def Roster.ofObservers (os : κ → Observer σ K) (ks : List κ) : Roster σ K :=
  ks.foldl (fun r k => r.register (os k).listener) .empty

namespace Host

def inContext (h : Host ι σ K) (i : ι) (f : Scene σ K → Scene σ K) : Host ι σ K :=
  let (t, w) := f (h.contexts i, h.world)
  ⟨Function.update h.contexts i t, w⟩

def event (os : κ → Observer σ K) (h : Host ι σ K) : Event κ ι σ K → Host ι σ K
  | .direct v => h.inContext v.context fun s => ((os v.observer).told v.hook s).2
  | .fanOut ks i hook => h.inContext i ((Roster.ofObservers os ks).told hook)

def run (os : κ → Observer σ K) (h : Host ι σ K) (events : List (Event κ ι σ K)) : Host ι σ K :=
  events.foldl (event os) h

def visit (os : κ → Observer σ K) (h : Host ι σ K) (v : Visit κ ι σ K) : Account κ ι K × Host ι σ K :=
  let (report, (t, (calls, w))) := (os v.observer).traced.told v.hook.traced (h.contexts v.context, ([], h.world))
  (⟨v.observer, v.context, calls, report⟩, ⟨Function.update h.contexts v.context t, w⟩)

def visits (os : κ → Observer σ K) : Host ι σ K → List (Visit κ ι σ K) → List (Account κ ι K) × Host ι σ K
  | h, [] => ([], h)
  | h, v :: vs =>
    let (a, h) := h.visit os v
    let (as, h) := h.visits os vs
    (a :: as, h)

end Host

/-- Some observers in descending order of priority, those of equal priority in the order of their registration. -/
def byPriority (os : κ → Observer σ K) (ks : List κ) : List κ :=
  ks.foldl (fun js k => js.orderedInsert (fun a b => (os b).config.priority < (os a).config.priority) k) []

def Event.visits (os : κ → Observer σ K) : Event κ ι σ K → List (Visit κ ι σ K)
  | direct v => [v]
  | fanOut ks i hook => (byPriority os ks).map fun k => ⟨k, i, hook⟩

end ExtentLedger
