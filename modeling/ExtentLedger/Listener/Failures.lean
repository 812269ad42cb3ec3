import ExtentLedger.Listener.Host

/-!
# Failures seen from outside

What is seen of a failing collaborator is a warning and an entry in a report. A watched host keeps, beside the state of
the collaborators, the notices that its observers enter. A tame collaborator never breaks off: where it would, it
returns the error that the containment of its stage makes of the crash.
-/

namespace ExtentLedger

/-- The notices so far, the earliest first, and the state of the collaborators. -/
structure Watched (σ K : Type) where
  notices : List (Notice K)
  world : σ

/-- Watching takes nothing from the journal of the collaborators. -/
instance {σ K : Type} [Journal σ K] : Journal (Watched σ K) K where
  enter n s := ⟨s.notices ++ [n], Journal.enter n s.world⟩

variable {κ ι σ K ε α : Type}

/-! ## Watching -/

def Attempt.watched (x : Attempt σ ε α) : Attempt (Watched σ K) ε α := fun s =>
  let (r, w) := x s.world
  (r, ⟨s.notices, w⟩)

def Change.watched (c : Change σ K) : Change (Watched σ K) K :=
  ⟨c.source, c.operation, c.phase, Attempt.watched c.records⟩

def Observer.watched (o : Observer σ K) : Observer (Watched σ K) K where
  config := o.config
  resolver :=
    { affected := fun source => (o.resolver.affected source).watched
      target := fun entity => (o.resolver.target entity).watched }
  merger := fun target extents => (o.merger target extents).watched
  handler := fun entity e => (o.handler entity e).watched

def Hook.watched : Hook σ K → Hook (Watched σ K) K
  | .change c => .change c.watched
  | .finish committed => .finish committed

def Visit.watched (v : Visit κ ι σ K) : Visit κ ι (Watched σ K) K := ⟨v.observer, v.context, v.hook.watched⟩

def Host.watched (h : Host ι σ K) : Host ι (Watched σ K) K := ⟨h.contexts, ⟨[], h.world⟩⟩

def Observer.notices [Journal σ K] (o : Observer σ K) (hook : Hook σ K) (s : Scene σ K) : List (Notice K) :=
  (o.watched.told hook.watched (s.1, ⟨[], s.2⟩)).2.2.notices

def Host.notices [Journal σ K] (os : κ → Observer σ K) (h : Host ι σ K) (v : Visit κ ι σ K) : List (Notice K) :=
  (os v.observer).notices v.hook (h.contexts v.context, h.world)

/-! ## Taming -/

def Outcome.tame (stage : String → ε) : Outcome ε α → Outcome ε α
  | value a => value a
  | failure e => failure e
  | crash c => failure (stage (Attempt.crashText c))

def Attempt.tame (stage : String → ε) (x : Attempt σ ε α) : Attempt σ ε α := fun w =>
  let (r, w) := x w
  (r.tame stage, w)

def Change.tame (c : Change σ K) : Change σ K := { c with records := Attempt.tame .resolution c.records }

/-- What is asked while changes are collected fails with a fault of resolution, all else with one of dispatch. -/
def Observer.tame (o : Observer σ K) : Observer σ K where
  config := o.config
  resolver :=
    { affected := fun source => (o.resolver.affected source).tame .resolution
      target := fun entity => (o.resolver.target entity).tame .dispatch }
  merger := fun target extents => (o.merger target extents).tame .dispatch
  handler := fun entity e => (o.handler entity e).tame .dispatch

def Hook.tame : Hook σ K → Hook σ K
  | .change c => .change c.tame
  | .finish committed => .finish committed

def Visit.tame (v : Visit κ ι σ K) : Visit κ ι σ K := { v with hook := v.hook.tame }

def Call.tame : Call K → Call K
  | .affected source answer => .affected source (answer.tame .resolution)
  | .records answer => .records (answer.tame .resolution)
  | .target entity answer => .target entity (answer.tame .dispatch)
  | .merge system extents answer => .merge system extents (answer.tame .dispatch)
  | .handle entity e answer => .handle entity e (answer.tame .dispatch)

def Account.tame (a : Account κ ι K) : Account κ ι K := { a with calls := a.calls.map Call.tame }

end ExtentLedger
