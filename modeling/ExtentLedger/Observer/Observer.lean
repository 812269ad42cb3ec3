import ExtentLedger.Change.Change
import ExtentLedger.Observer.Notice
import ExtentLedger.Observer.ObserverConfig
import ExtentLedger.Reprojection.Merger
import ExtentLedger.Transaction.Transaction

/-!
# Observers

An observer serves one consumer with four capabilities: which of its entities a change affects, in which system each of
them wants its region, how extents merge, and what to do with the merged extent. While a transaction runs the observer
notes the extents of changes in its scope of the ledger; when it is committed, each entity is dealt with once, in
ascending order. The observer keeps no state of its own, and no failure of a capability leaves it.
-/

namespace ExtentLedger

abbrev EntitySet := Std.ExtTreeSet Entity

structure Resolver (σ : Type) where
  /-- The consumer's entities that a change of the source entity affects. -/
  affected : String → Attempt σ Fault EntitySet
  /-- The system in which an entity wants its region. -/
  target : Entity → Attempt σ Fault ReferenceSystem

abbrev Handler (σ K : Type) := Entity → Extent K → Attempt σ Fault Unit

structure Observer (σ K : Type) where
  config : ObserverConfig
  resolver : Resolver σ
  merger : Merger σ K
  handler : Handler σ K

abbrev Scene (σ K : Type) := Transaction K × σ

namespace Observer

variable {σ K : Type}

def make (config : ObserverConfig) (resolver : Resolver σ) (merger : Merger σ K) (handler : Handler σ K) :
    Except Fault (Observer σ K) := do
  config.validate
  return ⟨config, resolver, merger, handler⟩

def text (o : Observer σ K) : String := "MutationObserver \x7b config: " ++ o.config.text ++ ", .. \x7d"

/-- Notes the extent of a change for all entities that it affects; their number. The records are asked for their extent
only when there is such an entity. -/
def collect (o : Observer σ K) (c : Change σ K) : Attempt (Scene σ K) Fault Nat :=
  if o.config.handles c.operation && !c.phase.repeatsEarlier then do
    let affected ← (o.resolver.affected c.source).onSecond
    if affected.isEmpty then return 0
    match ← c.records.onSecond with
    | none => return 0
    | some e =>
      .onFirst fun t => do
        let t ← t.note o.config.scope affected.toList e
        return (affected.size, t)
  else return 0

/-- Deals with one entity; was there anything to do? -/
def dispatch (o : Observer σ K) (entity : Entity) (extents : List (Extent K)) : Attempt σ Fault Bool := do
  let target ← o.resolver.target entity
  match ← o.merger target extents with
  | none => return false
  | some merged =>
    o.handler entity merged
    return true

variable [Journal σ K]

def onChange (o : Observer σ K) (c : Change σ K) (s : Scene σ K) : Scene σ K :=
  match (o.collect c).contain .resolution s with
  | (.ok 0, s) => s
  | (.ok n, (t, w)) => (t, Journal.enter (Notice.recorded n) w)
  | (.error f, (t, w)) => (t, Journal.enter (Notice.collectFailed f) w)

def dispatchNext (o : Observer σ K) : DispatchReport × σ → Entity × List (Extent K) → DispatchReport × σ
  | (r, w), (entity, extents) =>
    match (o.dispatch entity extents).contain .dispatch w with
    | (.ok true, w) => ({ r with dispatched := r.dispatched + 1 }, w)
    | (.ok false, w) => ({ r with skipped := r.skipped + 1 }, w)
    | (.error f, w) =>
      ({ r with failed := r.failed ++ [entity] }, Journal.enter (Notice.dispatchFailed entity f) w)

def dispatchAll (o : Observer σ K) (pending : Regions K) (w : σ) : DispatchReport × σ :=
  pending.toList.foldl o.dispatchNext (.blank, w)

/-- Hears of the end of a transaction. After a rollback, or when nothing was ever noted in its scope, the observer does
nothing. -/
def onEnd (o : Observer σ K) (committed : Bool) (s : Scene σ K) : DispatchReport × Scene σ K :=
  match committed, s.1.takePage? o.config.scope with
  | true, some (pending, t) =>
    let (r, w) := o.dispatchAll pending s.2
    (r, (t, Journal.enter (Notice.dispatchFinished r) w))
  | _, _ => (.blank, s)

end Observer

end ExtentLedger
