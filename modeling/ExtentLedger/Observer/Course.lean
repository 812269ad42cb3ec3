import ExtentLedger.Observer.Call
import ExtentLedger.Observer.Contribution

/-!
# The course of a hook

What an observer asks while it hears of a change or deals with an entity, and what it is answered. The first answer
that is an error, or that leaves nothing to do, ends the course. What a hook does to the transaction, to the report and
to the journal follows from its course.
-/

namespace ExtentLedger

/-- How far an observer gets with a change. -/
inductive Hearing (K : Type)
  /-- The change is no concern of the observer. -/
  | ignored
  /-- Nothing is affected, or that could not be told. -/
  | resolved (answer : Outcome Fault EntitySet)
  /-- These entities are affected, and the records were asked. -/
  | measured (entities : EntitySet) (answer : Outcome Fault (Option (Extent K)))

/-- How far an observer gets with an entity. -/
inductive Fate (K : Type)
  /-- There is no target. -/
  | targeted (answer : Outcome Fault ReferenceSystem)
  /-- There is no merged extent. -/
  | merged (target : ReferenceSystem) (answer : Outcome Fault (Option (Extent K)))
  | handled (target : ReferenceSystem) (extent : Extent K) (answer : Outcome Fault Unit)

structure Dealing (K : Type) where
  entity : Entity
  extents : List (Extent K)
  fate : Fate K

variable {σ K : Type}

/-- Is the change one that an observer with this configuration looks into? -/
def ObserverConfig.concerns (config : ObserverConfig) (c : Change σ K) : Bool :=
  config.handles c.operation && !c.phase.repeatsEarlier

namespace Hearing

def calls (source : String) : Hearing K → List (Call K)
  | ignored => []
  | resolved answer => [.affected source answer]
  | measured entities answer => [.affected source (.value entities), .records answer]

def contribution? : Hearing K → Option (Contribution K)
  | measured entities (.value (some e)) => some ⟨entities, e⟩
  | _ => none

def fault? : Hearing K → Option Fault
  | ignored => none
  | resolved answer => answer.error? .resolution
  | measured _ answer => answer.error? .resolution

/-- The hearing of a change goes as far as it can, and no further. -/
def Fits (config : ObserverConfig) (c : Change σ K) : Hearing K → Prop
  | ignored => config.concerns c = false
  | resolved answer => config.concerns c = true ∧ ∀ entities, answer = .value entities → entities.isEmpty = true
  | measured entities _ => config.concerns c = true ∧ entities.isEmpty = false

end Hearing

namespace Fate

def fault? : Fate K → Option Fault
  | targeted answer => answer.error? .dispatch
  | merged _ answer => answer.error? .dispatch
  | handled _ _ answer => answer.error? .dispatch

/-- The observer goes as far as it can, and no further. -/
def Fits : Fate K → Prop
  | targeted answer => ∀ target, answer ≠ .value target
  | merged _ answer => ∀ e, answer ≠ .value (some e)
  | handled .. => True

def isIdle : Fate K → Bool
  | merged _ (.value _) => true
  | _ => false

def isDone : Fate K → Bool
  | handled _ _ (.value _) => true
  | _ => false

end Fate

def Dealing.calls (d : Dealing K) : List (Call K) :=
  match d.fate with
  | .targeted answer => [.target d.entity answer]
  | .merged target answer => [.target d.entity (.value target), .merge target d.extents answer]
  | .handled target e answer =>
    [.target d.entity (.value target), .merge target d.extents (.value (some e)), .handle d.entity e answer]

def DispatchReport.ofDealings (ds : List (Dealing K)) : DispatchReport where
  dispatched := ds.countP fun d => d.fate.isDone
  skipped := ds.countP fun d => d.fate.isIdle
  failed := (ds.filter fun d => d.fate.fault?.isSome).map Dealing.entity

namespace Observer

def hear (o : Observer σ K) (c : Change σ K) (w : σ) : Hearing K × σ :=
  if o.config.concerns c then
    match o.resolver.affected c.source w with
    | (.value entities, w) =>
      if entities.isEmpty then (.resolved (.value entities), w)
      else
        let (answer, w) := c.records w
        (.measured entities answer, w)
    | (answer, w) => (.resolved answer, w)
  else (.ignored, w)

def deal (o : Observer σ K) (entity : Entity) (extents : List (Extent K)) (w : σ) : Fate K × σ :=
  match o.resolver.target entity w with
  | (.value target, w) =>
    match o.merger target extents w with
    | (.value (some e), w) =>
      let (answer, w) := o.handler entity e w
      (.handled target e answer, w)
    | (answer, w) => (.merged target answer, w)
  | (answer, w) => (.targeted answer, w)

end Observer

variable [Journal σ K]

def Hearing.enact (scope : String) (h : Hearing K) : Scene σ K → Scene σ K := fun (t, w) =>
  match h.contribution? with
  | some c =>
    match t.note scope c.entities.toList c.extent with
    | .ok t => (t, Journal.enter (Notice.recorded c.entities.size) w)
    | .error f => (t, Journal.enter (Notice.collectFailed f) w)
  | none => (t, h.fault?.elim w fun f => Journal.enter (Notice.collectFailed f) w)

def Dealing.enact (d : Dealing K) (w : σ) : σ :=
  d.fate.fault?.elim w fun f => Journal.enter (Notice.dispatchFailed d.entity f) w

def Observer.dealAll (o : Observer σ K) : List (Entity × List (Extent K)) → σ → List (Dealing K) × σ
  | [], w => ([], w)
  | (entity, extents) :: rest, w =>
    let (fate, w) := o.deal entity extents w
    let d : Dealing K := ⟨entity, extents, fate⟩
    let (ds, w) := o.dealAll rest (d.enact w)
    (d :: ds, w)

end ExtentLedger
