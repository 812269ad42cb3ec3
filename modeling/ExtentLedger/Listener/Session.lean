import ExtentLedger.Listener.Host

/-!
# Sessions

A session is what a host does with one roster: it registers listeners, and in between it sends signals to all that are
registered so far, each for one of its contexts. A signal comes to one delivery for each listener, and what the session
ought to deliver is said by the ranks of the listeners, not by a roster.
-/

namespace ExtentLedger

inductive Signal (σ K : Type)
  | start
  | change (c : Change σ K)
  | closing
  | finish (committed : Bool)

variable {κ ι σ K : Type}

def Listener.receive (l : Listener σ K) : Signal σ K → Scene σ K → Scene σ K
  | .start => l.beforeTransaction
  | .change c => l.onChange c
  | .closing => l.beforeCommit
  | .finish committed => l.afterTransaction committed

def Roster.send (r : Roster σ K) : Signal σ K → Scene σ K → Scene σ K
  | .start => r.beforeTransaction
  | .change c => r.onChange c
  | .closing => r.beforeCommit
  | .finish committed => r.afterTransaction committed

inductive Act (κ ι σ K : Type)
  | register (listener : κ)
  | send (context : ι) (signal : Signal σ K)

structure Delivery (κ ι σ K : Type) where
  listener : κ
  context : ι
  signal : Signal σ K

/-- The listeners that are registered, in this order; each as often as it is registered. -/
def Act.registered : List (Act κ ι σ K) → List κ
  | [] => []
  | register k :: acts => k :: registered acts
  | send _ _ :: acts => registered acts

variable (ls : κ → Listener σ K)

/-- The same listeners in descending order of priority, those of equal priority in the order in which they were. -/
structure Listener.Ranks (registered ranked : List κ) : Prop where
  perm : ranked.Perm registered
  descending : ranked.Pairwise fun j k => (ls k).priority ≤ (ls j).priority
  stable : ∀ p : Int32, (ranked.filter fun k => (ls k).priority = p) = registered.filter fun k => (ls k).priority = p

/-- What is to be delivered in the course of some acts: each signal once to each listener that is registered before it,
those of higher rank first, and all of this before anything that comes of later acts. -/
inductive Act.Delivers : List κ → List (Act κ ι σ K) → List (Delivery κ ι σ K) → Prop
  | nil (registered : List κ) : Delivers registered [] []
  | register {registered : List κ} {k : κ} {acts : List (Act κ ι σ K)} {deliveries : List (Delivery κ ι σ K)} :
      Delivers (registered ++ [k]) acts deliveries → Delivers registered (.register k :: acts) deliveries
  | send {registered ranked : List κ} {i : ι} {signal : Signal σ K} {acts : List (Act κ ι σ K)}
      {deliveries : List (Delivery κ ι σ K)} :
      Listener.Ranks ls registered ranked → Delivers registered acts deliveries →
        Delivers registered (.send i signal :: acts) ((ranked.map fun k => ⟨k, i, signal⟩) ++ deliveries)

variable [DecidableEq ι]

def Host.deliver (h : Host ι σ K) (d : Delivery κ ι σ K) : Host ι σ K :=
  h.inContext d.context ((ls d.listener).receive d.signal)

structure Session (ι σ K : Type) where
  roster : Roster σ K
  host : Host ι σ K

namespace Session

def act (s : Session ι σ K) : Act κ ι σ K → Session ι σ K
  | .register k => { s with roster := s.roster.register (ls k) }
  | .send i signal => { s with host := s.host.inContext i (s.roster.send signal) }

def run (s : Session ι σ K) (acts : List (Act κ ι σ K)) : Session ι σ K := acts.foldl (act ls) s

end Session

end ExtentLedger
