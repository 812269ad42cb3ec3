import ExtentLedger.Listener.Host
import ExtentLedger.Proofs.Observer.Hooks
import Mathlib.Data.List.Induction

/-!
# Fanning out

Whatever a host does is a sequence of visits of single observers. A roster tells its observers in the order of their
priorities, which is the same as visiting them one after another in that order.
-/

namespace ExtentLedger

variable {κ ι σ K : Type}

/-! ## Contexts -/

namespace Host

variable [DecidableEq ι]

theorem contexts_inContext (h : Host ι σ K) (i j : ι) (f : Scene σ K → Scene σ K) :
    (h.inContext i f).contexts j = if j = i then (f (h.contexts i, h.world)).1 else h.contexts j := by
  by_cases hj : j = i
  · subst hj
    simp [inContext]
  · simp [inContext, hj]

theorem foldl_inContext {γ : Type} (i : ι) (f : γ → Scene σ K → Scene σ K) : ∀ (l : List γ) (h : Host ι σ K),
    l.foldl (fun h c => h.inContext i (f c)) h = h.inContext i fun s => l.foldl (fun s c => f c s) s
  | [], h => by simp [inContext]
  | c :: l, h => by
    rw [List.foldl_cons, foldl_inContext i f l]
    simp [inContext]

end Host

/-! ## Visits -/

theorem Event.hook_of_mem_visits {os : κ → Observer σ K} {e : Event κ ι σ K} {v : Visit κ ι σ K} (h : v ∈ e.visits os) :
    v.hook = e.hook := by
  cases e with
  | direct u =>
    rw [List.mem_singleton.mp h]
    rfl
  | fanOut ks i hook =>
    obtain ⟨k, -, rfl⟩ := List.mem_map.mp h
    rfl

variable [Journal σ K]

namespace Observer

def calls (o : Observer σ K) : Hook σ K → Scene σ K → List (Call K)
  | .change c, s => (o.hear c s.2).1.calls c.source
  | .finish committed, s => (o.dealings committed s.1 s.2).flatMap Dealing.calls

theorem told_traced (o : Observer σ K) (hook : Hook σ K) (t : Transaction K) (calls : List (Call K)) (w : σ) :
    o.traced.told hook.traced (t, (calls, w)) =
      ((o.told hook (t, w)).1,
        ((o.told hook (t, w)).2.1, (calls ++ o.calls hook (t, w), (o.told hook (t, w)).2.2))) := by
  cases hook with
  | change c => simp only [told, Hook.traced, onChange_traced, Observer.calls]
  | finish committed => simp only [told, Hook.traced, onEnd_traced, Observer.calls]

end Observer

namespace Host

variable [DecidableEq ι]

theorem visit_eq (os : κ → Observer σ K) (h : Host ι σ K) (v : Visit κ ι σ K) :
    h.visit os v =
      (⟨v.observer, v.context, (os v.observer).calls v.hook (h.contexts v.context, h.world),
          ((os v.observer).told v.hook (h.contexts v.context, h.world)).1⟩,
        h.inContext v.context fun s => ((os v.observer).told v.hook s).2) := by
  simp only [visit, Observer.told_traced, List.nil_append, inContext]

theorem visits_cons (os : κ → Observer σ K) (h : Host ι σ K) (v : Visit κ ι σ K) (vs : List (Visit κ ι σ K)) :
    h.visits os (v :: vs) =
      ((h.visit os v).1 :: ((h.visit os v).2.visits os vs).1, ((h.visit os v).2.visits os vs).2) := rfl

theorem snd_visits (os : κ → Observer σ K) : ∀ (vs : List (Visit κ ι σ K)) (h : Host ι σ K),
    (h.visits os vs).2 =
      vs.foldl (fun h v => h.inContext v.context fun s => ((os v.observer).told v.hook s).2) h
  | [], _ => rfl
  | v :: vs, h => by
    rw [visits_cons, List.foldl_cons, snd_visits os vs, visit_eq]

end Host

/-! ## Rosters -/

namespace Roster

omit [Journal σ K] in
theorem insert_map (ls : κ → Listener σ K) (k : κ) (js : List κ) :
    insert (ls k) (js.map ls) = (js.orderedInsert (fun a b => (ls b).priority < (ls a).priority) k).map ls := by
  induction js with
  | nil => rfl
  | cons j js ih =>
    rw [List.map_cons, insert, List.orderedInsert_cons, ih]
    by_cases hp : (ls j).priority < (ls k).priority
    · rw [if_pos hp, if_pos hp]
      rfl
    · rw [if_neg hp, if_neg hp]
      rfl

theorem listeners_ofObservers (os : κ → Observer σ K) (ks : List κ) :
    (ofObservers os ks).listeners = (byPriority os ks).map fun k => (os k).listener := by
  unfold ofObservers byPriority
  induction ks using List.reverseRecOn with
  | nil => rfl
  | append_singleton ks k ih =>
    rw [List.foldl_append, List.foldl_append, List.foldl_cons, List.foldl_nil, List.foldl_cons, List.foldl_nil,
      register, ih, insert_map fun k => (os k).listener]
    rfl

theorem told_ofObservers (os : κ → Observer σ K) (ks : List κ) (hook : Hook σ K) (s : Scene σ K) :
    (ofObservers os ks).told hook s = (byPriority os ks).foldl (fun s k => ((os k).told hook s).2) s := by
  cases hook with
  | change c =>
    simp only [told, onChange, each, listeners_ofObservers, List.foldl_map]
    rfl
  | finish committed =>
    simp only [told, afterTransaction, each, listeners_ofObservers, List.foldl_map]
    rfl

end Roster

theorem Host.run_eq_visits [DecidableEq ι] (os : κ → Observer σ K) (h : Host ι σ K) (events : List (Event κ ι σ K)) :
    h.run os events = (h.visits os (events.flatMap (Event.visits os))).2 := by
  have he : ∀ (h : Host ι σ K) (e : Event κ ι σ K), event os h e =
      (e.visits os).foldl (fun h v => h.inContext v.context fun s => ((os v.observer).told v.hook s).2) h := by
    intro h e
    cases e with
    | direct v => rfl
    | fanOut ks i hook =>
      rw [Event.visits, List.foldl_map, foldl_inContext i (fun k s => ((os k).told hook s).2), event]
      exact congrArg (h.inContext i) (funext fun s => Roster.told_ofObservers os ks hook s)
  rw [snd_visits, List.foldl_flatMap, run]
  exact congrArg (fun f => events.foldl f h) (funext fun h => funext fun e => he h e)

end ExtentLedger
