import ExtentLedger.Observer.Course
import Mathlib.Data.List.Basic

/-!
# The equations of the hooks

Each hook of an observer in terms of its course: what the observer asks is separated from what it then does to the
transaction, to the report and to the journal. Tracing adds exactly the calls of the course.
-/

namespace ExtentLedger

variable {σ τ ε α K : Type}

@[simp] theorem Attempt.onSecond_apply (x : Attempt σ ε α) (t : τ) (w : σ) :
    x.onSecond (t, w) = ((x w).1, (t, (x w).2)) := rfl

@[simp] theorem Attempt.traced_apply (call : Outcome ε α → Call K) (x : Attempt σ ε α) (calls : List (Call K)) (w : σ) :
    x.traced call (calls, w) = ((x w).1, (calls ++ [call (x w).1], (x w).2)) := rfl

theorem EntitySet.size_pos {es : EntitySet} (h : es.isEmpty = false) : es.size ≠ 0 := by
  intro h0
  rw [Std.ExtTreeSet.isEmpty_eq_size_beq_zero, h0] at h
  cases h

/-! ## Reports -/

namespace Fate

theorem isDone_of_fault? {f : Fate K} {e : Fault} (h : f.fault? = some e) : f.isDone = false := by
  rcases f with a | ⟨r, a⟩ | ⟨r, m, a⟩
  · rfl
  · rfl
  · cases a with
    | value u => cases h
    | _ => rfl

theorem isIdle_of_fault? {f : Fate K} {e : Fault} (h : f.fault? = some e) : f.isIdle = false := by
  rcases f with a | ⟨r, a⟩ | ⟨r, m, a⟩
  · rfl
  · cases a with
    | value u => cases h
    | _ => rfl
  · rfl

theorem isIdle_of_fits {f : Fate K} (hf : f.Fits) (h : f.fault? = none) : f.isIdle = !f.isDone := by
  rcases f with a | ⟨r, a⟩ | ⟨r, m, a⟩
  · cases a with
    | value u => exact absurd rfl (hf u)
    | _ => cases h
  · cases a with
    | value u => rfl
    | _ => cases h
  · cases a with
    | value u => rfl
    | _ => cases h

end Fate

namespace DispatchReport

def add (r : DispatchReport) (d : Dealing K) : DispatchReport where
  dispatched := r.dispatched + if d.fate.isDone then 1 else 0
  skipped := r.skipped + if d.fate.isIdle then 1 else 0
  failed := r.failed ++ if d.fate.fault?.isSome then [d.entity] else []

theorem foldl_add (ds : List (Dealing K)) (r : DispatchReport) :
    ds.foldl add r =
      ⟨r.dispatched + (ofDealings ds).dispatched, r.skipped + (ofDealings ds).skipped,
        r.failed ++ (ofDealings ds).failed⟩ := by
  induction ds generalizing r with
  | nil => simp [ofDealings]
  | cons d ds ih =>
    rw [List.foldl_cons, ih]
    simp only [add, ofDealings, List.countP_cons, List.filter_cons, mk.injEq]
    refine ⟨by omega, by omega, ?_⟩
    by_cases h : d.fate.fault?.isSome = true
    · simp [h]
    · simp [h]

theorem foldl_add_blank (ds : List (Dealing K)) : ds.foldl add blank = ofDealings ds := by
  rw [foldl_add]
  simp [blank]

end DispatchReport

theorem Hearing.enact_pair [Journal σ K] (scope : String) (h : Hearing K) (t : Transaction K) (a : τ) (w : σ) :
    h.enact scope (t, (a, w)) = ((h.enact scope (t, w)).1, (a, (h.enact scope (t, w)).2)) := by
  unfold enact
  cases h.contribution? with
  | none => cases h.fault? <;> rfl
  | some d =>
    simp only
    cases t.note scope d.entities.toList d.extent <;> rfl

theorem Dealing.enact_pair [Journal σ K] (d : Dealing K) (a : τ) (w : σ) : d.enact (a, w) = (a, d.enact w) := by
  unfold enact
  cases d.fate.fault? <;> rfl

namespace Observer

theorem fits_hear (o : Observer σ K) (c : Change σ K) (w : σ) : (o.hear c w).1.Fits o.config c := by
  unfold hear
  by_cases hc : o.config.concerns c = true
  · rw [if_pos hc]
    rcases o.resolver.affected c.source w with ⟨answer, w'⟩
    cases answer with
    | value es =>
      by_cases he : es.isEmpty = true
      · simp only [he, if_true]
        refine ⟨hc, fun es' h => ?_⟩
        cases h
        exact he
      · simp only [he]
        exact ⟨hc, by simpa using he⟩
    | failure e => exact ⟨hc, fun _ h => by cases h⟩
    | crash c => exact ⟨hc, fun _ h => by cases h⟩
  · rw [if_neg hc]
    simpa [Hearing.Fits] using hc

theorem fits_deal (o : Observer σ K) (entity : Entity) (es : List (Extent K)) (w : σ) :
    (o.deal entity es w).1.Fits := by
  unfold deal
  rcases o.resolver.target entity w with ⟨target, w₁⟩
  cases target with
  | failure e => intro r h; cases h
  | crash c => intro r h; cases h
  | value r =>
    rcases h : o.merger r es w₁ with ⟨merged, w₂⟩
    simp only [h]
    cases merged with
    | failure e => intro m h; cases h
    | crash c => intro m h; cases h
    | value m =>
      cases m with
      | none => intro m h; cases h
      | some m => exact trivial

/-! ## Hearing of a change -/

theorem contribution?_fits {config : ObserverConfig} {c : Change σ K} {h : Hearing K} {d : Contribution K}
    (hf : h.Fits config c) (hd : h.contribution? = some d) : d.entities.isEmpty = false := by
  rcases h with _ | answer | ⟨es, answer⟩
  · cases hd
  · cases hd
  · rcases answer with e | f | m
    · cases e with
      | none => cases hd
      | some e => cases hd; exact hf.2
    · cases hd
    · cases hd

variable [Journal σ K]

theorem onChange_eq (o : Observer σ K) (c : Change σ K) (t : Transaction K) (w : σ) :
    o.onChange c (t, w) = (o.hear c w).1.enact o.config.scope (t, (o.hear c w).2) := by
  unfold onChange collect hear ObserverConfig.concerns
  by_cases hc : (o.config.handles c.operation && !c.phase.repeatsEarlier) = true
  · rw [if_pos hc, if_pos hc]
    simp only [Attempt.contain, Attempt.bind_apply, Attempt.onSecond_apply]
    rcases o.resolver.affected c.source w with ⟨answer, w₁⟩
    cases answer with
    | failure e => rfl
    | crash c => rfl
    | value es =>
      by_cases he : es.isEmpty = true
      · simp [he, Hearing.enact, Hearing.contribution?, Hearing.fault?, Outcome.error?]
      · have he' : es.isEmpty = false := by simpa using he
        rcases hr : c.records w₁ with ⟨answer, w₂⟩
        simp only [he', Bool.false_eq_true, if_false, Attempt.bind_apply, Attempt.onSecond_apply, hr]
        cases answer with
        | failure e => rfl
        | crash c => rfl
        | value m =>
          cases m with
          | none => rfl
          | some e =>
            simp only [Hearing.enact, Hearing.contribution?, Attempt.onFirst]
            cases hn : t.note o.config.scope es.toList e with
            | error f => rfl
            | ok t' =>
              obtain ⟨n, hn'⟩ := Nat.exists_eq_succ_of_ne_zero (EntitySet.size_pos he')
              simp [bind, Except.bind, pure, Except.pure, hn']
  · rw [if_neg hc, if_neg hc]
    rfl

/-! ## Dealing with entities -/

omit [Journal σ K] in
theorem dispatch_eq (o : Observer σ K) (entity : Entity) (es : List (Extent K)) (w : σ) :
    (o.dispatch entity es).contain .dispatch w =
      ((match (o.deal entity es w).1.fault? with
        | some f => .error f
        | none => .ok (o.deal entity es w).1.isDone), (o.deal entity es w).2) := by
  unfold dispatch deal
  simp only [Attempt.contain, Attempt.bind_apply]
  rcases o.resolver.target entity w with ⟨target, w₁⟩
  cases target with
  | failure e => rfl
  | crash c => rfl
  | value r =>
    rcases hm : o.merger r es w₁ with ⟨merged, w₂⟩
    simp only [hm]
    cases merged with
    | failure e => simp [Fate.fault?, Outcome.error?]
    | crash c => simp [Fate.fault?, Outcome.error?]
    | value m =>
      cases m with
      | none => simp [Fate.fault?, Outcome.error?, Fate.isDone]
      | some m =>
        rcases hh : o.handler entity m w₂ with ⟨answer, w₃⟩
        simp only [Attempt.bind_apply, hh]
        cases answer <;> rfl

theorem dispatchNext_eq (o : Observer σ K) (r : DispatchReport) (entity : Entity) (es : List (Extent K)) (w : σ) :
    o.dispatchNext (r, w) (entity, es) =
      (r.add ⟨entity, es, (o.deal entity es w).1⟩,
        Dealing.enact ⟨entity, es, (o.deal entity es w).1⟩ (o.deal entity es w).2) := by
  simp only [dispatchNext, dispatch_eq]
  have hf := fits_deal o entity es w
  generalize o.deal entity es w = x at hf
  obtain ⟨fate, w'⟩ := x
  cases h : fate.fault? with
  | some f => simp [DispatchReport.add, Dealing.enact, h, Fate.isDone_of_fault? h, Fate.isIdle_of_fault? h]
  | none =>
    have hi := Fate.isIdle_of_fits hf h
    cases hd : fate.isDone <;> simp [DispatchReport.add, Dealing.enact, h, hd, hi]

theorem foldl_dispatchNext (o : Observer σ K) : ∀ (l : List (Entity × List (Extent K))) (r : DispatchReport) (w : σ),
    l.foldl o.dispatchNext (r, w) = ((o.dealAll l w).1.foldl DispatchReport.add r, (o.dealAll l w).2)
  | [], _, _ => rfl
  | (entity, es) :: l, r, w => by
    rw [List.foldl_cons, dispatchNext_eq, foldl_dispatchNext o l]
    rfl

theorem onEnd_eq (o : Observer σ K) (committed : Bool) (t : Transaction K) (w : σ) :
    o.onEnd committed (t, w) =
      match committed, t.takePage? o.config.scope with
      | true, some (pending, t') =>
        let (ds, w') := o.dealAll pending.toList w
        (.ofDealings ds, (t', Journal.enter (Notice.dispatchFinished (.ofDealings ds)) w'))
      | _, _ => (.blank, (t, w)) := by
  unfold onEnd
  cases committed with
  | false => rfl
  | true =>
    cases t.takePage? o.config.scope with
    | none => rfl
    | some p =>
      obtain ⟨pending, t'⟩ := p
      simp only [dispatchAll, foldl_dispatchNext, DispatchReport.foldl_add_blank]

/-! ## Tracing -/

omit [Journal σ K] in
theorem hear_traced (o : Observer σ K) (c : Change σ K) (calls : List (Call K)) (w : σ) :
    o.traced.hear c.traced (calls, w) =
      ((o.hear c w).1, (calls ++ (o.hear c w).1.calls c.source, (o.hear c w).2)) := by
  unfold hear
  by_cases hc : o.config.concerns c = true
  · rw [if_pos (show o.traced.config.concerns c.traced = true from hc), if_pos hc]
    simp only [traced, Change.traced, Attempt.traced_apply]
    rcases o.resolver.affected c.source w with ⟨answer, w₁⟩
    cases answer with
    | failure e => rfl
    | crash c => rfl
    | value es =>
      by_cases he : es.isEmpty = true
      · simp [he, Hearing.calls]
      · simp [he, Hearing.calls]
  · rw [if_neg (show ¬ o.traced.config.concerns c.traced = true from hc), if_neg hc]
    simp [Hearing.calls]

omit [Journal σ K] in
theorem deal_traced (o : Observer σ K) (entity : Entity) (es : List (Extent K)) (calls : List (Call K)) (w : σ) :
    o.traced.deal entity es (calls, w) =
      ((o.deal entity es w).1,
        (calls ++ Dealing.calls ⟨entity, es, (o.deal entity es w).1⟩, (o.deal entity es w).2)) := by
  unfold deal
  simp only [traced, Attempt.traced_apply]
  rcases o.resolver.target entity w with ⟨target, w₁⟩
  cases target with
  | failure e => rfl
  | crash c => rfl
  | value r =>
    rcases hm : o.merger r es w₁ with ⟨merged, w₂⟩
    simp only [Attempt.traced_apply, hm]
    cases merged with
    | failure e => simp [Dealing.calls]
    | crash c => simp [Dealing.calls]
    | value m =>
      cases m with
      | none => simp [Dealing.calls]
      | some m =>
        rcases hh : o.handler entity m w₂ with ⟨answer, w₃⟩
        simp [Dealing.calls, hh]

theorem dealAll_traced (o : Observer σ K) : ∀ (l : List (Entity × List (Extent K))) (calls : List (Call K)) (w : σ),
    o.traced.dealAll l (calls, w) =
      ((o.dealAll l w).1, (calls ++ (o.dealAll l w).1.flatMap Dealing.calls, (o.dealAll l w).2))
  | [], _, _ => by simp [dealAll]
  | (entity, es) :: l, calls, w => by
    simp only [dealAll, deal_traced, Dealing.enact_pair, dealAll_traced o l, List.flatMap_cons, List.append_assoc]

theorem onChange_traced (o : Observer σ K) (c : Change σ K) (t : Transaction K) (calls : List (Call K)) (w : σ) :
    o.traced.onChange c.traced (t, (calls, w)) =
      ((o.onChange c (t, w)).1, (calls ++ (o.hear c w).1.calls c.source, (o.onChange c (t, w)).2)) := by
  rw [onChange_eq, onChange_eq, hear_traced]
  exact Hearing.enact_pair _ _ _ _ _

def dealings (o : Observer σ K) (committed : Bool) (t : Transaction K) (w : σ) : List (Dealing K) :=
  match committed, t.takePage? o.config.scope with
  | true, some (pending, _) => (o.dealAll pending.toList w).1
  | _, _ => []

theorem report_onEnd (o : Observer σ K) (committed : Bool) (t : Transaction K) (w : σ) :
    (o.onEnd committed (t, w)).1 = .ofDealings (o.dealings committed t w) := by
  rw [onEnd_eq]
  unfold dealings
  cases committed with
  | false => rfl
  | true => cases t.takePage? o.config.scope <;> rfl

theorem onEnd_traced (o : Observer σ K) (committed : Bool) (t : Transaction K) (calls : List (Call K)) (w : σ) :
    o.traced.onEnd committed (t, (calls, w)) =
      ((o.onEnd committed (t, w)).1, ((o.onEnd committed (t, w)).2.1,
        (calls ++ (o.dealings committed t w).flatMap Dealing.calls, (o.onEnd committed (t, w)).2.2))) := by
  rw [onEnd_eq, onEnd_eq]
  unfold dealings
  cases committed with
  | false => simp
  | true =>
    rw [show o.traced.config.scope = o.config.scope from rfl]
    rcases t.takePage? o.config.scope with _ | ⟨pending, t'⟩
    · simp
    · simp only [dealAll_traced]
      rfl

end Observer

end ExtentLedger
