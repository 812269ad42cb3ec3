import ExtentLedger.Proofs.Listener.FanOut
import ExtentLedger.Proofs.Observer.Frame

/-!
# Separation of observers and transactions

What an observer does for a context depends on its slot there, and changes no other. So observers with different scopes,
whose capabilities answer the same in every state, do not notice each other, nor do the transactions of one observer.
-/

namespace ExtentLedger

variable {κ ι σ τ ε α K : Type}

/-! ## Steady answers -/

def Attempt.IsSteady (x : Attempt σ ε α) : Prop := ∀ w w', (x w).1 = (x w').1

/-- The capabilities answer the same in every state; they may fail, and break off. -/
structure Observer.IsSteady (o : Observer σ K) : Prop where
  affected : ∀ source, (o.resolver.affected source).IsSteady
  target : ∀ entity, (o.resolver.target entity).IsSteady
  merger : ∀ target es, (o.merger target es).IsSteady
  handler : ∀ entity e, (o.handler entity e).IsSteady

def Hook.IsSteady : Hook σ K → Prop
  | change c => c.records.IsSteady
  | finish _ => True

namespace Observer

theorem IsSteady.hear {o : Observer σ K} (ho : o.IsSteady) {c : Change σ K} (hc : c.records.IsSteady) (w w' : σ) :
    (o.hear c w).1 = (o.hear c w').1 := by
  unfold Observer.hear
  by_cases hk : o.config.concerns c = true
  · rw [if_pos hk, if_pos hk]
    have ha := ho.affected c.source w w'
    rcases h : o.resolver.affected c.source w with ⟨answer, w₁⟩
    rcases h' : o.resolver.affected c.source w' with ⟨answer', w₁'⟩
    rw [h, h'] at ha
    cases ha
    cases answer with
    | failure e => rfl
    | crash c => rfl
    | value es =>
      by_cases he : es.isEmpty = true
      · simp [he]
      · simp [he, hc w₁ w₁']
  · rw [if_neg hk, if_neg hk]

theorem IsSteady.deal {o : Observer σ K} (ho : o.IsSteady) (entity : Entity) (es : List (Extent K)) (w w' : σ) :
    (o.deal entity es w).1 = (o.deal entity es w').1 := by
  unfold Observer.deal
  have ht := ho.target entity w w'
  rcases h : o.resolver.target entity w with ⟨target, w₁⟩
  rcases h' : o.resolver.target entity w' with ⟨target', w₁'⟩
  rw [h, h'] at ht
  cases ht
  cases target with
  | failure e => rfl
  | crash c => rfl
  | value r =>
    have hm := ho.merger r es w₁ w₁'
    rcases h : o.merger r es w₁ with ⟨merged, w₂⟩
    rcases h' : o.merger r es w₁' with ⟨merged', w₂'⟩
    rw [h, h'] at hm
    cases hm
    simp only [h, h']
    cases merged with
    | failure e => rfl
    | crash c => rfl
    | value m =>
      cases m with
      | none => rfl
      | some m => exact congrArg (Fate.handled r m) (ho.handler entity m w₂ w₂')

theorem IsSteady.dealAll [Journal σ K] {o : Observer σ K} (ho : o.IsSteady) :
    ∀ (l : List (Entity × List (Extent K))) (w w' : σ), (o.dealAll l w).1 = (o.dealAll l w').1
  | [], _, _ => rfl
  | (entity, es) :: l, w, w' => by
    have hd := ho.deal entity es w w'
    have ih := ho.dealAll l (Dealing.enact ⟨entity, es, (o.deal entity es w).1⟩ (o.deal entity es w).2)
      (Dealing.enact ⟨entity, es, (o.deal entity es w').1⟩ (o.deal entity es w').2)
    simp only [Observer.dealAll]
    rw [ih, hd]

end Observer

variable [Journal σ K]

/-! ## Visits -/

namespace Observer

theorem IsSteady.told {o : Observer σ K} (ho : o.IsSteady) {hook : Hook σ K} (hk : hook.IsSteady)
    {t t' : Transaction K} (ht : t.slot o.config.scope = t'.slot o.config.scope) (w w' : σ) :
    (o.told hook (t, w)).1 = (o.told hook (t', w')).1 ∧ o.calls hook (t, w) = o.calls hook (t', w') ∧
      (o.told hook (t, w)).2.1.slot o.config.scope = (o.told hook (t', w')).2.1.slot o.config.scope := by
  cases hook with
  | change c =>
    have hh : (o.hear c w).1 = (o.hear c w').1 := ho.hear hk w w'
    refine ⟨rfl, ?_, ?_⟩
    · simp only [calls, hh]
    · simp only [Observer.told, onChange_eq, Hearing.slot_enact, hh, ht]
  | finish committed =>
    have hd : o.dealings committed t w = o.dealings committed t' w' := by
      rw [dealings_eq, dealings_eq, ht]
      cases committed with
      | false => rfl
      | true =>
        rcases (t'.slot o.config.scope).take? with _ | ⟨pending, s⟩
        · rfl
        · exact ho.dealAll pending.toList w w'
    refine ⟨?_, ?_, ?_⟩
    · simp only [Observer.told, report_onEnd, hd]
    · simp only [calls, hd]
    · simp only [Observer.told, slot_onEnd, ht]

theorem slot_told_of_ne (o : Observer σ K) {s : String} (hs : s ≠ o.config.scope) (hook : Hook σ K)
    (t : Transaction K) (w : σ) : (o.told hook (t, w)).2.1.slot s = t.slot s := by
  cases hook with
  | change c =>
    rw [told, onChange_eq]
    exact Hearing.slot_enact_of_ne hs _ _ _
  | finish committed => exact slot_onEnd_of_ne o hs committed t w

end Observer

namespace Host

variable [DecidableEq ι]

theorem visit_congr {os : κ → Observer σ K} {v : Visit κ ι σ K} (ho : (os v.observer).IsSteady) (hv : v.hook.IsSteady)
    {h h' : Host ι σ K}
    (hh : (h.contexts v.context).slot (os v.observer).config.scope =
      (h'.contexts v.context).slot (os v.observer).config.scope) :
    (h.visit os v).1 = (h'.visit os v).1 ∧
      ((h.visit os v).2.contexts v.context).slot (os v.observer).config.scope =
        ((h'.visit os v).2.contexts v.context).slot (os v.observer).config.scope := by
  obtain ⟨hr, hc, hn⟩ := ho.told hv hh h.world h'.world
  constructor
  · simp only [visit_eq, hr, hc]
  · simpa only [visit_eq, contexts_inContext, if_true] using hn

section
variable {os : κ → Observer σ K} (hs : Function.Injective fun k => (os k).config.scope)
include hs

/-- A visit of another observer, or to another context, leaves the slot as it is. -/
theorem slot_visit_of_ne (h : Host ι σ K) {v : Visit κ ι σ K} {k : κ} {i : ι}
    (hv : ¬ (v.observer = k ∧ v.context = i)) :
    ((h.visit os v).2.contexts i).slot (os k).config.scope = (h.contexts i).slot (os k).config.scope := by
  rw [visit_eq, contexts_inContext]
  by_cases hi : i = v.context
  · subst hi
    have hk : k ≠ v.observer := fun e => hv ⟨e.symm, rfl⟩
    rw [if_pos rfl]
    exact Observer.slot_told_of_ne _ (fun e => hk (hs e)) _ _ _
  · rw [if_neg hi]

variable [DecidableEq κ] (ho : ∀ k, (os k).IsSteady)
include ho

/-- Two hosts with the same slot agree on what an observer does for a context, whatever further visits there are. -/
theorem visits_own (k : κ) (i : ι) : ∀ (vs : List (Visit κ ι σ K)) (h h' : Host ι σ K),
    (∀ v ∈ vs, v.hook.IsSteady) →
    (h.contexts i).slot (os k).config.scope = (h'.contexts i).slot (os k).config.scope →
    (h.visits os vs).1.filter (Account.isOf k i) = (h'.visits os (vs.filter (Visit.isOf k i))).1 ∧
      ((h.visits os vs).2.contexts i).slot (os k).config.scope =
        ((h'.visits os (vs.filter (Visit.isOf k i))).2.contexts i).slot (os k).config.scope
  | [], _, _, _, hh => ⟨rfl, hh⟩
  | v :: vs, h, h', hv, hh => by
    obtain ⟨hv, hvs⟩ := List.forall_mem_cons.mp hv
    have hva : Account.isOf k i (h.visit os v).1 = Visit.isOf k i v := by
      rw [visit_eq]
      rfl
    by_cases hki : v.observer = k ∧ v.context = i
    · obtain ⟨rfl, rfl⟩ := hki
      have hf : Visit.isOf v.observer v.context v = true := by simp [Visit.isOf]
      obtain ⟨ha, hn⟩ := visit_congr (ho v.observer) hv hh
      obtain ⟨has, hl⟩ := visits_own v.observer v.context vs _ _ hvs hn
      rw [List.filter_cons_of_pos hf, visits_cons, visits_cons]
      refine ⟨?_, hl⟩
      rw [List.filter_cons_of_pos (hva.trans hf), has, ha]
    · have hf : ¬ Visit.isOf k i v = true := by simpa [Visit.isOf] using hki
      obtain ⟨has, hl⟩ := visits_own k i vs _ h' hvs ((slot_visit_of_ne hs h hki).trans hh)
      rw [List.filter_cons_of_neg hf, visits_cons]
      refine ⟨?_, hl⟩
      rw [List.filter_cons_of_neg (fun e => hf (hva.symm.trans e)), has]

end

/-- What becomes of the page of an observer in a context, and what is called and reported there, is due to its own
visits alone. -/
theorem separation [DecidableEq κ] (os : κ → Observer σ K) (hs : Function.Injective fun k => (os k).config.scope)
    (ho : ∀ k, (os k).IsSteady) (events : List (Event κ ι σ K)) (he : ∀ e ∈ events, e.hook.IsSteady) (h : Host ι σ K) :
    let vs := events.flatMap (Event.visits os)
    h.run os events = (h.visits os vs).2 ∧
      ∀ k i, let own := vs.filter (Visit.isOf k i)
        ((h.run os events).contexts i).page? (os k).config.scope =
            ((h.visits os own).2.contexts i).page? (os k).config.scope ∧
          (h.visits os vs).1.filter (Account.isOf k i) = (h.visits os own).1 := by
  intro vs
  have hv : ∀ v ∈ vs, v.hook.IsSteady := by
    intro v hv
    obtain ⟨e, hm, hv⟩ := List.mem_flatMap.mp hv
    exact Event.hook_of_mem_visits hv ▸ he e hm
  refine ⟨run_eq_visits os h events, fun k i => ?_⟩
  obtain ⟨ha, hl⟩ := visits_own hs ho k i vs h h hv rfl
  refine ⟨?_, ha⟩
  rw [run_eq_visits]
  exact congrArg Slot.page? hl

theorem separation_pair :
    let o (scope : String) (target : Outcome Fault ReferenceSystem) : Observer (List (Notice Rat)) Rat :=
      ⟨.ofScope scope, ⟨fun s => .always (.value (.ofList [s])), fun _ => .always target⟩,
        fun _ es => .always (.value es.head?), fun _ _ => .crash none⟩
    let os (k : Bool) :=
      if k then o "tiles" (.value (.horizontal "plane")) else o "bounds" (.failure (.resolution "gone"))
    let e : Extent Rat := ⟨⟨⟨0, 1⟩, ⟨0, 1⟩⟩, none, .horizontal "plane"⟩
    let events : List (Event Bool Nat (List (Notice Rat)) Rat) :=
      [.fanOut [false, true] 0 (.change ⟨"a", .update, .preUpdate, .ofExtent e⟩), .direct ⟨true, 0, .finish true⟩]
    let h : Host Nat (List (Notice Rat)) Rat := ⟨fun _ => .start ⟨0⟩, []⟩
    (Function.Injective fun k => (os k).config.scope) ∧ (∀ k, (os k).IsSteady) ∧ (∀ e ∈ events, e.hook.IsSteady) ∧
      let vs := events.flatMap (Event.visits os)
      (h.visits os vs).1.filter (Account.isOf true 0) = (h.visits os (vs.filter (Visit.isOf true 0))).1 := by
  intro o os e events h
  have hs : Function.Injective fun k => (os k).config.scope := by
    intro a b hab
    cases a <;> cases b <;> first | rfl | exact absurd hab (by decide)
  have ho : ∀ k, (os k).IsSteady := by
    intro k
    cases k <;> exact ⟨fun _ _ _ => rfl, fun _ _ _ => rfl, fun _ _ _ _ => rfl, fun _ _ _ _ => rfl⟩
  have he : ∀ e ∈ events, e.hook.IsSteady := by
    intro e hm
    rcases List.mem_cons.mp hm with rfl | hm
    · exact fun _ _ => rfl
    · rw [List.mem_singleton.mp hm]
      exact trivial
  exact ⟨hs, ho, he, ((separation os hs ho events he h).2 true 0).2⟩

end Host

end ExtentLedger
