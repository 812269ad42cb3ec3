import ExtentLedger.Proofs.Attempt.Pure
import ExtentLedger.Proofs.Observer.Hooks
import ExtentLedger.Proofs.Transaction.Slot

/-!
# What a hook leaves alone

A hook changes the slot of its observer in a way that its course determines, and no other slot. Of the state of the
collaborators it leaves alone what the capabilities, the records and the journal leave alone.
-/

namespace ExtentLedger

variable {σ ρ K : Type}

/-! ## Slots -/

namespace Slot

def hear (s : Slot K) (h : Hearing K) : Slot K :=
  match h.contribution? with
  | some c =>
    match s.note c.entities.toList c.extent with
    | .ok s => s
    | .error _ => s
  | none => s

def finish (s : Slot K) (committed : Bool) : Slot K :=
  if committed then s.take?.elim s Prod.snd else s

end Slot

variable [Journal σ K]

theorem Hearing.slot_enact (scope : String) (h : Hearing K) (t : Transaction K) (w : σ) :
    (h.enact scope (t, w)).1.slot scope = (t.slot scope).hear h := by
  unfold enact Slot.hear
  cases h.contribution? with
  | none => rfl
  | some c =>
    simp only [← Transaction.slot_note]
    cases t.note scope c.entities.toList c.extent <;> rfl

theorem Hearing.slot_enact_of_ne {scope s : String} (hs : s ≠ scope) (h : Hearing K) (t : Transaction K) (w : σ) :
    (h.enact scope (t, w)).1.slot s = t.slot s := by
  unfold enact
  cases h.contribution? with
  | none => rfl
  | some c =>
    simp only
    cases hn : t.note scope c.entities.toList c.extent with
    | error f => rfl
    | ok t' => exact Transaction.slot_note_of_ne hn hs

namespace Observer

theorem slot_onEnd (o : Observer σ K) (committed : Bool) (t : Transaction K) (w : σ) :
    (o.onEnd committed (t, w)).2.1.slot o.config.scope = (t.slot o.config.scope).finish committed := by
  rw [onEnd_eq]
  unfold Slot.finish
  cases committed with
  | false => rfl
  | true =>
    rw [← Transaction.slot_takePage?]
    cases t.takePage? o.config.scope <;> rfl

theorem slot_onEnd_of_ne (o : Observer σ K) {s : String} (hs : s ≠ o.config.scope) (committed : Bool)
    (t : Transaction K) (w : σ) : (o.onEnd committed (t, w)).2.1.slot s = t.slot s := by
  rw [onEnd_eq]
  cases committed with
  | false => rfl
  | true =>
    cases ht : t.takePage? o.config.scope with
    | none => rfl
    | some x =>
      obtain ⟨r, t'⟩ := x
      exact Transaction.slot_takePage?_of_ne ht hs

theorem dealings_eq (o : Observer σ K) (committed : Bool) (t : Transaction K) (w : σ) :
    o.dealings committed t w =
      match committed, (t.slot o.config.scope).take? with
      | true, some (pending, _) => (o.dealAll pending.toList w).1
      | _, _ => [] := by
  unfold dealings
  cases committed with
  | false => rfl
  | true =>
    rw [← Transaction.slot_takePage?]
    cases t.takePage? o.config.scope <;> rfl

end Observer

/-! ## Views of the state -/

structure Observer.Keeps (view : σ → ρ) (o : Observer σ K) : Prop where
  affected : ∀ source, (o.resolver.affected source).Keeps view
  target : ∀ entity, (o.resolver.target entity).Keeps view
  merger : ∀ target es, (o.merger target es).Keeps view
  handler : ∀ entity e, (o.handler entity e).Keeps view

section
variable {view : σ → ρ}

omit [Journal σ K] in
theorem Observer.view_hear {o : Observer σ K} {c : Change σ K} (ha : (o.resolver.affected c.source).Keeps view)
    (hc : c.records.Keeps view) (w : σ) : view (o.hear c w).2 = view w := by
  have ha := ha w
  unfold Observer.hear
  by_cases hk : o.config.concerns c = true
  · rw [if_pos hk]
    generalize o.resolver.affected c.source w = x at ha ⊢
    rcases x with ⟨es | e | b, w'⟩
    · by_cases he : es.isEmpty = true
      · simpa only [he, if_true] using ha
      · simp only [he, Bool.false_eq_true, if_false]
        exact (hc w').trans ha
    · exact ha
    · exact ha
  · rw [if_neg hk]

omit [Journal σ K] in
theorem Observer.Keeps.deal {o : Observer σ K} (ho : o.Keeps view) (entity : Entity) (es : List (Extent K)) (w : σ) :
    view (o.deal entity es w).2 = view w := by
  have ht := ho.target entity w
  unfold Observer.deal
  generalize o.resolver.target entity w = x at ht ⊢
  rcases x with ⟨r | e | b, w₁⟩
  · have hm := ho.merger r es w₁
    simp only
    generalize o.merger r es w₁ = y at hm ⊢
    rcases y with ⟨(_ | m) | e | b, w₂⟩
    · exact hm.trans ht
    · exact (ho.handler entity m w₂).trans (hm.trans ht)
    · exact hm.trans ht
    · exact hm.trans ht
  · exact ht
  · exact ht

omit [Journal σ K] in
/-- Where the target is known and the merger is pure, only the handler changes anything. -/
theorem Observer.snd_deal {o : Observer σ K} {entity : Entity} {es : List (Extent K)} {target : ReferenceSystem} {w : σ}
    (ht : o.resolver.target entity w = (.value target, w)) (hm : (o.merger target es).IsPure) (w₀ : σ) :
    (o.deal entity es w).2 = (o.merger target es w₀).1.found?.elim w fun m => (o.handler entity m w).2 := by
  unfold deal
  rw [ht]
  simp only
  rw [hm.apply w, hm.outcome w w₀]
  rcases (o.merger target es w₀).1 with (_ | m) | f | b <;> rfl

variable (view) (hj : ∀ (n : Notice K) (w : σ), view (Journal.enter n w) = view w)
include hj

theorem Dealing.view_enact (d : Dealing K) (w : σ) : view (d.enact w) = view w := by
  unfold enact
  cases d.fate.fault? with
  | none => rfl
  | some f => exact hj _ w

theorem Hearing.view_enact (scope : String) (h : Hearing K) (t : Transaction K) (w : σ) :
    view (h.enact scope (t, w)).2 = view w := by
  unfold enact
  cases h.contribution? with
  | none =>
    cases h.fault? with
    | none => rfl
    | some f => exact hj _ w
  | some c =>
    simp only
    cases t.note scope c.entities.toList c.extent with
    | ok t' => exact hj _ w
    | error f => exact hj _ w

namespace Observer

theorem Keeps.dealAll {o : Observer σ K} (ho : o.Keeps view) :
    ∀ (l : List (Entity × List (Extent K))) (w : σ), view (o.dealAll l w).2 = view w
  | [], _ => rfl
  | (entity, es) :: l, w => by
    have hd := ho.deal entity es w
    exact (ho.dealAll l _).trans ((Dealing.view_enact view hj _ _).trans hd)

theorem view_onChange {o : Observer σ K} {c : Change σ K} (ha : (o.resolver.affected c.source).Keeps view)
    (hc : c.records.Keeps view) (t : Transaction K) (w : σ) : view (o.onChange c (t, w)).2 = view w := by
  rw [onChange_eq]
  exact (Hearing.view_enact view hj _ _ _ _).trans (view_hear ha hc w)

theorem view_onEnd (o : Observer σ K) (t : Transaction K) (w : σ) :
    view (o.onEnd true (t, w)).2.2 =
      view (o.dealAll ((t.takePage? o.config.scope).elim ∅ Prod.fst).toList w).2 := by
  rw [onEnd_eq]
  cases t.takePage? o.config.scope with
  | none =>
    rw [Option.elim_none, Std.ExtTreeMap.toList_eq_nil_iff.mpr rfl]
    rfl
  | some x => exact hj _ _

theorem Keeps.onEnd {o : Observer σ K} (ho : o.Keeps view) (committed : Bool) (t : Transaction K) (w : σ) :
    view (o.onEnd committed (t, w)).2.2 = view w := by
  cases committed with
  | false => rw [onEnd_eq]
  | true => rw [view_onEnd view hj, ho.dealAll view hj]

end Observer

end

end ExtentLedger
