import ExtentLedger.Listener.Failures
import ExtentLedger.Proofs.Listener.FanOut
import ExtentLedger.Proofs.Observer.Waiting

/-!
# What observers enter into the journal

The notices of a hook are determined by its course and by whether the transaction notes what was measured. Watching adds
exactly these notices.
-/

namespace ExtentLedger

variable {σ K ε α : Type}

@[simp] theorem Attempt.watched_apply (x : Attempt σ ε α) (ns : List (Notice K)) (w : σ) :
    x.watched ⟨ns, w⟩ = ((x w).1, ⟨ns, (x w).2⟩) := rfl

def Hearing.notices (scope : String) (t : Transaction K) (h : Hearing K) : List (Notice K) :=
  match h.contribution? with
  | some c =>
    match t.note scope c.entities.toList c.extent with
    | .ok _ => [.recorded c.entities.size]
    | .error f => [.collectFailed f]
  | none => h.fault?.toList.map .collectFailed

def Dealing.notices (d : Dealing K) : List (Notice K) := d.fate.fault?.toList.map (.dispatchFailed d.entity)

section
variable [Journal σ K]

theorem Hearing.enact_watched (scope : String) (h : Hearing K) (t : Transaction K) (ns : List (Notice K)) (w : σ) :
    h.enact scope (t, (⟨ns, w⟩ : Watched σ K)) =
      ((h.enact scope (t, w)).1, ⟨ns ++ h.notices scope t, (h.enact scope (t, w)).2⟩) := by
  unfold enact notices
  cases h.contribution? with
  | none => cases h.fault? <;> simp [Journal.enter]
  | some d =>
    simp only
    cases t.note scope d.entities.toList d.extent <;> rfl

theorem Dealing.enact_watched (d : Dealing K) (ns : List (Notice K)) (w : σ) :
    d.enact (⟨ns, w⟩ : Watched σ K) = ⟨ns ++ d.notices, d.enact w⟩ := by
  unfold enact notices
  cases d.fate.fault? <;> simp [Journal.enter]

end

namespace Observer

theorem hear_watched (o : Observer σ K) (c : Change σ K) (ns : List (Notice K)) (w : σ) :
    o.watched.hear c.watched ⟨ns, w⟩ = ((o.hear c w).1, ⟨ns, (o.hear c w).2⟩) := by
  unfold hear
  by_cases hc : o.config.concerns c = true
  · rw [if_pos (show o.watched.config.concerns c.watched = true from hc), if_pos hc]
    simp only [watched, Change.watched, Attempt.watched_apply]
    rcases o.resolver.affected c.source w with ⟨es | e | b, w₁⟩
    · by_cases he : es.isEmpty = true <;> simp [he]
    · rfl
    · rfl
  · rw [if_neg (show ¬ o.watched.config.concerns c.watched = true from hc), if_neg hc]

theorem deal_watched (o : Observer σ K) (entity : Entity) (es : List (Extent K)) (ns : List (Notice K)) (w : σ) :
    o.watched.deal entity es ⟨ns, w⟩ = ((o.deal entity es w).1, ⟨ns, (o.deal entity es w).2⟩) := by
  unfold deal
  simp only [watched, Attempt.watched_apply]
  rcases o.resolver.target entity w with ⟨r | e | b, w₁⟩
  · rcases hm : o.merger r es w₁ with ⟨(_ | m) | e | b, w₂⟩ <;> simp [hm]
  · rfl
  · rfl

variable [Journal σ K]

theorem dealAll_watched (o : Observer σ K) : ∀ (l : List (Entity × List (Extent K))) (ns : List (Notice K)) (w : σ),
    o.watched.dealAll l ⟨ns, w⟩ =
      ((o.dealAll l w).1, ⟨ns ++ (o.dealAll l w).1.flatMap Dealing.notices, (o.dealAll l w).2⟩)
  | [], _, _ => by simp [dealAll]
  | (entity, es) :: l, ns, w => by
    simp only [dealAll, deal_watched, Dealing.enact_watched, dealAll_watched o l, List.flatMap_cons, List.append_assoc]

theorem dealings_watched (o : Observer σ K) (committed : Bool) (t : Transaction K) (ns : List (Notice K)) (w : σ) :
    o.watched.dealings committed t ⟨ns, w⟩ = o.dealings committed t w := by
  cases committed with
  | false => rfl
  | true =>
    rw [dealings_true, dealings_true, dealAll_watched]
    rfl

theorem calls_watched (o : Observer σ K) (hook : Hook σ K) (t : Transaction K) (ns : List (Notice K)) (w : σ) :
    o.watched.calls hook.watched (t, ⟨ns, w⟩) = o.calls hook (t, w) := by
  cases hook with
  | change c =>
    simp only [calls, Hook.watched, hear_watched]
    rfl
  | finish committed => simp only [calls, Hook.watched, dealings_watched]

theorem onChange_watched (o : Observer σ K) (c : Change σ K) (t : Transaction K) (ns : List (Notice K)) (w : σ) :
    o.watched.onChange c.watched (t, ⟨ns, w⟩) =
      ((o.onChange c (t, w)).1,
        ⟨ns ++ (o.hear c w).1.notices o.config.scope t, (o.onChange c (t, w)).2⟩) := by
  rw [onChange_eq, onChange_eq, hear_watched]
  exact Hearing.enact_watched _ _ _ _ _

def endNotices (o : Observer σ K) (committed : Bool) (t : Transaction K) (w : σ) : List (Notice K) :=
  (o.dealings committed t w).flatMap Dealing.notices ++
    if committed && (t.takePage? o.config.scope).isSome then
      [.dispatchFinished (.ofDealings (o.dealings committed t w))]
    else []

theorem onEnd_watched (o : Observer σ K) (committed : Bool) (t : Transaction K) (ns : List (Notice K)) (w : σ) :
    o.watched.onEnd committed (t, ⟨ns, w⟩) =
      ((o.onEnd committed (t, w)).1, ((o.onEnd committed (t, w)).2.1,
        ⟨ns ++ o.endNotices committed t w, (o.onEnd committed (t, w)).2.2⟩)) := by
  rw [onEnd_eq, onEnd_eq]
  unfold endNotices dealings
  cases committed with
  | false => simp
  | true =>
    rw [show o.watched.config.scope = o.config.scope from rfl]
    rcases t.takePage? o.config.scope with _ | ⟨pending, t'⟩
    · simp
    · simp only [dealAll_watched]
      simp [Journal.enter]

theorem notices_change (o : Observer σ K) (c : Change σ K) (t : Transaction K) (w : σ) :
    o.notices (.change c) (t, w) = (o.hear c w).1.notices o.config.scope t := by
  simp only [notices, told, Hook.watched, onChange_watched, List.nil_append]

theorem notices_finish (o : Observer σ K) (committed : Bool) (t : Transaction K) (w : σ) :
    o.notices (.finish committed) (t, w) = o.endNotices committed t w := by
  simp only [notices, told, Hook.watched, onEnd_watched, List.nil_append]

/-- Watching adds the notices of the hook to those before, and changes nothing else. -/
theorem told_watched (o : Observer σ K) (hook : Hook σ K) (t : Transaction K) (ns : List (Notice K)) (w : σ) :
    o.watched.told hook.watched (t, ⟨ns, w⟩) =
      ((o.told hook (t, w)).1,
        ((o.told hook (t, w)).2.1, ⟨ns ++ o.notices hook (t, w), (o.told hook (t, w)).2.2⟩)) := by
  cases hook with
  | change c => simp only [told, Hook.watched, onChange_watched, notices_change]
  | finish committed => simp only [told, Hook.watched, onEnd_watched, notices_finish]

end Observer

end ExtentLedger
