import ExtentLedger.Attempt
import Mathlib.Data.List.Basic

/-!
# Pure attempts, and what attempts leave alone

A pure attempt comes to the same outcome in every state and leaves the state as it is. An attempt keeps a view of the
state when it leaves that view as it is, whatever it does to the rest. Both pass from steps to their sequences.
-/

namespace ExtentLedger

theorem bind_eq_ok {ε α β : Type} {x : Except ε α} {f : α → Except ε β} {b : β} :
    (x >>= f) = .ok b ↔ ∃ a, x = .ok a ∧ f a = .ok b := by
  cases x with
  | ok a => simp [bind, Except.bind]
  | error e => simp [bind, Except.bind]

def Outcome.mapError {ε ε' α : Type} (f : ε → ε') : Outcome ε α → Outcome ε' α
  | value a => .value a
  | failure e => .failure (f e)
  | crash c => .crash c

def Outcome.found? {ε α : Type} : Outcome ε (Option α) → Option α
  | value a => a
  | failure _ => none
  | crash _ => none

theorem Outcome.found?_eq_some {ε α : Type} {r : Outcome ε (Option α)} {a : α} :
    r.found? = some a ↔ r = .value (some a) := by
  cases r <;> simp [found?]

namespace Attempt

variable {σ τ ρ ε ε' α β : Type}

def IsPure (x : Attempt σ ε α) : Prop := ∃ r, x = always r

def Keeps (view : σ → ρ) (x : Attempt σ ε α) : Prop := ∀ w, view (x w).2 = view w

/-! ## Values -/

theorem bind_of_value {x : Attempt σ ε α} {w w' : σ} {a : α} (h : x w = (.value a, w')) (f : α → Attempt σ ε β) :
    (x >>= f) w = f a w' := by
  rw [bind_apply, h]

theorem bind_eq_value {x : Attempt σ ε α} {f : α → Attempt σ ε β} {w : σ} {b : β} :
    ((x >>= f) w).1 = .value b ↔ ∃ a, (x w).1 = .value a ∧ (f a (x w).2).1 = .value b := by
  rw [bind_apply]
  rcases x w with ⟨a | e | c, w'⟩ <;> simp

theorem ofExcept_eq_value {r : Except ε α} {w : σ} {a : α} :
    ((ofExcept r : Attempt σ ε α) w).1 = .value a ↔ r = .ok a := by
  cases r with
  | ok b => simp [ofExcept]
  | error e => simp [ofExcept, fail]

/-! ## Purity -/

@[simp] theorem always_apply (r : Outcome ε α) (w : σ) : always r w = (r, w) := rfl

theorem mapError_always (f : ε → ε') (r : Outcome ε α) :
    (always r : Attempt σ ε α).mapError f = always (r.mapError f) := by
  cases r <;> rfl

namespace IsPure

theorem always (r : Outcome ε α) : (Attempt.always r : Attempt σ ε α).IsPure := ⟨r, rfl⟩

theorem pure (a : α) : (Pure.pure a : Attempt σ ε α).IsPure := ⟨.value a, rfl⟩

theorem fail (e : ε) : (Attempt.fail e : Attempt σ ε α).IsPure := ⟨.failure e, rfl⟩

theorem ofExcept (r : Except ε α) : (Attempt.ofExcept r : Attempt σ ε α).IsPure := by
  cases r with
  | ok a => exact pure a
  | error e => exact fail e

theorem bind {x : Attempt σ ε α} (hx : x.IsPure) {f : α → Attempt σ ε β} (hf : ∀ a, (f a).IsPure) :
    (x >>= f).IsPure := by
  obtain ⟨r, rfl⟩ := hx
  cases r with
  | value a => exact hf a
  | failure e => exact fail e
  | crash c => exact ⟨.crash c, rfl⟩

theorem apply {x : Attempt σ ε α} (hx : x.IsPure) (w : σ) : x w = ((x w).1, w) := by
  obtain ⟨r, rfl⟩ := hx
  rfl

theorem outcome {x : Attempt σ ε α} (hx : x.IsPure) (w w' : σ) : (x w).1 = (x w').1 := by
  obtain ⟨r, rfl⟩ := hx
  rfl

theorem keeps {x : Attempt σ ε α} (hx : x.IsPure) (view : σ → ρ) : x.Keeps view := by
  obtain ⟨r, rfl⟩ := hx
  exact fun _ => rfl

end IsPure

/-! ## Views -/

namespace Keeps

variable {view : σ → ρ}

theorem view_recover (view : σ → ρ) (x : Attempt σ ε α) {f : ε → Attempt σ ε' α} (hf : ∀ e, (f e).Keeps view) (w : σ) :
    view (x.recover f w).2 = view (x w).2 := by
  unfold Attempt.recover
  rcases x w with ⟨a | e | c, w'⟩
  · rfl
  · exact hf e w'
  · rfl

theorem bind {x : Attempt σ ε α} (hx : x.Keeps view) {f : α → Attempt σ ε β} (hf : ∀ a, (f a).Keeps view) :
    (x >>= f).Keeps view := by
  intro w
  have hw := hx w
  rw [bind_apply]
  generalize x w = y at hw ⊢
  rcases y with ⟨a | e | c, w'⟩
  · exact (hf a w').trans hw
  · exact hw
  · exact hw

theorem recover {x : Attempt σ ε α} (hx : x.Keeps view) {f : ε → Attempt σ ε' α} (hf : ∀ e, (f e).Keeps view) :
    (x.recover f).Keeps view :=
  fun w => (view_recover view x hf w).trans (hx w)

theorem mapError {x : Attempt σ ε α} (hx : x.Keeps view) (f : ε → ε') : (x.mapError f).Keeps view :=
  hx.recover fun e => (IsPure.fail (f e)).keeps view

theorem update {f : σ → σ} (hf : ∀ w, view (f w) = view w) : (Attempt.update f : Attempt σ ε Unit).Keeps view := hf

theorem onSecond (x : Attempt σ ε α) : (x.onSecond : Attempt (τ × σ) ε α).Keeps Prod.fst := fun _ => rfl

end Keeps

end Attempt

end ExtentLedger
