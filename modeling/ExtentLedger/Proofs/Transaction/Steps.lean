import ExtentLedger.Listener.Life
import ExtentLedger.Proofs.Transaction.Pages
import ExtentLedger.Proofs.Transaction.Pending

/-!
# What the single steps do

Each step either sets the page of its scope or leaves the transaction as it is. An observer that notes a contribution in
single steps, with what it did staying done when a later step is refused, ends up where `Transaction.note` does: only the
first of its steps, or the first extent on a page that was dispatched, can be refused.
-/

namespace ExtentLedger

variable {K : Type}

theorem Page.append_of_ne_dispatched {p : Page K} (hp : p.state ≠ .dispatched) (entity : Entity) (e : Extent K) :
    p.append entity e = .ok ⟨.collecting, p.regions.noteAll [entity] e⟩ := by
  rw [append, if_neg hp]
  rfl

theorem Page.append_of_dispatched {p : Page K} (hp : p.state = .dispatched) (entity : Entity) (e : Extent K) :
    ∃ f, p.append entity e = .error f := by
  rw [append, if_pos hp]
  exact ⟨_, rfl⟩

theorem Page.appendAll_eq_error {p : Page K} {es : List Entity} {e : Extent K} {f : Fault} :
    p.appendAll es e = .error f ↔ p.state = .dispatched ∧ ∃ entity rest, es = entity :: rest ∧
      f = .dispatch ("cannot record dirty region for '" ++ entity ++ "': namespace already dispatched") := by
  cases es with
  | nil => simp [appendAll, pure, Except.pure]
  | cons x es =>
    by_cases hp : p.state = .dispatched
    · simp [appendAll, append, hp, bind, Except.bind, eq_comm]
    · simp [appendAll_of_ne_dispatched hp (List.cons_ne_nil x es), hp]

theorem Page.appendAll_of_dispatched {p : Page K} (hp : p.state = .dispatched) {es : List Entity} (hes : es ≠ [])
    (e : Extent K) : ∃ f, p.appendAll es e = .error f := by
  obtain ⟨x, es, rfl⟩ := List.exists_cons_of_ne_nil hes
  exact ⟨_, appendAll_eq_error.mpr ⟨hp, x, es, rfl, rfl⟩⟩

theorem Regions.noteAll_append (r : Regions K) (es es' : List Entity) (e : Extent K) :
    r.noteAll (es ++ es') e = (r.noteAll es e).noteAll es' e := by
  rw [noteAll, List.foldl_append]
  rfl

/-! ## Single steps -/

namespace LedgerStep

variable {t : Transaction K} (scope : String) (entity : Entity) (e : Extent K)

theorem perform_attach (ht : t.isBlocked = false) :
    ∃ t', (attach : LedgerStep K).perform t = (.done, t') ∧ t'.isBlocked = false ∧ t'.page? = t.page? := by
  obtain ⟨t', ha, hb, hp, -⟩ := Transaction.attach_eq_ok ht
  refine ⟨t', ?_, hb, hp⟩
  rw [perform, ha]

theorem perform_openPage (ht : t.isBlocked = false) :
    (openPage scope : LedgerStep K).perform t = (.done, t.setPage scope ((t.page? scope).getD .blank)) := by
  rw [perform, Transaction.openPage_of_free ht]

theorem perform_append_of_ne_dispatched (ht : t.isBlocked = false)
    (hp : ((t.page? scope).getD .blank).state ≠ .dispatched) :
    (append scope entity e).perform t =
      (.done, t.setPage scope ⟨.collecting, ((t.page? scope).getD .blank).regions.noteAll [entity] e⟩) := by
  rw [perform, Transaction.openPage_of_free ht]
  simp only [Page.append_of_ne_dispatched hp]
  rw [Transaction.setPage_setPage]

/-- Where the page was dispatched it is there already, so opening it has changed nothing. -/
theorem perform_append_of_dispatched (ht : t.isBlocked = false)
    (hp : ((t.page? scope).getD .blank).state = .dispatched) :
    ∃ f, (append scope entity e).perform t = (.refused f, t) := by
  obtain ⟨f, hf⟩ := Page.append_of_dispatched hp entity e
  refine ⟨f, ?_⟩
  rw [perform, Transaction.openPage_of_free ht]
  simp only [hf]
  rw [Transaction.setPage_getD_of_dispatched hp]

theorem isRefused_append_iff (ht : t.isBlocked = false) :
    ((append scope entity e).perform t).1.isRefused = true ↔ ∃ p, t.page? scope = some p ∧ p.state = .dispatched := by
  constructor
  · intro h
    by_contra hn
    have hp : ((t.page? scope).getD .blank).state ≠ .dispatched :=
      Transaction.ne_dispatched.mpr fun p hp hd => hn ⟨p, hp, hd⟩
    rw [perform_append_of_ne_dispatched scope entity e ht hp] at h
    cases h
  · intro h
    obtain ⟨p, hp, hd⟩ := h
    obtain ⟨f, h⟩ := perform_append_of_dispatched scope entity e ht (by simpa [hp] using hd)
    rw [h]
    rfl

theorem snd_append_of_isRefused (ht : t.isBlocked = false)
    (h : ((append scope entity e).perform t).1.isRefused = true) : ((append scope entity e).perform t).2 = t := by
  obtain ⟨p, hp, hd⟩ := (isRefused_append_iff scope entity e ht).mp h
  obtain ⟨f, hf⟩ := perform_append_of_dispatched scope entity e ht (by simpa [hp] using hd)
  rw [hf]

theorem perform_take : (take scope : LedgerStep K).perform t =
    match t.page? scope with
    | some p => (.taken p.regions, t.setPage scope ⟨.dispatched, ∅⟩)
    | none => (.absent, t) := by
  rw [perform, Transaction.takePage?_eq]
  cases t.page? scope <;> rfl

/-! ## Several steps -/

theorem performAll_nil (t : Transaction K) : performAll [] t = ([], t) := rfl

theorem performAll_cons_of_refused {s : LedgerStep K} {f : Fault} {t' : Transaction K}
    (h : s.perform t = (.refused f, t')) (ss : List (LedgerStep K)) :
    performAll (s :: ss) t = ([(s, .refused f)], t') := by
  rw [performAll, h]
  rfl

theorem performAll_cons {s : LedgerStep K} {answer : LedgerAnswer K} {t' : Transaction K}
    (h : s.perform t = (answer, t')) (ha : answer.isRefused = false) (ss : List (LedgerStep K)) :
    performAll (s :: ss) t = ((s, answer) :: (performAll ss t').1, (performAll ss t').2) := by
  rw [performAll, h]
  simp [ha]

theorem performAll_appends {p : Page K} (hp : p.state ≠ .dispatched) (es : List Entity) :
    ∀ {t : Transaction K}, t.isBlocked = false → t.page? scope = some p →
      (performAll (es.map fun x => append scope x e) t).2 =
        t.setPage scope (if es = [] then p else ⟨.collecting, p.regions.noteAll es e⟩) := by
  induction es generalizing p with
  | nil =>
    intro t ht hq
    simp [performAll_nil, Transaction.setPage_self hq]
  | cons x es ih =>
    intro t ht hq
    have hp' : ((t.page? scope).getD .blank).state ≠ .dispatched := by rwa [hq]
    rw [List.map_cons, performAll_cons (perform_append_of_ne_dispatched scope x e ht hp') rfl, hq, Option.getD_some]
    simp only
    -- Whatever the page was, it collects from the first extent on.
    rw [ih (p := ⟨.collecting, p.regions.noteAll [x] e⟩) (by simp) (Transaction.isBlocked_setPage _ _ _) (by simp),
      Transaction.setPage_setPage, if_neg (List.cons_ne_nil x es)]
    by_cases hes : es = []
    · subst hes
      rfl
    · rw [if_neg hes, ← Regions.noteAll_append]
      rfl

end LedgerStep

/-! ## The steps of an observer -/

/-- To note a contribution in single steps is to note it at once. -/
theorem Contribution.performAll_ledgerSteps {c : Contribution K} (hc : c.entities.isEmpty = false) (scope : String)
    (t : Transaction K) :
    (LedgerStep.performAll (c.ledgerSteps scope) t).2 =
      match t.note scope c.entities.toList c.extent with
      | .ok t' => t'
      | .error _ => t := by
  have hne : c.entities.toList ≠ [] := by simpa using hc
  unfold ledgerSteps
  cases hb : t.isBlocked with
  | true =>
    have hf := Transaction.note_of_blocked hb scope c.entities.toList c.extent
    obtain ⟨g, hg⟩ := Transaction.openPage_of_blocked hb scope
    have ho : (LedgerStep.openPage scope).perform t = (.refused g, t) := by
      rw [LedgerStep.perform, hg]
    rw [LedgerStep.performAll_cons_of_refused ho, hf]
  | false =>
    rw [LedgerStep.performAll_cons (LedgerStep.perform_openPage scope hb) rfl, Transaction.note_of_free hb]
    simp only
    by_cases hp : ((t.page? scope).getD .blank).state = .dispatched
    · -- The page is there, so that opening it changes nothing, and the first extent is refused.
      obtain ⟨f, hf⟩ := Page.appendAll_of_dispatched hp hne c.extent
      obtain ⟨x, es, hes⟩ := List.exists_cons_of_ne_nil hne
      obtain ⟨g, hg⟩ := LedgerStep.perform_append_of_dispatched scope x c.extent hb hp
      rw [hf, Transaction.setPage_getD_of_dispatched hp, hes, List.map_cons, LedgerStep.performAll_cons_of_refused hg]
      rfl
    · rw [Page.appendAll_of_ne_dispatched hp hne,
        LedgerStep.performAll_appends scope c.extent hp c.entities.toList (Transaction.isBlocked_setPage _ _ _) (by simp),
        if_neg hne, Transaction.setPage_setPage]
      rfl

/-! ## What is done aside -/

theorem Transaction.slot_of_aside {σ : Type} (a : Aside σ K) (s : Scene σ K) (scope : String) :
    (a.run s).1.slot scope = s.1.slot scope := by
  have hl : (a.run s).1.ledger? = s.1.ledger? := by
    unfold ledger? get?
    rw [a.keeps]
  have hc : (a.run s).1.contains ledgerKey = s.1.contains ledgerKey := by
    simp only [contains, Std.ExtTreeMap.contains_eq_isSome_getElem?, a.keeps]
  unfold slot isBlocked page?
  rw [hl, hc]

end ExtentLedger
