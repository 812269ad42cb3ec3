import ExtentLedger.Proofs.Observer.Frame
import ExtentLedger.Proofs.Transaction.Steps

/-!
# All or nothing

A change is noted for all the entities that it affects or not at all, and nothing but the page of the observer's scope
shows that it was. The capabilities may fail or break off, the place of the ledger may be taken, the page may have been
dispatched: then the transaction is left exactly as it was. The end of a transaction empties the page, if there is one.
-/

namespace ExtentLedger

variable {κ σ K : Type}

/-- What has to come together for a change to be noted: the entities `es` that it affects, and the extent `e` of its
records. -/
structure Observer.Notes (o : Observer σ K) (c : Change σ K) (t : Transaction K) (w : σ) (es : EntitySet)
    (e : Extent K) : Prop where
  handles : o.config.handles c.operation = true
  phase : c.phase ≠ .postInsert
  affected : (o.resolver.affected c.source w).1 = .value es
  nonempty : es.isEmpty = false
  records : (c.records (o.resolver.affected c.source w).2).1 = .value (some e)
  free : t.contains Transaction.ledgerKey = false ∨ ∃ l, t.ledger? = some l
  undispatched : ∀ p, t.page? o.config.scope = some p → p.state ≠ .dispatched

theorem Phase.repeatsEarlier_eq_false {p : Phase} : p.repeatsEarlier = false ↔ p ≠ .postInsert := by
  cases p <;> simp [repeatsEarlier]

theorem Transaction.isBlocked_eq_false {t : Transaction K} :
    t.isBlocked = false ↔ t.contains ledgerKey = false ∨ ∃ l, t.ledger? = some l := by
  unfold isBlocked
  cases t.contains ledgerKey <;> cases t.ledger? <;> simp

theorem Regions.getElem?_noteAll_toList (r : Regions K) (es : EntitySet) (e : Extent K) (x : Entity) :
    (r.noteAll es.toList e)[x]? = if es.contains x then some (r.getD x [] ++ [e]) else r[x]? := by
  rw [getElem?_noteAll (Contribution.nodup_entities ⟨es, e⟩)]
  simp only [Std.ExtTreeSet.mem_toList, Std.ExtTreeSet.mem_iff_contains]

/-! ## Hearing of a change -/

/-- The course of a change ends in a contribution exactly when it is looked into and both answers are there. -/
theorem Observer.contribution?_hear {o : Observer σ K} {c : Change σ K} {w : σ} {d : Contribution K} :
    (o.hear c w).1.contribution? = some d ↔
      o.config.concerns c = true ∧ (o.resolver.affected c.source w).1 = .value d.entities ∧
        d.entities.isEmpty = false ∧ (c.records (o.resolver.affected c.source w).2).1 = .value (some d.extent) := by
  unfold hear
  by_cases hc : o.config.concerns c = true
  · rw [if_pos hc]
    rcases o.resolver.affected c.source w with ⟨es | f | b, w'⟩
    · by_cases he : es.isEmpty = true
      · simp only [he, if_true, Hearing.contribution?]
        constructor
        · intro h
          cases h
        · intro h
          obtain ⟨-, h, hd, -⟩ := h
          cases h
          exact absurd (he.symm.trans hd) Bool.true_eq_false.mp
      · simp only [he, Bool.false_eq_true, if_false]
        rcases hr : c.records w' with ⟨(_ | e) | f | b, w''⟩
        · simp [Hearing.contribution?, hr]
        · simp only [Hearing.contribution?, hr, Option.some.injEq, Outcome.value.injEq]
          constructor
          · intro h
            subst h
            exact ⟨hc, rfl, by simpa using he, rfl⟩
          · intro h
            obtain ⟨-, rfl, -, rfl⟩ := h
            rfl
        · simp [Hearing.contribution?, hr]
        · simp [Hearing.contribution?, hr]
    · simp [Hearing.contribution?]
    · simp [Hearing.contribution?]
  · rw [if_neg hc]
    simp [Hearing.contribution?, hc]

theorem Observer.notes_iff {o : Observer σ K} {c : Change σ K} {t : Transaction K} {w : σ} {es : EntitySet}
    {e : Extent K} :
    o.Notes c t w es e ↔ (o.hear c w).1.contribution? = some ⟨es, e⟩ ∧ t.isBlocked = false ∧
      ((t.page? o.config.scope).getD .blank).state ≠ .dispatched := by
  rw [contribution?_hear, Transaction.isBlocked_eq_false, Transaction.ne_dispatched, ObserverConfig.concerns,
    Bool.and_eq_true, Bool.not_eq_true', Phase.repeatsEarlier_eq_false]
  constructor
  · intro h
    exact ⟨⟨⟨h.handles, h.phase⟩, h.affected, h.nonempty, h.records⟩, h.free, h.undispatched⟩
  · intro h
    obtain ⟨⟨⟨hh, hp⟩, ha, hn, hr⟩, hf, hu⟩ := h
    exact ⟨hh, hp, ha, hn, hr, hf, hu⟩

variable [Journal σ K]

theorem Hearing.fst_enact (scope : String) (h : Hearing K) (t : Transaction K) (w : σ) :
    (h.enact scope (t, w)).1 =
      h.contribution?.elim t fun d =>
        match t.note scope d.entities.toList d.extent with
        | .ok t' => t'
        | .error _ => t := by
  unfold enact
  cases h.contribution? with
  | none => rfl
  | some d =>
    simp only [Option.elim_some]
    cases t.note scope d.entities.toList d.extent <;> rfl

namespace Observer

variable {o : Observer σ K} {c : Change σ K} {t : Transaction K} {w : σ} {es : EntitySet} {e : Extent K}

theorem Notes.fst_onChange (h : o.Notes c t w es e) :
    (o.onChange c (t, w)).1 = t.setPage o.config.scope
      ⟨.collecting, ((t.page? o.config.scope).getD .blank).regions.noteAll es.toList e⟩ := by
  obtain ⟨hd, hb, hp⟩ := notes_iff.mp h
  have hne : es.toList ≠ [] := by simpa using h.nonempty
  rw [onChange_eq, Hearing.fst_enact, hd, Option.elim_some, Transaction.note_of_free hb,
    Page.appendAll_of_ne_dispatched hp hne]
  rfl

theorem fst_onChange_of_not_notes (h : ¬ ∃ es e, o.Notes c t w es e) : (o.onChange c (t, w)).1 = t := by
  rw [onChange_eq, Hearing.fst_enact]
  cases hd : (o.hear c w).1.contribution? with
  | none => rfl
  | some d =>
    have hne : d.entities.toList ≠ [] := by simpa using contribution?_fits (fits_hear o c w) hd
    rw [Option.elim_some]
    cases hb : t.isBlocked with
    | true =>
      rw [Transaction.note_of_blocked hb]
    | false =>
      rw [Transaction.note_of_free hb]
      by_cases hp : ((t.page? o.config.scope).getD .blank).state = .dispatched
      · obtain ⟨f, hf⟩ := Page.appendAll_of_dispatched hp hne d.extent
        rw [hf]
        rfl
      · exact absurd ⟨d.entities, d.extent, notes_iff.mpr ⟨hd, hb, hp⟩⟩ h

theorem Notes.fst_onChange_ne (h : o.Notes c t w es e) : (o.onChange c (t, w)).1 ≠ t := by
  intro ht
  obtain ⟨x, hx⟩ := List.exists_mem_of_ne_nil es.toList (by simpa using h.nonempty)
  have hx : es.contains x = true := by rwa [Std.ExtTreeSet.mem_toList, Std.ExtTreeSet.mem_iff_contains] at hx
  rw [h.fst_onChange] at ht
  generalize hr : ((t.page? o.config.scope).getD .blank).regions = r at ht
  -- The regions would not change, so the list of `x` would be longer than itself.
  have hp := Transaction.page?_setPage t o.config.scope ⟨.collecting, r.noteAll es.toList e⟩ o.config.scope
  rw [ht, if_pos rfl] at hp
  rw [hp, Option.getD_some] at hr
  have hl := Regions.getElem?_noteAll_toList r es e x
  rw [show r.noteAll es.toList e = r from hr, if_pos hx] at hl
  have := congrArg List.length (Std.ExtTreeMap.getD_eq_getD_getElem?.trans (congrArg (Option.getD · []) hl))
  simp at this

theorem fst_onEnd (o : Observer σ K) (t : Transaction K) (w : σ) :
    (o.onEnd true (t, w)).2.1 = (t.page? o.config.scope).elim t fun _ => t.setPage o.config.scope ⟨.dispatched, ∅⟩ := by
  rw [onEnd_eq, Transaction.takePage?_eq]
  cases t.page? o.config.scope <;> rfl

theorem onEnd_of_page?_eq_none (h : t.page? o.config.scope = none) : o.onEnd true (t, w) = (.blank, (t, w)) := by
  rw [onEnd_eq, Transaction.takePage?_eq, h]
  rfl

/-- What a hook leaves of a transaction is what the single steps leave that it takes on the ledger. -/
theorem fst_told (o : Observer σ K) (hook : Hook σ K) (t : Transaction K) (w : σ) :
    (o.told hook (t, w)).2.1 = (LedgerStep.performAll (o.ledgerSteps w hook) t).2 := by
  cases hook with
  | change c =>
    have : (o.told (.change c) (t, w)).2.1 = (o.onChange c (t, w)).1 := rfl
    rw [this, onChange_eq, Hearing.fst_enact, ledgerSteps]
    cases hd : (o.hear c w).1.contribution? with
    | none => rfl
    | some d =>
      have hne := contribution?_fits (fits_hear o c w) hd
      rw [Option.elim_some, Option.elim_some]
      exact (d.performAll_ledgerSteps hne o.config.scope t).symm
  | finish committed =>
    cases committed with
    | false => rfl
    | true =>
      have : (o.told (.finish true) (t, w)).2.1 = (o.onEnd true (t, w)).2.1 := rfl
      rw [this, fst_onEnd, ledgerSteps, if_pos rfl]
      have ht := LedgerStep.perform_take (t := t) o.config.scope
      cases hp : t.page? o.config.scope with
      | none =>
        rw [hp] at ht
        rw [LedgerStep.performAll_cons ht rfl]
        rfl
      | some p =>
        rw [hp] at ht
        rw [LedgerStep.performAll_cons ht rfl]
        rfl

/-- The single steps that note a change note it for all entities that are affected, or they leave the transaction as it
was. -/
theorem collection (o : Observer σ K) (c : Change σ K) (t : Transaction K) (w : σ) :
    let noted := (o.onChange c (t, w)).1
    let before := (t.page? o.config.scope).getD .blank
    noted = (LedgerStep.performAll (o.ledgerSteps w (.change c)) t).2 ∧
      (noted ≠ t ↔ ∃ es e, o.Notes c t w es e) ∧
      (∀ es e, o.Notes c t w es e → ∃ p, t.DiffersAt noted o.config.scope p ∧ p.state = .collecting ∧
        ∀ x, p.regions[x]? = if es.contains x then some (before.regions.getD x [] ++ [e]) else before.regions[x]?) ∧
      o.onEnd false (t, w) = (.blank, (t, w)) ∧
      (t.page? o.config.scope = none → o.onEnd true (t, w) = (.blank, (t, w))) ∧
      ∀ p, t.page? o.config.scope = some p →
        t.DiffersAt (o.onEnd true (t, w)).2.1 o.config.scope ⟨.dispatched, ∅⟩ := by
  intro noted before
  refine ⟨fst_told o (.change c) t w, ⟨fun h => ?_, fun h => ?_⟩, fun es e h => ?_, ?_, onEnd_of_page?_eq_none,
    fun p hp => ?_⟩
  · by_contra hn
    exact h (fst_onChange_of_not_notes hn)
  · obtain ⟨es, e, h⟩ := h
    exact h.fst_onChange_ne
  · have hn : noted = _ := h.fst_onChange
    rw [hn]
    exact ⟨_, t.differsAt_setPage _ _, rfl, Regions.getElem?_noteAll_toList _ es e⟩
  · rw [onEnd_eq]
  · rw [fst_onEnd, hp]
    exact t.differsAt_setPage _ _

end Observer

end ExtentLedger
