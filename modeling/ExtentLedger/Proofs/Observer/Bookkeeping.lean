import ExtentLedger.Proofs.Observer.Collection
import ExtentLedger.Proofs.Observer.Waiting
import ExtentLedger.Proofs.Transaction.Bookkeeping

/-!
# The books of a transaction

Observers and the host may share a ledger. Each deed does to it what the single steps do that it takes, so the pages
always stand where the history of these steps puts them. Observers alone never leave a page empty, and they attach a
ledger only when they open a page of it.
-/

namespace ExtentLedger

variable {κ σ K : Type}

structure Transaction.IsInUse (t : Transaction K) : Prop where
  pages : ∀ scope p, t.page? scope = some p → p.state ≠ .empty
  ledger : t.contains ledgerKey = true → ∃ scope p, t.page? scope = some p

namespace Transaction

theorem isInUse_of_absent {t : Transaction K} (h : t.contains ledgerKey = false) : t.IsInUse := by
  constructor
  · intro scope p hp
    cases (awaits_of_absent h scope).page.symm.trans hp
  · intro hc
    cases h.symm.trans hc

theorem IsInUse.setPage {t : Transaction K} (h : t.IsInUse) (scope : String) {p : Page K} (hp : p.state ≠ .empty) :
    (t.setPage scope p).IsInUse := by
  constructor
  · intro s q hq
    rw [page?_setPage] at hq
    by_cases hs : s = scope
    · rw [if_pos hs] at hq
      exact Option.some.inj hq ▸ hp
    · rw [if_neg hs] at hq
      exact h.pages s q hq
  · intro _
    exact ⟨scope, p, by simp⟩

end Transaction

variable [Journal σ K] (os : κ → Observer σ K)

def Deed.history (s : Scene σ K) (deeds : List (Deed κ σ K)) : LedgerHistory K :=
  (timeline (fun s d => Deed.run os d s) s deeds).flatMap fun x =>
    (LedgerStep.performAll (x.1.ledgerSteps os x.2) x.2.1).1

variable {os}

/-! ## Observers alone -/

namespace Turn

theorem isInUse_run {s : Scene σ K} (h : s.1.IsInUse) (x : Turn κ σ K) : (x.run os s).1.IsInUse := by
  obtain ⟨t, w⟩ := s
  cases x with
  | tell k hook =>
    cases hook with
    | change c =>
      rw [run_change]
      by_cases hn : ∃ es e, (os k).Notes c t w es e
      · obtain ⟨es, e, hn⟩ := hn
        rw [hn.fst_onChange]
        exact h.setPage _ PageState.noConfusion
      · rw [Observer.fst_onChange_of_not_notes hn]
        exact h
    | finish committed =>
      rw [run_finish]
      cases committed with
      | false => exact h
      | true =>
        rw [Observer.fst_onEnd]
        cases t.page? (os k).config.scope with
        | none => exact h
        | some p => exact h.setPage _ PageState.noConfusion
  | aside a =>
    have hp : ∀ scope, (a.run (t, w)).1.page? scope = t.page? scope :=
      fun scope => congrArg Slot.page? (Transaction.slot_of_aside a (t, w) scope)
    have hc : (a.run (t, w)).1.contains Transaction.ledgerKey = t.contains Transaction.ledgerKey := by
      simp only [Transaction.contains, Std.ExtTreeMap.contains_eq_isSome_getElem?, a.keeps]
    constructor
    · intro scope p hq
      exact h.pages scope p ((hp scope).symm.trans hq)
    · intro hl
      obtain ⟨scope, p, hq⟩ := h.ledger (hc.symm.trans hl)
      exact ⟨scope, p, (hp scope).trans hq⟩

theorem isInUse_foldl {s : Scene σ K} (h : s.1.IsInUse) (turns : List (Turn κ σ K)) :
    (turns.foldl (fun s x => x.run os s) s).1.IsInUse := by
  induction turns generalizing s with
  | nil => exact h
  | cons x turns ih => exact ih (isInUse_run h x)

end Turn

/-! ## Observers and the host -/

namespace Deed

theorem slot_run (d : Deed κ σ K) (s : Scene σ K) (scope : String) :
    (d.run os s).1.slot scope = (LedgerStep.performAll (d.ledgerSteps os s) s.1).2.slot scope := by
  obtain ⟨t, w⟩ := s
  cases d with
  | turn x =>
    cases x with
    | tell k hook =>
      have hr : ((turn (.tell k hook)).run os (t, w)).1 = ((os k).told hook (t, w)).2.1 := rfl
      rw [hr, Observer.fst_told]
      rfl
    | aside a => exact Transaction.slot_of_aside a (t, w) scope
  | step s =>
    have hp : (LedgerStep.performAll [s] t).2 = (s.perform t).2 := by
      rcases hs : s.perform t with ⟨answer, t'⟩
      cases answer with
      | refused f => rw [LedgerStep.performAll_cons_of_refused hs]
      | _ =>
        rw [LedgerStep.performAll_cons hs rfl]
        rfl
    exact congrArg (Transaction.slot · scope) hp.symm

theorem follows_run {s : Scene σ K} {history : LedgerHistory K} (h : s.1.Follows history) (d : Deed κ σ K) :
    (d.run os s).1.Follows (history ++ (LedgerStep.performAll (d.ledgerSteps os s) s.1).1) := by
  have hp := h.performAll (d.ledgerSteps os s)
  refine ⟨(congrArg Slot.isBlocked (slot_run d s "")).trans hp.free, fun scope => ?_⟩
  rw [show (d.run os s).1.page? scope = _ from congrArg Slot.page? (slot_run d s scope)]
  exact hp.stands scope

variable (os) in
theorem follows_foldl {s : Scene σ K} {history : LedgerHistory K} (h : s.1.Follows history) (deeds : List (Deed κ σ K)) :
    (deeds.foldl (fun s d => d.run os s) s).1.Follows (history ++ Deed.history os s deeds) := by
  induction deeds generalizing s history with
  | nil => simpa [Deed.history, timeline] using h
  | cons d deeds ih => simpa [Deed.history, timeline] using ih (follows_run h d)

/-- The first who takes a page gets just the extents that were appended, in their order; nothing can be appended to it
or taken later. -/
theorem bookkeeping (os : κ → Observer σ K) {t : Transaction K} (ht : t.contains Transaction.ledgerKey = false) (w : σ)
    (deeds : List (Deed κ σ K)) :
    let s := deeds.foldl (fun s d => d.run os s) (t, w)
    let history := Deed.history os (t, w) deeds
    (∀ x ∈ timeline (fun s d => Deed.run os d s) (t, w) deeds, ∀ scope, (x.1.run os x.2).1.slot scope =
      (LedgerStep.performAll (x.1.ledgerSteps os x.2) x.2.1).2.slot scope) ∧
    (∀ scope p, s.1.page? scope = some p → p.IsSound) ∧
    (∀ scope, history.taken scope = [] → ((s.1.page? scope).getD .blank).regions.Collects (history.appended scope)) ∧
    (∀ scope r rest, history.taken scope = r :: rest → r.Collects (history.appended scope) ∧ ∀ r' ∈ rest, r' = ∅) ∧
    (∀ scope, ((LedgerStep.openPage scope).perform s.1).1 = .done ∧
      ((LedgerStep.take scope).perform ((LedgerStep.openPage scope).perform s.1).2).1 =
        .taken ((s.1.page? scope).getD .blank).regions) ∧
    (∀ scope p, s.1.page? scope = some p → p.state = .dispatched →
      ∀ more : List (Deed κ σ K), (more.foldl (fun s d => d.run os s) s).1.page? scope = some p) ∧
    (∀ scope x e, ((LedgerStep.append scope x e).perform s.1).1.isRefused = true ↔
      ∃ p, s.1.page? scope = some p ∧ p.state = .dispatched) ∧
    (∀ scope x e, ((LedgerStep.append scope x e).perform s.1).1.isRefused = true →
      ((LedgerStep.append scope x e).perform s.1).2 = s.1) ∧
    ∀ turns : List (Turn κ σ K), deeds = turns.map turn → s.1.IsInUse := by
  intro s history
  have hf : s.1.Follows history := by
    have h : t.Follows [] :=
      ⟨(Transaction.awaits_of_absent ht "").free, fun scope => (Transaction.awaits_of_absent ht scope).page ▸ .unopened⟩
    simpa using follows_foldl os (s := (t, w)) h deeds
  refine ⟨fun x _ => slot_run x.1 x.2, fun scope p hp => ?_, fun scope hn => ?_, fun scope r rest hr => ?_,
    fun scope => ?_, fun scope p hp hd more => ?_, fun scope x e => LedgerStep.isRefused_append_iff scope x e hf.free,
    fun scope x e => LedgerStep.snd_append_of_isRefused scope x e hf.free, fun turns hd => ?_⟩
  · have := hf.stands scope
    rw [hp] at this
    exact this.isSound
  · exact (hf.stands scope).collects.resolve_right fun h => h hn
  · obtain ⟨-, r', rest', hr', h⟩ := (hf.stands scope).eq_dispatched (.inr (by simp [hr]))
    cases hr.symm.trans hr'
    exact h
  · rw [LedgerStep.perform_openPage scope hf.free]
    refine ⟨rfl, ?_⟩
    rw [LedgerStep.perform_take, Transaction.page?_setPage, if_pos rfl]
  · obtain ⟨he, r, rest, hr, -⟩ := (hf.stands scope).eq_dispatched (.inl (by simpa [hp] using hd))
    -- Someone has taken the page, and no longer history forgets that.
    have hm := (follows_foldl os hf more).stands scope
    rw [LedgerHistory.taken_append, hr] at hm
    rw [(hm.eq_dispatched (.inr (List.cons_ne_nil _ _))).1, ← he, hp]
  · subst hd
    have : s = turns.foldl (fun s x => Turn.run os x s) (t, w) := List.foldl_map
    rw [this]
    exact Turn.isInUse_foldl (Transaction.isInUse_of_absent ht) turns

theorem bookkeeping_shared :
    let o : Observer (List (Notice Rat)) Rat :=
      ⟨.ofScope "log", ⟨fun s => .always (.value (.ofList [s])), fun _ => .always (.value (.horizontal "plane"))⟩,
        fun _ es => .always (.value es.head?), fun _ _ => .crash none⟩
    let e : Extent Rat := ⟨⟨⟨0, 1⟩, ⟨0, 1⟩⟩, none, .horizontal "plane"⟩
    let deeds : List (Deed Unit (List (Notice Rat)) Rat) :=
      [.step .attach, .turn (.tell () (.change ⟨"a", .update, .preUpdate, .ofExtent e⟩)), .step (.append "log" "b" e),
        .turn (.tell () (.finish true)), .step (.append "log" "a" e), .step (.take "log")]
    let t : Transaction Rat := .start ⟨0⟩
    let history := Deed.history (fun _ => o) (t, []) deeds
    t.contains Transaction.ledgerKey = false ∧ ∃ r, history.taken "log" = [r, ∅] ∧ r.Collects [("a", e), ("b", e)] := by
  intro o e deeds t history
  have ht : t.contains Transaction.ledgerKey = false := by simp [t, Transaction.start, Transaction.contains]
  obtain ⟨-, -, -, hf, -⟩ := bookkeeping (fun _ => o) ht [] deeds
  have ha : history.appended "log" = [("a", e), ("b", e)] := by
    simp only [history, deeds, t, o, e]
    rfl
  have hl : (history.taken "log").length = 2 := by
    simp only [history, deeds, t, o, e]
    decide +kernel
  obtain ⟨r, r', hr⟩ := List.length_eq_two.mp hl
  obtain ⟨hc, he⟩ := hf "log" r [r'] hr
  refine ⟨ht, r, ?_, ha ▸ hc⟩
  rw [hr, he r' List.mem_cons_self]

end Deed

end ExtentLedger
