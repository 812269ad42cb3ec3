import ExtentLedger.Transaction.Transaction
import Mathlib.Data.List.Basic

/-!
# The place of a scope in a transaction

All that a scope can see of a transaction, and all that it can change there, is its slot: whether the place of the
ledger is taken by a property of another kind, and the page of the scope. Noting and taking act on the slot of the
scope, and leave the slot of every other scope as it was.
-/

namespace ExtentLedger

variable {K : Type}

structure Slot (K : Type) where
  isBlocked : Bool
  page? : Option (Page K)

namespace Transaction

def page? (t : Transaction K) (scope : String) : Option (Page K) := t.ledger?.bind fun l => l.page? scope

def isBlocked (t : Transaction K) : Bool := t.contains ledgerKey && t.ledger?.isNone

def slot (t : Transaction K) (scope : String) : Slot K := ⟨t.isBlocked, t.page? scope⟩

end Transaction

namespace Slot

def note (s : Slot K) (entities : List Entity) (e : Extent K) : Except Fault (Slot K) :=
  if s.isBlocked then
    .error (.config ("transaction property '" ++ Transaction.ledgerKey ++ "' holds a value of another type"))
  else ((s.page?.getD .blank).appendAll entities e).map fun p => ⟨false, some p⟩

def take? (s : Slot K) : Option (Regions K × Slot K) := s.page?.map fun p => (p.take.1, ⟨false, some p.take.2⟩)

end Slot

/-! ## Maps -/

theorem insert_insert {β : Type} (m : Std.ExtTreeMap String β) (key : String) (v v' : β) :
    (m.insert key v).insert key v' = m.insert key v' := by
  ext k w
  simp only [Std.ExtTreeMap.getElem?_insert]
  by_cases hk : key = k <;> simp [hk]

theorem insert_of_getElem? {β : Type} {m : Std.ExtTreeMap String β} {key : String} {v : β} (h : m[key]? = some v) :
    m.insert key v = m := by
  ext k w
  rw [Std.ExtTreeMap.getElem?_insert]
  by_cases hk : key = k
  · subst hk
    simp [h]
  · simp [hk]

/-! ## Properties -/

namespace Transaction

theorem as?_mk (kind : PropertyKind) (v : kind.Value K) : (Property.mk kind v).as? kind = some v := by
  simp [Property.as?]

@[simp] theorem get?_set (t : Transaction K) (kind : PropertyKind) (key : String) (v : kind.Value K) :
    (t.set kind key v).get? kind key = some v := by
  simp [get?, set, as?_mk]

/-! ## The ledger -/

@[simp] theorem ledger?_setLedger (t : Transaction K) (l : Ledger K) : (t.setLedger l).ledger? = some l := by
  simp [ledger?, setLedger]

@[simp] theorem isBlocked_setLedger (t : Transaction K) (l : Ledger K) : (t.setLedger l).isBlocked = false := by
  simp [isBlocked]

@[simp] theorem page?_setLedger (t : Transaction K) (l : Ledger K) (scope : String) :
    (t.setLedger l).page? scope = l.page? scope := by
  simp [page?]

theorem isBlocked_of_ledger? {t : Transaction K} {l : Ledger K} (h : t.ledger? = some l) : t.isBlocked = false := by
  simp [isBlocked, h]

theorem page?_of_ledger? {t : Transaction K} {l : Ledger K} (h : t.ledger? = some l) (scope : String) :
    t.page? scope = l.page? scope := by
  simp [page?, h]

end Transaction

theorem Ledger.page?_setPage (l : Ledger K) (scope : String) (p : Page K) (s : String) :
    (l.setPage scope p).page? s = if s = scope then some p else l.page? s := by
  by_cases h : s = scope
  · subst h
    simp [Ledger.page?, setPage]
  · have : ¬ scope = s := fun e => h e.symm
    simp [Ledger.page?, setPage, Std.ExtTreeMap.getElem?_insert, this, h]

theorem Ledger.page_eq (l : Ledger K) (scope : String) : l.page scope = (l.page? scope).getD .blank :=
  Std.ExtTreeMap.getD_eq_getD_getElem?

namespace Transaction

theorem setLedger_setLedger (t : Transaction K) (l l' : Ledger K) : (t.setLedger l).setLedger l' = t.setLedger l' := by
  unfold setLedger set
  rw [insert_insert]

theorem page?_ledger (t : Transaction K) (scope : String) : (t.ledger?.getD .blank).page? scope = t.page? scope := by
  unfold page?
  cases t.ledger? with
  | none => simp [Ledger.blank, Ledger.page?]
  | some l => rfl

theorem attach_eq_ok {t : Transaction K} (h : t.isBlocked = false) :
    ∃ t', t.attach = .ok (t.ledger?.getD .blank, t') ∧ t'.isBlocked = false ∧ t'.page? = t.page? ∧
      ∀ l, t'.setLedger l = t.setLedger l := by
  cases hl : t.ledger? with
  | some l =>
    refine ⟨t, ?_, h, rfl, fun _ => rfl⟩
    obtain ⟨p, hp, ha⟩ := Option.bind_eq_some_iff.mp (show t.properties[ledgerKey]?.bind _ = some l from hl)
    unfold attach getOrSet
    rw [hp]
    simp only [ha, Option.getD_some]
  | none =>
    have hc : t.contains ledgerKey = false := by simpa [isBlocked, hl] using h
    have hp : t.properties[ledgerKey]? = none := Std.ExtTreeMap.getElem?_eq_none_of_contains_eq_false hc
    refine ⟨t.setLedger .blank, ?_, isBlocked_setLedger _ _, ?_, setLedger_setLedger t .blank⟩
    · unfold attach getOrSet
      rw [hp]
      rfl
    · funext s
      rw [page?_setLedger, page?, hl, Option.bind_none]
      simp [Ledger.blank, Ledger.page?]

theorem attach_of_blocked {t : Transaction K} (h : t.isBlocked = true) :
    t.attach = .error (.config ("transaction property '" ++ ledgerKey ++ "' holds a value of another type")) := by
  simp only [isBlocked, Bool.and_eq_true, Option.isNone_iff_eq_none] at h
  obtain ⟨hc, hl⟩ := h
  unfold attach getOrSet
  cases hp : t.properties[ledgerKey]? with
  | none =>
    simp only [contains, Std.ExtTreeMap.contains_eq_isSome_getElem?, hp, Option.isSome_none] at hc
    cases hc
  | some p =>
    have : p.as? .ledger = none := by simpa [ledger?, get?, hp] using hl
    simp only [this]

theorem isBlocked_iff {t : Transaction K} :
    t.isBlocked = true ↔ ∃ p, t.properties[ledgerKey]? = some p ∧ p.kind ≠ .ledger := by
  unfold isBlocked contains ledger? get?
  rw [Std.ExtTreeMap.contains_eq_isSome_getElem?]
  cases t.properties[ledgerKey]? with
  | none => simp
  | some p => simp [Property.as?]

theorem page?_of_blocked {t : Transaction K} (h : t.isBlocked = true) (scope : String) : t.page? scope = none := by
  have hl : t.ledger? = none := Option.isNone_iff_eq_none.mp (Bool.and_eq_true_iff.mp h).2
  rw [page?, hl, Option.bind_none]

/-! ## Noting -/

theorem note_eq_ok {t t' : Transaction K} {scope : String} {es : List Entity} {e : Extent K}
    (h : t.note scope es e = .ok t') :
    t.isBlocked = false ∧ ∃ p, ((t.page? scope).getD .blank).appendAll es e = .ok p ∧ t'.isBlocked = false ∧
      ∀ s, t'.page? s = if s = scope then some p else t.page? s := by
  unfold note at h
  cases hb : t.isBlocked with
  | true => rw [attach_of_blocked hb] at h; cases h
  | false =>
    obtain ⟨t₁, ha, -⟩ := attach_eq_ok hb
    have hl := fun s => (page?_ledger t s).symm
    generalize t.ledger?.getD .blank = l at ha hl
    rw [ha] at h
    cases hp : (l.page scope).appendAll es e with
    | error f => simp [bind, Except.bind, hp] at h
    | ok p =>
      simp only [bind, Except.bind, hp, pure, Except.pure, Except.ok.injEq] at h
      subst h
      refine ⟨rfl, p, ?_, isBlocked_setLedger _ _, fun s => ?_⟩
      · rw [hl, ← Ledger.page_eq, hp]
      · rw [page?_setLedger, Ledger.page?_setPage, hl]

theorem note_eq_error {t : Transaction K} {scope : String} {es : List Entity} {e : Extent K} {f : Fault}
    (h : t.note scope es e = .error f) : (t.slot scope).note es e = .error f := by
  unfold note at h
  unfold Slot.note
  cases hb : t.isBlocked with
  | true =>
    rw [attach_of_blocked hb] at h
    simp only [slot, hb, if_true]
    exact congrArg _ (Except.error.inj h)
  | false =>
    obtain ⟨t₁, ha, -⟩ := attach_eq_ok hb
    have hl := fun s => (page?_ledger t s).symm
    generalize t.ledger?.getD .blank = l at ha hl
    rw [ha] at h
    simp only [slot, hb, hl, ← Ledger.page_eq]
    cases hp : (l.page scope).appendAll es e with
    | error g =>
      simp only [bind, Except.bind, hp] at h
      rw [Except.error.inj h]
      rfl
    | ok p => simp [bind, Except.bind, hp, pure, Except.pure] at h

theorem slot_note (t : Transaction K) (scope : String) (es : List Entity) (e : Extent K) :
    (t.note scope es e).map (fun t' => t'.slot scope) = (t.slot scope).note es e := by
  cases h : t.note scope es e with
  | error f => rw [note_eq_error h]; rfl
  | ok t' =>
    obtain ⟨hb, p, hp, hb', hs⟩ := note_eq_ok h
    simp [Slot.note, slot, hb, hp, hb', hs, Except.map]

theorem slot_note_of_ne {t t' : Transaction K} {scope s : String} {es : List Entity} {e : Extent K}
    (h : t.note scope es e = .ok t') (hs : s ≠ scope) : t'.slot s = t.slot s := by
  obtain ⟨hb, p, _, hb', hp⟩ := note_eq_ok h
  simp [slot, hb, hb', hp, hs]

/-! ## Taking -/

theorem takePage?_eq_some {t t' : Transaction K} {scope : String} {r : Regions K}
    (h : t.takePage? scope = some (r, t')) :
    t.isBlocked = false ∧ ∃ p, t.page? scope = some p ∧ r = p.take.1 ∧ t'.isBlocked = false ∧
      ∀ s, t'.page? s = if s = scope then some p.take.2 else t.page? s := by
  unfold takePage? at h
  obtain ⟨l, hl, h⟩ := Option.bind_eq_some_iff.mp h
  obtain ⟨p, hp, h⟩ := Option.bind_eq_some_iff.mp h
  simp only [pure, Option.some.injEq, Prod.mk.injEq] at h
  obtain ⟨rfl, rfl⟩ := h
  refine ⟨isBlocked_of_ledger? hl, p, ?_, rfl, isBlocked_setLedger _ _, fun s => ?_⟩
  · rw [page?_of_ledger? hl, hp]
  · rw [page?_setLedger, Ledger.page?_setPage, page?_of_ledger? hl]

theorem takePage?_eq_none {t : Transaction K} {scope : String} (h : t.takePage? scope = none) :
    t.page? scope = none := by
  unfold page?
  cases hl : t.ledger? with
  | none => rfl
  | some l =>
    cases hp : l.page? scope with
    | none => simpa using hp
    | some p => simp [takePage?, hl, hp] at h

theorem slot_takePage? (t : Transaction K) (scope : String) :
    (t.takePage? scope).map (fun x => (x.1, x.2.slot scope)) = (t.slot scope).take? := by
  cases h : t.takePage? scope with
  | none => simp [Slot.take?, slot, takePage?_eq_none h]
  | some x =>
    obtain ⟨r, t'⟩ := x
    obtain ⟨hb, p, hp, rfl, hb', hs⟩ := takePage?_eq_some h
    simp [Slot.take?, slot, hp, hb', hs]

theorem slot_takePage?_of_ne {t t' : Transaction K} {scope s : String} {r : Regions K}
    (h : t.takePage? scope = some (r, t')) (hs : s ≠ scope) : t'.slot s = t.slot s := by
  obtain ⟨hb, p, _, _, hb', hp⟩ := takePage?_eq_some h
  simp [slot, hb, hb', hp, hs]

end Transaction

end ExtentLedger
