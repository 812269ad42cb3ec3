import ExtentLedger.Proofs.Transaction.Slot
import ExtentLedger.Transaction.LedgerStep

/-!
# Pages of a transaction

Opening, noting and taking are all the same change of a transaction, that of the page of one scope, with different pages.
To set a page that is there already changes nothing, and to set it twice is to set it once.
-/

namespace ExtentLedger

variable {K : Type}

theorem Property.eq_of_as? {kind : PropertyKind} {p : Property K} {v : kind.Value K} (h : p.as? kind = some v) :
    p = ⟨kind, v⟩ := by
  obtain ⟨kind', v'⟩ := p
  unfold as? at h
  by_cases hk : kind' = kind
  · subst hk
    rw [dif_pos rfl] at h
    cases h
    rfl
  · rw [dif_neg hk] at h
    cases h

theorem Ledger.setPage_self {l : Ledger K} {scope : String} {p : Page K} (h : l.page? scope = some p) :
    l.setPage scope p = l := by
  rw [setPage, insert_of_getElem? h]

theorem Ledger.setPage_setPage (l : Ledger K) (scope : String) (p q : Page K) :
    (l.setPage scope p).setPage scope q = l.setPage scope q := by
  rw [setPage, setPage, setPage, insert_insert]

namespace Transaction

theorem setLedger_self {t : Transaction K} {l : Ledger K} (h : t.ledger? = some l) : t.setLedger l = t := by
  obtain ⟨p, hp, hl⟩ := Option.bind_eq_some_iff.mp (show t.properties[ledgerKey]?.bind _ = some l from h)
  rw [Property.eq_of_as? hl] at hp
  unfold setLedger set
  rw [insert_of_getElem? hp]

/-! ## Setting a page -/

@[simp] theorem page?_setPage (t : Transaction K) (scope : String) (p : Page K) (s : String) :
    (t.setPage scope p).page? s = if s = scope then some p else t.page? s := by
  rw [setPage, page?_setLedger, Ledger.page?_setPage, page?_ledger]

@[simp] theorem isBlocked_setPage (t : Transaction K) (scope : String) (p : Page K) :
    (t.setPage scope p).isBlocked = false :=
  isBlocked_setLedger _ _

theorem setPage_self {t : Transaction K} {scope : String} {p : Page K} (h : t.page? scope = some p) :
    t.setPage scope p = t := by
  obtain ⟨l, hl, hp⟩ := Option.bind_eq_some_iff.mp (show t.ledger?.bind _ = some p from h)
  rw [setPage, hl, Option.getD_some, Ledger.setPage_self hp, setLedger_self hl]

@[simp] theorem setPage_setPage (t : Transaction K) (scope : String) (p q : Page K) :
    (t.setPage scope p).setPage scope q = t.setPage scope q := by
  unfold setPage
  rw [ledger?_setLedger, Option.getD_some, Ledger.setPage_setPage, setLedger_setLedger]

theorem ne_dispatched {t : Transaction K} {scope : String} :
    ((t.page? scope).getD .blank).state ≠ .dispatched ↔ ∀ p, t.page? scope = some p → p.state ≠ .dispatched := by
  cases t.page? scope with
  | none => simp [Page.blank]
  | some p => simp

theorem setPage_getD_of_dispatched {t : Transaction K} {scope : String}
    (h : ((t.page? scope).getD .blank).state = .dispatched) : t.setPage scope ((t.page? scope).getD .blank) = t := by
  cases hp : t.page? scope with
  | none =>
    rw [hp] at h
    cases h
  | some p => rw [Option.getD_some, setPage_self hp]

structure DiffersAt (t t' : Transaction K) (scope : String) (p : Page K) : Prop where
  id : t'.id = t.id
  properties : ∀ key, key ≠ ledgerKey → t'.properties[key]? = t.properties[key]?
  isBlocked : t'.isBlocked = false
  pages : ∀ s, t'.page? s = if s = scope then some p else t.page? s

theorem differsAt_setPage (t : Transaction K) (scope : String) (p : Page K) :
    t.DiffersAt (t.setPage scope p) scope p := by
  refine ⟨rfl, fun key hk => ?_, isBlocked_setPage t scope p, page?_setPage t scope p⟩
  have : ¬ ledgerKey = key := fun h => hk h.symm
  simp [setPage, setLedger, set, Std.ExtTreeMap.getElem?_insert, this]

/-! ## Opening, noting and taking -/

theorem openPage_of_free {t : Transaction K} (h : t.isBlocked = false) (scope : String) :
    t.openPage scope =
      .ok ((t.page? scope).getD .blank, t.setPage scope ((t.page? scope).getD .blank)) := by
  obtain ⟨t', ha, -, -, hs⟩ := attach_eq_ok h
  unfold openPage
  rw [ha]
  simp only [bind, Except.bind, pure, Except.pure, hs]
  rw [Ledger.page_eq, page?_ledger, setPage]

theorem openPage_of_blocked {t : Transaction K} (h : t.isBlocked = true) (scope : String) :
    ∃ f, t.openPage scope = .error f := by
  unfold openPage
  rw [attach_of_blocked h]
  exact ⟨_, rfl⟩

theorem note_of_free {t : Transaction K} (h : t.isBlocked = false) (scope : String) (es : List Entity) (e : Extent K) :
    t.note scope es e = (((t.page? scope).getD .blank).appendAll es e).map (t.setPage scope) := by
  obtain ⟨t', ha, -, -, hs⟩ := attach_eq_ok h
  unfold note
  rw [ha]
  simp only [bind, Except.bind, pure, Except.pure, hs]
  rw [Ledger.page_eq, page?_ledger]
  cases ((t.page? scope).getD .blank).appendAll es e <;> rfl

theorem note_of_blocked {t : Transaction K} (h : t.isBlocked = true) (scope : String) (es : List Entity) (e : Extent K) :
    t.note scope es e =
      .error (.config ("transaction property '" ++ ledgerKey ++ "' holds a value of another type")) := by
  rw [note, attach_of_blocked h]
  rfl

theorem takePage?_eq (t : Transaction K) (scope : String) :
    t.takePage? scope = (t.page? scope).map fun p => (p.regions, t.setPage scope ⟨.dispatched, ∅⟩) := by
  unfold takePage? page?
  cases hl : t.ledger? with
  | none => rfl
  | some l =>
    cases hp : l.page? scope with
    | none => simp [hp]
    | some p => simp [hp, Page.take, setPage, hl]

end Transaction

end ExtentLedger
