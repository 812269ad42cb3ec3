import ExtentLedger.Proofs.Transaction.Steps

/-!
# Nothing is lost and nothing is doubled

Whatever steps are taken on a ledger, its pages stand where the history of these steps puts them. A page that nobody
took holds all the extents that were appended, in their order; whoever takes it first gets these, everyone later gets
nothing, and nothing can be appended any more.
-/

namespace ExtentLedger

variable {K : Type}

abbrev LedgerHistory (K : Type) := List (LedgerStep K × LedgerAnswer K)

namespace LedgerHistory

def appended (scope : String) (history : LedgerHistory K) : List (Entity × Extent K) :=
  history.filterMap fun
    | (.append s entity e, .done) => if s = scope then some (entity, e) else none
    | _ => none

def taken (scope : String) (history : LedgerHistory K) : List (Regions K) :=
  history.filterMap fun
    | (.take s, .taken r) => if s = scope then some r else none
    | _ => none

def extentsFor (appended : List (Entity × Extent K)) (entity : Entity) : List (Extent K) :=
  (appended.filter fun x => x.1 = entity).map Prod.snd

theorem appended_append (scope : String) (h h' : LedgerHistory K) :
    appended scope (h ++ h') = appended scope h ++ appended scope h' :=
  List.filterMap_append

theorem taken_append (scope : String) (h h' : LedgerHistory K) :
    taken scope (h ++ h') = taken scope h ++ taken scope h' :=
  List.filterMap_append

theorem appended_of_append (scope s : String) (entity : Entity) (e : Extent K) :
    appended scope [(.append s entity e, .done)] = if s = scope then [(entity, e)] else [] := by
  by_cases hs : s = scope <;> simp [appended, hs]

theorem taken_of_take (scope s : String) (r : Regions K) :
    taken scope [(.take s, .taken r)] = if s = scope then [r] else [] := by
  by_cases hs : s = scope <;> simp [taken, hs]

theorem extentsFor_snoc (appended : List (Entity × Extent K)) (entity : Entity) (e : Extent K) (x : Entity) :
    extentsFor (appended ++ [(entity, e)]) x = extentsFor appended x ++ if entity = x then [e] else [] := by
  unfold extentsFor
  by_cases hx : entity = x <;> simp [hx]

end LedgerHistory

open LedgerHistory (extentsFor)

/-- The regions hold what was appended for each entity, and no entity for which nothing was. -/
def Regions.Collects (r : Regions K) (appended : List (Entity × Extent K)) : Prop :=
  ∀ x, r[x]? = if extentsFor appended x = [] then none else some (extentsFor appended x)

structure Page.IsSound (p : Page K) : Prop where
  empty : p.state = .empty → p.regions = ∅
  collecting : p.state = .collecting ↔ p.regions ≠ ∅
  dispatched : p.state = .dispatched → p.regions = ∅
  nonempty : ∀ (x : Entity) es, p.regions[x]? = some es → es ≠ []

/-- Where a page stands after `appended` was appended and `taken` was taken. -/
inductive Page.Stands : Option (Page K) → List (Entity × Extent K) → List (Regions K) → Prop
  | unopened : Stands none [] []
  | opened : Stands (some .blank) [] []
  | collecting {r appended} : appended ≠ [] → r.Collects appended → Stands (some ⟨.collecting, r⟩) appended []
  | dispatched {r appended rest} : r.Collects appended → (∀ r' ∈ rest, r' = ∅) →
      Stands (some ⟨.dispatched, ∅⟩) appended (r :: rest)

/-! ## What is collected -/

namespace Regions

variable {r : Regions K} {appended : List (Entity × Extent K)}

theorem collects_nil : (∅ : Regions K).Collects [] := fun _ => Std.ExtTreeMap.getElem?_empty

theorem Collects.ne_empty (h : r.Collects appended) (ha : appended ≠ []) : r ≠ ∅ := by
  rintro rfl
  obtain ⟨x, hx⟩ := List.exists_mem_of_ne_nil appended ha
  have hn : extentsFor appended x.1 ≠ [] := by
    unfold extentsFor
    exact List.ne_nil_of_mem (List.mem_map_of_mem (List.mem_filter.mpr ⟨hx, by simp⟩))
  have := h x.1
  rw [if_neg hn] at this
  simp at this

theorem Collects.nonempty (h : r.Collects appended) {x : Entity} {es : List (Extent K)} (hx : r[x]? = some es) :
    es ≠ [] := by
  rw [h x] at hx
  by_cases hn : extentsFor appended x = []
  · rw [if_pos hn] at hx
    cases hx
  · rw [if_neg hn] at hx
    exact Option.some.inj hx ▸ hn

theorem Collects.noteAll (h : r.Collects appended) (entity : Entity) (e : Extent K) :
    (r.noteAll [entity] e).Collects (appended ++ [(entity, e)]) := by
  intro x
  have hd : r.getD x [] = extentsFor appended x := by
    rw [Std.ExtTreeMap.getD_eq_getD_getElem?, h x]
    by_cases hn : extentsFor appended x = [] <;> simp [hn]
  rw [getElem?_noteAll (List.nodup_singleton entity), LedgerHistory.extentsFor_snoc]
  by_cases hx : x = entity
  · subst hx
    simp [hd]
  · have hx' : ¬ entity = x := fun e => hx e.symm
    simpa [hx, hx'] using h x

end Regions

/-! ## Pages -/

namespace Page.Stands

variable {p? : Option (Page K)} {appended : List (Entity × Extent K)} {taken : List (Regions K)}

theorem isSound {p : Page K} (h : Stands (some p) appended taken) : p.IsSound := by
  cases h with
  | opened => exact ⟨fun _ => rfl, by simp [blank], fun _ => rfl, by simp [blank]⟩
  | collecting ha hr =>
    refine ⟨?_, by simpa using hr.ne_empty ha, ?_, fun _ _ hx => hr.nonempty hx⟩
    · intro h
      cases h
    · intro h
      cases h
  | dispatched => exact ⟨fun _ => rfl, by simp, fun _ => rfl, by simp⟩

theorem collects (h : Stands p? appended taken) : ((p?.getD .blank).regions).Collects appended ∨ taken ≠ [] := by
  cases h with
  | unopened => exact .inl Regions.collects_nil
  | opened => exact .inl Regions.collects_nil
  | collecting _ hr => exact .inl hr
  | dispatched => exact .inr (List.cons_ne_nil _ _)

theorem eq_dispatched (h : Stands p? appended taken) (hd : (p?.getD .blank).state = .dispatched ∨ taken ≠ []) :
    p? = some ⟨.dispatched, ∅⟩ ∧ ∃ r rest, taken = r :: rest ∧ r.Collects appended ∧ ∀ r' ∈ rest, r' = ∅ := by
  cases h with
  | unopened => exact absurd hd (by simp [blank])
  | opened => exact absurd hd (by simp [blank])
  | collecting => exact absurd hd (by simp)
  | dispatched hr he => exact ⟨rfl, _, _, rfl, hr, he⟩

theorem openPage (h : Stands p? appended taken) : Stands (some (p?.getD .blank)) appended taken := by
  cases h with
  | unopened => exact opened
  | opened => exact opened
  | collecting ha hr => exact collecting ha hr
  | dispatched hr he => exact dispatched hr he

theorem append (h : Stands p? appended taken) (hp : (p?.getD .blank).state ≠ .dispatched) (entity : Entity)
    (e : Extent K) :
    Stands (some ⟨.collecting, (p?.getD .blank).regions.noteAll [entity] e⟩) (appended ++ [(entity, e)]) taken := by
  have hn : appended ++ [(entity, e)] ≠ [] := by simp
  cases h with
  | unopened => exact collecting hn (Regions.collects_nil.noteAll entity e)
  | opened => exact collecting hn (Regions.collects_nil.noteAll entity e)
  | collecting _ hr => exact collecting hn (hr.noteAll entity e)
  | dispatched => exact absurd rfl hp

theorem take {p : Page K} (h : Stands (some p) appended taken) :
    Stands (some ⟨.dispatched, ∅⟩) appended (taken ++ [p.regions]) := by
  cases h with
  | opened => exact dispatched Regions.collects_nil (by simp)
  | collecting _ hr => exact dispatched hr (by simp)
  | dispatched hr he =>
    refine dispatched hr fun r' hr' => ?_
    rcases List.mem_append.mp hr' with hr' | hr'
    · exact he r' hr'
    · exact List.mem_singleton.mp hr'

end Page.Stands

/-! ## Histories -/

structure Transaction.Follows (t : Transaction K) (history : LedgerHistory K) : Prop where
  free : t.isBlocked = false
  stands : ∀ scope, Page.Stands (t.page? scope) (history.appended scope) (history.taken scope)

namespace Transaction.Follows

variable {t : Transaction K} {history : LedgerHistory K}

theorem silent (h : t.Follows history) {t' : Transaction K} (hf : t'.isBlocked = false) (hp : t'.page? = t.page?)
    {x : LedgerStep K × LedgerAnswer K}
    (hx : ∀ scope, LedgerHistory.appended scope [x] = [] ∧ LedgerHistory.taken scope [x] = []) :
    t'.Follows (history ++ [x]) := by
  refine ⟨hf, fun scope => ?_⟩
  rw [LedgerHistory.appended_append, LedgerHistory.taken_append, (hx scope).1, (hx scope).2, List.append_nil,
    List.append_nil, hp]
  exact h.stands scope

theorem setPage (h : t.Follows history) {s : String} {p : Page K} {x : LedgerStep K × LedgerAnswer K}
    (hs : Page.Stands (some p) (history.appended s ++ LedgerHistory.appended s [x])
      (history.taken s ++ LedgerHistory.taken s [x]))
    (hx : ∀ scope, ¬ s = scope → LedgerHistory.appended scope [x] = [] ∧ LedgerHistory.taken scope [x] = []) :
    (t.setPage s p).Follows (history ++ [x]) := by
  refine ⟨isBlocked_setPage t s p, fun scope => ?_⟩
  rw [page?_setPage, LedgerHistory.appended_append, LedgerHistory.taken_append]
  by_cases he : scope = s
  · subst he
    rwa [if_pos rfl]
  · obtain ⟨ha, ht⟩ := hx scope fun e => he e.symm
    rw [if_neg he, ha, ht, List.append_nil, List.append_nil]
    exact h.stands scope

theorem perform (h : t.Follows history) (s : LedgerStep K) :
    (s.perform t).2.Follows (history ++ [(s, (s.perform t).1)]) := by
  cases s with
  | attach =>
    obtain ⟨t', ht, hf, hp⟩ := LedgerStep.perform_attach h.free
    rw [ht]
    exact h.silent hf hp fun scope => ⟨rfl, rfl⟩
  | openPage s =>
    rw [LedgerStep.perform_openPage s h.free]
    refine h.setPage ?_ fun scope _ => ⟨rfl, rfl⟩
    exact (List.append_nil (history.appended s)).symm ▸ (List.append_nil (history.taken s)).symm ▸ (h.stands s).openPage
  | append s entity e =>
    by_cases hp : ((t.page? s).getD .blank).state = .dispatched
    · obtain ⟨f, ht⟩ := LedgerStep.perform_append_of_dispatched s entity e h.free hp
      rw [ht]
      exact h.silent h.free rfl fun scope => ⟨rfl, rfl⟩
    · rw [LedgerStep.perform_append_of_ne_dispatched s entity e h.free hp]
      refine h.setPage ?_ fun scope hs => ⟨?_, rfl⟩
      · rw [LedgerHistory.appended_of_append, if_pos rfl]
        exact (List.append_nil (history.taken s)).symm ▸ (h.stands s).append hp entity e
      · rw [LedgerHistory.appended_of_append, if_neg hs]
  | take s =>
    have hs := h.stands s
    rw [LedgerStep.perform_take]
    cases hp : t.page? s with
    | none => exact h.silent h.free rfl fun scope => ⟨rfl, rfl⟩
    | some p =>
      rw [hp] at hs
      refine h.setPage ?_ fun scope hs => ⟨rfl, ?_⟩
      · rw [LedgerHistory.taken_of_take, if_pos rfl]
        exact (List.append_nil (history.appended s)).symm ▸ hs.take
      · rw [LedgerHistory.taken_of_take, if_neg hs]

theorem performAll (h : t.Follows history) (ss : List (LedgerStep K)) :
    (LedgerStep.performAll ss t).2.Follows (history ++ (LedgerStep.performAll ss t).1) := by
  induction ss generalizing t history with
  | nil => simpa [LedgerStep.performAll_nil] using h
  | cons s ss ih =>
    have hs := h.perform s
    rcases hp : s.perform t with ⟨answer, t'⟩
    rw [hp] at hs
    cases answer with
    -- Nothing is performed after a step that is refused.
    | refused f => rwa [LedgerStep.performAll_cons_of_refused hp]
    | _ =>
      rw [LedgerStep.performAll_cons hp rfl]
      simpa using ih hs

end Transaction.Follows

end ExtentLedger
