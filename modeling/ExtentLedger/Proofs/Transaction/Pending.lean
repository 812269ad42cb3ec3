import ExtentLedger.Observer.Contribution
import ExtentLedger.Proofs.Transaction.Slot
import Mathlib.Data.List.Induction

/-!
# What waits in a scope

After some contributions the page of a scope holds, for each entity that one of them affects, the extents of the
contributions that affect it, in their order. A transaction awaits the contributions in a scope when its page is the one
that they leave; to note one more keeps that true, and whatever is done in other scopes does not matter.
-/

namespace ExtentLedger

variable {K : Type}

/-! ## Regions -/

def Regions.noteAll (r : Regions K) (es : List Entity) (e : Extent K) : Regions K :=
  es.foldl (fun r entity => r.insert entity (r.getD entity [] ++ [e])) r

theorem Regions.getElem?_noteAll {es : List Entity} (hn : es.Nodup) (r : Regions K) (e : Extent K) (x : Entity) :
    (r.noteAll es e)[x]? = if x ∈ es then some (r.getD x [] ++ [e]) else r[x]? := by
  induction es generalizing r with
  | nil => simp [noteAll]
  | cons y es ih =>
    obtain ⟨hy, hn⟩ := List.nodup_cons.mp hn
    rw [noteAll, List.foldl_cons, ← noteAll, ih hn]
    by_cases hx : x = y
    · subst hx
      simp [hy]
    · have hx' : ¬ y = x := fun h => hx h.symm
      simp [Std.ExtTreeMap.getElem?_insert, Std.ExtTreeMap.getD_insert, hx, hx']

theorem Regions.ascending_toList (r : Regions K) : (r.toList.map Prod.fst).Pairwise (· < ·) := by
  rw [List.pairwise_map]
  exact r.ordered_keys_toList.imp fun h => compareOfLessAndEq_eq_lt.mp h

def Contribution.regions (cs : List (Contribution K)) : Regions K :=
  cs.foldl (fun r c => r.noteAll c.entities.toList c.extent) ∅

namespace Contribution

theorem regions_snoc (cs : List (Contribution K)) (c : Contribution K) :
    regions (cs ++ [c]) = (regions cs).noteAll c.entities.toList c.extent := by
  simp [regions]

theorem mem_toList_iff_affects {c : Contribution K} {x : Entity} : x ∈ c.entities.toList ↔ c.affects x = true := by
  rw [Std.ExtTreeSet.mem_toList, affects, Std.ExtTreeSet.mem_iff_contains]

theorem nodup_entities (c : Contribution K) : c.entities.toList.Nodup :=
  c.entities.distinct_toList.imp fun h e => h (by subst e; exact Std.ReflCmp.compare_self)

theorem extentsFor_append (cs ds : List (Contribution K)) (x : Entity) :
    extentsFor (cs ++ ds) x = extentsFor cs x ++ extentsFor ds x := by
  rw [extentsFor, List.filter_append, List.map_append]
  rfl

theorem extentsFor_snoc (cs : List (Contribution K)) (c : Contribution K) (x : Entity) :
    extentsFor (cs ++ [c]) x = extentsFor cs x ++ if c.affects x then [c.extent] else [] := by
  rw [extentsFor_append]
  by_cases h : c.affects x = true
  · simp [extentsFor, h]
  · simp [extentsFor, h]

theorem extentsFor_eq_nil {cs : List (Contribution K)} {x : Entity} (h : ¬ ∃ c ∈ cs, c.affects x = true) :
    extentsFor cs x = [] := by
  simp only [not_exists, not_and] at h
  rw [extentsFor, List.filter_eq_nil_iff.mpr h, List.map_nil]

theorem extentsFor_ne_nil {cs : List (Contribution K)} {x : Entity} (h : ∃ c ∈ cs, c.affects x = true) :
    extentsFor cs x ≠ [] := by
  obtain ⟨c, hc, hx⟩ := h
  exact List.ne_nil_of_mem (List.mem_map_of_mem (List.mem_filter.mpr ⟨hc, hx⟩))

theorem getElem?_regions (cs : List (Contribution K)) (x : Entity) :
    (regions cs)[x]? = if ∃ c ∈ cs, c.affects x = true then some (extentsFor cs x) else none := by
  induction cs using List.reverseRecOn with
  | nil => simp [regions]
  | append_singleton cs c ih =>
    rw [regions_snoc, Regions.getElem?_noteAll (nodup_entities c), Std.ExtTreeMap.getD_eq_getD_getElem?, ih]
    simp only [mem_toList_iff_affects, extentsFor_snoc]
    by_cases hc : c.affects x = true
    · by_cases hs : ∃ d ∈ cs, d.affects x = true
      · simp [hc, hs, or_and_right, exists_or]
      · simp [hc, hs, or_and_right, exists_or, extentsFor_eq_nil hs]
    · simp [hc, or_and_right, exists_or]

theorem mem_toList_regions {cs : List (Contribution K)} {x : Entity} {es : List (Extent K)} :
    (x, es) ∈ (regions cs).toList ↔ (∃ c ∈ cs, c.affects x = true) ∧ es = extentsFor cs x := by
  rw [Std.ExtTreeMap.mem_toList_iff_getElem?_eq_some, getElem?_regions]
  by_cases h : ∃ c ∈ cs, c.affects x = true
  · simp only [h, if_true, true_and, Option.some.injEq]
    exact eq_comm
  · simp [h]

theorem isEmpty_regions {cs : List (Contribution K)} {c : Contribution K} (hc : c ∈ cs) (hn : c.entities.isEmpty = false) :
    (regions cs).isEmpty = false := by
  obtain ⟨x, hx⟩ := List.exists_mem_of_ne_nil c.entities.toList (by simpa using hn)
  have hm : (x, _) ∈ (regions cs).toList := mem_toList_regions.mpr ⟨⟨c, hc, mem_toList_iff_affects.mp hx⟩, rfl⟩
  rw [← Std.ExtTreeMap.isEmpty_toList, List.isEmpty_eq_false_iff]
  exact List.ne_nil_of_mem hm

theorem ascending_regions (cs : List (Contribution K)) : ((regions cs).toList.map Prod.fst).Pairwise (· < ·) :=
  Regions.ascending_toList (regions cs)

end Contribution

/-! ## Pages -/

theorem Page.appendAll_nil (p : Page K) (e : Extent K) : p.appendAll [] e = .ok p := rfl

theorem Page.appendAll_of_collecting {p : Page K} (hp : p.state = .collecting) (es : List Entity) (e : Extent K) :
    p.appendAll es e = .ok ⟨.collecting, p.regions.noteAll es e⟩ := by
  induction es generalizing p with
  | nil => rw [appendAll_nil, ← hp]; rfl
  | cons x es ih =>
    have : p.append x e = .ok ⟨.collecting, p.regions.insert x (p.regions.getD x [] ++ [e])⟩ := by
      rw [append, if_neg (by rw [hp]; decide)]
    simp only [appendAll, List.foldlM_cons, this, bind, Except.bind]
    exact ih rfl

theorem Page.appendAll_of_ne_dispatched {p : Page K} (hp : p.state ≠ .dispatched) {es : List Entity} (hes : es ≠ [])
    (e : Extent K) : p.appendAll es e = .ok ⟨.collecting, p.regions.noteAll es e⟩ := by
  cases es with
  | nil => exact absurd rfl hes
  | cons x es =>
    simp only [appendAll, List.foldlM_cons, append, if_neg hp, bind, Except.bind]
    exact appendAll_of_collecting rfl es e

def Contribution.page? (cs : List (Contribution K)) : Option (Page K) :=
  if (regions cs).isEmpty then none else some ⟨.collecting, regions cs⟩

theorem Contribution.state_page? (cs : List (Contribution K)) : ((page? cs).getD .blank).state ≠ .dispatched := by
  unfold page?
  by_cases h : (regions cs).isEmpty = true
  · rw [if_pos h]
    exact PageState.noConfusion
  · rw [if_neg h]
    exact PageState.noConfusion

theorem Contribution.regions_page? (cs : List (Contribution K)) : ((page? cs).getD .blank).regions = regions cs := by
  unfold page?
  by_cases h : (regions cs).isEmpty = true
  · rw [if_pos h]
    exact (Std.ExtTreeMap.isEmpty_iff.mp h).symm
  · rw [if_neg h]
    rfl

/-! ## Transactions -/

namespace Transaction

structure Awaits (t : Transaction K) (scope : String) (cs : List (Contribution K)) : Prop where
  free : t.isBlocked = false
  page : t.page? scope = Contribution.page? cs

theorem awaits_of_absent {t : Transaction K} (h : t.contains ledgerKey = false) (scope : String) :
    t.Awaits scope [] := by
  have hl : t.ledger? = none := by
    have : t.properties[ledgerKey]? = none := by
      rw [contains, Std.ExtTreeMap.contains_eq_isSome_getElem?] at h
      exact Option.isNone_iff_eq_none.mp (by rw [← Option.not_isSome, h]; rfl)
    simp only [ledger?, get?, this, Option.bind_none]
  exact ⟨by simp [isBlocked, h], by simp [page?, hl, Contribution.page?, Contribution.regions]⟩

theorem awaits_start (id : TransactionId) (scope : String) : (start id : Transaction K).Awaits scope [] :=
  awaits_of_absent (by simp [start, contains]) scope

theorem Awaits.snoc_of_isEmpty {t : Transaction K} {scope : String} {cs : List (Contribution K)} (h : t.Awaits scope cs)
    {c : Contribution K} (hc : c.entities.isEmpty = true) : t.Awaits scope (cs ++ [c]) := by
  have hr : Contribution.regions (cs ++ [c]) = Contribution.regions cs := by
    rw [Contribution.regions_snoc, show c.entities.toList = [] by simpa using hc]
    rfl
  exact ⟨h.free, by rw [h.page, Contribution.page?, Contribution.page?, hr]⟩

theorem Awaits.note {t : Transaction K} {scope : String} {cs : List (Contribution K)} (h : t.Awaits scope cs)
    {c : Contribution K} (hc : c.entities.isEmpty = false) :
    ∃ t', t.note scope c.entities.toList c.extent = .ok t' ∧ t'.Awaits scope (cs ++ [c]) := by
  have hne : c.entities.toList ≠ [] := by simpa using hc
  have ha : ((t.page? scope).getD .blank).appendAll c.entities.toList c.extent =
      .ok ⟨.collecting, Contribution.regions (cs ++ [c])⟩ := by
    rw [h.page, Page.appendAll_of_ne_dispatched (Contribution.state_page? cs) hne, Contribution.regions_page?,
      Contribution.regions_snoc]
  have hn : (Contribution.regions (cs ++ [c])).isEmpty = false :=
    Contribution.isEmpty_regions (List.mem_append_right cs List.mem_cons_self) hc
  cases ht : t.note scope c.entities.toList c.extent with
  | error f =>
    have := note_eq_error ht
    simp [Slot.note, slot, h.free, ha, Except.map] at this
  | ok t' =>
    obtain ⟨-, p, hp, hf, hs⟩ := note_eq_ok ht
    refine ⟨t', rfl, hf, ?_⟩
    rw [hs, if_pos rfl, ← Except.ok.inj (ha.symm.trans hp), Contribution.page?, hn]
    rfl

theorem Awaits.takePage? {t : Transaction K} {scope : String} {cs : List (Contribution K)} (h : t.Awaits scope cs) :
    (t.takePage? scope).elim ∅ Prod.fst = Contribution.regions cs := by
  have hp := h.page
  unfold Contribution.page? at hp
  by_cases he : (Contribution.regions cs).isEmpty = true
  · rw [if_pos he] at hp
    have ht : t.takePage? scope = none := by
      cases ht : t.takePage? scope with
      | none => rfl
      | some x =>
        obtain ⟨r, t'⟩ := x
        obtain ⟨-, p, hp', -⟩ := takePage?_eq_some ht
        cases hp.symm.trans hp'
    rw [ht]
    exact (Std.ExtTreeMap.isEmpty_iff.mp he).symm
  · rw [if_neg he] at hp
    cases ht : t.takePage? scope with
    | none => cases hp.symm.trans (takePage?_eq_none ht)
    | some x =>
      obtain ⟨r, t'⟩ := x
      obtain ⟨-, p, hp', hr, -⟩ := takePage?_eq_some ht
      cases hp.symm.trans hp'
      exact hr

theorem Awaits.of_slot {t t' : Transaction K} {scope : String} {cs : List (Contribution K)} (h : t.Awaits scope cs)
    (hs : t'.slot scope = t.slot scope) : t'.Awaits scope cs := by
  obtain ⟨hb, hp⟩ := Slot.mk.inj hs
  exact ⟨hb.trans h.free, hp.trans h.page⟩

end Transaction

end ExtentLedger
