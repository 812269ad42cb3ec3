import ExtentLedger.Proofs.Observer.Hooks
import ExtentLedger.Proofs.Transaction.Pending

/-!
# What waits for an observer

Each change adds its contribution, if it has one, to what waits in the scope of the observer. The commit deals with all
that waits, one entity after another.
-/

namespace ExtentLedger

variable {σ K : Type}

def timeline {α β : Type} (step : β → α → β) : β → List α → List (α × β)
  | _, [] => []
  | b, a :: as => (a, b) :: timeline step (step b a) as

theorem timeline_snoc {α β : Type} (step : β → α → β) (a : α) : ∀ (as : List α) (b : β),
    timeline step b (as ++ [a]) = timeline step b as ++ [(a, as.foldl step b)]
  | [], _ => rfl
  | a' :: as, b => congrArg ((a', b) :: ·) (timeline_snoc step a as (step b a'))

theorem mem_of_mem_timeline {α β : Type} {step : β → α → β} {x : α × β} : ∀ {as : List α} {b : β},
    x ∈ timeline step b as → x.1 ∈ as
  | [], _, h => nomatch h
  | a :: as, b, h => by
    rcases List.mem_cons.mp h with rfl | h
    · exact List.mem_cons_self
    · exact List.mem_cons_of_mem _ (mem_of_mem_timeline h)

def Change.contribution? (config : ObserverConfig) (answer : Outcome Fault EntitySet) (c : Change σ K) (w : σ) :
    Option (Contribution K) :=
  if config.concerns c then
    match answer, (c.records w).1 with
    | .value entities, .value (some e) => some ⟨entities, e⟩
    | _, _ => none
  else none

theorem Change.records_of_contribution? {config : ObserverConfig} {answer : Outcome Fault EntitySet} {c : Change σ K}
    {w : σ} {d : Contribution K} (h : c.contribution? config answer w = some d) :
    config.concerns c = true ∧ answer = .value d.entities ∧ (c.records w).1 = .value (some d.extent) := by
  unfold contribution? at h
  by_cases hc : config.concerns c = true
  · rw [if_pos hc] at h
    generalize (c.records w).1 = r at h ⊢
    rcases answer with es | e | b <;> rcases r with (_ | e) | f | b <;> cases h
    exact ⟨hc, rfl, rfl⟩
  · rw [if_neg hc] at h
    cases h

/-- Every entity that a contribution affects was dealt with once, in ascending order, with the extents of all the
contributions that affect it. -/
structure Contribution.Settled (cs : List (Contribution K)) (dealt : List (Dealing K)) : Prop where
  ascending : (dealt.map Dealing.entity).Pairwise (· < ·)
  affected : ∀ x, x ∈ dealt.map Dealing.entity ↔ ∃ c ∈ cs, c.affects x = true
  collected : ∀ d ∈ dealt, d.extents = extentsFor cs d.entity

variable [Journal σ K]

theorem Hearing.awaits_enact {config : ObserverConfig} {c : Change σ K} {h : Hearing K} (hf : h.Fits config c)
    {scope : String} {t : Transaction K} {cs : List (Contribution K)} (ht : t.Awaits scope cs) (w : σ) :
    (h.enact scope (t, w)).1.Awaits scope (cs ++ h.contribution?.toList) := by
  unfold enact
  cases hd : h.contribution? with
  | none =>
    rw [Option.toList_none, List.append_nil]
    exact ht
  | some d =>
    obtain ⟨t', hn, ht'⟩ := ht.note (Observer.contribution?_fits hf hd)
    simp only [hn]
    exact ht'

namespace Observer

theorem awaits_onChange (o : Observer σ K) {c : Change σ K} {w : σ} {answer : Outcome Fault EntitySet}
    (ha : o.resolver.affected c.source w = (answer, w)) {t : Transaction K} {cs : List (Contribution K)}
    (ht : t.Awaits o.config.scope cs) :
    (o.onChange c (t, w)).1.Awaits o.config.scope (cs ++ (c.contribution? o.config answer w).toList) := by
  have hn := Hearing.awaits_enact (fits_hear o c w) ht (o.hear c w).2
  rw [onChange_eq]
  unfold Change.contribution?
  unfold hear at hn ⊢
  rw [ha] at hn ⊢
  by_cases hc : o.config.concerns c = true
  · rw [if_pos hc] at hn ⊢
    rw [if_pos hc]
    cases answer with
    | failure e => exact hn
    | crash b => exact hn
    | value es =>
      by_cases he : es.isEmpty = true
      · simp only [he, if_true] at hn ⊢
        -- Nothing is affected, so the records are not asked, and what they would answer does not matter.
        rcases (c.records w).1 with (_ | e) | f | b
        · exact hn
        · exact (ht.snoc_of_isEmpty (c := ⟨es, e⟩) he)
        · exact hn
        · exact hn
      · rcases hr : c.records w with ⟨(_ | e) | f | b, w'⟩
        all_goals
          simp only [he, Bool.false_eq_true, if_false, hr] at hn ⊢
          exact hn
  · rw [if_neg hc] at hn ⊢
    rw [if_neg hc]
    exact hn

theorem dealings_true (o : Observer σ K) (t : Transaction K) (w : σ) :
    o.dealings true t w = (o.dealAll ((t.takePage? o.config.scope).elim ∅ Prod.fst).toList w).1 := by
  unfold dealings
  cases t.takePage? o.config.scope with
  | none =>
    rw [Option.elim_none, Std.ExtTreeMap.toList_eq_nil_iff.mpr rfl]
    rfl
  | some x => rfl

/-- Each entity is dealt with once, with the extents that are pending for it. -/
theorem dealAll_pending (o : Observer σ K) : ∀ (l : List (Entity × List (Extent K))) (w : σ),
    (o.dealAll l w).1.map (fun d => (d.entity, d.extents)) = l ∧ ∀ d ∈ (o.dealAll l w).1, d.fate.Fits
  | [], _ => ⟨rfl, fun _ h => nomatch h⟩
  | (entity, es) :: l, w => by
    obtain ⟨hl, hf⟩ := dealAll_pending o l (Dealing.enact ⟨entity, es, (o.deal entity es w).1⟩ (o.deal entity es w).2)
    refine ⟨congrArg ((entity, es) :: ·) hl, fun d hd => ?_⟩
    cases hd with
    | head => exact fits_deal o entity es w
    | tail _ hd => exact hf d hd

theorem settled_dealings (o : Observer σ K) {t : Transaction K} {cs : List (Contribution K)}
    (ht : t.Awaits o.config.scope cs) (w : σ) : Contribution.Settled cs (o.dealings true t w) := by
  rw [dealings_true, ht.takePage?]
  obtain ⟨hp, -⟩ := dealAll_pending o (Contribution.regions cs).toList w
  generalize (o.dealAll (Contribution.regions cs).toList w).1 = dealt at hp
  have he : dealt.map Dealing.entity = (Contribution.regions cs).toList.map Prod.fst := by
    rw [← hp, List.map_map]
    rfl
  refine ⟨he ▸ Contribution.ascending_regions cs, fun x => ?_, fun d hd => ?_⟩
  · rw [he, List.mem_map]
    constructor
    · intro h
      obtain ⟨⟨y, es⟩, hy, rfl⟩ := h
      exact (Contribution.mem_toList_regions.mp hy).1
    · intro h
      exact ⟨(x, _), Contribution.mem_toList_regions.mpr ⟨h, rfl⟩, rfl⟩
  · have hm : (d.entity, d.extents) ∈ (Contribution.regions cs).toList := hp ▸ List.mem_map_of_mem hd
    exact (Contribution.mem_toList_regions.mp hm).2

end Observer

end ExtentLedger
