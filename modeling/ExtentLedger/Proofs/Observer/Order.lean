import ExtentLedger.Proofs.Observer.Dispatch
import ExtentLedger.Proofs.Observer.OneShot
import ExtentLedger.Proofs.Reprojection.Merging
import Mathlib.Data.List.Sort

/-!
# The order of changes

Where the answers of the resolver and of the records do not depend on the state and extents are merged by pure
transforms, it does not matter in which order an observer hears of changes, or how often it hears of one of them. Its
commit deals with the same entities, gets stuck at the same ones, and hands the same extents to the handler.
-/

namespace ExtentLedger

variable {σ K : Type}

/-- The same thing has come of two entities, up to the `==` of the extents. Handlers may answer as they like. -/
inductive Fate.Agrees [BEq K] : Fate K → Fate K → Prop
  | targeted {a} : (∀ r, a ≠ .value r) → Agrees (targeted a) (targeted a)
  | merged {r a b} : (∀ x, a ≠ .value x) → (∀ x, b ≠ .value x) → Agrees (merged r a) (merged r b)
  | handled {r e f a b} : (e == f) = true → Agrees (handled r e a) (handled r f b)

structure Dealing.Agrees [BEq K] (d d' : Dealing K) : Prop where
  entity : d'.entity = d.entity
  fate : d.fate.Agrees d'.fate

/-- An observer that serves a committed transaction reports `dealt`, and these are its calls for the commit. -/
structure Observer.Deals [Journal σ K] (o : Observer σ K) (changes : List (Change σ K)) (s : Scene σ K)
    (dealt : List (Dealing K)) : Prop where
  report : (o.serve changes true s).1 = .ofDealings dealt
  calls : (o.traced.serve (changes.map Change.traced) true (s.1, ([], s.2))).2.2.1.filter
    (fun call => call.capability.isForCommit) = dealt.flatMap Dealing.calls

/-! ## The same contributions -/

namespace Contribution

variable {cs cs' : List (Contribution K)} (hm : ∀ c, c ∈ cs ↔ c ∈ cs')
include hm

theorem mem_extentsFor_congr (x : Entity) (e : Extent K) : e ∈ extentsFor cs x ↔ e ∈ extentsFor cs' x := by
  unfold extentsFor
  simp only [List.mem_map, List.mem_filter, hm]

theorem Settled.entities_congr {dealt dealt' : List (Dealing K)} (h : Settled cs dealt) (h' : Settled cs' dealt') :
    dealt.map Dealing.entity = dealt'.map Dealing.entity := by
  have hx : ∀ x, x ∈ dealt.map Dealing.entity ↔ x ∈ dealt'.map Dealing.entity := by
    intro x
    rw [h.affected, h'.affected]
    simp only [hm]
  exact h.ascending.eq_of_mem_iff h'.ascending hx

end Contribution

namespace Observer

variable {o : Observer σ K}

/-! ## Hearing -/

/-- A contribution does not depend on the state in which the change is heard. -/
theorem contribution?_hear_congr {c : Change σ K} (ha : (o.resolver.affected c.source).IsSteady)
    (hr : c.records.IsSteady) (w w' : σ) : (o.hear c w).1.contribution? = (o.hear c w').1.contribution? := by
  ext d
  rw [contribution?_hear, contribution?_hear, ha w w', hr _ (o.resolver.affected c.source w').2]

section
variable [Journal σ K] (ha : ∀ source, (o.resolver.affected source).IsSteady)
include ha

theorem contributions_hearings (w₀ : σ) {changes : List (Change σ K)} (hr : ∀ c ∈ changes, c.records.IsSteady)
    (s : Scene σ K) :
    Hearing.contributions (o.hearings changes s) = changes.filterMap fun c => (o.hear c w₀).1.contribution? := by
  induction changes generalizing s with
  | nil => rfl
  | cons c changes ih =>
    obtain ⟨hc, hr⟩ := List.forall_mem_cons.mp hr
    have ih := ih hr (o.onChange c s)
    unfold Hearing.contributions at ih ⊢
    rw [hearings, List.filterMap_cons, List.filterMap_cons, ih, contribution?_hear_congr (ha c.source) hc s.2 w₀]

theorem mem_contributions_congr {changes changes' : List (Change σ K)} (hr : ∀ c ∈ changes, c.records.IsSteady)
    (hm : ∀ c, c ∈ changes ↔ c ∈ changes') (s s' : Scene σ K) (d : Contribution K) :
    d ∈ Hearing.contributions (o.hearings changes s) ↔ d ∈ Hearing.contributions (o.hearings changes' s') := by
  rw [contributions_hearings ha s.2 hr, contributions_hearings ha s.2 fun c hc => hr c ((hm c).mpr hc)]
  simp only [List.mem_filterMap, hm]

end

/-! ## Dealing -/

theorem exists_deal_of_mem_dealAll [Journal σ K] {d : Dealing K} : ∀ {l : List (Entity × List (Extent K))} {w : σ},
    d ∈ (o.dealAll l w).1 → ∃ w', d.fate = (o.deal d.entity d.extents w').1
  | [], _, h => nomatch h
  | (entity, es) :: l, w, h => by
    cases h with
    | head => exact ⟨w, rfl⟩
    | tail _ h => exact exists_deal_of_mem_dealAll h

theorem exists_deal [Journal σ K] {t : Transaction K} {w : σ} {d : Dealing K} (h : d ∈ o.dealings true t w) :
    ∃ w', d.fate = (o.deal d.entity d.extents w').1 := by
  rw [dealings_true] at h
  exact exists_deal_of_mem_dealAll h

section
variable [Coordinate K] [LawfulCoordinate K] {table : TransformTable σ K} {budget : Nat}
  (hm : o.merger = .reprojecting table budget) (ht : table.IsPure)
  (hg : ∀ entity, (o.resolver.target entity).IsSteady)
include hm ht hg

theorem agrees_deal (entity : Entity) {es es' : List (Extent K)} (hne : es ≠ []) (hes : ∀ e ∈ es, e.toBox.IsValid)
    (hmem : ∀ e, e ∈ es ↔ e ∈ es') (w w' : σ) : (o.deal entity es w).1.Agrees (o.deal entity es' w').1 := by
  have htarget := hg entity w w'
  unfold deal
  rcases h : o.resolver.target entity w with ⟨answer, w₁⟩
  rcases h' : o.resolver.target entity w' with ⟨answer', w₁'⟩
  rw [h, h'] at htarget
  cases htarget
  cases answer with
  | failure f => exact .targeted fun _ h => by cases h
  | crash b => exact .targeted fun _ h => by cases h
  | value r =>
    have hmerge : (∃ m m', (Merger.reprojecting table budget r es w₁).1 = .value (some m) ∧
        (Merger.reprojecting table budget r es' w₁').1 = .value (some m') ∧ (m == m') = true) ∨
      (∀ x, (Merger.reprojecting table budget r es w₁).1 ≠ .value x) ∧
        ∀ x, (Merger.reprojecting table budget r es' w₁').1 ≠ .value x :=
      Merger.reprojecting_congr ht w₁ w₁' hne hes hmem
    simp only [hm]
    generalize Merger.reprojecting table budget r es w₁ = q, Merger.reprojecting table budget r es' w₁' = q' at hmerge ⊢
    obtain ⟨x, w₂⟩ := q
    obtain ⟨x', w₂'⟩ := q'
    rcases hmerge with ⟨m, m', rfl, rfl, hb⟩ | ⟨hx, hx'⟩
    · exact .handled hb
    · have hagrees : Fate.Agrees (.merged r x) (.merged r x') := .merged hx hx'
      -- Neither answer is a value, so both observers stop here.
      rcases x with y | f | b
      · exact absurd rfl (hx y)
      all_goals
        rcases x' with y' | f' | b'
        · exact absurd rfl (hx' y')
        · exact hagrees
        · exact hagrees

variable [Journal σ K]

theorem agrees_dealings {cs cs' : List (Contribution K)} (hcs : ∀ c, c ∈ cs ↔ c ∈ cs')
    (hv : ∀ c ∈ cs, c.extent.IsValid) {t t' : Transaction K} (hw : t.Awaits o.config.scope cs)
    (hw' : t'.Awaits o.config.scope cs') (w w' : σ) :
    List.Forall₂ Dealing.Agrees (o.dealings true t w) (o.dealings true t' w') := by
  have hs := o.settled_dealings hw w
  have hs' := o.settled_dealings hw' w'
  have he : List.Forall₂ (fun d d' => d.entity = d'.entity) (o.dealings true t w) (o.dealings true t' w') := by
    have := hs.entities_congr hcs hs'
    rwa [← List.forall₂_eq_eq_eq, List.forall₂_map_left_iff, List.forall₂_map_right_iff] at this
  -- The same entities in the same order, so that the dealings can be compared one by one.
  rw [List.forall₂_iff_zip] at he ⊢
  refine ⟨he.1, fun {d d'} hz => ?_⟩
  obtain ⟨hd, hd'⟩ := List.of_mem_zip hz
  have hent : d.entity = d'.entity := he.2 hz
  refine ⟨hent.symm, ?_⟩
  have hne : d.extents ≠ [] := by
    rw [hs.collected d hd]
    exact Contribution.extentsFor_ne_nil ((hs.affected d.entity).mp (List.mem_map_of_mem hd))
  have hes : ∀ e ∈ d.extents, e.toBox.IsValid := by
    intro e hm
    rw [hs.collected d hd] at hm
    obtain ⟨c, hc, rfl⟩ := List.mem_map.mp hm
    exact (hv c (List.mem_of_mem_filter hc)).box
  have hmem : ∀ e, e ∈ d.extents ↔ e ∈ d'.extents := by
    intro e
    rw [hs.collected d hd, hs'.collected d' hd', ← hent]
    exact Contribution.mem_extentsFor_congr hcs d.entity e
  obtain ⟨v, hf⟩ := exists_deal hd
  obtain ⟨v', hf'⟩ := exists_deal hd'
  rw [hf, hf', ← hent]
  exact agrees_deal hm ht hg d.entity hne hes hmem v v'

end

/-! ## Serving a transaction -/

section
variable [Journal σ K]

theorem deals_serve (o : Observer σ K) (changes : List (Change σ K)) (t : Transaction K) (w : σ) :
    let s := changes.foldl (fun s c => o.onChange c s) (t, w)
    o.Deals changes (t, w) (o.dealings true s.1 s.2) := by
  intro s
  constructor
  · exact report_onEnd o true s.1 s.2
  · rw [serve, changes_traced, onEnd_traced, List.nil_append, List.filter_append, Dealing.filter_calls,
      List.filter_flatMap]
    simp [Hearing.filter_calls, s]

/-- Lists of changes with the same members come to the same dealings, in the same order and with equal extents. -/
theorem order_free [Coordinate K] [LawfulCoordinate K] (o : Observer σ K) {table : TransformTable σ K} {budget : Nat}
    (hm : o.merger = .reprojecting table budget) (ht : table.IsPure)
    (ha : ∀ source, (o.resolver.affected source).IsSteady) (hg : ∀ entity, (o.resolver.target entity).IsSteady)
    {changes changes' : List (Change σ K)} (hc : ∀ c, c ∈ changes ↔ c ∈ changes')
    (hr : ∀ c ∈ changes, c.records.IsSteady)
    (hv : ∀ c ∈ changes, ∀ w e, (c.records w).1 = .value (some e) → e.IsValid)
    {t t' : Transaction K} (hf : t.contains Transaction.ledgerKey = false)
    (hf' : t'.contains Transaction.ledgerKey = false) (w w' : σ) :
    ∃ dealt dealt', o.Deals changes (t, w) dealt ∧ o.Deals changes' (t', w') dealt' ∧
      List.Forall₂ Dealing.Agrees dealt dealt' := by
  have hw := awaits_changes o changes t w (Transaction.awaits_of_absent hf o.config.scope)
  have hw' := awaits_changes o changes' t' w' (Transaction.awaits_of_absent hf' o.config.scope)
  rw [List.nil_append] at hw hw'
  refine ⟨_, _, deals_serve o changes t w, deals_serve o changes' t' w', ?_⟩
  refine agrees_dealings hm ht hg (mem_contributions_congr ha hr hc (t, w) (t', w')) ?_ hw hw' _ _
  intro d hd
  rw [contributions_hearings ha w hr] at hd
  obtain ⟨c, hcm, hd⟩ := List.mem_filterMap.mp hd
  exact hv c hcm _ _ (contribution?_hear.mp hd).2.2.2

theorem order_free_swapped :
    let table : TransformTable (List (Notice Rat)) Rat := .standard ⟨85, id, id, id, id⟩
    let o : Observer (List (Notice Rat)) Rat :=
      ⟨.ofScope "log", ⟨fun _ => .always (.value (.ofList ["all"])), fun _ => .always (.value (.horizontal "plane"))⟩,
        .reprojecting table 8, fun _ _ => .crash none⟩
    let e (lo hi : Rat) : Extent Rat := ⟨⟨⟨lo, hi⟩, ⟨0, 1⟩⟩, none, .horizontal "plane"⟩
    let c (lo hi : Rat) : Change (List (Notice Rat)) Rat := ⟨"a", .update, .preUpdate, .ofExtent (e lo hi)⟩
    let changes := [c 0 1, c 2 3]
    let changes' := [c 2 3, c 0 1, c 2 3]
    let t : Transaction Rat := .start ⟨0⟩
    table.IsPure ∧ (∀ c ∈ changes, ∀ w e, (c.records w).1 = .value (some e) → e.IsValid) ∧
      t.contains Transaction.ledgerKey = false ∧
      ∃ dealt dealt', o.Deals changes (t, []) dealt ∧ o.Deals changes' (t, []) dealt' ∧
        List.Forall₂ Dealing.Agrees dealt dealt' := by
  intro table o e c changes changes' t
  have ht : table.IsPure := TransformTable.isPure_standard _
  have h01 : (0 : Rat) ≤ 1 := by decide
  have he : ∀ lo hi : Rat, lo ≤ hi → (e lo hi).IsValid := fun lo hi h => ⟨⟨rfl, h⟩, ⟨rfl, h01⟩, nofun, rfl⟩
  have hv : ∀ c ∈ changes, ∀ w e, (c.records w).1 = .value (some e) → e.IsValid := by
    intro c' hc' w f hf
    rcases List.mem_cons.mp hc' with rfl | hc'
    · cases hf
      exact he 0 1 h01
    · cases List.mem_singleton.mp hc'
      cases hf
      exact he 2 3 (by decide)
  have hr : ∀ c ∈ changes, c.records.IsSteady := by
    intro c' hc'
    rcases List.mem_cons.mp hc' with rfl | hc'
    · exact fun _ _ => rfl
    · cases List.mem_singleton.mp hc'
      exact fun _ _ => rfl
  have hc : ∀ x, x ∈ changes ↔ x ∈ changes' := by
    intro x
    simp only [changes, changes', List.mem_cons, List.not_mem_nil, or_false]
    tauto
  have hf : t.contains Transaction.ledgerKey = false := by simp [t, Transaction.start, Transaction.contains]
  exact ⟨ht, hv, hf, order_free o rfl ht (fun _ _ _ => rfl) (fun _ _ _ => rfl) hc hr hv hf hf [] []⟩

end

end Observer

end ExtentLedger
