import ExtentLedger.Proofs.Observer.Waiting

/-!
# A transaction in one shot

An observer that serves a transaction from its first change to its commit notes as it goes, in a ledger that it finds
again each time. What comes of it can be said without a ledger: every change is heard once, and then every entity that
some contribution affects is dealt with once, in ascending order, with the extents of all the contributions that affect
it. The capabilities may answer each call as they like, and break off in the middle of it.
-/

namespace ExtentLedger

variable {σ K : Type}

namespace Observer

def serve [Journal σ K] (o : Observer σ K) (changes : List (Change σ K)) (committed : Bool) (s : Scene σ K) :
    DispatchReport × Scene σ K :=
  o.onEnd committed (changes.foldl (fun s c => o.onChange c s) s)

end Observer

def Hearing.contributions (hs : List (Hearing K)) : List (Contribution K) := hs.filterMap contribution?

/-- What hearing of `changes` and dealing with `dealt` has to be in order to make up one transaction. -/
structure OneShot (config : ObserverConfig) (changes : List (Change σ K)) (heard : List (Hearing K))
    (dealt : List (Dealing K)) : Prop where
  hears : List.Forall₂ (fun c h => h.Fits config c) changes heard
  ascending : (dealt.map Dealing.entity).Pairwise (· < ·)
  affected : ∀ x, x ∈ dealt.map Dealing.entity ↔ ∃ c ∈ Hearing.contributions heard, c.affects x = true
  collected : ∀ d ∈ dealt, d.extents = Contribution.extentsFor (Hearing.contributions heard) d.entity
  deals : ∀ d ∈ dealt, d.fate.Fits

def OneShot.calls (changes : List (Change σ K)) (heard : List (Hearing K)) (dealt : List (Dealing K)) : List (Call K) :=
  (changes.zip heard).flatMap (fun x => x.2.calls x.1.source) ++ dealt.flatMap Dealing.calls

/-! ## Changes -/

namespace Observer

variable [Journal σ K]

def hearings (o : Observer σ K) : List (Change σ K) → Scene σ K → List (Hearing K)
  | [], _ => []
  | c :: cs, s => (o.hear c s.2).1 :: o.hearings cs (o.onChange c s)

theorem fits_hearings (o : Observer σ K) : ∀ (changes : List (Change σ K)) (s : Scene σ K),
    List.Forall₂ (fun c h => h.Fits o.config c) changes (o.hearings changes s)
  | [], _ => .nil
  | c :: cs, s => .cons (fits_hear o c s.2) (fits_hearings o cs _)

theorem awaits_changes (o : Observer σ K) : ∀ (changes : List (Change σ K)) (t : Transaction K) (w : σ)
    {cs : List (Contribution K)}, t.Awaits o.config.scope cs →
    (changes.foldl (fun s c => o.onChange c s) (t, w)).1.Awaits o.config.scope
      (cs ++ Hearing.contributions (o.hearings changes (t, w)))
  | [], t, w, cs, ht => by
    rw [hearings, Hearing.contributions, List.filterMap_nil, List.append_nil]
    exact ht
  | c :: changes, t, w, cs, ht => by
    have hc := Hearing.awaits_enact (fits_hear o c w) ht (o.hear c w).2
    have ih := awaits_changes o changes _ ((o.hear c w).1.enact o.config.scope (t, (o.hear c w).2)).2 hc
    rw [List.foldl_cons, hearings, onChange_eq, Hearing.contributions, List.filterMap_cons]
    rw [List.append_assoc] at ih
    cases hd : (o.hear c w).1.contribution? with
    | none => simpa [hd, Hearing.contributions] using ih
    | some d => simpa [hd, Hearing.contributions] using ih

theorem changes_traced (o : Observer σ K) : ∀ (changes : List (Change σ K)) (t : Transaction K) (calls : List (Call K))
    (w : σ),
    (changes.map Change.traced).foldl (fun s c => o.traced.onChange c s) (t, (calls, w)) =
      ((changes.foldl (fun s c => o.onChange c s) (t, w)).1,
        (calls ++ (changes.zip (o.hearings changes (t, w))).flatMap fun x => x.2.calls x.1.source,
          (changes.foldl (fun s c => o.onChange c s) (t, w)).2))
  | [], t, calls, w => by simp
  | c :: cs, t, calls, w => by
    rw [List.map_cons, List.foldl_cons, onChange_traced, changes_traced o cs, List.foldl_cons, hearings,
      List.zip_cons_cons, List.flatMap_cons, List.append_assoc]

end Observer

/-- The handler is called where a target and a merged extent were to be had, with that extent. -/
theorem Dealing.handle_mem_calls {d : Dealing K} (hf : d.fate.Fits) (x : Entity) (e : Extent K) :
    (∃ answer, Call.handle x e answer ∈ d.calls) ↔
      x = d.entity ∧ ∃ target, Call.target d.entity (.value target) ∈ d.calls ∧
        Call.merge target d.extents (.value (some e)) ∈ d.calls := by
  obtain ⟨entity, es, fate⟩ := d
  rcases fate with a | ⟨r, a⟩ | ⟨r, m, a⟩
  · simp [calls]
  · have : Outcome.value (some e) ≠ a := (hf e).symm
    simp [calls, this]
  · simp only [calls, List.mem_cons, reduceCtorEq, List.not_mem_nil, Call.handle.injEq, Call.merge.injEq,
      Call.target.injEq, Outcome.value.injEq, Option.some.injEq, false_or, or_false, true_and, exists_and_left]
    constructor
    · intro h
      obtain ⟨rfl, rfl, -⟩ := h
      exact ⟨rfl, r, rfl, rfl, rfl⟩
    · intro h
      obtain ⟨rfl, -, -, -, rfl⟩ := h
      exact ⟨rfl, rfl, a, rfl⟩

namespace Observer

variable [Journal σ K]

/-- To serve a transaction is to hear every change once and to deal once with every entity that is affected. -/
theorem serve_isOneShot (o : Observer σ K) (changes : List (Change σ K)) (t : Transaction K) (w : σ)
    (ht : t.contains Transaction.ledgerKey = false) :
    ∃ heard dealt, OneShot o.config changes heard dealt ∧
      (∀ d ∈ dealt, ∀ x e, (∃ answer, Call.handle x e answer ∈ d.calls) ↔
        x = d.entity ∧ ∃ target, Call.target d.entity (.value target) ∈ d.calls ∧
          Call.merge target d.extents (.value (some e)) ∈ d.calls) ∧
      ∃ t' w', o.serve changes true (t, w) = (.ofDealings dealt, (t', w')) ∧
        o.traced.serve (changes.map Change.traced) true (t, ([], w)) =
          (.ofDealings dealt, (t', (OneShot.calls changes heard dealt, w'))) := by
  have ha := awaits_changes o changes t w (Transaction.awaits_of_absent ht o.config.scope)
  rw [List.nil_append] at ha
  set heard := o.hearings changes (t, w)
  set s := changes.foldl (fun s c => o.onChange c s) (t, w) with hs
  have hd : o.dealings true s.1 s.2 =
      (o.dealAll (Contribution.regions (Hearing.contributions heard)).toList s.2).1 := by
    rw [dealings_true, ha.takePage?]
  obtain ⟨hp, hf⟩ := dealAll_pending o (Contribution.regions (Hearing.contributions heard)).toList s.2
  rw [← hd] at hp hf
  have hr := report_onEnd o true s.1 s.2
  set dealt := o.dealings true s.1 s.2
  have he : dealt.map Dealing.entity = (Contribution.regions (Hearing.contributions heard)).toList.map Prod.fst := by
    rw [← hp, List.map_map]
    rfl
  have hm : ∀ d ∈ dealt, (d.entity, d.extents) ∈ (Contribution.regions (Hearing.contributions heard)).toList :=
    fun d hd => hp ▸ List.mem_map_of_mem hd
  refine ⟨heard, dealt, ⟨fits_hearings o changes _, ?_, fun x => ?_, fun d hd => ?_, hf⟩,
    fun d hd => Dealing.handle_mem_calls (hf d hd), (o.onEnd true s).2.1, (o.onEnd true s).2.2, ?_, ?_⟩
  · rw [he]
    exact Contribution.ascending_regions _
  · rw [he, List.mem_map]
    constructor
    · intro h
      obtain ⟨⟨y, es⟩, hy, rfl⟩ := h
      exact (Contribution.mem_toList_regions.mp hy).1
    · intro h
      exact ⟨(x, _), Contribution.mem_toList_regions.mpr ⟨h, rfl⟩, rfl⟩
  · exact (Contribution.mem_toList_regions.mp (hm d hd)).2
  · rw [serve, ← hs, ← hr]
  · rw [serve, changes_traced, ← hs, onEnd_traced]
    exact Prod.ext hr rfl

theorem serve_isOneShot_start :
    let o : Observer (List (Notice Rat)) Rat :=
      ⟨.ofScope "log", ⟨fun s => .always (.value (.ofList [s])), fun _ => .always (.value (.horizontal "plane"))⟩,
        fun _ es => .always (.value es.head?), fun _ _ => .always (.value ())⟩
    let e : Extent Rat := ⟨⟨⟨0, 1⟩, ⟨0, 1⟩⟩, none, .horizontal "plane"⟩
    let c : Change (List (Notice Rat)) Rat := ⟨"a", .update, .preUpdate, .ofExtent e⟩
    let t : Transaction Rat := .start ⟨0⟩
    t.contains Transaction.ledgerKey = false ∧ ∃ heard dealt, OneShot o.config [c, c] heard dealt ∧
      (o.serve [c, c] true (t, [])).1 = .ofDealings dealt := by
  intro o e c t
  have ht : t.contains Transaction.ledgerKey = false := by simp [t, Transaction.start, Transaction.contains]
  obtain ⟨heard, dealt, h, -, t', w', hs, -⟩ := serve_isOneShot o [c, c] t [] ht
  exact ⟨ht, heard, dealt, h, by rw [hs]⟩

end Observer

end ExtentLedger
