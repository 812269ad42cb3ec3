import ExtentLedger.Listener.Host
import ExtentLedger.Proofs.Consumer.Growth
import ExtentLedger.Proofs.Listener.FanOut

/-!
# Interleaved transactions over stored bounds

Several transactions run side by side over one catalog. However their turns are interleaved, the catalog grows by what
each committed transaction has merged, and by nothing else: a change is looked up long before the commit that uses it,
but what is looked up, whether there is an entity and in which system it is stored, never changes.
-/

namespace ExtentLedger

variable {ι σ τ K : Type}

def Host.turn [DecidableEq ι] [Journal σ K] (o : Observer σ K) (h : Host ι σ K) (x : ι × Hook σ K) : Host ι σ K :=
  h.inContext x.1 fun s => (o.told x.2 s).2

def Change.extent? (config : ObserverConfig) (c : Change σ K) (w : σ) : Option (Extent K) :=
  if config.concerns c then (c.records w).1.found? else none

section
variable (config : ObserverConfig)

def collected [DecidableEq ι] (course : List ((ι × Hook σ K) × Host ι σ K)) (i : ι) (id : String) : List (Extent K) :=
  course.filterMap fun x =>
    match x.1 with
    | (j, .change c) => if j = i ∧ c.source = id then c.extent? config x.2.world else none
    | (_, .finish _) => none

def committed (course : List ((ι × Hook σ K) × Host ι σ K)) : List ι :=
  course.filterMap fun x =>
    match x.1 with
    | (i, .finish true) => some i
    | _ => none

end

def Hook.IsOrderly [Coordinate K] : Hook (Stored K × τ) K → Prop
  | change c => c.records.Keeps Prod.fst ∧ ∀ w e, (c.records w).1 = .value (some e) → e.IsValid
  | finish _ => True

def IsOpen (course : List ((ι × Hook σ K) × Host ι σ K)) (i : ι) : Prop :=
  ∀ x ∈ course, x.1.1 = i → ∃ c, x.1.2 = .change c

/-! ## What is collected and committed -/

section
variable {config : ObserverConfig} {course : List ((ι × Hook σ K) × Host ι σ K)} {h : Host ι σ K}

theorem committed_snoc_change (i : ι) (c : Change σ K) :
    committed (course ++ [((i, .change c), h)]) = committed course := by
  simp [committed]

theorem committed_snoc_finish (i : ι) (b : Bool) :
    committed (course ++ [((i, .finish b), h)]) = committed course ++ if b then [i] else [] := by
  cases b <;> simp [committed]

variable [DecidableEq ι]

theorem collected_snoc_change (i j : ι) (c : Change σ K) (id : String) :
    collected config (course ++ [((j, .change c), h)]) i id = collected config course i id ++
      if j = i ∧ c.source = id then (c.extent? config h.world).toList else [] := by
  by_cases hj : j = i ∧ c.source = id
  · rw [if_pos hj]
    unfold collected
    rw [List.filterMap_append, List.filterMap_cons, List.filterMap_nil]
    simp only [hj, and_self, if_true]
    cases c.extent? config h.world <;> rfl
  · rw [if_neg hj]
    simp [collected, hj]

theorem collected_snoc_change_of_ne {i j : ι} (hij : j ≠ i) (c : Change σ K) (id : String) :
    collected config (course ++ [((j, .change c), h)]) i id = collected config course i id := by
  rw [collected_snoc_change, if_neg fun h => hij h.1, List.append_nil]

theorem collected_snoc_finish (i j : ι) (b : Bool) (id : String) :
    collected config (course ++ [((j, .finish b), h)]) i id = collected config course i id := by
  simp [collected]

end

namespace IsOpen

variable {course : List ((ι × Hook σ K) × Host ι σ K)} {i j : ι} {h : Host ι σ K}

theorem not_mem_committed (hi : IsOpen course i) : i ∉ committed course := by
  intro hm
  obtain ⟨⟨⟨j, hook⟩, h⟩, hx, hc⟩ := List.mem_filterMap.mp hm
  rcases hook with c | b
  · cases hc
  · cases b with
    | false => cases hc
    | true =>
      cases hc
      obtain ⟨c, hc⟩ := hi _ hx rfl
      cases hc

theorem of_snoc {x : (ι × Hook σ K) × Host ι σ K} (hi : IsOpen (course ++ [x]) i) : IsOpen course i :=
  fun y hy => hi y (List.mem_append_left _ hy)

theorem ne_of_snoc_finish {b : Bool} (hj : IsOpen (course ++ [((i, .finish b), h)]) j) : j ≠ i := by
  rintro rfl
  obtain ⟨c, hc⟩ := hj _ (List.mem_append_right _ (List.mem_singleton.mpr rfl)) rfl
  cases hc

end IsOpen

/-- The change adds its extent to what waits for an entity when the source is that entity, and nothing otherwise. -/
theorem Change.extentsFor_contribution? {config : ObserverConfig} {c : Change σ K} {w : σ} {es : EntitySet}
    {id : String} (hes : es.contains id = true ↔ c.source = id) :
    Contribution.extentsFor (c.contribution? config (.value es) w).toList id =
      if c.source = id then (c.extent? config w).toList else [] := by
  unfold contribution? extent?
  by_cases hc : config.concerns c = true
  · rw [if_pos hc, if_pos hc]
    rcases (c.records w).1 with (_ | e) | f | b
    · simp [Contribution.extentsFor, Outcome.found?]
    · by_cases hs : c.source = id
      · simp [Contribution.extentsFor, Contribution.affects, Outcome.found?, hes, hs]
      · simp [Contribution.extentsFor, Contribution.affects, hes, hs]
    · simp [Contribution.extentsFor, Outcome.found?]
    · simp [Contribution.extentsFor, Outcome.found?]
  · rw [if_neg hc, if_neg hc]
    simp [Contribution.extentsFor]

namespace StoredBounds

theorem affected_ofMap (source : String) (w : Stored K × τ) : ∃ es : EntitySet,
    (resolver .ofMap).affected source w = (.value es, w) ∧
      ∀ (id : String) (e : Extent K), w.1[id]? = some e → (es.contains id = true ↔ source = id) := by
  unfold resolver
  simp only
  rw [Attempt.bind_of_value (Catalog.load_ofMap _ source w)]
  cases hs : w.1[source]? with
  | none =>
    refine ⟨∅, rfl, fun id e he => ?_⟩
    have hne : source ≠ id := fun h => by rw [h, he] at hs; cases hs
    simp [hne]
  | some stored =>
    refine ⟨.ofList [source], rfl, fun id e _ => ?_⟩
    simp

variable [DecidableEq ι] [Coordinate K]

/-! ## One turn -/

/-- Where a run stands: the catalog has grown by what is committed in its course, and in every open transaction there
waits what is collected in it. -/
structure StandsAt (config : ObserverConfig) (table : TransformTable (Stored K × τ) K) (start : Stored K × τ)
    (course : List ((ι × Hook (Stored K × τ) K) × Host ι (Stored K × τ) K)) (h : Host ι (Stored K × τ) K) : Prop where
  grown : start.1.Grown
    (fun id r => (committed course).filterMap fun i =>
      mergedBox? table config.budget.toNat start r (collected config course i id))
    h.world.1
  waiting : ∀ i, IsOpen course i → ∃ cs, (h.contexts i).Awaits config.scope cs ∧ (∀ c ∈ cs, c.extent.IsValid) ∧
    ∀ (id : String) (e : Extent K), start.1[id]? = some e →
      Contribution.extentsFor cs id = collected config course i id

namespace StandsAt

variable {config : ObserverConfig} {table : TransformTable (Stored K × τ) K} {start : Stored K × τ}
  {course : List ((ι × Hook (Stored K × τ) K) × Host ι (Stored K × τ) K)} {h : Host ι (Stored K × τ) K} {i : ι}

theorem nil (ids : ι → TransactionId) (hv : start.1.IsValid) :
    StandsAt config table start [] ⟨fun i => .start (ids i), start⟩ :=
  ⟨.refl hv, fun _ _ => ⟨[], Transaction.awaits_start _ _, nofun, fun _ _ _ => rfl⟩⟩

variable [LawfulCoordinate K] [Journal τ K] {o : Observer (Stored K × τ) K}

omit [LawfulCoordinate K] in
theorem snoc_change (hs : StandsAt o.config table start course h) (hr : o.resolver = resolver .ofMap)
    (hi : IsOpen course i) {c : Change (Stored K × τ) K} (hc : (Hook.change c).IsOrderly) :
    StandsAt o.config table start (course ++ [((i, .change c), h)]) (h.turn o (i, .change c)) := by
  obtain ⟨hg, hw⟩ := hs
  obtain ⟨hkeep, hvalid⟩ := hc
  obtain ⟨es, ha, hes⟩ := affected_ofMap c.source h.world
  rw [← hr] at ha
  refine ⟨?_, fun j hj => ?_⟩
  · have hworld : (h.turn o (i, .change c)).world.1 = h.world.1 := by
      have hk : (o.resolver.affected c.source).Keeps Prod.fst := by
        intro w
        obtain ⟨es, ha, -⟩ := affected_ofMap c.source w
        rw [hr, ha]
      exact Observer.view_onChange Prod.fst (fun _ _ => rfl) hk hkeep _ _
    rw [hworld]
    refine hg.congr fun id e _ p => iff_of_eq (congrArg (p ∈ ·) ?_)
    rw [committed_snoc_change]
    refine List.filterMap_congr fun j hj => ?_
    have hij : i ≠ j := fun hij => hi.not_mem_committed (hij ▸ hj)
    rw [collected_snoc_change_of_ne hij]
  · obtain ⟨cs, hcs, hv, hx⟩ := hw j hj.of_snoc
    unfold Host.turn
    rw [Host.contexts_inContext]
    by_cases hij : j = i
    · subst hij
      rw [if_pos rfl]
      refine ⟨_, o.awaits_onChange ha hcs, ?_, fun id e he => ?_⟩
      · intro d hd
        rcases List.mem_append.mp hd with hd | hd
        · exact hv d hd
        · obtain ⟨-, -, he⟩ := Change.records_of_contribution? (Option.mem_toList.mp hd)
          exact hvalid _ _ he
      · -- What is stored now was stored from the start.
        obtain ⟨e', he', -⟩ := (hg id).2 e he
        rw [Contribution.extentsFor_append, hx id e he, Change.extentsFor_contribution? (hes id e' he'),
          collected_snoc_change]
        simp only [true_and]
    · rw [if_neg hij]
      refine ⟨cs, hcs, hv, fun id e he => ?_⟩
      rw [hx id e he, collected_snoc_change_of_ne (Ne.symm hij)]

/-- The end of a transaction grows the catalog by what is merged of what waits, when it is a commit. -/
theorem snoc_finish (hs : StandsAt o.config table start course h) (hr : o.resolver = resolver .ofMap)
    (hm : o.merger = .reprojecting table o.config.budget.toNat)
    (hh : o.handler = handler .ofMap table o.config.budget.toNat) (ht : table.IsPure) (hi : IsOpen course i)
    (b : Bool) :
    StandsAt o.config table start (course ++ [((i, .finish b), h)]) (h.turn o (i, .finish b)) := by
  obtain ⟨hg, hw⟩ := hs
  refine ⟨?_, fun j hj => ?_⟩
  · rw [committed_snoc_finish]
    simp only [collected_snoc_finish]
    cases b with
    | false =>
      rw [if_neg Bool.false_ne_true, List.append_nil]
      exact hg
    | true =>
      obtain ⟨cs, hcs, hv, hx⟩ := hw i hi
      have hend := grown_onEnd hr hm hh ht start hcs hv hg.valid
      refine (hg.trans hend).congr fun id e he p => iff_of_eq (congrArg (p ∈ ·) ?_)
      rw [if_pos rfl, List.filterMap_append, hx id e he]
      rfl
  · obtain ⟨cs, hcs, hv, hx⟩ := hw j hj.of_snoc
    unfold Host.turn
    rw [Host.contexts_inContext, if_neg hj.ne_of_snoc_finish]
    refine ⟨cs, hcs, hv, fun id e he => ?_⟩
    rw [hx id e he, collected_snoc_finish]

end StandsAt

variable [LawfulCoordinate K] [Journal τ K]

/-! ## A whole run -/

theorem standsAt_foldl {o : Observer (Stored K × τ) K} {table : TransformTable (Stored K × τ) K} {start : Stored K × τ}
    (hr : o.resolver = resolver .ofMap) (hm : o.merger = .reprojecting table o.config.budget.toNat)
    (hh : o.handler = handler .ofMap table o.config.budget.toNat) (ht : table.IsPure) (hv : start.1.IsValid)
    (ids : ι → TransactionId) (turns : List (ι × Hook (Stored K × τ) K)) (horderly : ∀ x ∈ turns, x.2.IsOrderly)
    (hlast : turns.Pairwise fun x y => x.1 = y.1 → ∃ c, x.2 = .change c) :
    StandsAt o.config table start (timeline (Host.turn o) ⟨fun i => .start (ids i), start⟩ turns)
      (turns.foldl (Host.turn o) ⟨fun i => .start (ids i), start⟩) := by
  induction turns using List.reverseRecOn with
  | nil => exact .nil ids hv
  | append_singleton turns x ih =>
    obtain ⟨hlast, -, hx⟩ := List.pairwise_append.mp hlast
    have hs := ih (fun y hy => horderly y (List.mem_append_left _ hy)) hlast
    have hopen : IsOpen (timeline (Host.turn o) ⟨fun i => .start (ids i), start⟩ turns) x.1 :=
      fun y hy => hx y.1 (mem_of_mem_timeline hy) x (List.mem_singleton.mpr rfl)
    rw [timeline_snoc, List.foldl_concat]
    obtain ⟨i, c | b⟩ := x
    · exact hs.snoc_change hr hopen (horderly _ (List.mem_append_right _ (List.mem_singleton.mpr rfl)))
    · exact hs.snoc_finish hr hm hh ht hopen b

/-- Over any interleaving of transactions the stored bounds grow by what each committed transaction has merged. -/
theorem growth {config : ObserverConfig} {table : TransformTable (Stored K × τ) K} (ht : table.IsPure)
    {o : Observer (Stored K × τ) K} (ho : observer config .ofMap table = .ok o) {m : Stored K} (hv : m.IsValid) (w : τ)
    (ids : ι → TransactionId) (turns : List (ι × Hook (Stored K × τ) K)) (horderly : ∀ x ∈ turns, x.2.IsOrderly)
    (hlast : turns.Pairwise fun x y => x.1 = y.1 → ∃ c, x.2 = .change c) :
    let start : Host ι (Stored K × τ) K := ⟨fun i => .start (ids i), (m, w)⟩
    let course := timeline (Host.turn o) start turns
    m.Grown
      (fun id r => (committed course).filterMap fun i =>
        mergedBox? table config.budget.toNat start.world r (collected config course i id))
      (turns.foldl (Host.turn o) start).world.1 := by
  have hmade : o = ⟨config, resolver .ofMap, .reprojecting table config.budget.toNat,
      handler .ofMap table config.budget.toNat⟩ := by
    unfold observer Observer.make at ho
    cases hc : config.validate with
    | error f =>
      simp only [hc] at ho
      cases ho
    | ok u =>
      simp only [hc] at ho
      exact (Except.ok.inj ho).symm
  subst hmade
  have hv' : ((m, w) : Stored K × τ).1.IsValid := hv
  exact (standsAt_foldl rfl rfl rfl ht hv' ids turns horderly hlast).grown

theorem growth_of_two :
    let e (lo hi : Rat) : Extent Rat := ⟨⟨⟨lo, hi⟩, ⟨0, 1⟩⟩, none, .horizontal "plane"⟩
    let m : Stored Rat := (∅ : Stored Rat).insert "mill" (e 0 1)
    let table : TransformTable (Stored Rat × List (Notice Rat)) Rat := .standard ⟨85, id, id, id, id⟩
    let change (lo hi : Rat) : Hook (Stored Rat × List (Notice Rat)) Rat :=
      .change ⟨"mill", .update, .preUpdate, .ofExtent (e lo hi)⟩
    let turns := [(true, change 2 3), (false, change 7 9), (true, .finish true), (false, .finish false)]
    table.IsPure ∧ m.IsValid ∧ (∀ x ∈ turns, x.2.IsOrderly) ∧
      (turns.Pairwise fun x y => x.1 = y.1 → ∃ c, x.2 = .change c) ∧
      ∃ o, observer defaultConfig .ofMap table = .ok o ∧
        ∃ e', (turns.foldl (Host.turn o) ⟨fun _ => .start ⟨0⟩, (m, [])⟩).world.1["mill"]? = some e' ∧
          e'.toBox.IsHull [(e 0 1).toBox, (e 2 3).toBox] := by
  intro e m table change turns
  have h01 : (0 : Rat) ≤ 1 := by decide
  have he : ∀ lo hi : Rat, lo ≤ hi → (e lo hi).IsValid := fun lo hi h => ⟨⟨rfl, h⟩, ⟨rfl, h01⟩, nofun, rfl⟩
  have ht : table.IsPure := TransformTable.isPure_standard _
  have hv : m.IsValid := by
    intro id f hf
    rw [Std.ExtTreeMap.getElem?_insert] at hf
    split at hf
    · cases hf
      exact he 0 1 h01
    · simp at hf
  have hchange : ∀ lo hi : Rat, lo ≤ hi → (change lo hi).IsOrderly := by
    intro lo hi h
    refine ⟨fun _ => rfl, fun w f hf => ?_⟩
    cases hf
    exact he lo hi h
  have horderly : ∀ x ∈ turns, x.2.IsOrderly := by
    simp only [turns, List.forall_mem_cons, List.not_mem_nil, false_implies, implies_true, and_true]
    exact ⟨hchange 2 3 (by decide), hchange 7 9 (by decide), trivial, trivial⟩
  have hlast : turns.Pairwise fun x y => x.1 = y.1 → ∃ c, x.2 = .change c := by simp [turns, change]
  obtain ⟨o, ho⟩ : ∃ o, observer defaultConfig .ofMap table = .ok o := ⟨_, rfl⟩
  obtain ⟨e', he', hg⟩ := (growth ht ho hv [] (fun _ => ⟨0⟩) turns horderly hlast "mill").2 (e 0 1) (by simp [m])
  exact ⟨ht, hv, horderly, hlast, o, ho, e', he', hg.hull⟩

end StoredBounds

end ExtentLedger
