import ExtentLedger.Consumer.Standard
import ExtentLedger.Proofs.Observer.Frame
import ExtentLedger.Proofs.Observer.Waiting
import ExtentLedger.Proofs.Reprojection.Merging

/-!
# Invalidation of tile caches

With the standard listeners every segment that some change affects is truncated once at the commit, over a hull of all
that was collected for it, provided that its system is declared and all of it can be reprojected; and nothing else is
truncated. The stored bounds are updated in the same transaction without getting in the way.
-/

namespace ExtentLedger

variable {σ ρ τ K : Type}

/-! ## Collaborators beside a log -/

def Truncator.logged (truncate : Truncator τ K) : Truncator (List (String × Extent K) × τ) K :=
  fun segment e (log, w) =>
    let (r, w) := truncate segment e w
    (r, (log ++ [(segment, e)], w))

def Catalog.onSecond (catalog : Catalog τ K) : Catalog (ρ × τ) K where
  load id := (catalog.load id).onSecond
  save id e := (catalog.save id e).onSecond

def Change.onSecond (c : Change τ K) : Change (ρ × τ) K := ⟨c.source, c.operation, c.phase, c.records.onSecond⟩

def SegmentRegistry.fixed (dependents : String → Outcome CacheError EntitySet)
    (declared : String → Outcome CacheError ReferenceSystem) : SegmentRegistry σ :=
  ⟨fun source => .always (dependents source), fun segment => .always (declared segment)⟩

namespace TileCache

def contribution? (dependents : String → Outcome CacheError EntitySet) (c : Change σ K) (w : σ) :
    Option (Contribution K) :=
  if c.operation = .other ∨ c.phase = .postInsert then none
  else
    match dependents c.source, (c.records w).1 with
    | .value segments, .value (some e) => some ⟨segments, e⟩
    | _, _ => none

theorem handles_defaultConfig (op : Operation) (phase : Phase) :
    (defaultConfig.handles op && !phase.repeatsEarlier) = true ↔ ¬ (op = .other ∨ phase = .postInsert) := by
  cases op <;> cases phase <;> decide

section
variable (dependents : String → Outcome CacheError EntitySet) (declared : String → Outcome CacheError ReferenceSystem)

theorem affected_fixed (source : String) :
    (resolver (SegmentRegistry.fixed dependents declared : SegmentRegistry σ)).affected source =
      .always ((dependents source).mapError fun e => .resolution e.message) :=
  Attempt.mapError_always _ _

theorem target_fixed (segment : String) :
    (resolver (SegmentRegistry.fixed dependents declared : SegmentRegistry σ)).target segment =
      .always ((declared segment).mapError fun e => .resolution e.message) :=
  Attempt.mapError_always _ _

theorem contribution?_eq (c : Change σ K) (w : σ) :
    c.contribution? defaultConfig ((dependents c.source).mapError fun e => .resolution e.message) w =
      contribution? dependents c w := by
  have hc : defaultConfig.concerns c = true ↔ ¬ (c.operation = .other ∨ c.phase = .postInsert) :=
    handles_defaultConfig c.operation c.phase
  unfold Change.contribution? contribution?
  by_cases hn : c.operation = .other ∨ c.phase = .postInsert
  · rw [if_neg (fun h => hc.mp h hn), if_pos hn]
  · rw [if_pos (hc.mpr hn), if_neg hn]
    cases dependents c.source <;> rcases (c.records w).1 with (_ | e) | f | b <;> rfl

end

end TileCache

variable [Coordinate K] [Journal σ K]

/-! ## The standard roster -/

def TileCache.standard (m : Mercator K) (segments : SegmentRegistry σ) (truncate : Truncator σ K) : Observer σ K :=
  ⟨defaultConfig, resolver segments, .reprojecting (.standard m) 1000, handler truncate⟩

def StoredBounds.standard (m : Mercator K) (catalog : Catalog σ K) : Observer σ K :=
  ⟨defaultConfig, resolver catalog, .reprojecting (.standard m) 1000, handler catalog (.standard m) 1000⟩

theorem Roster.standard_eq_ok (m : Mercator K) (segments : SegmentRegistry σ) (truncate : Truncator σ K)
    (catalog : Catalog σ K) :
    Roster.standard m segments truncate catalog =
      .ok ⟨[(TileCache.standard m segments truncate).listener, (StoredBounds.standard m catalog).listener]⟩ := by
  have hc : TileCache.defaultConfig.validate = .ok () := by decide
  have hb : StoredBounds.defaultConfig.validate = .ok () := by decide
  unfold Roster.standard TileCache.observer StoredBounds.observer Observer.make
  rw [hc, hb]
  rfl

/-! ## Truncation -/

namespace TileCache

def truncation? (declared : String → Outcome CacheError ReferenceSystem) (table : TransformTable σ K) (budget : Nat)
    (w : σ) (segment : String) (es : List (Extent K)) : Option (Extent K) :=
  match declared segment with
  | .value system => (Merger.reprojecting table budget system es w).1.found?
  | _ => none

def truncations (declared : String → Outcome CacheError ReferenceSystem) (table : TransformTable σ K) (budget : Nat)
    (w : σ) (cs : List (Contribution K)) : List (String × Extent K) :=
  (Contribution.regions cs).toList.filterMap fun x => (truncation? declared table budget w x.1 x.2).map (x.1, ·)

section
variable {declared : String → Outcome CacheError ReferenceSystem} {table : TransformTable σ K} {budget : Nat} {w : σ}
  {cs : List (Contribution K)} {segment : String} {es : List (Extent K)} {e : Extent K}

omit [Journal σ K]

theorem truncation?_eq_some : truncation? declared table budget w segment es = some e ↔
    ∃ system, declared segment = .value system ∧
      (Merger.reprojecting table budget system es w).1 = .value (some e) := by
  unfold truncation?
  cases declared segment with
  | failure f => simp
  | crash c => simp
  | value system => simp only [Outcome.value.injEq, exists_eq_left', Outcome.found?_eq_some]

theorem mem_truncations : (segment, e) ∈ truncations declared table budget w cs ↔
    (∃ c ∈ cs, c.affects segment = true) ∧
      truncation? declared table budget w segment (Contribution.extentsFor cs segment) = some e := by
  unfold truncations
  rw [List.mem_filterMap]
  constructor
  · intro h
    obtain ⟨⟨x, es⟩, hx, h⟩ := h
    obtain ⟨e', he, h⟩ := Option.map_eq_some_iff.mp h
    obtain ⟨hc, rfl⟩ := Contribution.mem_toList_regions.mp hx
    cases h
    exact ⟨hc, he⟩
  · intro h
    obtain ⟨hc, he⟩ := h
    exact ⟨(segment, _), Contribution.mem_toList_regions.mpr ⟨hc, rfl⟩, Option.map_eq_some_iff.mpr ⟨e, he, rfl⟩⟩

theorem ascending_truncations : ((truncations declared table budget w cs).map Prod.fst).Pairwise (· < ·) := by
  rw [List.pairwise_map]
  refine (List.pairwise_map.mp (Contribution.ascending_regions cs)).filterMap _ fun x y hxy a ha b hb => ?_
  obtain ⟨e, -, rfl⟩ := Option.map_eq_some_iff.mp ha
  obtain ⟨f, -, rfl⟩ := Option.map_eq_some_iff.mp hb
  exact hxy

variable [LawfulCoordinate K] (ht : table.IsPure) (hes : ∀ e ∈ Contribution.extentsFor cs segment, e.toBox.IsValid)
include ht hes

/-- A segment for which something waits is truncated when its system is declared and everything has an image there. -/
theorem mem_map_truncations : segment ∈ (truncations declared table budget w cs).map Prod.fst ↔
    (∃ c ∈ cs, c.affects segment = true) ∧ ∃ system, declared segment = .value system ∧
      ∀ e ∈ Contribution.extentsFor cs segment, ∃ i,
        (table.reproject e system (min budget Boundary.maxBudget) w).1 = .value i := by
  have hs : segment ∈ (truncations declared table budget w cs).map Prod.fst ↔
      ∃ e, (segment, e) ∈ truncations declared table budget w cs := by simp
  rw [hs]
  simp only [mem_truncations, exists_and_left, truncation?_eq_some]
  refine and_congr_right fun hc => ?_
  rw [exists_comm]
  refine exists_congr fun system => ?_
  rw [exists_and_left, Merger.exists_reprojecting_eq_some ht (Contribution.extentsFor_ne_nil hc) hes]

theorem hull_of_mem_truncations (h : (segment, e) ∈ truncations declared table budget w cs) :
    ∃ system images, declared segment = .value system ∧
      List.Forall₂ (fun e i => (table.reproject e system (min budget Boundary.maxBudget) w).1 = .value i)
        (Contribution.extentsFor cs segment) images ∧
      e.IsFlat system.flat ∧ e.toBox.IsHull (images.map Extent.toBox) ∧ ∀ i ∈ images, e.contains i = true := by
  obtain ⟨-, he⟩ := mem_truncations.mp h
  obtain ⟨system, hs, he⟩ := truncation?_eq_some.mp he
  obtain ⟨images, hi, hf, hh⟩ := Merger.reprojecting_eq_some ht hes he
  refine ⟨system, images, hs, hi, hf, hh, fun i hm => ?_⟩
  have hr := (Merger.isFlat_of_images hes hi i hm).reference
  simp [Extent.contains, hf.reference, hr, hh.covers (List.mem_map_of_mem hm)]

end

theorem log_handler [Journal τ K] (truncate : Truncator τ K) (segment : String) (m : Extent K)
    (w : List (String × Extent K) × τ) :
    (handler truncate.logged segment m w).2.1 = w.1 ++ [(segment, m)] := by
  refine Attempt.Keeps.view_recover Prod.fst _ (fun e => ?_) w
  cases e with
  | segmentNotFound s => exact .update fun _ => rfl
  | registry d => exact (Attempt.IsPure.fail _).keeps _
  | truncation d => exact (Attempt.IsPure.fail _).keeps _

section
variable [Journal τ K] {o : Observer (List (String × Extent K) × τ) K}
  {dependents : String → Outcome CacheError EntitySet} {declared : String → Outcome CacheError ReferenceSystem}
  {truncate : Truncator τ K} {table : TransformTable (List (String × Extent K) × τ) K} {budget : Nat}
  (hr : o.resolver = resolver (.fixed dependents declared)) (hm : o.merger = .reprojecting table budget)
  (hh : o.handler = handler truncate.logged) (ht : table.IsPure)
include hr hm hh ht

theorem log_deal (w₀ : List (String × Extent K) × τ) (segment : String) (es : List (Extent K))
    (w : List (String × Extent K) × τ) :
    (o.deal segment es w).2.1 =
      w.1 ++ ((truncation? declared table budget w₀ segment es).map (segment, ·)).toList := by
  have htarget : o.resolver.target segment w = ((declared segment).mapError fun e => .resolution e.message, w) := by
    rw [hr, target_fixed, Attempt.always_apply]
  unfold truncation?
  cases hd : declared segment with
  | failure e =>
    rw [hd] at htarget
    simp [Observer.deal, htarget, Outcome.mapError]
  | crash c =>
    rw [hd] at htarget
    simp [Observer.deal, htarget, Outcome.mapError]
  | value system =>
    rw [hd] at htarget
    have hp : (o.merger system es).IsPure := by
      rw [hm]
      exact Merger.isPure_reprojecting ht budget system es
    rw [o.snd_deal htarget hp w₀, hm, hh]
    simp only
    cases (Merger.reprojecting table budget system es w₀).1.found? with
    | none => simp
    | some m => exact log_handler truncate segment m w

theorem log_dealAll (w₀ : List (String × Extent K) × τ) : ∀ (l : List (Entity × List (Extent K)))
    (w : List (String × Extent K) × τ), (o.dealAll l w).2.1 =
      w.1 ++ l.filterMap fun x => (truncation? declared table budget w₀ x.1 x.2).map (x.1, ·)
  | [], w => by simp [Observer.dealAll]
  | (segment, es) :: l, w => by
    have hj : ∀ (n : Notice K) (w : List (String × Extent K) × τ), (Journal.enter n w).1 = w.1 := fun _ _ => rfl
    have hd := log_deal hr hm hh ht w₀ segment es w
    have ih := log_dealAll w₀ l (Dealing.enact ⟨segment, es, (o.deal segment es w).1⟩ (o.deal segment es w).2)
    rw [Dealing.view_enact Prod.fst hj, hd] at ih
    rw [List.filterMap_cons]
    simp only [Observer.dealAll]
    rw [ih, List.append_assoc]
    cases truncation? declared table budget w₀ segment es <;> simp

end

end TileCache

/-! ## Stored bounds -/

theorem StoredBounds.keeps_standard {view : σ → ρ} (hj : ∀ (n : Notice K) (w : σ), view (Journal.enter n w) = view w)
    (m : Mercator K) {catalog : Catalog σ K} (hl : ∀ id, (catalog.load id).Keeps view)
    (hs : ∀ id e, (catalog.save id e).Keeps view) : (StoredBounds.standard m catalog).Keeps view := by
  have ht : (TransformTable.standard m : TransformTable σ K).IsPure := TransformTable.isPure_standard m
  refine ⟨fun source => ?_, fun entity => ?_, fun target es => ?_, fun entity e => ?_⟩
  · refine ((hl source).mapError _).bind fun stored => ?_
    cases stored with
    | none => exact (Attempt.IsPure.pure _).keeps view
    | some e => exact (Attempt.IsPure.pure _).keeps view
  · refine ((hl entity).mapError _).bind fun stored => ?_
    cases stored with
    | none => exact (Attempt.IsPure.fail _).keeps view
    | some e => exact (Attempt.IsPure.pure _).keeps view
  · exact (Merger.isPure_reprojecting ht _ _ _).keeps view
  · refine ((hl entity).mapError _).bind fun stored => ?_
    cases stored with
    | none => exact .update fun w => hj _ w
    | some stored =>
      refine ((ht.reproject _ _ _).keeps view).bind fun region => ?_
      refine ((Attempt.IsPure.ofExcept _).keeps view).bind fun larger => ?_
      exact (hs entity larger).mapError _

/-! ## A transaction -/

section
variable [Journal τ K] (m : Mercator K) (dependents : String → Outcome CacheError EntitySet)
  (declared : String → Outcome CacheError ReferenceSystem) (truncate : Truncator τ K) (catalog : Catalog τ K)

def Roster.loggedStandard : Roster (List (String × Extent K) × τ) K :=
  ⟨[(TileCache.standard m (.fixed dependents declared) truncate.logged).listener,
    (StoredBounds.standard m catalog.onSecond).listener]⟩

theorem StoredBounds.keeps_log :
    (StoredBounds.standard m (catalog.onSecond : Catalog (List (String × Extent K) × τ) K)).Keeps Prod.fst :=
  keeps_standard (fun _ _ => rfl) m (fun _ => .onSecond _) fun _ _ => .onSecond _

theorem TileCache.awaits_change (c : Change τ K) {s : Scene (List (String × Extent K) × τ) K}
    {cs : List (Contribution K)} (ht : s.1.Awaits scope cs) :
    let s' := (Roster.loggedStandard m dependents declared truncate catalog).onChange c.onSecond s
    s'.1.Awaits scope (cs ++ (contribution? dependents c.onSecond s.2).toList) ∧ s'.2.1 = s.2.1 := by
  intro s'
  obtain ⟨t, w⟩ := s
  let cache := TileCache.standard m (.fixed dependents declared) truncate.logged
  let bounds := StoredBounds.standard m (catalog.onSecond : Catalog (List (String × Extent K) × τ) K)
  have hj : ∀ (n : Notice K) (w : List (String × Extent K) × τ), (Journal.enter n w).1 = w.1 := fun _ _ => rfl
  have hc : (c.onSecond : Change (List (String × Extent K) × τ) K).records.Keeps Prod.fst := .onSecond _
  have hf : cache.resolver.affected c.source =
      .always ((dependents c.source).mapError fun e => .resolution e.message) :=
    affected_fixed dependents declared c.source
  have hfk : (cache.resolver.affected c.source).Keeps Prod.fst := hf ▸ (Attempt.IsPure.always _).keeps _
  have hd : c.onSecond.contribution? cache.config ((dependents c.source).mapError fun e => .resolution e.message) w =
      contribution? dependents c.onSecond w := contribution?_eq dependents c.onSecond w
  -- The tile cache hears of the change first, then the stored bounds.
  have hs : s' = bounds.onChange c.onSecond (cache.onChange c.onSecond (t, w)) := rfl
  have ha := cache.awaits_onChange (c := c.onSecond) (congrFun hf w) ht
  have hl : (cache.onChange c.onSecond (t, w)).2.1 = w.1 := Observer.view_onChange Prod.fst hj hfk hc t w
  have hne : TileCache.scope ≠ StoredBounds.scope := by decide
  rw [hd] at ha
  rw [hs]
  generalize cache.onChange c.onSecond (t, w) = x at ha hl ⊢
  obtain ⟨t', w'⟩ := x
  constructor
  · refine ha.of_slot ?_
    rw [Observer.onChange_eq]
    exact Hearing.slot_enact_of_ne hne _ _ _
  · exact (Observer.view_onChange Prod.fst hj ((StoredBounds.keeps_log m catalog).affected _) hc t' w').trans hl

/-- While changes are announced, the contributions wait in the scope of the tile cache and nothing is truncated. -/
theorem TileCache.awaits_changes : ∀ (changes : List (Change τ K)) (s : Scene (List (String × Extent K) × τ) K)
    {cs : List (Contribution K)}, s.1.Awaits scope cs →
    let step := fun s c => (Roster.loggedStandard m dependents declared truncate catalog).onChange c s
    let s' := (changes.map Change.onSecond).foldl step s
    s'.1.Awaits scope (cs ++ (timeline step s (changes.map Change.onSecond)).filterMap fun x =>
        contribution? dependents x.1 x.2.2) ∧
      s'.2.1 = s.2.1
  | [], s, cs, ht => ⟨by simpa [timeline] using ht, rfl⟩
  | c :: changes, s, cs, ht => by
    intro step s'
    obtain ⟨ha, hl⟩ := TileCache.awaits_change m dependents declared truncate catalog c ht
    obtain ⟨hs, hsl⟩ := awaits_changes changes _ ha
    refine ⟨?_, hsl.trans hl⟩
    rw [List.append_assoc] at hs
    rw [List.map_cons, timeline, List.filterMap_cons]
    cases hd : contribution? dependents c.onSecond s.2 with
    | none =>
      rw [hd] at hs
      exact hs
    | some d =>
      rw [hd] at hs
      exact hs

/-- At the commit the segments for which something waits are truncated in ascending order. -/
theorem TileCache.log_afterTransaction (w₀ : List (String × Extent K) × τ)
    {s : Scene (List (String × Extent K) × τ) K} {cs : List (Contribution K)} (ht : s.1.Awaits scope cs) :
    ((Roster.loggedStandard m dependents declared truncate catalog).afterTransaction true s).2.1 =
      s.2.1 ++ truncations declared (.standard m) 1000 w₀ cs := by
  obtain ⟨t, w⟩ := s
  let cache := TileCache.standard m (.fixed dependents declared) truncate.logged
  let bounds := StoredBounds.standard m (catalog.onSecond : Catalog (List (String × Extent K) × τ) K)
  have hj : ∀ (n : Notice K) (w : List (String × Extent K) × τ), (Journal.enter n w).1 = w.1 := fun _ _ => rfl
  have hp : (TransformTable.standard m : TransformTable (List (String × Extent K) × τ) K).IsPure :=
    TransformTable.isPure_standard m
  calc ((Roster.loggedStandard m dependents declared truncate catalog).afterTransaction true (t, w)).2.1
      = (cache.onEnd true (t, w)).2.2.1 :=
        (StoredBounds.keeps_log m catalog).onEnd Prod.fst hj true _ (cache.onEnd true (t, w)).2.2
    _ = (cache.dealAll ((t.takePage? scope).elim ∅ Prod.fst).toList w).2.1 := cache.view_onEnd Prod.fst hj t w
    _ = (cache.dealAll (Contribution.regions cs).toList w).2.1 := by rw [ht.takePage?]
    _ = _ := log_dealAll (o := cache) rfl rfl rfl hp w₀ _ w

end

variable [LawfulCoordinate K] [Journal τ K]

/-- A segment is truncated, once, when something was collected for it and all of it has an image in its system, and then
over the hull of the images. -/
theorem TileCache.invalidation (m : Mercator K) (dependents : String → Outcome CacheError EntitySet)
    (declared : String → Outcome CacheError ReferenceSystem) (truncate : Truncator τ K) (catalog : Catalog τ K)
    (changes : List (Change τ K)) (hv : ∀ c ∈ changes, ∀ w e, (c.records w).1 = .value (some e) → e.IsValid)
    (id : TransactionId) (w : τ) :
    ∃ r : Roster (List (String × Extent K) × τ) K,
      Roster.standard m (.fixed dependents declared) truncate.logged catalog.onSecond = .ok r ∧
      let step := fun s c => r.onChange c s
      let start := (Transaction.start id, ([], w))
      let cs := (timeline step start (changes.map Change.onSecond)).filterMap fun x =>
        contribution? dependents x.1 x.2.2
      let log := (r.afterTransaction true ((changes.map Change.onSecond).foldl step start)).2.1
      let image := fun system e i => ((TransformTable.standard m).reproject e system 1000 start.2).1 = .value i
      (log.map Prod.fst).Pairwise (· < ·) ∧
      (∀ segment, segment ∈ log.map Prod.fst ↔ (∃ c ∈ cs, c.affects segment = true) ∧
        ∃ system, declared segment = .value system ∧
          ∀ e ∈ Contribution.extentsFor cs segment, ∃ i, image system e i) ∧
      ∀ segment e, (segment, e) ∈ log → ∃ system images, declared segment = .value system ∧
        List.Forall₂ (image system) (Contribution.extentsFor cs segment) images ∧
        e.IsFlat system.flat ∧ e.toBox.IsHull (images.map Extent.toBox) ∧ ∀ i ∈ images, e.contains i = true := by
  refine ⟨_, Roster.standard_eq_ok m _ _ _, ?_⟩
  intro step start cs log image
  obtain ⟨ha, hl⟩ := awaits_changes m dependents declared truncate catalog changes start
    (Transaction.awaits_start id TileCache.scope)
  have hlog : log = truncations declared (.standard m) 1000 start.2 cs := by
    have := log_afterTransaction m dependents declared truncate catalog start.2 ha
    rw [hl] at this
    exact this
  have hes : ∀ segment, ∀ e ∈ Contribution.extentsFor cs segment, e.toBox.IsValid := by
    intro segment e he
    obtain ⟨d, hd, rfl⟩ := List.mem_map.mp he
    obtain ⟨x, hx, hd⟩ := List.mem_filterMap.mp (List.mem_of_mem_filter hd)
    obtain ⟨c, hc, hxc⟩ := List.mem_map.mp (mem_of_mem_timeline hx)
    rw [← contribution?_eq] at hd
    obtain ⟨-, -, hr⟩ := Change.records_of_contribution? hd
    rw [← hxc] at hr
    exact (hv c hc _ _ hr).box
  have hp : (TransformTable.standard m : TransformTable (List (String × Extent K) × τ) K).IsPure :=
    TransformTable.isPure_standard m
  have hb : min 1000 Boundary.maxBudget = 1000 := rfl
  rw [hlog]
  refine ⟨ascending_truncations, fun segment => ?_, fun segment e h => ?_⟩
  · have hm : segment ∈ (truncations declared (.standard m) 1000 start.2 cs).map Prod.fst ↔ _ :=
      mem_map_truncations hp (hes segment)
    rw [hb] at hm
    exact hm
  · have hm := hull_of_mem_truncations hp (hes segment) h
    rw [hb] at hm
    exact hm

theorem TileCache.invalidation_refused :
    let e : Extent Rat := ⟨⟨⟨0, 1⟩, ⟨0, 1⟩⟩, none, .horizontal "plane"⟩
    let c : Change (List (Notice Rat)) Rat := ⟨"roads", .update, .preUpdate, .ofExtent e⟩
    let dependents : String → Outcome CacheError EntitySet := fun _ => .value (.ofList ["overview"])
    let declared : String → Outcome CacheError ReferenceSystem := fun _ => .value (.horizontal "plane")
    let catalog : Catalog (List (Notice Rat)) Rat := ⟨fun _ => .crash none, fun _ _ => .crash none⟩
    (∀ c' ∈ [c], ∀ w e', (c'.records w).1 = .value (some e') → e'.IsValid) ∧
      ∃ r, Roster.standard ⟨85, id, id, id, id⟩ (.fixed dependents declared)
          (Truncator.logged fun _ _ => .fail (.truncation "busy")) catalog.onSecond = .ok r ∧
        "overview" ∈ ((r.afterTransaction true (r.onChange c.onSecond (.start ⟨0⟩, ([], [])))).2.1).map Prod.fst := by
  intro e c dependents declared catalog
  have hv : ∀ c' ∈ [c], ∀ w e', (c'.records w).1 = .value (some e') → e'.IsValid := by
    intro c' hc w e' he
    rw [List.mem_singleton.mp hc] at he
    cases he
    exact ⟨⟨rfl, by decide⟩, ⟨rfl, by decide⟩, nofun, rfl⟩
  obtain ⟨r, hr, -, hm, -⟩ := TileCache.invalidation ⟨85, id, id, id, id⟩ dependents declared
    (fun _ _ => .fail (.truncation "busy")) catalog [c] hv ⟨0⟩ []
  refine ⟨hv, r, hr, (hm "overview").mpr ⟨⟨⟨.ofList ["overview"], e⟩, ?_, ?_⟩, .horizontal "plane", rfl, ?_⟩⟩
  · exact List.mem_singleton.mpr rfl
  · simp [Contribution.affects]
  · intro x hx
    have he : x = e := by
      obtain ⟨d, hd, rfl⟩ := List.mem_map.mp hx
      rw [List.mem_singleton.mp (List.mem_of_mem_filter hd)]
    exact ⟨e.flat, by rw [he]; rfl⟩

end ExtentLedger
