import ExtentLedger.Consumer.StoredBounds
import ExtentLedger.Proofs.Observer.Frame
import ExtentLedger.Proofs.Observer.Waiting
import ExtentLedger.Proofs.Reprojection.Merging

/-!
# Growth of stored bounds

Stored bounds grow by boxes when they keep their system and their heights and become the hull of what they were and the
boxes. A catalog that is a map grows entity by entity. A commit of the stored bounds makes it grow by the merged
extents, those that there are, and does nothing else to it.
-/

namespace ExtentLedger

variable {τ K : Type} [Coordinate K]

structure Extent.Grown (e : Extent K) (parts : List (Box K)) (e' : Extent K) : Prop where
  reference : e'.reference = e.reference
  vertical : e'.vertical = e.vertical
  valid : e'.IsValid
  hull : e'.toBox.IsHull (e.toBox :: parts)

abbrev Stored (K : Type) := Std.ExtTreeMap String (Extent K)

omit [Coordinate K] in
def Catalog.ofMap : Catalog (Stored K × τ) K where
  load id := fun (m, w) => (.value m[id]?, (m, w))
  save id e := fun (m, w) => (.value (), (m.insert id e, w))

omit [Coordinate K] in
theorem Catalog.load_ofMap (f : CatalogError → Fault) (id : String) (w : Stored K × τ) :
    (ofMap.load id).mapError f w = (.value w.1[id]?, w) := rfl

/-- Every entity has grown by the boxes that `parts` gives for it and its system, and there are no other entities. -/
def Stored.Grown (m : Stored K) (parts : String → ReferenceSystem → List (Box K)) (m' : Stored K) : Prop :=
  ∀ id, (m[id]? = none → m'[id]? = none) ∧
    ∀ e : Extent K, m[id]? = some e → ∃ e', m'[id]? = some e' ∧ e.Grown (parts id e.reference) e'

def Stored.IsValid (m : Stored K) : Prop := ∀ (id : String) (e : Extent K), m[id]? = some e → e.IsValid

/-! ## Hulls of more -/

namespace Box.IsHull

variable {b c : Box K} {ps qs : List (Box K)}

theorem trans (h : b.IsHull ps) (h' : c.IsHull (b :: qs)) : c.IsHull (ps ++ qs) := by
  refine ⟨h'.valid, fun d => ?_⟩
  rw [h'.covers_iff, List.forall_mem_cons, h.covers_iff, List.forall_mem_append]

end Box.IsHull

namespace Extent.Grown

variable {e e' e'' : Extent K} {ps qs : List (Box K)}

theorem refl (h : e.IsValid) : e.Grown [] e := ⟨rfl, rfl, h, .single h.box⟩

theorem trans (h : e.Grown ps e') (h' : e'.Grown qs e'') : e.Grown (ps ++ qs) e'' :=
  ⟨h'.reference.trans h.reference, h'.vertical.trans h.vertical, h'.valid, h.hull.trans h'.hull⟩

theorem congr (h : e.Grown ps e') (hpq : ∀ p, p ∈ ps ↔ p ∈ qs) : e.Grown qs e' := by
  refine ⟨h.reference, h.vertical, h.valid, h.hull.congr fun p => ?_⟩
  rw [List.mem_cons, List.mem_cons, hpq]

end Extent.Grown

namespace Stored

variable {m m' m'' : Stored K} {ps qs : String → ReferenceSystem → List (Box K)}

theorem Grown.of_eq_nil (h : m.IsValid)
    (hps : ∀ (id : String) (e : Extent K), m[id]? = some e → ps id e.reference = []) : m.Grown ps m := by
  intro id
  refine ⟨fun hn => hn, fun e he => ⟨e, he, ?_⟩⟩
  rw [hps id e he]
  exact .refl (h id e he)

theorem Grown.refl (h : m.IsValid) : m.Grown (fun _ _ => []) m := .of_eq_nil h fun _ _ _ => rfl

theorem Grown.valid (h : m.Grown ps m') : m'.IsValid := by
  intro id e' he'
  cases he : m[id]? with
  | none => cases ((h id).1 he).symm.trans he'
  | some e =>
    obtain ⟨e'', he'', hg⟩ := (h id).2 e he
    cases he''.symm.trans he'
    exact hg.valid

theorem Grown.trans (h : m.Grown ps m') (h' : m'.Grown qs m'') : m.Grown (fun id r => ps id r ++ qs id r) m'' := by
  intro id
  refine ⟨fun hn => (h' id).1 ((h id).1 hn), fun e he => ?_⟩
  obtain ⟨e', he', hg⟩ := (h id).2 e he
  obtain ⟨e'', he'', hg'⟩ := (h' id).2 e' he'
  refine ⟨e'', he'', ?_⟩
  rw [hg.reference] at hg'
  exact hg.trans hg'

theorem Grown.congr (h : m.Grown ps m')
    (hpq : ∀ (id : String) (e : Extent K), m[id]? = some e → ∀ p, p ∈ ps id e.reference ↔ p ∈ qs id e.reference) :
    m.Grown qs m' := by
  intro id
  refine ⟨(h id).1, fun e he => ?_⟩
  obtain ⟨e', he', hg⟩ := (h id).2 e he
  exact ⟨e', he', hg.congr (hpq id e he)⟩

theorem grown_of_insert (hm : m.IsValid) {id : String} {e e' : Extent K} (he : m[id]? = some e) {parts : List (Box K)}
    (hg : e.Grown parts e') (hps : ps id e.reference = parts) (hne : ∀ x r, x ≠ id → ps x r = []) :
    m.Grown ps (m.insert id e') := by
  intro x
  by_cases hx : x = id
  · subst hx
    refine ⟨fun hn => absurd (hn.symm.trans he) nofun, fun f hf => ⟨e', by simp, ?_⟩⟩
    cases he.symm.trans hf
    rwa [hps]
  · have hi : (m.insert id e')[x]? = m[x]? := by simp [Std.ExtTreeMap.getElem?_insert, Ne.symm hx]
    rw [hi]
    refine ⟨fun hn => hn, fun f hf => ⟨f, hf, ?_⟩⟩
    rw [hne x _ hx]
    exact .refl (hm x f hf)

end Stored

variable [LawfulCoordinate K]

/-! ## Growing by a region -/

namespace StoredBounds

theorem grow_eq_ok {stored region : Extent K} (hs : stored.IsValid) (hr : region.IsFlat stored.reference.flat) :
    ∃ larger, grow stored region = .ok larger ∧ stored.Grown [region.toBox] larger := by
  obtain ⟨g, hg, hf, hh⟩ := Extent.union_of_isFlat (Extent.isFlat_flat hs.box) hr (.single hs.box) (.single hr.box)
  unfold grow
  rw [hg]
  cases hz : stored.vertical with
  | none =>
    have hc : stored.reference.isCompound = false := by rw [← hs.solid_iff, hz]; rfl
    have hflat : stored.reference.flat = stored.reference := by
      cases h : stored.reference with
      | horizontal c => rfl
      | compound c h' v => rw [h] at hc; cases hc
    refine ⟨g, rfl, hf.reference.trans hflat, hf.vertical.trans hz.symm, ?_, hh⟩
    refine ⟨hf.box.x, hf.box.y, fun z h => ?_, ?_⟩
    · rw [hf.vertical] at h
      cases h
    · rw [hf.vertical, hf.reference, ReferenceSystem.isCompound_flat]
      rfl
  | some z =>
    have hc : stored.reference.isCompound = true := by rw [← hs.solid_iff, hz]; rfl
    have hzv := hs.vertical z hz
    have hmade : Extent.solid g.toBox z stored.reference = .ok ⟨g.toBox.inOrder, some z, stored.reference⟩ :=
      Extent.solid_eq_ok.mpr ⟨hc, hf.box, hzv, rfl⟩
    refine ⟨_, hmade, rfl, hz.symm, ?_, hh.inOrder⟩
    exact ⟨hf.box.inOrder.x, hf.box.inOrder.y, fun z' h => by cases h; exact hzv, hc.symm⟩

/-! ## A commit -/

variable {σ : Type}

def mergedBox? (table : TransformTable σ K) (budget : Nat) (w : σ) (r : ReferenceSystem) (es : List (Extent K)) :
    Option (Box K) :=
  (Merger.reprojecting table budget r.flat es w).1.found?.map Extent.toBox

section
variable [Journal τ K] {o : Observer (Stored K × τ) K} {table : TransformTable (Stored K × τ) K} {budget : Nat}
  (hr : o.resolver = resolver .ofMap) (hm : o.merger = .reprojecting table budget)
  (hh : o.handler = handler .ofMap table budget) (ht : table.IsPure)

theorem handler_ofMap {id : String} {stored m : Extent K} {w : Stored K × τ} (hs : w.1[id]? = some stored)
    (hv : stored.IsValid) (hf : m.IsFlat stored.reference.flat) :
    ∃ larger, (handler .ofMap table budget id m w).2 = (w.1.insert id larger, w.2) ∧ stored.Grown [m.toBox] larger := by
  have hr : m.flat.reference = stored.reference.flat := hf.flat_reference.trans hf.reference
  have hp : table.reproject m stored.reference (min budget Boundary.maxBudget) w = (.value m.flat, w) := by
    simp only [TransformTable.reproject, hr, if_true]
    rfl
  have hfl : m.flat.IsFlat stored.reference.flat := ⟨hf.box, rfl, hr⟩
  obtain ⟨larger, hg, hl⟩ := grow_eq_ok hv hfl
  refine ⟨larger, ?_, hl⟩
  unfold handler
  rw [Attempt.bind_of_value (Catalog.load_ofMap _ id w), hs]
  simp only
  rw [Attempt.bind_of_value hp, hg]
  rfl

omit [Coordinate K] [LawfulCoordinate K] [Journal τ K] in
theorem target_of_stored {id : String} {stored : Extent K} {w : Stored K × τ} (hs : w.1[id]? = some stored) :
    (resolver .ofMap).target id w = (.value stored.reference.flat, w) := by
  unfold resolver
  simp only
  rw [Attempt.bind_of_value (Catalog.load_ofMap _ id w), hs]
  rfl

omit [Coordinate K] [LawfulCoordinate K] [Journal τ K] in
theorem target_of_missing {id : String} {w : Stored K × τ} (hs : w.1[id]? = none) :
    ∃ f, (resolver .ofMap).target id w = (.failure f, w) := by
  unfold resolver
  simp only
  rw [Attempt.bind_of_value (Catalog.load_ofMap _ id w), hs]
  exact ⟨_, rfl⟩

include hr hm hh ht

/-- Dealing with an entity grows its stored bounds by the merged extent, if there is one. -/
theorem grown_deal (w₀ : Stored K × τ) (id : String) {es : List (Extent K)} (hes : ∀ e ∈ es, e.toBox.IsValid)
    {w : Stored K × τ} (hv : w.1.IsValid) :
    w.1.Grown (fun x r => if x = id then (mergedBox? table budget w₀ r es).toList else []) (o.deal id es w).2.1 := by
  cases hs : w.1[id]? with
  | none =>
    obtain ⟨f, hf⟩ := target_of_missing hs
    have hstay : (o.deal id es w).2 = w := by
      unfold Observer.deal
      rw [hr, hf]
    rw [hstay]
    refine .of_eq_nil hv fun x e he => if_neg fun hx => ?_
    rw [hx, hs] at he
    cases he
  | some stored =>
    have htarget : o.resolver.target id w = (.value stored.reference.flat, w) := by
      rw [hr]
      exact target_of_stored hs
    have hp : (o.merger stored.reference.flat es).IsPure := by
      rw [hm]
      exact Merger.isPure_reprojecting ht budget stored.reference.flat es
    rw [o.snd_deal htarget hp w₀, hm, hh]
    cases hq : (Merger.reprojecting table budget stored.reference.flat es w₀).1.found? with
    | none =>
      refine .of_eq_nil hv fun x e he => ?_
      by_cases hx : x = id
      · subst hx
        cases hs.symm.trans he
        rw [if_pos rfl, mergedBox?, hq]
        rfl
      · exact if_neg hx
    | some m =>
      obtain ⟨-, -, hf, -⟩ := Merger.reprojecting_eq_some ht hes (Outcome.found?_eq_some.mp hq)
      rw [ReferenceSystem.flat_flat] at hf
      obtain ⟨larger, hl, hg⟩ : ∃ larger, (handler .ofMap table budget id m w).2 = (w.1.insert id larger, w.2) ∧
        stored.Grown [m.toBox] larger := handler_ofMap hs (hv id stored hs) hf
      rw [Option.elim_some, hl]
      refine Stored.grown_of_insert hv hs hg ?_ fun x r hx => if_neg hx
      rw [if_pos rfl, mergedBox?, hq]
      rfl

theorem grown_dealAll (w₀ : Stored K × τ) : ∀ (l : List (Entity × List (Extent K))) (w : Stored K × τ),
    (∀ p ∈ l, ∀ e ∈ p.2, e.toBox.IsValid) → w.1.IsValid →
    w.1.Grown (fun x r => l.flatMap fun p => if x = p.1 then (mergedBox? table budget w₀ r p.2).toList else [])
      (o.dealAll l w).2.1
  | [], w, _, hv => .refl hv
  | (id, es) :: l, w, hl, hv => by
    obtain ⟨hes, hl⟩ := List.forall_mem_cons.mp hl
    have hd := grown_deal hr hm hh ht w₀ id hes hv
    have hn : (Dealing.enact ⟨id, es, (o.deal id es w).1⟩ (o.deal id es w).2).1 = (o.deal id es w).2.1 :=
      Dealing.view_enact Prod.fst (fun _ _ => rfl) _ _
    rw [← hn] at hd
    exact hd.trans (grown_dealAll w₀ l _ hl hd.valid)

/-- A commit grows the catalog by the merged extents of what waits. -/
theorem grown_onEnd (w₀ : Stored K × τ) {t : Transaction K} {cs : List (Contribution K)}
    (hw : t.Awaits o.config.scope cs) (hcs : ∀ c ∈ cs, c.extent.IsValid) {w : Stored K × τ} (hv : w.1.IsValid) :
    w.1.Grown (fun x r => (mergedBox? table budget w₀ r (Contribution.extentsFor cs x)).toList)
      (o.onEnd true (t, w)).2.2.1 := by
  rw [o.view_onEnd Prod.fst (fun _ _ => rfl) t w, hw.takePage?]
  have hl : ∀ p ∈ (Contribution.regions cs).toList, ∀ e ∈ p.2, e.toBox.IsValid := by
    intro p hp e he
    obtain ⟨x, es⟩ := p
    obtain ⟨-, rfl⟩ := Contribution.mem_toList_regions.mp hp
    obtain ⟨c, hc, rfl⟩ := List.mem_map.mp he
    exact (hcs c (List.mem_of_mem_filter hc)).box
  refine (grown_dealAll hr hm hh ht w₀ _ w hl hv).congr fun x e he p => ?_
  rw [List.mem_flatMap]
  constructor
  · intro h
    obtain ⟨⟨y, es⟩, hy, hp⟩ := h
    obtain ⟨-, rfl⟩ := Contribution.mem_toList_regions.mp hy
    by_cases hxy : x = y
    · subst hxy
      rwa [if_pos rfl] at hp
    · rw [if_neg hxy] at hp
      cases hp
  · intro hp
    by_cases ha : ∃ c ∈ cs, c.affects x = true
    · exact ⟨(x, _), Contribution.mem_toList_regions.mpr ⟨ha, rfl⟩, by rwa [if_pos rfl]⟩
    · rw [Contribution.extentsFor_eq_nil ha] at hp
      cases hp

end

end StoredBounds

end ExtentLedger
