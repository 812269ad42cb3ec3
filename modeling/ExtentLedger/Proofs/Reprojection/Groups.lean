import ExtentLedger.Proofs.Reprojection.Merging

/-!
# Merging in groups

By pure transforms, extents can be merged group by group, and the merged extents of the groups merged once more: an
extent that is merged into a system is its own image there, and the hull of hulls is the hull of all.
-/

namespace ExtentLedger

variable {σ K : Type} [Coordinate K]

namespace Merger

theorem exists_forall₂ {α β : Type} {r : α → β → Prop} : ∀ {l : List α}, (∀ a ∈ l, ∃ b, r a b) →
    ∃ bs, List.Forall₂ r l bs
  | [], _ => ⟨[], .nil⟩
  | a :: l, h => by
    obtain ⟨⟨b, hb⟩, h⟩ := List.forall_mem_cons.mp h
    obtain ⟨bs, hbs⟩ := exists_forall₂ h
    exact ⟨b :: bs, .cons hb hbs⟩

theorem groups_eq_nil_iff {α : Type} {l : List α} {groups : List (List α)} (hne : ∀ g ∈ groups, g ≠ [])
    (hg : ∀ a, a ∈ l ↔ ∃ g ∈ groups, a ∈ g) : groups = [] ↔ l = [] := by
  constructor
  · rintro rfl
    exact List.eq_nil_iff_forall_not_mem.mpr fun a ha => by simpa using (hg a).mp ha
  · rintro rfl
    refine List.eq_nil_iff_forall_not_mem.mpr fun g hg' => ?_
    obtain ⟨a, ha⟩ := List.exists_mem_of_ne_nil g (hne g hg')
    simpa using (hg a).mpr ⟨g, hg', ha⟩

variable [LawfulCoordinate K] {t : TransformTable σ K} {budget budget' : Nat} {target : ReferenceSystem}
  {es ms : List (Extent K)} {groups : List (List (Extent K))} {m m' : Extent K} {w : σ}

/-- Flat extents of the target system are merged without any transform. -/
theorem exists_reprojecting_of_isFlat (ht : t.IsPure) (hms : ∀ m ∈ ms, m.IsFlat target.flat) :
    ∃ r, (reprojecting t budget target ms w).1 = .value r := by
  refine (exists_reprojecting_eq_value ht fun m hm => (hms m hm).box).mpr fun m hm => ⟨m, ?_⟩
  rw [TransformTable.reproject_of_isFlat (hms m hm)]

theorem covers_reprojecting_of_isFlat (ht : t.IsPure) (hms : ∀ m ∈ ms, m.IsFlat target.flat)
    (h : (reprojecting t budget target ms w).1 = .value (some m)) (b : Box K) :
    b.covers m.toBox = true ↔ ∀ m ∈ ms, b.covers m.toBox = true := by
  rw [covers_reprojecting_iff ht (fun m hm => (hms m hm).box) h]
  refine forall₂_congr fun m hm => ?_
  rw [TransformTable.reproject_of_isFlat (hms m hm)]
  simp

section
variable (ht : t.IsPure) (hgs : ∀ g ∈ groups, ∀ e ∈ g, e.toBox.IsValid)
  (hms : List.Forall₂ (fun g m => (reprojecting t budget target g w).1 = .value (some m)) groups ms)
include ht hgs hms

theorem isFlat_of_groups : ∀ m ∈ ms, m.IsFlat target.flat := by
  intro m hm
  obtain ⟨g, hg, hr⟩ := exists_image_of_mem hms.flip hm
  obtain ⟨-, -, hf, -⟩ := reprojecting_eq_some ht (hgs g hg) hr
  exact hf

/-- What covers the merged extent of the groups covers the images of all their extents, and the other way round. -/
theorem covers_groups_iff (h : (reprojecting t budget' target ms w).1 = .value (some m')) (b : Box K) :
    b.covers m'.toBox = true ↔ ∀ g ∈ groups, ∀ e ∈ g, ∀ image,
      (t.reproject e target budget w).1 = .value image → b.covers image.toBox = true := by
  rw [covers_reprojecting_of_isFlat ht (isFlat_of_groups ht hgs hms) h]
  constructor
  · intro hb g hg
    obtain ⟨m, hm, hr⟩ := exists_image_of_mem hms hg
    exact (covers_reprojecting_iff ht (hgs g hg) hr b).mp (hb m hm)
  · intro hb m hm
    obtain ⟨g, hg, hr⟩ := exists_image_of_mem hms.flip hm
    exact (covers_reprojecting_iff ht (hgs g hg) hr b).mpr (hb g hg)

theorem beq_of_groups (hne : ∀ g ∈ groups, g ≠ []) (hg : ∀ e, e ∈ es ↔ ∃ g ∈ groups, e ∈ g) {r r' : Option (Extent K)}
    (h : (reprojecting t budget target es w).1 = .value r) (h' : (reprojecting t budget' target ms w).1 = .value r') :
    (r == r') = true := by
  have hes : ∀ e ∈ es, e.toBox.IsValid := by
    intro e he
    obtain ⟨g, hg', he⟩ := (hg e).mp he
    exact hgs g hg' e he
  have hmv : ∀ m ∈ ms, m.toBox.IsValid := fun m hm => (isFlat_of_groups ht hgs hms m hm).box
  have hnone : r = none ↔ r' = none := by
    calc r = none
      _ ↔ es = [] := by rw [← reprojecting_eq_none_iff ht hes, h, Outcome.value.injEq]
      _ ↔ groups = [] := (groups_eq_nil_iff hne hg).symm
      _ ↔ ms = [] := by rw [← List.length_eq_zero_iff, hms.length_eq, List.length_eq_zero_iff]
      _ ↔ r' = none := by rw [← reprojecting_eq_none_iff ht hmv, h', Outcome.value.injEq]
  cases r with
  | none => rw [hnone.mp rfl]; rfl
  | some m =>
    cases r' with
    | none => cases hnone.mpr rfl
    | some m' =>
      obtain ⟨-, -, hf, -⟩ := reprojecting_eq_some ht hes h
      obtain ⟨-, -, hf', -⟩ := reprojecting_eq_some ht hmv h'
      refine Extent.beq_of_covers hf hf' fun b => ?_
      rw [covers_reprojecting_iff ht hes h, covers_groups_iff ht hgs hms h']
      simp only [hg]
      exact ⟨fun hb g hg' e he => hb e ⟨g, hg', he⟩, fun hb e ⟨g, hg', he⟩ => hb g hg' e he⟩

end

/-- Extents are merged when the groups are into which they are divided, and to the same, by any budgets. -/
theorem reprojecting_groups (ht : t.IsPure) (budget budget' : Nat) (target : ReferenceSystem)
    (hes : ∀ e ∈ es, e.IsValid) (hne : ∀ g ∈ groups, g ≠ []) (hg : ∀ e, e ∈ es ↔ ∃ g ∈ groups, e ∈ g) (w : σ) :
    let merge budget es := (reprojecting t budget target es w).1
    ((∃ r, merge budget es = .value r) ↔ ∀ g ∈ groups, ∃ r, merge budget g = .value r) ∧
      (∀ r, merge budget es = .value r → ∃ ms r', List.Forall₂ (fun g m => merge budget g = .value (some m)) groups ms ∧
        merge budget' ms = .value r' ∧ (r == r') = true) ∧
      ∀ m, merge budget es = .value (some m) → merge budget' [m] = .value (some m) := by
  intro merge
  have hes' : ∀ e ∈ es, e.toBox.IsValid := fun e he => (hes e he).box
  have hgs : ∀ g ∈ groups, ∀ e ∈ g, e.toBox.IsValid := fun g hg' e he => hes' e ((hg e).mpr ⟨g, hg', he⟩)
  have hiff : (∃ r, merge budget es = .value r) ↔ ∀ g ∈ groups, ∃ r, merge budget g = .value r := by
    have hparts : (∀ g ∈ groups, ∃ r, merge budget g = .value r) ↔ ∀ g ∈ groups, ∀ e ∈ g, ∃ image,
        (t.reproject e target (min budget Boundary.maxBudget) w).1 = .value image :=
      forall₂_congr fun g hg' => exists_reprojecting_eq_value ht (hgs g hg')
    rw [hparts, exists_reprojecting_eq_value ht hes']
    simp only [hg]
    exact ⟨fun h g hg' e he => h e ⟨g, hg', he⟩, fun h e ⟨g, hg', he⟩ => h g hg' e he⟩
  refine ⟨hiff, fun r hr => ?_, fun m hm => ?_⟩
  · have hsome : ∀ g ∈ groups, ∃ m, merge budget g = .value (some m) := by
      intro g hg'
      obtain ⟨x, hx⟩ := hiff.mp ⟨r, hr⟩ g hg'
      cases x with
      | some m => exact ⟨m, hx⟩
      | none => exact absurd ((reprojecting_eq_none_iff ht (hgs g hg')).mp hx) (hne g hg')
    obtain ⟨ms, hms⟩ := exists_forall₂ hsome
    obtain ⟨r', hr'⟩ : ∃ r', merge budget' ms = .value r' :=
      exists_reprojecting_of_isFlat ht (isFlat_of_groups ht hgs hms)
    exact ⟨ms, r', hms, hr', beq_of_groups ht hgs hms hne hg hr hr'⟩
  · obtain ⟨-, -, hf, -⟩ := reprojecting_eq_some ht hes' hm
    show (reprojecting t budget' target [m] w).1 = _
    rw [reprojecting_eq, grow, Attempt.bind_of_value (TransformTable.reproject_of_isFlat hf t budget' w)]
    rfl

theorem reprojecting_groups_apart :
    let table : TransformTable Unit Rat := .standard ⟨85, id, id, id, id⟩
    let target : ReferenceSystem := .compound "c" "EPSG:900913" "v"
    let e (lo hi : Rat) (code : String) : Extent Rat := ⟨⟨⟨lo, hi⟩, ⟨0, 1⟩⟩, none, .horizontal code⟩
    let a := e 0 1 "EPSG:3857"
    let b := e 2 3 "EPSG:900913"
    let c := e 4 5 "EPSG:3857"
    let merge budget es := (reprojecting table budget target es ()).1
    table.IsPure ∧ (∀ e ∈ [a, b, c], e.IsValid) ∧ (∀ g ∈ [[a, c], [b]], g ≠ []) ∧
      (∀ e, e ∈ [a, b, c] ↔ ∃ g ∈ [[a, c], [b]], e ∈ g) ∧
      ((∃ r, merge 8 [a, b, c] = .value r) ↔ ∀ g ∈ [[a, c], [b]], ∃ r, merge 8 g = .value r) ∧
      (∀ r, merge 8 [a, b, c] = .value r →
        ∃ ms r', List.Forall₂ (fun g m => merge 8 g = .value (some m)) [[a, c], [b]] ms ∧ merge 0 ms = .value r' ∧
          (r == r') = true) ∧
      ∀ m, merge 8 [a, b, c] = .value (some m) → merge 0 [m] = .value (some m) := by
  intro table target e a b c merge
  have ht : table.IsPure := TransformTable.isPure_standard _
  have he : ∀ (lo hi : Rat) (code : String), lo ≤ hi → (e lo hi code).IsValid := fun lo hi code h =>
    ⟨⟨rfl, h⟩, ⟨rfl, (by decide : (0 : Rat) ≤ 1)⟩, nofun, rfl⟩
  have hes : ∀ e ∈ [a, b, c], e.IsValid := by
    rw [List.forall_mem_cons, List.forall_mem_cons, List.forall_mem_singleton]
    exact ⟨he 0 1 _ (by decide), he 2 3 _ (by decide), he 4 5 _ (by decide)⟩
  have hne : ∀ g ∈ [[a, c], [b]], g ≠ [] := by simp
  have hg : ∀ e, e ∈ [a, b, c] ↔ ∃ g ∈ [[a, c], [b]], e ∈ g := by
    intro x
    simp only [List.mem_cons, List.not_mem_nil, or_false, exists_eq_or_imp, exists_eq_left]
    tauto
  exact ⟨ht, hes, hne, hg, reprojecting_groups ht 8 0 target hes hne hg ()⟩

end Merger

end ExtentLedger
