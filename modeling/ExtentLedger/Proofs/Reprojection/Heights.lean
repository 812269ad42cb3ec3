import ExtentLedger.Reprojection.Merger
import Mathlib.Data.List.Forall2

/-!
# Heights do not count

Reprojecting and merging look at extents and systems only after flattening them. Whatever two runs differ in beside boxes
and horizontal codes, they make the same calls and come to the same values, errors and crashes.
-/

namespace ExtentLedger

variable {σ K : Type}

theorem ReferenceSystem.flat_eq_of_code {r s : ReferenceSystem} (h : r.flat.code = s.flat.code) : r.flat = s.flat := by
  cases r <;> cases s <;> exact congrArg horizontal h

namespace Extent

structure AgreesFlat (e f : Extent K) : Prop where
  box : e.toBox = f.toBox
  code : e.reference.flat.code = f.reference.flat.code

theorem AgreesFlat.flat_eq {e f : Extent K} (h : e.AgreesFlat f) : e.flat = f.flat := by
  rw [flat, flat, h.box, ReferenceSystem.flat_eq_of_code h.code]

theorem agreesFlat_flat (e : Extent K) : e.AgreesFlat e.flat :=
  ⟨rfl, congrArg ReferenceSystem.code (ReferenceSystem.flat_flat _).symm⟩

end Extent

variable [Coordinate K] (t : TransformTable σ K) (budget : Nat) {target target' : ReferenceSystem}

theorem TransformTable.reproject_congr {e f : Extent K} (h : e.AgreesFlat f) (ht : target.flat = target'.flat) :
    t.reproject e target budget = t.reproject f target' budget := by
  unfold reproject
  rw [h.flat_eq, ht]

namespace Merger

theorem grow_congr {es fs : List (Extent K)} (h : List.Forall₂ Extent.AgreesFlat es fs)
    (ht : target.flat = target'.flat) (merged : Option (Extent K)) :
    grow t budget target merged es = grow t budget target' merged fs := by
  induction h generalizing merged with
  | nil => rfl
  | cons he _ ih =>
    unfold grow
    rw [t.reproject_congr budget he ht]
    simp only [ih]

theorem reprojecting_congr_flat {es fs : List (Extent K)} (h : List.Forall₂ Extent.AgreesFlat es fs)
    (ht : target.flat = target'.flat) : reprojecting t budget target es = reprojecting t budget target' fs :=
  grow_congr t _ h ht none

/-- Merging extents and merging them flattened, into a system or into its horizontal component, is one and the same. -/
theorem reprojecting_heightless (target : ReferenceSystem) (es : List (Extent K)) :
    reprojecting t budget target es = reprojecting t budget target.flat (es.map Extent.flat) ∧
      (∀ fs target', List.Forall₂ Extent.AgreesFlat es fs → target.flat = target'.flat →
        reprojecting t budget target es = reprojecting t budget target' fs) ∧
      (∀ e, t.reproject e target budget = t.reproject e.flat target.flat budget) ∧
      ∀ e f target', e.AgreesFlat f → target.flat = target'.flat →
        t.reproject e target budget = t.reproject f target' budget := by
  have hflat : target.flat = target.flat.flat := target.flat_flat.symm
  refine ⟨?_, fun fs target' h ht => reprojecting_congr_flat t budget h ht,
    fun e => t.reproject_congr budget e.agreesFlat_flat hflat, fun e f target' h ht => t.reproject_congr budget h ht⟩
  apply reprojecting_congr_flat t budget _ hflat
  rw [List.forall₂_map_right_iff, List.forall₂_same]
  exact fun e _ => e.agreesFlat_flat

theorem reprojecting_heightless_pair :
    let e : Extent Float := ⟨⟨⟨0, 1⟩, ⟨0, 1⟩⟩, some ⟨5, 7⟩, .compound "c" "a" "v"⟩
    let f : Extent Float := ⟨⟨⟨0, 1⟩, ⟨0, 1⟩⟩, none, .horizontal "a"⟩
    let target : ReferenceSystem := .compound "d" "b" "w"
    let closed : Transform Nat Float := ⟨"closed", fun _ n => (.failure (.transform "closed"), n + 1)⟩
    let table : TransformTable Nat Float := .register .empty "a" "b" closed
    List.Forall₂ Extent.AgreesFlat [e, f] [f, e] ∧ target.flat = (ReferenceSystem.horizontal "b").flat ∧
      reprojecting table 8 target [e, f] = reprojecting table 8 (.horizontal "b") [f, e] := by
  intro e f target closed table
  have hef : List.Forall₂ Extent.AgreesFlat [e, f] [f, e] := .cons ⟨rfl, rfl⟩ (.cons ⟨rfl, rfl⟩ .nil)
  obtain ⟨-, hmerge, -⟩ := reprojecting_heightless table 8 target [e, f]
  exact ⟨hef, rfl, hmerge [f, e] (.horizontal "b") hef rfl⟩

end Merger

end ExtentLedger
