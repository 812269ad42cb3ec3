import ExtentLedger.Observer.Observer

/-!
# Stored bounds

A catalog stores the bounds of entities. When an entity is written, its stored bounds grow at the commit to cover what
was written. Bounds never shrink, keep their reference system, and keep their heights when they have any.
-/

namespace ExtentLedger

inductive CatalogError
  | storage (detail : String)
deriving DecidableEq, Repr

def CatalogError.message : CatalogError → String
  | .storage d => "Catalog storage error: " ++ d

structure Catalog (σ K : Type) where
  load : String → Attempt σ CatalogError (Option (Extent K))
  save : String → Extent K → Attempt σ CatalogError Unit

namespace StoredBounds

variable {σ K : Type}

def scope : String := "bounds-update"

/-- A source entity affects the stored entity of the same name, if there is one. Its region is wanted in the horizontal
component of the system of its bounds. -/
def resolver (catalog : Catalog σ K) : Resolver σ where
  affected source := do
    match ← (catalog.load source).mapError fun e => .resolution e.message with
    | some _ => return .ofList [source]
    | none => return ∅
  target entity := do
    match ← (catalog.load entity).mapError fun e => .resolution e.message with
    | some stored => return stored.reference.flat
    | none =>
      .fail (.resolution ("entity '" ++ entity ++ "' was removed before its bounds could be updated"))

variable [Coordinate K]

def grow (stored region : Extent K) : Except Fault (Extent K) := do
  let larger ← stored.flat.union region
  match stored.vertical with
  | none => return larger
  | some z => Extent.solid larger.toBox z stored.reference

variable [Journal σ K]

def handler (catalog : Catalog σ K) (table : TransformTable σ K) (budget : Nat) : Handler σ K :=
  fun entity merged => do
    match ← (catalog.load entity).mapError fun e => .dispatch e.message with
    | none => .update (Journal.enter (.entityGone entity merged))
    | some stored =>
      let region ← table.reproject merged stored.reference (min budget Boundary.maxBudget)
      let larger ← .ofExcept (grow stored region)
      (catalog.save entity larger).mapError fun e =>
        .dispatch ("saving bounds of '" ++ entity ++ "': " ++ e.message)

def observer (config : ObserverConfig) (catalog : Catalog σ K) (table : TransformTable σ K) :
    Except Fault (Observer σ K) :=
  let budget := config.budget.toNat
  Observer.make config (resolver catalog) (.reprojecting table budget) (handler catalog table budget)

/-- Only inserted and updated data can reach beyond the stored bounds. -/
def defaultConfig : ObserverConfig :=
  { ObserverConfig.ofScope scope with operations := .ofList [Operation.insert, Operation.update] }

end StoredBounds

end ExtentLedger
