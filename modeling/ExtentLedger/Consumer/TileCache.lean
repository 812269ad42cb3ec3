import ExtentLedger.Observer.Observer

/-!
# Tile caches

Segments of a cache are drawn from entities. When an entity changes, every segment that depends on it is truncated once
at the commit, over the merged extent in the segment's own system. A segment that is gone needs no truncation.
-/

namespace ExtentLedger

inductive CacheError
  | segmentNotFound (segment : String)
  | registry (detail : String)
  | truncation (detail : String)
deriving DecidableEq, Repr

def CacheError.message : CacheError → String
  | .segmentNotFound s => "Cache segment '" ++ s ++ "' not found"
  | .registry d => "Segment registry error: " ++ d
  | .truncation d => "Truncation failed: " ++ d

structure SegmentRegistry (σ : Type) where
  /-- The segments that are drawn from an entity. -/
  dependents : String → Attempt σ CacheError EntitySet
  /-- The system that a segment is declared to be in. -/
  declared : String → Attempt σ CacheError ReferenceSystem

abbrev Truncator (σ K : Type) := String → Extent K → Attempt σ CacheError Unit

namespace TileCache

variable {σ K : Type}

def scope : String := "tile-cache"

def resolver (segments : SegmentRegistry σ) : Resolver σ where
  affected source := (segments.dependents source).mapError fun e => .resolution e.message
  target segment := (segments.declared segment).mapError fun e => .resolution e.message

variable [Coordinate K] [Journal σ K]

def handler (truncate : Truncator σ K) : Handler σ K := fun segment merged =>
  (truncate segment merged).recover fun
    | .segmentNotFound s => .update (Journal.enter (.segmentGone s merged))
    | e => .fail (.dispatch ("error truncating cache segment '" ++ segment ++
        "' for transaction affected bounds " ++ merged.text ++ ": " ++ e.message))

def observer (config : ObserverConfig) (segments : SegmentRegistry σ) (truncate : Truncator σ K)
    (table : TransformTable σ K) : Except Fault (Observer σ K) :=
  Observer.make config (resolver segments) (.reprojecting table config.budget.toNat) (handler truncate)

def defaultConfig : ObserverConfig := .ofScope scope

end TileCache

end ExtentLedger
