import ExtentLedger.Attempt
import ExtentLedger.Change.Operation
import ExtentLedger.Feature.Features
import ExtentLedger.Text.Quoted

/-!
# Changes

A change is what the host announces: which source entity is written, by what operation, in which phase, and the
records that are touched. The records are asked for their extent only when somebody needs it.
-/

namespace ExtentLedger

/-- The extent of some records, when it is asked for; there is none when no record has a place. -/
abbrev Records (σ K : Type) := Attempt σ Fault (Option (Extent K))

structure Change (σ K : Type) where
  source : String
  operation : Operation
  phase : Phase
  records : Records σ K

namespace Records

variable {σ K : Type}

def empty : Records σ K := .ofExcept (.ok none)

def ofExtent (e : Extent K) : Records σ K := .ofExcept (.ok (some e))

def ofFeatures [Coordinate K] (f : Features K) : Records σ K := .ofExcept f.extent?

end Records

namespace Change

variable {σ K : Type}

def inPhase (source : String) (phase : Phase) (records : Records σ K) : Change σ K :=
  ⟨source, phase.operation, phase, records⟩

def text (c : Change σ K) : String :=
  "MutationNotification \x7b source_entity: " ++ Text.quoted c.source ++ ", operation: " ++ c.operation.title ++
    ", phase: " ++ c.phase.title ++ ", .. \x7d"

end Change

end ExtentLedger
