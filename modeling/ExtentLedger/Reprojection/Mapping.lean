import ExtentLedger.Reprojection.TransformTable

/-!
# Mappings

What transforms are given to map, and what they answer. A table whose transforms are traced keeps, beside the state of
the transforms, each call in its order, under the codes of the pair that the transform is registered for. Tracing changes
nothing else, so what is said of a traced table holds of the table.
-/

namespace ExtentLedger

structure Mapping (K : Type) where
  point : Point K
  answer : Outcome Fault (Point K)

variable {σ K : Type}

abbrev MappingTrace (σ K : Type) := List ((String × String) × Mapping K) × σ

def Transform.traced (codes : String × String) (t : Transform σ K) : Transform (MappingTrace σ K) K where
  name := t.name
  apply := fun p (calls, w) =>
    let (answer, w) := t.apply p w
    (answer, (calls ++ [(codes, ⟨p, answer⟩)], w))

def TransformTable.traced (t : TransformTable σ K) : TransformTable (MappingTrace σ K) K :=
  ⟨t.transforms.map Transform.traced⟩

variable [Coordinate K]

namespace Mapping

def image? (m : Mapping K) : Option (Point K) :=
  match m.answer with
  | .value q => if q.isFinite then some q else none
  | _ => none

/-- What comes of an attempt that a point without a finite image breaks off. -/
def breakOff {α : Type} (transform : String) (m : Mapping K) : Outcome Fault α :=
  match m.answer with
  | .value _ => .failure (.transform (transform ++ " produced a non-finite coordinate for " ++ m.point.text))
  | .failure f => .failure f
  | .crash c => .crash c

end Mapping

/-- A transform is given points one after another, as long as each has a finite image. -/
inductive Transform.Maps (t : Transform σ K) : List (Point K) → σ → List (Mapping K) → σ → Prop
  | nil (w : σ) : Maps t [] w [] w
  | cons {p q : Point K} {ps : List (Point K)} {answer : Outcome Fault (Point K)} {ms : List (Mapping K)} {w v u : σ} :
      t.apply p w = (answer, v) → Mapping.image? ⟨p, answer⟩ = some q → Maps t ps v ms u →
      Maps t (p :: ps) w (⟨p, answer⟩ :: ms) u
  | stop {p : Point K} {answer : Outcome Fault (Point K)} {w v : σ} (ps : List (Point K)) :
      t.apply p w = (answer, v) → Mapping.image? ⟨p, answer⟩ = none → Maps t (p :: ps) w [⟨p, answer⟩] v

end ExtentLedger
