import ExtentLedger.Attempt
import ExtentLedger.Fault
import ExtentLedger.Geometry.Box
import ExtentLedger.ReferenceSystem

/-!
# Extents

An extent is a box in a reference system; in a compound system it has a range of heights too. Extents are made by
`Extent.planar` and `Extent.solid`, which refuse bounds that are not finite or in the wrong order.
-/

namespace ExtentLedger

structure Extent (K : Type) extends Box K where
  vertical : Option (Span K)
  reference : ReferenceSystem
deriving BEq, Repr

namespace Extent

variable {K : Type} [Coordinate K]

inductive Axis
  | x
  | y
  | z
deriving DecidableEq, Repr

def Axis.name : Axis → String
  | .x => "x"
  | .y => "y"
  | .z => "z"

inductive Defect (K : Type)
  | planarInCompound (r : ReferenceSystem)
  | solidInHorizontal (r : ReferenceSystem)
  | notFinite (axis : Axis) (range : Span K)
  | reversed (axis : Axis) (range : Span K)
deriving Repr

def Defect.message : Defect K → String
  | .planarInCompound r => "2D extent cannot use compound reference system " ++ r.text
  | .solidInHorizontal r => "3D extent requires a compound reference system, got " ++ r.text
  | .notFinite axis s =>
    "non-finite " ++ axis.name ++ " range [" ++ Coordinate.text s.lo ++ ", " ++ Coordinate.text s.hi ++ "]"
  | .reversed axis s =>
    axis.name ++ " minimum " ++ Coordinate.text s.lo ++ " exceeds maximum " ++ Coordinate.text s.hi

def refuse {α : Type} (d : Defect K) : Except Fault α := .error (.invalidExtent d.message)

def checkAxis (axis : Axis) (s : Span K) : Except Fault Unit :=
  if s.isFinite = false then refuse (.notFinite axis s)
  else if s.hi < s.lo then refuse (.reversed axis s)
  else .ok ()

/-- An extent without heights, in a horizontal system. -/
def planar (b : Box K) (r : ReferenceSystem) : Except Fault (Extent K) :=
  if r.isCompound then refuse (Defect.planarInCompound r : Defect K)
  else do
    checkAxis .x b.x
    checkAxis .y b.y
    return ⟨⟨.sorted b.x.lo b.x.hi, .sorted b.y.lo b.y.hi⟩, none, r⟩

def solid (b : Box K) (z : Span K) (r : ReferenceSystem) : Except Fault (Extent K) :=
  if r.isCompound = false then refuse (Defect.solidInHorizontal r : Defect K)
  else do
    checkAxis .x b.x
    checkAxis .y b.y
    checkAxis .z z
    return ⟨⟨.sorted b.x.lo b.x.hi, .sorted b.y.lo b.y.hi⟩, some z, r⟩

def dimension (e : Extent K) : Nat := if e.vertical.isSome then 3 else 2

/-- The extent without its heights, in the horizontal component of its system. -/
def flat (e : Extent K) : Extent K := ⟨e.toBox, none, e.reference.flat⟩

def union (e f : Extent K) : Except Fault (Extent K) :=
  if e.reference = f.reference then
    let b := e.toBox.join f.toBox
    let z := match e.vertical, f.vertical with
      | some s, some t => some (s.join t)
      | s, t => s.or t
    .ok ⟨⟨.sorted b.x.lo b.x.hi, .sorted b.y.lo b.y.hi⟩, z, e.reference⟩
  else .error (.referenceMismatch e.reference.text f.reference.text)

def enlargeBy (f : Extent K) : Attempt (Extent K) Fault Unit := fun e =>
  if e.reference = f.reference then
    let b := e.toBox.join f.toBox
    let e := { e with toBox := ⟨.sorted b.x.lo b.x.hi, .sorted b.y.lo b.y.hi⟩ }
    let e := { e with vertical := match e.vertical, f.vertical with
      | some s, some t => some (s.join t)
      | s, t => s.or t }
    (.value (), e)
  else (.failure (.referenceMismatch e.reference.text f.reference.text), e)

/-- Does `e` cover `f` horizontally, in the same system? Heights do not count. -/
def contains (e f : Extent K) : Bool := e.reference = f.reference && e.toBox.covers f.toBox

def isNear (tolerance : K) (e f : Extent K) : Bool :=
  let vertical := match e.vertical, f.vertical with
    | some s, some t => s.isNear tolerance t
    | none, none => true
    | _, _ => false
  e.reference = f.reference && e.x.isNear tolerance f.x && e.y.isNear tolerance f.y && vertical

def text (e : Extent K) : String :=
  let corner (pick : Span K → K) : String :=
    let bounds := [pick e.x, pick e.y] ++ (e.vertical.map pick).toList
    "(" ++ ",".intercalate (bounds.map Coordinate.text) ++ ")"
  corner Span.lo ++ "-" ++ corner Span.hi ++ " " ++ e.reference.text

end Extent

end ExtentLedger
