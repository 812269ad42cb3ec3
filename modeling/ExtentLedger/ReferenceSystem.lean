/-!
# Reference systems

A reference system names the coordinates that an extent is given in. Only its identity matters here. A compound system
joins a horizontal component with a vertical datum and has a code of its own.
-/

namespace ExtentLedger

inductive ReferenceSystem
  | horizontal (code : String)
  | compound (code horizontal vertical : String)
deriving DecidableEq, Repr

namespace ReferenceSystem

def geographic : String := "EPSG:4326"

def webMercator : String := "EPSG:3857"

/-- The older code of spherical Mercator, with the same coordinates. -/
def webMercatorAlias : String := "EPSG:900913"

def code : ReferenceSystem → String
  | .horizontal c => c
  | .compound c _ _ => c

def isCompound : ReferenceSystem → Bool
  | .horizontal _ => false
  | .compound .. => true

def dimension (r : ReferenceSystem) : Nat := if r.isCompound then 3 else 2

/-- The system of the horizontal coordinates alone. -/
def flat : ReferenceSystem → ReferenceSystem
  | .horizontal c => .horizontal c
  | .compound _ h _ => .horizontal h

def text : ReferenceSystem → String
  | .horizontal c => c
  | .compound c h v => c ++ " (" ++ h ++ " + " ++ v ++ ")"

@[simp] theorem isCompound_flat (r : ReferenceSystem) : r.flat.isCompound = false := by
  cases r <;> rfl

@[simp] theorem flat_flat (r : ReferenceSystem) : r.flat.flat = r.flat := by
  cases r <;> rfl

end ReferenceSystem

end ExtentLedger
