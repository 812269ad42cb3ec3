import ExtentLedger.Reprojection.Transform

/-!
# Spherical Mercator

Longitude and latitude in degrees to metres on a plane, and back. Points outside the degrees of the globe are refused.
Near the poles the projection grows without bound, so a latitude beyond the limit counts as the limit, which makes the
projected world a square. The curves themselves are a parameter: what is said here of the domain holds for any of them.
-/

namespace ExtentLedger

/-- The curves of a Mercator projection, one axis each, and its greatest latitude. -/
structure Mercator (K : Type) where
  limit : K
  easting : K → K
  northing : K → K
  longitude : K → K
  latitude : K → K

namespace Mercator

def earthRadius : Float := 6378137.0

def pi : Float := 3.141592653589793

def quarterPi : Float := 0.7853981633974483

def radians (degrees : Float) : Float := degrees * (pi / 180.0)

def degrees (radians : Float) : Float := radians * (180.0 / pi)

def sphere : Mercator Float where
  limit := 85.05112877980659
  easting lon := earthRadius * radians lon
  northing lat := earthRadius * (quarterPi + radians lat / 2.0).tan.log
  longitude x := degrees (x / earthRadius)
  latitude y := degrees (2.0 * (y / earthRadius).exp.atan - 2.0 * quarterPi)

variable {σ K : Type} [Coordinate K]

/-- Is the number at most `bound` away from zero? Incomparable numbers are not. -/
def isWithin (bound : Nat) (a : K) : Bool :=
  let b : K := Coordinate.ofNat bound
  decide (-b ≤ a) && decide (a ≤ b)

def isGeographic (p : Point K) : Bool := isWithin 180 p.x && isWithin 90 p.y

def clamp (m : Mercator K) (lat : K) : K :=
  if lat < -m.limit then -m.limit else if m.limit < lat then m.limit else lat

def project (m : Mercator K) (p : Point K) : Except Fault (Point K) :=
  if isGeographic p then .ok ⟨m.easting p.x, m.northing (m.clamp p.y)⟩
  else .error (.transform ("coordinate " ++ p.text ++ " is outside the geographic domain"))

def unproject (m : Mercator K) (p : Point K) : Except Fault (Point K) :=
  if p.isFinite then .ok ⟨m.longitude p.x, m.latitude p.y⟩
  else .error (.transform ("non-finite mercator coordinate " ++ p.text))

def forward (m : Mercator K) : Transform σ K := .ofFunction "geographic-to-web-mercator" m.project

def backward (m : Mercator K) : Transform σ K := .ofFunction "web-mercator-to-geographic" m.unproject

end Mercator

end ExtentLedger
