import Mathlib
import WorldWind.Lib.Numerals
/-!
# Locations, sectors and vectors over a field

What `LatLon`, `Sector` and `Vec4` compute with the four operations, over any
ordered field: a location and a sector in degrees, a vector without its fourth
component. A square root is a parameter.
-/

namespace WorldWind.Geom.Exact

open scoped Lib.Numerals

variable {K : Type*} [Field K]

/-- A location in degrees. -/
@[ext]
structure LatLon (K : Type*) where
  latitude : K
  longitude : K
  deriving DecidableEq, Repr

/-- The fourth component of a `Vec4` is left out. -/
@[ext]
structure Vec4 (K : Type*) where
  x : K
  y : K
  z : K
  deriving DecidableEq, Repr

namespace Vec4

def add3 (v w : Vec4 K) : Vec4 K := ⟨v.x + w.x, v.y + w.y, v.z + w.z⟩

def subtract3 (v w : Vec4 K) : Vec4 K := ⟨v.x - w.x, v.y - w.y, v.z - w.z⟩

def multiply3 (v : Vec4 K) (value : K) : Vec4 K := ⟨v.x * value, v.y * value, v.z * value⟩

def divide3 (v : Vec4 K) (value : K) : Vec4 K := ⟨v.x / value, v.y / value, v.z / value⟩

def dot3 (v w : Vec4 K) : K := v.x * w.x + v.y * w.y + v.z * w.z

def getLengthSquared3 (v : Vec4 K) : K := v.x * v.x + v.y * v.y + v.z * v.z

variable (sqrt : K → K)

def getLength3 (v : Vec4 K) : K := sqrt v.getLengthSquared3

def normalize3 [DecidableEq K] (v : Vec4 K) : Vec4 K :=
  let length := v.getLength3 sqrt
  if length = 0 then v else ⟨v.x / length, v.y / length, v.z / length⟩

end Vec4

structure Sector (K : Type*) where
  minLatitude : K
  maxLatitude : K
  minLongitude : K
  maxLongitude : K
  deriving DecidableEq, Repr

namespace Sector

def deltaLat (sector : Sector K) : K := sector.maxLatitude - sector.minLatitude

def deltaLon (sector : Sector K) : K := sector.maxLongitude - sector.minLongitude

def getCentroid (sector : Sector K) : LatLon K :=
  ⟨1 / 2 * (sector.maxLatitude + sector.minLatitude), 1 / 2 * (sector.maxLongitude + sector.minLongitude)⟩

def contains [LinearOrder K] (sector : Sector K) (p : LatLon K) : Bool :=
  p.latitude ≥ sector.minLatitude ∧ p.latitude ≤ sector.maxLatitude ∧ p.longitude ≥ sector.minLongitude ∧
    p.longitude ≤ sector.maxLongitude

end Sector

end WorldWind.Geom.Exact
