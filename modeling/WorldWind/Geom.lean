import Mathlib
/-!
# `geom/Angle.java`, `geom/LatLon.java`, `geom/Sector.java`, `geom/Vec4.java`

Locations on a globe and the paths between them. Doubles are exact numbers, so
an angle is its degrees, and a result is never NaN. The functions of
`java.lang.Math` are a parameter.
-/

namespace WorldWind.Geom

/-- The functions of `java.lang.Math`, and the cast to `float`. -/
structure JavaMath where
  sin : ℚ → ℚ
  cos : ℚ → ℚ
  tan : ℚ → ℚ
  asin : ℚ → ℚ
  acos : ℚ → ℚ
  atan2 : ℚ → ℚ → ℚ
  log : ℚ → ℚ
  sqrt : ℚ → ℚ
  toFloat : ℚ → ℚ

/-- `Math.PI`. -/
def PI : ℚ := 884279719003555 / 281474976710656

/-- `%` on doubles, which keeps the sign of the dividend. -/
def remainder (x y : ℚ) : ℚ := x - y * (Int.tdiv (x / y).num (x / y).den)

structure Angle where
  degrees : ℚ
  deriving DecidableEq

namespace Angle

def DEGREES_TO_RADIANS : ℚ := PI / 180

def RADIANS_TO_DEGREES : ℚ := 180 / PI

def radians (angle : Angle) : ℚ := DEGREES_TO_RADIANS * angle.degrees

def fromDegrees (degrees : ℚ) : Angle := ⟨degrees⟩

def fromRadians (radians : ℚ) : Angle := ⟨RADIANS_TO_DEGREES * radians⟩

def fromDegreesLatitude (degrees : ℚ) : Angle := ⟨if degrees < -90 then -90 else if degrees > 90 then 90 else degrees⟩

def fromDegreesLongitude (degrees : ℚ) : Angle :=
  ⟨if degrees < -180 then -180 else if degrees > 180 then 180 else degrees⟩

def addDegrees (angle : Angle) (degrees : ℚ) : Angle := fromDegrees (angle.degrees + degrees)

def isValidLatitude (value : ℚ) : Bool := value ≥ -90 ∧ value ≤ 90

def isValidLongitude (value : ℚ) : Bool := value ≥ -180 ∧ value ≤ 180

def ZERO : Angle := fromDegrees 0

def POS180 : Angle := fromDegrees 180

def normalizedLatitude (angle : Angle) : Angle :=
  let lat := remainder angle.degrees 180
  fromDegrees (if lat > 90 then 180 - lat else if lat < -90 then -180 - lat else lat)

def normalizedLongitude (angle : Angle) : Angle :=
  let lon := remainder angle.degrees 360
  fromDegrees (if lon > 180 then lon - 360 else if lon < -180 then 360 + lon else lon)

end Angle

structure LatLon where
  latitude : Angle
  longitude : Angle
  deriving DecidableEq

structure Position extends LatLon where
  elevation : ℚ
  deriving DecidableEq

namespace LatLon

def fromRadians (latitude longitude : ℚ) : LatLon := ⟨Angle.fromRadians latitude, Angle.fromRadians longitude⟩

/-- The linear interpolation; `Line.getPointAt` on the two angles. -/
def interpolate (amount : ℚ) (value1 value2 : LatLon) : LatLon :=
  if value1 = value2 then value1
  else
    fromRadians
      (value1.latitude.radians + (value2.latitude.radians - value1.latitude.radians) * amount)
      (value1.longitude.radians + (value2.longitude.radians - value1.longitude.radians) * amount)

variable (math : JavaMath)

def greatCircleDistance (p1 p2 : LatLon) : Angle :=
  let lat1 := p1.latitude.radians
  let lon1 := p1.longitude.radians
  let lat2 := p2.latitude.radians
  let lon2 := p2.longitude.radians
  if lat1 = lat2 ∧ lon1 = lon2 then Angle.ZERO
  else
    let a := math.sin ((lat2 - lat1) / 2)
    let b := math.sin ((lon2 - lon1) / 2)
    let c := a * a + math.cos lat1 * math.cos lat2 * b * b
    Angle.fromRadians (2 * math.asin (math.sqrt c))

def greatCircleAzimuth (p1 p2 : LatLon) : Angle :=
  let lat1 := p1.latitude.radians
  let lon1 := p1.longitude.radians
  let lat2 := p2.latitude.radians
  let lon2 := p2.longitude.radians
  if lat1 = lat2 ∧ lon1 = lon2 then Angle.ZERO
  else if lon1 = lon2 then if lat1 > lat2 then Angle.POS180 else Angle.ZERO
  else
    let y := math.cos lat2 * math.sin (lon2 - lon1)
    let x := math.cos lat1 * math.sin lat2 - math.sin lat1 * math.cos lat2 * math.cos (lon2 - lon1)
    Angle.fromRadians (math.atan2 y x)

def greatCircleEndPosition (p : LatLon) (greatCircleAzimuth pathLength : Angle) : LatLon :=
  let lat := p.latitude.radians
  let lon := p.longitude.radians
  let azimuth := greatCircleAzimuth.radians
  let distance := pathLength.radians
  if distance = 0 then p
  else
    let endLatRadians := math.asin
      (math.sin lat * math.cos distance + math.cos lat * math.sin distance * math.cos azimuth)
    let endLonRadians := lon + math.atan2 (math.sin distance * math.sin azimuth)
      (math.cos lat * math.cos distance - math.sin lat * math.sin distance * math.cos azimuth)
    ⟨(Angle.fromRadians endLatRadians).normalizedLatitude, (Angle.fromRadians endLonRadians).normalizedLongitude⟩

/-- The difference of the longitudes, over the 180 meridian where that is shorter. -/
def rhumbDLon (dLon : ℚ) : ℚ :=
  if |dLon| > PI then if dLon > 0 then -(2 * PI - dLon) else 2 * PI + dLon else dLon

def rhumbDPhi (lat1 lat2 : ℚ) : ℚ := math.log (math.tan (lat2 / 2 + PI / 4) / math.tan (lat1 / 2 + PI / 4))

/-- Where the quotient is not a number, it is the cosine of the latitude. -/
def rhumbDistance (p1 p2 : LatLon) : Angle :=
  let lat1 := p1.latitude.radians
  let lon1 := p1.longitude.radians
  let lat2 := p2.latitude.radians
  let lon2 := p2.longitude.radians
  if lat1 = lat2 ∧ lon1 = lon2 then Angle.ZERO
  else
    let dLat := lat2 - lat1
    let dPhi := rhumbDPhi math lat1 lat2
    let q := if dPhi = 0 then math.cos lat1 else dLat / dPhi
    let dLon := rhumbDLon (lon2 - lon1)
    Angle.fromRadians (math.sqrt (dLat * dLat + q * q * dLon * dLon))

def rhumbAzimuth (p1 p2 : LatLon) : Angle :=
  let lat1 := p1.latitude.radians
  let lon1 := p1.longitude.radians
  let lat2 := p2.latitude.radians
  let lon2 := p2.longitude.radians
  if lat1 = lat2 ∧ lon1 = lon2 then Angle.ZERO
  else Angle.fromRadians (math.atan2 (rhumbDLon (lon2 - lon1)) (rhumbDPhi math lat1 lat2))

def rhumbEndPosition (p : LatLon) (rhumbAzimuth pathLength : Angle) : LatLon :=
  let lat1 := p.latitude.radians
  let lon1 := p.longitude.radians
  let azimuth := rhumbAzimuth.radians
  let distance := pathLength.radians
  if distance = 0 then p
  else
    let lat2 := lat1 + distance * math.cos azimuth
    let dPhi := rhumbDPhi math lat1 lat2
    let q := if dPhi = 0 then math.cos lat1 else (lat2 - lat1) / dPhi
    let dLon := distance * math.sin azimuth / q
    let lat2 := if |lat2| > PI / 2 then if lat2 > 0 then PI - lat2 else -PI - lat2 else lat2
    let lon2 := remainder (lon1 + dLon + PI) (2 * PI) - PI
    ⟨(Angle.fromRadians lat2).normalizedLatitude, (Angle.fromRadians lon2).normalizedLongitude⟩

/-- `WWMath.isLocationInside`: the loop over the sides from `p1` on. -/
def isLocationInsideFrom (location : LatLon) (result : Bool) : LatLon → List LatLon → Bool
  | _, [] => result
  | p1, p2 :: rest =>
    let lat := location.latitude.degrees
    let lon := location.longitude.degrees
    let lat1 := p1.latitude.degrees
    let lon1 := p1.longitude.degrees
    let lat2 := p2.latitude.degrees
    let lon2 := p2.longitude.degrees
    let crosses := (lat2 ≤ lat ∧ lat < lat1 ∨ lat1 ≤ lat ∧ lat < lat2) ∧
      lon < (lon1 - lon2) * (lat - lat2) / (lat1 - lat2) + lon2
    isLocationInsideFrom location (if crosses then !result else result) p2 rest

def isLocationInside (location : LatLon) : List LatLon → Bool
  | [] => false
  | p1 :: rest => isLocationInsideFrom location false p1 rest

end LatLon

structure Sector where
  minLatitude : Angle
  maxLatitude : Angle
  minLongitude : Angle
  maxLongitude : Angle
  deriving DecidableEq

namespace Sector

def deltaLat (sector : Sector) : Angle := .fromDegrees (sector.maxLatitude.degrees - sector.minLatitude.degrees)

def deltaLon (sector : Sector) : Angle := .fromDegrees (sector.maxLongitude.degrees - sector.minLongitude.degrees)

def EMPTY_SECTOR : Sector := ⟨Angle.ZERO, Angle.ZERO, Angle.ZERO, Angle.ZERO⟩

def fromRadians (minLatitude maxLatitude minLongitude maxLongitude : ℚ) : Sector :=
  ⟨Angle.fromRadians minLatitude, Angle.fromRadians maxLatitude, Angle.fromRadians minLongitude,
    Angle.fromRadians maxLongitude⟩

def getCentroid (sector : Sector) : LatLon :=
  ⟨.fromDegrees (1 / 2 * (sector.maxLatitude.degrees + sector.minLatitude.degrees)),
    .fromDegrees (1 / 2 * (sector.maxLongitude.degrees + sector.minLongitude.degrees))⟩

def fromDegrees (minLatitude maxLatitude minLongitude maxLongitude : ℚ) : Sector :=
  ⟨.fromDegrees minLatitude, .fromDegrees maxLatitude, .fromDegrees minLongitude, .fromDegrees maxLongitude⟩

def isWithinLatLonLimits (sector : Sector) : Bool :=
  sector.minLatitude.degrees ≥ -90 ∧ sector.maxLatitude.degrees ≤ 90 ∧ sector.minLongitude.degrees ≥ -180 ∧
    sector.maxLongitude.degrees ≤ 180

/-- Two sectors that share a location, which may be on their edges. -/
def intersects (sector that : Sector) : Bool :=
  ¬ that.maxLongitude.degrees < sector.minLongitude.degrees ∧
    ¬ that.minLongitude.degrees > sector.maxLongitude.degrees ∧
    ¬ that.maxLatitude.degrees < sector.minLatitude.degrees ∧ ¬ that.minLatitude.degrees > sector.maxLatitude.degrees

/-- The loop takes minima and maxima from the bounds of all locations. -/
def boundingSector (locations : List LatLon) : Sector :=
  if locations = [] then EMPTY_SECTOR
  else
    ⟨.fromDegrees (locations.foldl (fun minLat p => if p.latitude.degrees <
      minLat then p.latitude.degrees else minLat) 90), .fromDegrees
        (locations.foldl (fun maxLat p => if p.latitude.degrees > maxLat then p.latitude.degrees else maxLat) (-90)),
      .fromDegrees
        (locations.foldl (fun minLon p => if p.longitude.degrees < minLon then p.longitude.degrees else minLon) 180),
      .fromDegrees
        (locations.foldl (fun maxLon p => if p.longitude.degrees > maxLon then p.longitude.degrees else maxLon)
          (-180))⟩

end Sector

structure Vec4 where
  x : ℚ
  y : ℚ
  z : ℚ

namespace Vec4

variable (math : JavaMath)

def UNIT_Z : Vec4 := ⟨0, 0, 1⟩

def getLength3 (v : Vec4) : ℚ := math.sqrt (v.x * v.x + v.y * v.y + v.z * v.z)

def normalize3 (v : Vec4) : Vec4 :=
  let length := v.getLength3 math
  if length = 0 then v else ⟨v.x / length, v.y / length, v.z / length⟩

def distanceTo3 (v vec4 : Vec4) : ℚ :=
  math.sqrt ((v.x - vec4.x) * (v.x - vec4.x) + (v.y - vec4.y) * (v.y - vec4.y) + (v.z - vec4.z) * (v.z - vec4.z))

def dot3 (v vec4 : Vec4) : ℚ := v.x * vec4.x + v.y * vec4.y + v.z * vec4.z

def cross3 (v vec4 : Vec4) : Vec4 :=
  ⟨v.y * vec4.z - v.z * vec4.y, v.z * vec4.x - v.x * vec4.z, v.x * vec4.y - v.y * vec4.x⟩

def angleBetween3 (v vec4 : Vec4) : Angle :=
  let length := v.getLength3 math * vec4.getLength3 math
  let dot := if length ≠ 0 ∧ length ≠ 1 then v.dot3 vec4 / length else v.dot3 vec4
  .fromRadians (math.acos (if dot < -1 then -1 else if dot > 1 then 1 else dot))

end Vec4

end WorldWind.Geom
