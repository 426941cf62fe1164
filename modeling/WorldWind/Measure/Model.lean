import WorldWind.Geom
import WorldWind.Lib.Grid
import WorldWind.Lib.JavaInt
import WorldWind.Lib.Memo
/-!
# `util/measure/LengthMeasurer.java`, `util/measure/AreaMeasurer.java`

A measurer remembers two subdivided paths, three results, and the cells and
elevations of the sampling grid, until a setter forgets them. The globe and the
tessellator are fixed functions. Doubles are exact numbers; a query is nothing
where it throws.
-/

namespace WorldWind.Measure

open Geom Lib.JavaInt Lib.Memo

/-- The result of the tessellator; its indices are those of the vertices. -/
structure IndexedTriangleArray where
  indexCount : Nat
  indices : List Nat
  vertices : List ℚ

/-- What a measurer calls. -/
structure Globe where
  math : JavaMath
  getElevation : LatLon → ℚ
  getRadiusAt : LatLon → ℚ
  computePointFromPosition : Position → Vec4
  tessellatePolygon2 : Nat → List ℚ → IndexedTriangleArray

/-- `Polyline.GREAT_CIRCLE`, `Polyline.LINEAR` and `Polyline.RHUMB_LINE`. -/
def GREAT_CIRCLE : Int := 0

def LINEAR : Int := 1

def RHUMB_LINE : Int := 2

def DEFAULT_TERRAIN_SAMPLING_STEPS : ℚ := 128

def DEFAULT_MAX_SEGMENT_LENGTH : ℚ := 100000

def DEFAULT_MIN_SEGMENT_LENGTH : ℚ := 30

def DEFAULT_AREA_SAMPLING_STEPS : ℚ := 32

/-- `(int) Math.round(x)`: a `long`, then an `int`. -/
def roundInt (x : ℚ) : Int := int (max (-2 ^ 63) (min (2 ^ 63 - 1) ⌊x + 1 / 2⌋))

/-- `(int) Math.ceil(x)`. -/
def ceilInt (x : ℚ) : Int := max (-2 ^ 31) (min (2 ^ 31 - 1) ⌈x⌉)

/-! ## Subdivided paths -/

variable (globe : Globe)

def setElevation (followTerrain : Bool) (latLon : LatLon) (elevation : ℚ) : Position :=
  ⟨latLon, if followTerrain then globe.getElevation latLon else elevation⟩

/-- A location on the way between two positions. -/
def destLatLon (pathType : Int) (s : ℚ) (pos1 pos2 : LatLon) : LatLon :=
  if pathType = LINEAR then LatLon.interpolate s pos1 pos2
  else if pathType = RHUMB_LINE then
    let segmentAzimuth := LatLon.rhumbAzimuth globe.math pos1 pos2
    let segmentDistance := LatLon.rhumbDistance globe.math pos1 pos2
    LatLon.rhumbEndPosition globe.math pos1 (.fromRadians segmentAzimuth.radians)
      (.fromRadians (s * segmentDistance.radians))
  else
    let segmentAzimuth := LatLon.greatCircleAzimuth globe.math pos1 pos2
    let segmentDistance := LatLon.greatCircleDistance globe.math pos1 pos2
    LatLon.greatCircleEndPosition globe.math pos1 (.fromRadians segmentAzimuth.radians)
      (.fromRadians (s * segmentDistance.radians))

/-- The positions that are added between two positions. -/
def subdivideSegment (maxLength : ℚ) (followTerrain : Bool) (pathType : Int) (pos1 pos2 : Position) : List Position :=
  let arcLengthRadians := (LatLon.greatCircleDistance globe.math pos1.toLatLon pos2.toLatLon).radians
  let arcLength := arcLengthRadians * globe.getRadiusAt (LatLon.interpolate (1 / 2) pos1.toLatLon pos2.toLatLon)
  if arcLength > maxLength then
    let steps := ceilInt (arcLength / maxLength)
    (List.range' 1 (steps - 1).toNat).map fun j : Nat =>
      let s := globe.math.toFloat (globe.math.toFloat j / globe.math.toFloat steps)
      setElevation globe followTerrain (destLatLon globe pathType s pos1.toLatLon pos2.toLatLon)
        (pos1.elevation * (1 - s) + pos2.elevation * s)
  else []

/-- The loop of `subdividePositions`. -/
def subdivideFrom (maxLength : ℚ) (followTerrain : Bool) (pathType : Int) : Position → List Position → List Position
  | _, [] => []
  | pos1, pos2 :: rest =>
    subdivideSegment globe maxLength followTerrain pathType pos1 pos2 ++
      setElevation globe followTerrain pos2.toLatLon pos2.elevation ::
        subdivideFrom maxLength followTerrain pathType pos2 rest

/-- The whole list; it is never called with an empty one. -/
def subdividePositions (positions : List Position) (maxLength : ℚ) (followTerrain : Bool) (pathType : Int) :
    List Position :=
  match positions with
  | [] => []
  | pos1 :: rest =>
    setElevation globe followTerrain pos1.toLatLon pos1.elevation ::
      subdivideFrom globe maxLength followTerrain pathType pos1 rest

/-- The sum of the segment lengths from a point on. -/
def sumSegments (length : ℚ) : Vec4 → List Position → ℚ
  | _, [] => length
  | p1, pos :: rest =>
    let p2 := globe.computePointFromPosition pos
    sumSegments (length + p1.distanceTo3 globe.math p2) p2 rest

def pathLength : List Position → ℚ
  | [] => 0
  | pos :: rest => sumSegments globe 0 (globe.computePointFromPosition pos) rest

/-! ## The measurer -/

structure Cell where
  sector : Sector
  projectedArea : ℚ
  surfaceArea : ℚ

/-- Both classes have a private field `subdividedPositions`: `lengthPositions`
is that of `LengthMeasurer`. -/
structure AreaMeasurer where
  positions : Option (List Position)
  lengthPositions : Option (List Position)
  followTerrain : Bool
  pathType : Int
  maxSegmentLength : ℚ
  sector : Option Sector
  lengthTerrainSamplingSteps : ℚ
  length : ℚ
  subdividedPositions : Option (List Position)
  sectorCells : Option (Table Cell)
  sectorElevations : Option (Table ℚ)
  areaTerrainSamplingSteps : ℚ
  surfaceArea : ℚ
  projectedArea : ℚ

namespace AreaMeasurer

def new : AreaMeasurer where
  positions := none
  lengthPositions := none
  followTerrain := false
  pathType := GREAT_CIRCLE
  maxSegmentLength := DEFAULT_MAX_SEGMENT_LENGTH
  sector := none
  lengthTerrainSamplingSteps := DEFAULT_TERRAIN_SAMPLING_STEPS
  length := -1
  subdividedPositions := none
  sectorCells := none
  sectorElevations := none
  areaTerrainSamplingSteps := DEFAULT_AREA_SAMPLING_STEPS
  surfaceArea := -1
  projectedArea := -1

def clearCachedValues (m : AreaMeasurer) : AreaMeasurer :=
  { m with
    lengthPositions := none, length := -1, subdividedPositions := none, projectedArea := -1, surfaceArea := -1 }

def getBoundingSector (m : AreaMeasurer) : Option Sector :=
  match m.sector, m.positions with
  | none, some positions =>
    if positions.length > 2 then some (Sector.boundingSector (positions.map Position.toLatLon)) else none
  | sector, _ => sector

def isClosedShape (m : AreaMeasurer) : Bool :=
  match m.positions with
  | none => false
  | some positions => positions.length > 1 ∧ positions.head? = positions.getLast?

/-- `setPositions` of `LengthMeasurer`. -/
def setLengthPositions (m : AreaMeasurer) (positions : List Position) : AreaMeasurer :=
  { m with
    positions := some positions
    sector := if positions.length > 2 then some (Sector.boundingSector (positions.map Position.toLatLon)) else none
  }.clearCachedValues

/-- The check `positions == null` throws; it is before any assignment. -/
def setPositions (m : AreaMeasurer) (positions : Option (List Position)) : AreaMeasurer :=
  match positions with
  | none => m
  | some positions =>
    let oldSector := m.getBoundingSector
    let m := m.setLengthPositions positions
    if m.getBoundingSector = none ∨ m.getBoundingSector ≠ oldSector then
      { m with sectorCells := none, sectorElevations := none }
    else m

def setFollowTerrain (m : AreaMeasurer) (followTerrain : Bool) : AreaMeasurer :=
  if m.followTerrain ≠ followTerrain then { m with followTerrain := followTerrain }.clearCachedValues else m

def setPathType (m : AreaMeasurer) (pathType : Int) : AreaMeasurer :=
  if m.pathType ≠ pathType then { m with pathType := pathType }.clearCachedValues else m

def setMaxSegmentLength (m : AreaMeasurer) (length : ℚ) : AreaMeasurer :=
  if length ≤ 0 then m
  else if m.maxSegmentLength ≠ length then { m with maxSegmentLength := length }.clearCachedValues
  else m

def setLengthTerrainSamplingSteps (m : AreaMeasurer) (steps : ℚ) : AreaMeasurer :=
  if steps < 1 then m
  else if m.lengthTerrainSamplingSteps ≠ steps then
    { m with lengthTerrainSamplingSteps := steps, lengthPositions := none, length := -1 }
  else m

def setAreaTerrainSamplingSteps (m : AreaMeasurer) (steps : ℚ) : AreaMeasurer :=
  if steps < 1 then m
  else if m.areaTerrainSamplingSteps ≠ steps then
    { m with
      areaTerrainSamplingSteps := steps
      surfaceArea := -1
      projectedArea := -1
      sectorCells := none
      sectorElevations := none }
  else m

/-! ## Length -/

/-- Following the terrain it first computes the length that does not, which
fills the cache of positions that is filled again after it. -/
def computeLength (m : AreaMeasurer) (followTerrain : Bool) : AreaMeasurer × ℚ :=
  match m.positions with
  | none => (m, -1)
  | some positions =>
    if positions.length < 2 then (m, -1)
    else
      match m.lengthPositions with
      | some path => (m, pathLength globe path)
      | none =>
        let r : AreaMeasurer × ℚ :=
          match followTerrain with
          | true =>
            let r := computeLength m false
            (r.1, min (max (r.2 / m.lengthTerrainSamplingSteps) DEFAULT_MIN_SEGMENT_LENGTH) m.maxSegmentLength)
          | false => (m, m.maxSegmentLength)
        let path := subdividePositions globe positions r.2 followTerrain m.pathType
        ({ r.1 with lengthPositions := some path }, pathLength globe path)
termination_by followTerrain.toNat
decreasing_by simp_all

def getLength (m : AreaMeasurer) : AreaMeasurer × Option ℚ :=
  if m.length < 0 then
    let r := m.computeLength globe m.followTerrain
    ({ r.1 with length := r.2 }, some r.2)
  else (m, some m.length)

/-! ## Projected area -/

/-- The subdivided path of the areas, which the first of them computes. -/
def subdivided (m : AreaMeasurer) (followTerrain : Bool) : List Position :=
  m.subdividedPositions.getD
    (subdividePositions globe (m.positions.getD []) m.maxSegmentLength followTerrain m.pathType)

def computeTriangleProjectedArea (verts : List ℚ) (a b c : Nat) : ℚ :=
  let v := fun i : Nat => verts.getD i 0
  let area := |v a * (v (b + 1) - v (c + 1)) + v b * (v (c + 1) - v (a + 1)) + v c * (v (a + 1) - v (b + 1))| / 2
  let centerLat := (v (a + 1) + v (b + 1) + v (c + 1)) / 3
  let centerLon := (v a + v b + v c) / 3
  let radius := globe.getRadiusAt (LatLon.fromRadians centerLat centerLon)
  area * (globe.math.cos centerLat * radius * radius)

/-- The tessellation of a closed path, without its last location. -/
def tessellatedArea (locations : List LatLon) : ℚ :=
  let vertices := locations.dropLast.flatMap fun location =>
    [globe.math.toFloat location.longitude.radians, globe.math.toFloat location.latitude.radians, 0]
  let ita := globe.tessellatePolygon2 (locations.length - 1) vertices
  (List.range (ita.indexCount / 3)).foldl (fun area i =>
    let index := fun k : Nat => ita.indices.getD (i * 3 + k) 0
    area + computeTriangleProjectedArea globe ita.vertices (index 0 * 3) (index 1 * 3) (index 2 * 3)) 0

def computeProjectedAreaGeometry (m : AreaMeasurer) : AreaMeasurer × ℚ :=
  let sector := m.getBoundingSector
  let m := { m with sector := sector }
  if sector ≠ none ∧ m.isClosedShape then
    let path := m.subdivided globe m.followTerrain
    ({ m with subdividedPositions := some path }, tessellatedArea globe (path.map Position.toLatLon))
  else (m, -1)

def getProjectedArea (m : AreaMeasurer) : AreaMeasurer × Option ℚ :=
  if m.projectedArea < 0 then
    let r := m.computeProjectedAreaGeometry globe
    ({ r.1 with projectedArea := r.2 }, some r.2)
  else (m, some m.projectedArea)

end AreaMeasurer

/-! ## Surface area -/

/-- The sampling grid of a sector. -/
structure Steps where
  latSteps : Int
  lonSteps : Int
  latStepRadians : ℚ
  lonStepRadians : ℚ

def sampling (math : JavaMath) (sector : Sector) (steps : ℚ) : Steps :=
  let stepRadians := max (sector.deltaLat.radians / steps) (sector.deltaLon.radians / steps)
  let latSteps := roundInt (sector.deltaLat.radians / stepRadians)
  let lonSteps := roundInt (sector.deltaLon.radians / stepRadians * math.cos sector.getCentroid.latitude.radians)
  ⟨latSteps, lonSteps, sector.deltaLat.radians / latSteps, sector.deltaLon.radians / lonSteps⟩

/-- Surface area of a cell from the elevations of its corners. -/
def slopeArea (math : JavaMath) (cellWidth cellHeight eleSW eleSE eleNW : ℚ) : ℚ :=
  let vx := Vec4.normalize3 math ⟨cellWidth, 0, eleSE - eleSW⟩
  let vy := Vec4.normalize3 math ⟨0, cellHeight, eleNW - eleSW⟩
  let normalSW := (vx.cross3 vy).normalize3 math
  let tan := math.tan (Vec4.UNIT_Z.angleBetween3 math normalSW).radians
  let slopeFactor := math.sqrt (1 + tan * tan)
  cellWidth * cellHeight * slopeFactor

/-- The loops over the cells: the caches, and the area unless an access threw. -/
structure Samples where
  cells : Table Cell
  elevations : Table ℚ
  area : Option ℚ

/-- A cell that is computed; its corners' elevations may be cached. -/
def computeCell (sector : Sector) (s : Steps) (samples : Samples) (area : ℚ) (i j : Nat) : Samples :=
  let lat := sector.minLatitude.radians + s.latStepRadians * i
  let radius := globe.getRadiusAt ⟨.fromRadians (lat + s.latStepRadians / 2), sector.getCentroid.longitude⟩
  let cellWidth := s.lonStepRadians * radius * globe.math.cos (lat + s.latStepRadians / 2)
  let cellHeight := s.latStepRadians * radius
  let cellArea := cellWidth * cellHeight
  let lon := sector.minLongitude.radians + s.lonStepRadians * j
  let cellSector := Sector.fromRadians lat (lat + s.latStepRadians) lon (lon + s.lonStepRadians)
  let elevation := fun (i j : Nat) (lat lon : ℚ) =>
    (samples.elevations.get? i j).map fun e => e.getD (globe.getElevation (LatLon.fromRadians lat lon))
  match elevation i j lat lon, elevation i (j + 1) lat (lon + s.lonStepRadians),
      elevation (i + 1) j (lat + s.latStepRadians) lon with
  | some eleSW, some eleSE, some eleNW =>
    let surface := slopeArea globe.math cellWidth cellHeight eleSW eleSE eleNW
    { cells := samples.cells.put i j ⟨cellSector, cellArea, surface⟩
      elevations := ((samples.elevations.put i j eleSW).put i (j + 1) eleSE).put (i + 1) j eleNW
      area := some (area + surface) }
  | _, _, _ => { samples with area := none }

/-- A cell whose center is inside the shape. -/
def selectCell (sector : Sector) (s : Steps) (samples : Samples) (area : ℚ) (i j : Nat) : Samples :=
  match samples.cells.get? i j with
  | none => { samples with area := none }
  | some cached =>
    match cached.filter fun cell => cell.surfaceArea ≠ -1 with
    | some cell => { samples with area := some (area + cell.surfaceArea) }
    | none => computeCell globe sector s samples area i j

def sampleCell (sector : Sector) (s : Steps) (path : List LatLon) (samples : Samples) (cell : Nat × Nat) : Samples :=
  match samples.area with
  | none => samples
  | some area =>
    let lat := sector.minLatitude.radians + s.latStepRadians * cell.1
    let lon := sector.minLongitude.radians + s.lonStepRadians * cell.2
    let cellSector := Sector.fromRadians lat (lat + s.latStepRadians) lon (lon + s.lonStepRadians)
    if LatLon.isLocationInside cellSector.getCentroid path then selectCell globe sector s samples area cell.1 cell.2
    else samples

namespace AreaMeasurer

def computeSurfaceAreaSampling (m : AreaMeasurer) (steps : ℚ) : AreaMeasurer × Option ℚ :=
  let m := { m with sector := m.getBoundingSector }
  match m.sector with
  | none => (m, some (-1))
  | some sector =>
    if ¬ m.isClosedShape then (m, some (-1))
    else
      let path := m.subdivided globe true
      let m := { m with subdividedPositions := some path }
      let s := sampling globe.math sector steps
      match m.sectorCells.or (Table.new s.latSteps s.lonSteps) with
      | none => (m, none)
      | some cells =>
        let m := { m with sectorCells := some cells }
        match m.sectorElevations.or (Table.new (int (s.latSteps + 1)) (int (s.lonSteps + 1))) with
        | none => (m, none)
        | some elevations =>
          let r := (Lib.Grid.cells s.latSteps.toNat s.lonSteps.toNat).foldl
            (sampleCell globe sector s (path.map Position.toLatLon)) ⟨cells, elevations, some 0⟩
          ({ m with sectorCells := some r.cells, sectorElevations := some r.elevations }, r.area)

def getSurfaceArea (m : AreaMeasurer) : AreaMeasurer × Option ℚ :=
  if m.surfaceArea < 0 then
    let r := m.computeSurfaceAreaSampling globe m.areaTerrainSamplingSteps
    (match r.2 with
      | some area => { r.1 with surfaceArea := area }
      | none => r.1, r.2)
  else (m, some m.surfaceArea)

end AreaMeasurer

/-! ## Sequences of calls -/

inductive Query
  | getLength
  | getSurfaceArea
  | getProjectedArea

inductive Call
  | setPositions (positions : Option (List Position))
  | setFollowTerrain (followTerrain : Bool)
  | setPathType (pathType : Int)
  | setMaxSegmentLength (length : ℚ)
  | setLengthTerrainSamplingSteps (steps : ℚ)
  | setAreaTerrainSamplingSteps (steps : ℚ)
  | query (query : Query)

def ask (m : AreaMeasurer) : Query → AreaMeasurer × Option ℚ
  | .getLength => m.getLength globe
  | .getSurfaceArea => m.getSurfaceArea globe
  | .getProjectedArea => m.getProjectedArea globe

def call (m : AreaMeasurer) : Call → AreaMeasurer
  | .setPositions positions => m.setPositions positions
  | .setFollowTerrain followTerrain => m.setFollowTerrain followTerrain
  | .setPathType pathType => m.setPathType pathType
  | .setMaxSegmentLength length => m.setMaxSegmentLength length
  | .setLengthTerrainSamplingSteps steps => m.setLengthTerrainSamplingSteps steps
  | .setAreaTerrainSamplingSteps steps => m.setAreaTerrainSamplingSteps steps
  | .query query => (ask globe m query).1

/-- A measurer after some calls. -/
def after (calls : List Call) : AreaMeasurer := calls.foldl (call globe) AreaMeasurer.new

end WorldWind.Measure
