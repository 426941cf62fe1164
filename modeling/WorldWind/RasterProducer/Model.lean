import WorldWind.Geom
import WorldWind.Lib.JavaInt
/-!
# `data/TiledRasterProducer.java`: the tiles of a level set

The producer draws the tiles of the final level from the data rasters and every
other tile from its four sub-tiles, and hands the rasters of the tiles to the
writers (`installTileRasterLater`). Rasters are a parameter. Nobody stops the
run. Angles are exact.
-/

namespace WorldWind.RasterProducer

open Geom Lib.JavaInt

/-- The name is empty (nothing here) or the digits of a number. -/
structure Level where
  levelNumber : Nat
  levelName : Option Nat
  active : Bool
  deriving DecidableEq

def Level.isEmpty (level : Level) : Bool := level.levelName = none ∨ ¬ level.active

structure LevelSet where
  sector : Sector
  levelZeroTileDelta : LatLon
  tileOrigin : LatLon
  numLevels : Nat
  numEmptyLevels : Nat
  inactiveLevels : List Nat
  numLevels_pos : 0 < numLevels

namespace LevelSet

def level (levelSet : LevelSet) (i : Nat) : Level where
  levelNumber := i
  levelName := if i < levelSet.numEmptyLevels then none else some (i - levelSet.numEmptyLevels)
  active := i ∉ levelSet.inactiveLevels

/-- The levels behind a level. -/
def levelsAfter (levelSet : LevelSet) (levelNumber : Nat) : List Level :=
  (List.range' (levelNumber + 1) (levelSet.numLevels - 1 - levelNumber)).map levelSet.level

def isFinalLevel (levelSet : LevelSet) (levelNum : Nat) : Bool := levelNum = levelSet.numLevels - 1

end LevelSet

/-- The value of `AVKey.TILED_RASTER_PRODUCER_LIMIT_MAX_LEVEL`: an `Integer`, or
a text that is read as a number, "Auto", a percentage, or not at all. -/
inductive LimitMaxLevel
  | absent
  | limit (limit : Int)
  | auto
  | percent (percent : ℚ)
  | unreadable

/-- `(int)` of a `double`. -/
def truncInt (x : ℚ) : Int := max (-2 ^ 31) (min (2 ^ 31 - 1) (if 0 ≤ x then ⌊x⌋ else ⌈x⌉))

def extractMaxLevelLimit (params : LimitMaxLevel) (maxNumOfLevels : Nat) : Int :=
  match params with
  | .absent | .unreadable => maxNumOfLevels
  | .limit limit => if limit ≤ maxNumOfLevels then limit else maxNumOfLevels
  | .auto => truncInt ⌊(1 / 2 : ℚ) * maxNumOfLevels⌋
  | .percent percent =>
    let limit := truncInt ⌊percent * maxNumOfLevels / 100⌋
    if limit ≤ maxNumOfLevels then limit else maxNumOfLevels

def isFinalLevel (levelSet : LevelSet) (params : LimitMaxLevel) (levelNumber : Nat) : Bool :=
  if levelSet.isFinalLevel levelNumber then true
  else levelNumber ≥ extractMaxLevelLimit params (levelSet.numLevels - 1)

/-! ## The grid of level zero -/

structure Tile where
  sector : Sector
  level : Level
  row : Int
  column : Int
  deriving DecidableEq

def computeRow (delta latitude origin : Angle) : Option Int :=
  if delta.degrees ≤ 0 then none
  else if latitude.degrees < -90 ∨ latitude.degrees > 90 then none
  else
    let row := truncInt ((latitude.degrees - origin.degrees) / delta.degrees)
    some (if latitude.degrees - origin.degrees = 180 then int (row - 1) else row)

def computeColumn (delta longitude origin : Angle) : Option Int :=
  if delta.degrees ≤ 0 then none
  else if longitude.degrees < -180 ∨ longitude.degrees > 180 then none
  else
    let gridLongitude := longitude.degrees - origin.degrees
    let gridLongitude := if gridLongitude < 0 then 360 + gridLongitude else gridLongitude
    let col := truncInt (gridLongitude / delta.degrees)
    some (if longitude.degrees - origin.degrees = 360 then int (col - 1) else col)

/-- The minimum angle of a row or column; a negative index throws. -/
def computeRowLatitude (row : Int) (delta origin : Angle) : Option Angle :=
  if row < 0 then none
  else if delta.degrees ≤ 0 then none
  else some (.fromDegrees (origin.degrees + row * delta.degrees))

def computeColumnLongitude (column : Int) (delta origin : Angle) : Option Angle :=
  if column < 0 then none
  else if delta.degrees ≤ 0 then none
  else some (.fromDegrees (origin.degrees + column * delta.degrees))

/-- How often `for (int i = first; i <= last; i++)` runs, if it ends. -/
def loopCount (first last : Int) : Option Nat :=
  if first ≤ last ∧ last = 2 ^ 31 - 1 then none else some (last - first + 1).toNat

/-- A row or column of a loop. -/
structure Strip where
  index : Int
  p1 : Angle
  p2 : Angle

def strips (delta : Angle) : Nat → Int → Angle → List Strip
  | 0, _, _ => []
  | n + 1, index, p1 =>
    let p2 := Angle.fromDegrees (p1.degrees + delta.degrees)
    ⟨index, p1, p2⟩ :: strips delta n (index + 1) p2

/-- The tiles of the two loops of `installLevelSet`, unless they throw or never
end. -/
def topLevelTiles (levelSet : LevelSet) : Option (List Tile) := do
  let sector := levelSet.sector
  let dLat := levelSet.levelZeroTileDelta.latitude
  let dLon := levelSet.levelZeroTileDelta.longitude
  let latOrigin := levelSet.tileOrigin.latitude
  let lonOrigin := levelSet.tileOrigin.longitude
  let firstRow ← computeRow dLat sector.minLatitude latOrigin
  let firstCol ← computeColumn dLon sector.minLongitude lonOrigin
  let lastRow ← computeRow dLat sector.maxLatitude latOrigin
  let lastCol ← computeColumn dLon sector.maxLongitude lonOrigin
  let p1 ← computeRowLatitude firstRow dLat latOrigin
  let rows ← loopCount firstRow lastRow
  if rows = 0 then some []
  else
    let t1 ← computeColumnLongitude firstCol dLon lonOrigin
    let columns ← loopCount firstCol lastCol
    some ((strips dLat rows firstRow p1).flatMap fun row => (strips dLon columns firstCol t1).map fun column =>
      ⟨⟨row.p1, row.p2, column.p1, column.p2⟩, levelSet.level 0, row.index, column.index⟩)

/-! ## Drawing tiles -/

/-- What a producer does with rasters; `drawOnTo raster canvas` is the canvas
after a raster is drawn on it. -/
structure Rasters (R : Type) where
  getSector : R → Sector
  createDataRaster : Level → Sector → R
  drawOnTo : R → R → R

variable {R : Type} (rasters : Rasters R) (levelSet : LevelSet) (params : LimitMaxLevel) (dataRasterList : List R)

def createSubTiles (tile : Tile) (nextLevel : Level) : List Tile :=
  let p0 := tile.sector.minLatitude
  let p2 := tile.sector.maxLatitude
  let p1 := Angle.fromDegrees (1 / 2 * (p0.degrees + p2.degrees))
  let t0 := tile.sector.minLongitude
  let t2 := tile.sector.maxLongitude
  let t1 := Angle.fromDegrees (1 / 2 * (t0.degrees + t2.degrees))
  let row := tile.row
  let col := tile.column
  [⟨⟨p0, p1, t0, t1⟩, nextLevel, int (2 * row), int (2 * col)⟩,
    ⟨⟨p0, p1, t1, t2⟩, nextLevel, int (2 * row), int (2 * col + 1)⟩,
    ⟨⟨p1, p2, t1, t2⟩, nextLevel, int (2 * row + 1), int (2 * col + 1)⟩,
    ⟨⟨p1, p2, t0, t1⟩, nextLevel, int (2 * row + 1), int (2 * col)⟩]

/-- The rasters that intersect a tile and the level set. -/
def intersectingRasters (tile : Tile) : List R :=
  dataRasterList.filter fun raster =>
    (rasters.getSector raster).intersects tile.sector && (rasters.getSector raster).intersects levelSet.sector

/-- Rasters drawn, one after the other, on a new one. -/
def draw (tile : Tile) (sources : List R) : R :=
  sources.foldl (fun canvas raster => rasters.drawOnTo raster canvas)
    (rasters.createDataRaster tile.level tile.sector)

def drawDataSources (tile : Tile) : Option R :=
  let intersecting := intersectingRasters rasters levelSet dataRasterList tile
  if intersecting ≠ [] ∧ ¬ tile.level.isEmpty then some (draw rasters tile intersecting) else none

/-- What is handed to the writers for a tile. -/
def installTileRasterLater (tile : Tile) : Option R → List (Tile × R)
  | none => []
  | some tileRaster => [(tile, tileRaster)]

/-- The end of `drawDescendants`, with what became of each sub-tile: the raster
of the tile and what is handed to the writers. -/
def drawSubRasters (tile : Tile) (subTiles : List Tile) (results : List (Option R × List (Tile × R))) :
    Option R × List (Tile × R) :=
  let subRasters := results.map Prod.fst
  let installed := results.flatMap Prod.snd
  if (subRasters.any fun raster => raster.isSome) ∧ ¬ tile.level.isEmpty then
    (some (draw rasters tile (subRasters.filterMap id)),
      installed ++ (List.zipWith installTileRasterLater subTiles subRasters).flatten)
  else (none, installed)

/-- `createTileRaster` with the levels behind the tile's own: its raster, and the
tiles that are handed to the writers on the way. The last level is final. -/
def createTileRaster : List Level → Tile → Option R × List (Tile × R)
  | [], tile => (drawDataSources rasters levelSet dataRasterList tile, [])
  | nextLevel :: levels, tile =>
    if isFinalLevel levelSet params tile.level.levelNumber then
      (drawDataSources rasters levelSet dataRasterList tile, [])
    else
      let subTiles := createSubTiles tile nextLevel
      drawSubRasters rasters tile subTiles (subTiles.map fun subTile =>
        if subTile.sector.intersects levelSet.sector then createTileRaster levels subTile else (none, []))

/-- What a run hands to the writers, if it neither throws nor goes on for ever. -/
def installLevelSet : Option (List (Tile × R)) :=
  (topLevelTiles levelSet).map fun tiles => tiles.flatMap fun tile =>
    let result := createTileRaster rasters levelSet params dataRasterList (levelSet.levelsAfter 0) tile
    result.2 ++ installTileRasterLater tile result.1

end WorldWind.RasterProducer
