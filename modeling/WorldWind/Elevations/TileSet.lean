import WorldWind.Lib.TreeSet
import WorldWind.RasterProducer.TileGrid
/-!
# `BasicElevationModel.getElevations`

The tiles for a sector: for each tile of the target level the tile itself if it is
in memory, else its nearest ancestor that is, found by halving row and column.
They are kept in a `TreeSet` that is to list the finest tiles first. Its
comparator says of two tiles of one level, whichever comes first, that the first
is the greater. A call that throws has no result; nothing is put into the caches
or taken out of them while the method runs.
-/

namespace WorldWind.TileSet

open Geom Lib.TreeSet

/-! ## Level sets and tiles -/

structure Level where
  tileDelta : LatLon
  texelSize : ℚ
  deriving DecidableEq

/-- The levels by their numbers, with deltas that halve. The grid of the tiles
begins at the tile origin, and no tile is larger than the globe. -/
structure LevelSet where
  sector : Sector
  tileOrigin : LatLon
  levels : List Level
  halves : ∀ i level next, levels[i]? = some level → levels[i + 1]? = some next →
    level.tileDelta.latitude.degrees = 2 * next.tileDelta.latitude.degrees ∧
      level.tileDelta.longitude.degrees = 2 * next.tileDelta.longitude.degrees
  delta_pos : ∀ level ∈ levels, 0 < level.tileDelta.latitude.degrees ∧ 0 < level.tileDelta.longitude.degrees
  delta_le : ∀ level ∈ levels, level.tileDelta.latitude.degrees ≤ 180 ∧ level.tileDelta.longitude.degrees ≤ 360
  origin_le : tileOrigin.latitude.degrees ≤ sector.minLatitude.degrees ∧
    tileOrigin.longitude.degrees ≤ sector.minLongitude.degrees

/-- The cache name is left out: it is the same for all keys of a level. -/
structure TileKey where
  level : Nat
  row : Int
  column : Int
  deriving DecidableEq

variable {D : Type*}

structure ElevationTile (D : Type*) where
  sector : Sector
  level : Level
  levelNumber : Nat
  row : Int
  column : Int
  elevations : D
  deriving DecidableEq

def ElevationTile.key (tile : ElevationTile D) : TileKey := ⟨tile.levelNumber, tile.row, tile.column⟩

/-- What the two caches hold for a key. -/
structure Caches (D : Type*) where
  levelZeroTiles : TileKey → Option D
  memoryCache : TileKey → Option D

/-- `Sector.intersection`; none where it is null. -/
def intersection (sector that : Sector) : Option Sector :=
  let minLat := if sector.minLatitude.degrees > that.minLatitude.degrees then sector.minLatitude else that.minLatitude
  let maxLat := if sector.maxLatitude.degrees < that.maxLatitude.degrees then sector.maxLatitude else that.maxLatitude
  let minLon :=
    if sector.minLongitude.degrees > that.minLongitude.degrees then sector.minLongitude else that.minLongitude
  let maxLon :=
    if sector.maxLongitude.degrees < that.maxLongitude.degrees then sector.maxLongitude else that.maxLongitude
  if minLat.degrees > maxLat.degrees then none
  else if minLon.degrees > maxLon.degrees then none
  else some ⟨minLat, maxLat, minLon, maxLon⟩

/-- `Sector.contains`. -/
def contains (sector : Sector) (latitude longitude : Angle) : Bool :=
  latitude.degrees ≥ sector.minLatitude.degrees ∧ latitude.degrees ≤ sector.maxLatitude.degrees ∧
    longitude.degrees ≥ sector.minLongitude.degrees ∧ longitude.degrees ≤ sector.maxLongitude.degrees

variable (levelSet : LevelSet)

/-- The sector of the tile that `createTile` makes of a key. -/
def tileSector (key : TileKey) (level : Level) : Option Sector :=
  let dLat := level.tileDelta.latitude
  let dLon := level.tileDelta.longitude
  (RasterProducer.computeRowLatitude key.row dLat levelSet.tileOrigin.latitude).bind fun minLatitude =>
  (RasterProducer.computeColumnLongitude key.column dLon levelSet.tileOrigin.longitude).map fun minLongitude =>
    ⟨minLatitude, .fromDegrees (minLatitude.degrees + dLat.degrees), minLongitude,
      .fromDegrees (minLongitude.degrees + dLon.degrees)⟩

def createTile (key : TileKey) (elevations : D) : Option (ElevationTile D) :=
  levelSet.levels[key.level]?.bind fun level =>
    (tileSector levelSet key level).map fun sector => ⟨sector, level, key.level, key.row, key.column, elevations⟩

variable (caches : Caches D)

/-- The caches only get tiles that `createTile` made, each under its key. -/
def getTileFromMemory (tileKey : TileKey) : Option (ElevationTile D) :=
  (if tileKey.level = 0 then caches.levelZeroTiles tileKey else caches.memoryCache tileKey).bind fun elevations =>
    createTile levelSet tileKey elevations

/-! ## The loop -/

/-- The comparator: higher-resolution levels compare lower than lower-resolution ones. -/
def compare (t1 t2 : ElevationTile D) : Int :=
  if t2.levelNumber = t1.levelNumber ∧ t2.row = t1.row ∧ t2.column = t1.column then 0
  else if t1.levelNumber > t2.levelNumber then -1 else 1

/-- What the inner loop finds. -/
structure Fallback (D : Type*) where
  tile : Option (ElevationTile D)
  fallbackToRequest : Option TileKey
  missingLevelZeroTile : Bool

/-- The loop from the level below `levelNum` to level zero. -/
def fallback : Nat → Int → Int → Option TileKey → Fallback D
  | 0, _, _, fallbackToRequest => ⟨none, fallbackToRequest, false⟩
  | fallbackLevelNum + 1, row, column, fallbackToRequest =>
    let fallbackKey : TileKey := ⟨fallbackLevelNum, row.tdiv 2, column.tdiv 2⟩
    match getTileFromMemory levelSet caches fallbackKey with
    | some tile => ⟨some tile, fallbackToRequest, false⟩
    | none =>
      if fallbackLevelNum = 0 then ⟨none, some fallbackKey, true⟩
      else fallback fallbackLevelNum (row.tdiv 2) (column.tdiv 2) (some fallbackKey)

/-- The variables of the loop; `requests` are the calls of `requestTile`. -/
structure Search (D : Type*) where
  tiles : RedBlackTree (ElevationTile D)
  requested : List TileKey
  missingTargetTiles : Bool
  missingLevelZeroTiles : Bool
  requests : List TileKey

def Search.start : Search D := ⟨.nil, [], false, false, []⟩

/-- One round of the loop. -/
def visit (s : Search D) (key : TileKey) : Search D :=
  match getTileFromMemory levelSet caches key with
  | some tile => { s with tiles := s.tiles.add compare tile }
  | none =>
    let found := fallback levelSet caches key.level key.row key.column none
    let tiles :=
      match found.tile with
      | some tile => if s.tiles.contains compare tile then s.tiles else s.tiles.add compare tile
      | none => s.tiles
    let s := { s with
      tiles := tiles
      missingTargetTiles := true
      missingLevelZeroTiles := s.missingLevelZeroTiles || found.missingLevelZeroTile
      requests := s.requests ++ [key] }
    match found.fallbackToRequest with
    | none => s
    | some fallbackToRequest =>
      if fallbackToRequest ∈ s.requested then s
      else { s with
        requested := s.requested ++ [fallbackToRequest]
        requests := s.requests ++ [fallbackToRequest] }

/-- The keys of the two loops over rows and columns. -/
def targetKeys (requestedSector : Sector) (targetLevelNumber : Nat) : Option (List TileKey) :=
  (intersection requestedSector levelSet.sector).bind fun sector =>
  levelSet.levels[targetLevelNumber]?.bind fun targetLevel =>
  let delta := targetLevel.tileDelta
  let origin := levelSet.tileOrigin
  (RasterProducer.computeRow delta.latitude sector.maxLatitude origin.latitude).bind fun nwRow =>
  (RasterProducer.computeColumn delta.longitude sector.minLongitude origin.longitude).bind fun nwCol =>
  (RasterProducer.computeRow delta.latitude sector.minLatitude origin.latitude).bind fun seRow =>
  (RasterProducer.computeColumn delta.longitude sector.maxLongitude origin.longitude).bind fun seCol =>
  (RasterProducer.loopCount seRow nwRow).bind fun rows =>
    if rows = 0 then some []
    else
      (RasterProducer.loopCount nwCol seCol).map fun columns =>
        (List.range rows).flatMap fun i : Nat => (List.range columns).map fun j : Nat =>
          ⟨targetLevelNumber, seRow + (i : Int), nwCol + (j : Int)⟩

/-- `none` stands for `Double.MAX_VALUE`, which no texel size is. -/
structure Elevations (D : Type*) where
  achievedResolution : Option ℚ
  tiles : RedBlackTree (ElevationTile D)

/-- The end of the method. Complete sets also have their extremes looked up, and put into a cache. -/
def Search.elevations (s : Search D) : Elevations D :=
  if s.missingLevelZeroTiles then ⟨none, s.tiles⟩
  else ⟨s.tiles.last?.map fun tile => tile.level.texelSize, s.tiles⟩

def getElevations (requestedSector : Sector) (targetLevelNumber : Nat) : Option (Elevations D) :=
  (targetKeys levelSet requestedSector targetLevelNumber).map fun keys =>
    (keys.foldl (visit levelSet caches) .start).elevations

/-- The tile `getElevation` uses: the first that contains the location. -/
def Elevations.tileAt (elevations : Elevations D) (latitude longitude : Angle) : Option (ElevationTile D) :=
  elevations.tiles.toList.find? fun tile => contains tile.sector latitude longitude

def Elevations.getElevation {E : Type*} (elevations : Elevations D)
    (lookupElevation : Angle → Angle → ElevationTile D → Option E) (latitude longitude : Angle) : Option E :=
  (elevations.tileAt latitude longitude).bind (lookupElevation latitude longitude)

end WorldWind.TileSet
