import WorldWind.Geom.Regions
/-!
# `terrain/RectangularTessellator.java`: the tiles of a frame

`tessellate` goes down from the tiles at the top, leaves out what is not in the
frustum, and splits a tile in four until it is fine enough for its distance or
as fine as the elevations are. What the globe, the view and the elevation model
say about tiles is a parameter. Angles are exact.
-/

namespace WorldWind.Tessellator.TileSelection

open Geom.Exact
open scoped Lib.Numerals

structure RectTile (E K : Type) where
  extent : Option E
  level : Int
  density : Int
  sector : Sector K
  cellSize : K

/-- What a frame knows of the globe, the view and the elevations. -/
structure DrawContext (E K : Type) where
  computeBoundingBox : Sector K → Option E
  /-- The height of a sector in radians, times the radius of the globe. -/
  sectorHeight : Sector K → K
  /-- Whether an extent intersects the frustum. -/
  intersects : E → Bool
  atBestResolution : RectTile E K → Bool
  needToSplit : RectTile E K → Bool

/-- The fields of the tessellator that a frame reads or sets. -/
structure RectangularTessellator (E K : Type) where
  numLevel0LatSubdivisions : Nat
  numLevel0LonSubdivisions : Nat
  density : Int
  topLevels : Option (List (RectTile E K))
  currentTiles : List (RectTile E K)
  currentCoverage : Option (Sector K)
  currentLevel : Int

variable {E K : Type} [Field K] [LinearOrder K]

/-- `Sector.union`, where there is a sector already. -/
def union (sector : Sector K) (that : Option (Sector K)) : Sector K :=
  match that with
  | none => sector
  | some that =>
    { minLatitude := if that.minLatitude < sector.minLatitude then that.minLatitude else sector.minLatitude
      maxLatitude := if that.maxLatitude > sector.maxLatitude then that.maxLatitude else sector.maxLatitude
      minLongitude := if that.minLongitude < sector.minLongitude then that.minLongitude else sector.minLongitude
      maxLongitude := if that.maxLongitude > sector.maxLongitude then that.maxLongitude else sector.maxLongitude }

section

variable (dc : DrawContext E K)

def createTile (density : Int) (tileSector : Sector K) (level : Int) : RectTile E K where
  extent := dc.computeBoundingBox tileSector
  level := level
  density := density
  sector := tileSector
  cellSize := dc.sectorHeight tileSector / density

def split (density : Int) (tile : RectTile E K) : List (RectTile E K) :=
  tile.sector.subdivide.map fun sector => createTile dc density sector (tile.level + 1)

/-- The rows or columns of the tiles at the top: a step that comes closer than a
degree to the end goes to the end. -/
def strips (last delta : K) : Nat → K → List (K × K)
  | 0, _ => []
  | n + 1, low =>
    let high := if low + delta + 1 > last then last else low + delta
    (low, high) :: strips last delta n high

def createTopLevelTiles (density : Int) (numLat numLon : Nat) : List (RectTile E K) :=
  (strips (90 : K) (180 / numLat) numLat (-90)).flatMap fun (lastLat, lat) =>
    (strips (180 : K) (360 / numLon) numLon (-180)).map fun (lastLon, lon) =>
      createTile dc density ⟨lastLat, lat, lastLon, lon⟩ 0

/-- A tile without an extent is not tested. -/
def isVisible (tile : RectTile E K) : Bool :=
  match tile.extent with
  | none => true
  | some extent => dc.intersects extent

/-- The descent; it has no result if it goes on for more than `rounds` levels. -/
def selectVisibleTiles (maxLevel : Int) :
    Nat → RectTile E K → RectangularTessellator E K → Option (RectangularTessellator E K)
  | 0, _, _ => none
  | rounds + 1, tile, t =>
    if ¬ isVisible dc tile then some t
    else if t.currentLevel < maxLevel - 1 ∧ ¬ dc.atBestResolution tile ∧ dc.needToSplit tile then
      ((split dc t.density tile).foldlM (fun t child => selectVisibleTiles maxLevel rounds child t)
        { t with currentLevel := t.currentLevel + 1 }).map fun t => { t with currentLevel := t.currentLevel - 1 }
    else some { t with
      currentCoverage := some (union tile.sector t.currentCoverage)
      currentTiles := t.currentTiles ++ [tile] }

/-- `tessellate` up to the vertices of the tiles, with a level for each round
that the descent can take. The tiles at the top are made once. -/
def tessellate (maxLevel : Int) (t : RectangularTessellator E K) : Option (RectangularTessellator E K) :=
  let topLevels := t.topLevels.getD
    (createTopLevelTiles dc t.density t.numLevel0LatSubdivisions t.numLevel0LonSubdivisions)
  topLevels.foldlM (fun t tile => selectVisibleTiles dc maxLevel ((maxLevel - 1).toNat + 1) tile t)
    { t with topLevels := some topLevels, currentTiles := [], currentLevel := 0, currentCoverage := none }

end

/-- A tessellator before its first frame. -/
def RectangularTessellator.new (numLevel0LatSubdivisions numLevel0LonSubdivisions : Nat) (density : Int) :
    RectangularTessellator E K :=
  ⟨numLevel0LatSubdivisions, numLevel0LonSubdivisions, density, none, [], none, 0⟩

/-- Frames, each with its own view, globe and largest level. -/
def frames (calls : List (DrawContext E K × Int)) (t : RectangularTessellator E K) :
    Option (RectangularTessellator E K) :=
  calls.foldlM (fun t call => tessellate call.1 call.2 t) t

end WorldWind.Tessellator.TileSelection
