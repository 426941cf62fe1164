import WorldWind.Geom.Exact
import WorldWind.Lib.Grid
/-!
# `ImageTiler`

`tileImage` for a sector and for four corners, over any ordered field. An image
is its size and whether it has an alpha channel; a tile also has the part of the
base image that is drawn at its upper left corner. What the listener is handed
is a list of tiles, and a call that throws has no result.
-/

namespace WorldWind.ImageTiler

open Geom.Exact Lib.Grid

structure Image where
  width : Nat
  height : Nat
  hasAlpha : Bool
  deriving DecidableEq, Repr

/-- `getSubimage`: a part of an image, with its pixels. -/
structure Subimage where
  x : Nat
  y : Nat
  w : Nat
  h : Nat
  deriving DecidableEq, Repr

structure TileImage extends Image where
  drawn : Subimage
  deriving DecidableEq, Repr

/-- The pixel of the base image that a pixel of the tile is a copy of. -/
def TileImage.source (tile : TileImage) (px py : Nat) : Option (Nat × Nat) :=
  if px < tile.width ∧ py < tile.height ∧ px < tile.drawn.w ∧ py < tile.drawn.h then
    some (tile.drawn.x + px, tile.drawn.y + py)
  else none

def Image.getSubimage (image : Image) (x y w h : Nat) : Option Subimage :=
  if 0 < w ∧ 0 < h ∧ x + w ≤ image.width ∧ y + h ≤ image.height then some ⟨x, y, w, h⟩ else none

/-- `WWMath.powerOfTwoCeiling`: the least power of two that is not below its argument. -/
def powerOfTwoCeiling (reference : Nat) : Nat := 2 ^ Nat.clog 2 reference

/-! ## Lines and quadrilaterals -/

variable {K : Type} [Field K] [LinearOrder K]

structure Line (K : Type) where
  origin : Vec4 K
  direction : Vec4 K

namespace Line

variable (sqrt : K → K)

def new (origin direction : Vec4 K) : Option (Line K) :=
  if direction.getLength3 sqrt ≤ 0 then none else some ⟨origin, direction⟩

def fromSegment (pa pb : Vec4 K) : Option (Line K) := new sqrt pa ⟨pb.x - pa.x, pb.y - pa.y, pb.z - pa.z⟩

def getPointAt (line : Line K) (t : K) : Vec4 K :=
  ⟨line.origin.x + line.direction.x * t, line.origin.y + line.direction.y * t, line.origin.z + line.direction.z * t⟩

end Line

/-- The two edges that `interpolate` uses. -/
structure GeoQuad (K : Type) where
  northEdge : Line K
  southEdge : Line K

variable (sqrt : K → K)

/-- A location as a vector. -/
def vector (p : LatLon K) : Vec4 K := ⟨p.longitude, p.latitude, 0⟩

namespace GeoQuad

def new : List (LatLon K) → Option (GeoQuad K)
  | sw :: se :: ne :: nw :: _ => do
    let northEdge ← Line.fromSegment sqrt (vector nw) (vector ne)
    let southEdge ← Line.fromSegment sqrt (vector sw) (vector se)
    let _eastEdge ← Line.fromSegment sqrt (vector se) (vector ne)
    let _westEdge ← Line.fromSegment sqrt (vector sw) (vector nw)
    return ⟨northEdge, southEdge⟩
  | _ => none

def interpolate (quad : GeoQuad K) (t s : K) : Option (LatLon K) := do
  let top := quad.northEdge.getPointAt s
  let bot := quad.southEdge.getPointAt s
  let topToBot ← Line.fromSegment sqrt bot top
  let point := topToBot.getPointAt t
  return ⟨point.y, point.x⟩

end GeoQuad

/-! ## Tiling -/

structure Tiler where
  tileWidth : Nat
  tileHeight : Nat
  deriving DecidableEq, Repr

namespace Tiler

variable (tiler : Tiler)

/-- The image is of the size of a tile, and is handed on as it is. -/
def isTile (image : Image) : Bool := image.width = tiler.tileWidth ∧ image.height = tiler.tileHeight

def wholeImage (image : Image) : TileImage := ⟨image, ⟨0, 0, image.width, image.height⟩⟩

def stepX (image : Image) : Nat := min image.width tiler.tileWidth

def stepY (image : Image) : Nat := min image.height tiler.tileHeight

def cols (image : Image) : Nat := ⌈(image.width : ℚ) / tiler.stepX image⌉₊

def rows (image : Image) : Nat := ⌈(image.height : ℚ) / tiler.stepY image⌉₊

/-- `w` of the tiles that begin at `x`. -/
def partWidth (image : Image) (x : Nat) : Nat :=
  if x + tiler.stepX image ≤ image.width then tiler.stepX image else image.width - x

def partHeight (image : Image) (y : Nat) : Nat :=
  if y + tiler.stepY image ≤ image.height then tiler.stepY image else image.height - y

/-- The source image fills the tile. -/
def isFull (w h : Nat) : Bool := w = tiler.tileWidth ∧ h = tiler.tileHeight

def shortWidth (w : Nat) : Nat := if w = tiler.tileWidth then tiler.tileWidth else powerOfTwoCeiling w

def shortHeight (h : Nat) : Nat := if h = tiler.tileHeight then tiler.tileHeight else powerOfTwoCeiling h

/-- The tile of column `i` of row `j` and its sector: one turn of the loops. -/
def sectorTile (baseImage : Image) (baseSector : Sector K) (j i : Nat) : Option (TileImage × Sector K) := do
  let y := j * tiler.stepY baseImage
  let h := tiler.partHeight baseImage y
  let t0 : K := ((y + tiler.tileHeight : Nat) : K) / baseImage.height
  let t1 : K := (y : K) / baseImage.height
  let minLat := baseSector.maxLatitude - baseSector.deltaLat * t0
  let maxLat := baseSector.maxLatitude - baseSector.deltaLat * t1
  let x := i * tiler.stepX baseImage
  let w := tiler.partWidth baseImage x
  let drawn ← baseImage.getSubimage x y w h
  if tiler.isFull w h then
    let image : TileImage := ⟨⟨tiler.tileWidth, tiler.tileHeight, baseImage.hasAlpha⟩, drawn⟩
    let s0 : K := (x : K) / baseImage.width
    let s1 : K := ((x : K) + tiler.tileWidth) / baseImage.width
    let minLon := baseSector.minLongitude + baseSector.deltaLon * s0
    let maxLon := baseSector.minLongitude + baseSector.deltaLon * s1
    return (image, ⟨minLat, maxLat, minLon, maxLon⟩)
  else
    let image : TileImage := ⟨⟨tiler.shortWidth w, tiler.shortHeight h, true⟩, drawn⟩
    let s0 : K := (x : K) / baseImage.width
    let s1 : K := ((x : K) + image.width) / baseImage.width
    let minLon := baseSector.minLongitude + baseSector.deltaLon * s0
    let maxLon := baseSector.minLongitude + baseSector.deltaLon * s1
    -- the short tile's own height in the place of the tile height
    let t00 : K := ((y + image.height : Nat) : K) / baseImage.height
    let minLat0 := baseSector.maxLatitude - baseSector.deltaLat * t00
    return (image, ⟨minLat0, maxLat, minLon, maxLon⟩)

def tileImageSector (baseImage : Image) (baseSector : Sector K) : Option (List (TileImage × Sector K)) :=
  if baseImage.width = 0 ∨ baseImage.height = 0 then none
  else if tiler.isTile baseImage then some [(wholeImage baseImage, baseSector)]
  else
    (cells (tiler.rows baseImage) (tiler.cols baseImage)).mapM fun c => tiler.sectorTile baseImage baseSector c.1 c.2

/-- One turn of the loops for corners: no tile is handed on if the turn ends early. -/
def cornersTile (image : Image) (geoQuad : GeoQuad K) (j i : Nat) :
    Option (Option (TileImage × List (LatLon K))) := do
  let y := j * tiler.stepY image
  let h := tiler.partHeight image y
  let t0 : K := 1 - ((y + tiler.tileHeight : Nat) : K) / image.height
  let t1 : K := 1 - (y : K) / image.height
  let x := i * tiler.stepX image
  let w := tiler.partWidth image x
  let drawn ← image.getSubimage x y w h
  if tiler.isFull w h then
    -- a full tile without an alpha channel is drawn, and the loop continues
    if ¬image.hasAlpha then return none
    else
      let subImage : TileImage := ⟨⟨tiler.tileWidth, tiler.tileHeight, true⟩, drawn⟩
      let s0 : K := (x : K) / image.width
      let s1 : K := ((x : K) + tiler.tileWidth) / image.width
      let sw ← geoQuad.interpolate sqrt t0 s0
      let se ← geoQuad.interpolate sqrt t0 s1
      let ne ← geoQuad.interpolate sqrt t1 s1
      let nw ← geoQuad.interpolate sqrt t1 s0
      return some (subImage, [sw, se, ne, nw])
  else
    let subImage : TileImage := ⟨⟨tiler.shortWidth w, tiler.shortHeight h, true⟩, drawn⟩
    let s0 : K := (x : K) / image.width
    let s1 : K := ((x : K) + subImage.width) / image.width
    let t0b : K := 1 - ((y + subImage.height : Nat) : K) / image.height
    let sw ← geoQuad.interpolate sqrt t0b s0
    let se ← geoQuad.interpolate sqrt t0b s1
    let ne ← geoQuad.interpolate sqrt t1 s1
    let nw ← geoQuad.interpolate sqrt t1 s0
    return some (subImage, [sw, se, ne, nw])

def tileImageCorners (image : Image) (corners : List (LatLon K)) : Option (List (TileImage × List (LatLon K))) :=
  if image.width = 0 ∨ image.height = 0 then none
  else if tiler.isTile image then some [(wholeImage image, corners)]
  else if corners.length < 4 then none
  else
    (GeoQuad.new sqrt corners).bind fun geoQuad =>
      ((cells (tiler.rows image) (tiler.cols image)).mapM fun c =>
        tiler.cornersTile sqrt image geoQuad c.1 c.2).map List.reduceOption

end Tiler

end WorldWind.ImageTiler
