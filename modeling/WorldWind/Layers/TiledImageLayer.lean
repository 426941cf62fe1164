import WorldWind.RasterProducer.Theorems
/-!
# `layers/TiledImageLayer.java`: the tiles of a frame

A layer goes down from its tiles of level zero to those it draws. A tile without
a texture in memory is drawn with the texture of a tile above it, which the
descent keeps in `currentResourceTile`. What the view, the file store and the
absent resources say about tiles is a parameter, and no other thread touches the
textures in the middle of a frame. Angles are exact.
-/

namespace WorldWind.Layers

open Geom Lib.JavaInt
open RasterProducer (Tile TileKey Level LevelSet topLevelTiles)

deriving instance DecidableEq for TileKey

/-- `TextureTile.createSubTiles`. -/
def createSubTiles (tile : Tile) (nextLevel : Level) : List Tile :=
  let p0 := tile.sector.minLatitude
  let p2 := tile.sector.maxLatitude
  let p1 := Angle.fromDegrees (1 / 2 * (p0.degrees + p2.degrees))
  let t0 := tile.sector.minLongitude
  let t2 := tile.sector.maxLongitude
  let t1 := Angle.fromDegrees (1 / 2 * (t0.degrees + t2.degrees))
  let row := tile.row
  let col := tile.column
  [⟨⟨p0, p1, t0, t1⟩, nextLevel, int (2 * row), int (2 * col)⟩,
    ⟨⟨p0, p1, t1, t2⟩, nextLevel, int (2 * row), int (2 * col + 1)⟩,
    ⟨⟨p1, p2, t0, t1⟩, nextLevel, int (2 * row + 1), int (2 * col)⟩,
    ⟨⟨p1, p2, t1, t2⟩, nextLevel, int (2 * row + 1), int (2 * col + 1)⟩]

/-- `LevelSet.getLevel`. -/
def getLevel (levels : LevelSet) (levelNumber : Nat) : Option Level :=
  if levelNumber < levels.numLevels then some (levels.level levelNumber) else none

/-- What a frame knows of the view, the file store and the absent resources. -/
structure DrawContext where
  hasSurfaceGeometry : Bool
  isTileVisible : Tile → Bool
  needToSplit : Sector → Level → Bool
  /-- Whether the file store has a texture for the tile that loads. -/
  loads : TileKey → Bool
  isResourceAbsent : TileKey → Bool
  /-- Whether textures in memory are tested for expiration, and which have expired. -/
  checksExpiration : Bool
  isTextureExpired : TileKey → Bool

/-- A `TextureTile` that is drawn. -/
structure DrawnTile where
  tile : Tile
  fallbackTile : Option Tile
  deriving DecidableEq

/-- The fields of a layer that a frame reads or sets, and the textures in memory. -/
structure TiledImageLayer where
  levels : LevelSet
  forceLevelZeroLoads : Bool
  levelZeroLoaded : Bool
  topLevels : Option (List Tile)
  currentTiles : List DrawnTile
  currentResourceTile : Option Tile
  requestQ : List Tile
  textures : List TileKey

/-- What a frame draws, and the tiles whose textures it requests. -/
structure Frame where
  drawn : List DrawnTile
  requests : List Tile

namespace TiledImageLayer

/-- A layer before its first frame. -/
def new (levels : LevelSet) (forceLevelZeroLoads : Bool) : TiledImageLayer :=
  ⟨levels, forceLevelZeroLoads, false, none, [], none, [], []⟩

def isTextureInMemory (layer : TiledImageLayer) (tile : Tile) : Bool := tile.tileKey ∈ layer.textures

def addTileToCurrent (layer : TiledImageLayer) (tile : Tile) (fallbackTile : Option Tile) : TiledImageLayer :=
  { layer with currentTiles := layer.currentTiles ++ [⟨tile, fallbackTile⟩] }

def requestTexture (layer : TiledImageLayer) (tile : Tile) : TiledImageLayer :=
  { layer with requestQ := layer.requestQ ++ [tile] }

section

variable (dc : DrawContext)

def forceTextureLoad (tile : Tile) (layer : TiledImageLayer) : TiledImageLayer :=
  if dc.loads tile.tileKey then { layer with textures := tile.tileKey :: layer.textures } else layer

/-- The end of `addTile`, where the tile has no texture: it is requested, and the
texture of the `currentResourceTile` is used. -/
def addTileWithFallback (tile : Tile) (layer : TiledImageLayer) : TiledImageLayer :=
  let layer := if tile.level.levelNumber < layer.levels.numLevels then
      if dc.isResourceAbsent tile.tileKey then layer else layer.requestTexture tile
    else layer
  match layer.currentResourceTile with
  | none => layer
  | some currentResourceTile =>
    let layer := if currentResourceTile.level.levelNumber = 0 ∧ layer.forceLevelZeroLoads ∧
        ¬ layer.isTextureInMemory currentResourceTile then forceTextureLoad dc currentResourceTile layer else layer
    if layer.isTextureInMemory currentResourceTile then layer.addTileToCurrent tile (some currentResourceTile)
    else layer

def addTile (tile : Tile) (layer : TiledImageLayer) : TiledImageLayer :=
  if layer.isTextureInMemory tile then layer.addTileToCurrent tile none
  else if tile.level.levelNumber = 0 ∧ layer.forceLevelZeroLoads then
    let layer := forceTextureLoad dc tile layer
    if layer.isTextureInMemory tile then layer.addTileToCurrent tile none else addTileWithFallback dc tile layer
  else addTileWithFallback dc tile layer

def meetsRenderCriteria (levels : LevelSet) (tile : Tile) : Bool :=
  levels.isFinalLevel tile.level.levelNumber || !dc.needToSplit tile.sector tile.level

/-- The descent; it has no result if it throws, or goes on for more levels than
there are rounds. -/
def addTileOrDescendants : Nat → Tile → TiledImageLayer → Option TiledImageLayer
  | 0, _, _ => none
  | rounds + 1, tile, layer =>
    if meetsRenderCriteria dc layer.levels tile then some (addTile dc tile layer)
    else do
      let registers := layer.isTextureInMemory tile || decide (tile.level.levelNumber = 0)
      let ancestorResource := if registers then layer.currentResourceTile else none
      let layer := if registers then { layer with currentResourceTile := some tile } else layer
      let nextLevel ← getLevel layer.levels (tile.level.levelNumber + 1)
      let layer ← (createSubTiles tile nextLevel).foldlM (fun layer child =>
        if layer.levels.sector.intersects child.sector && dc.isTileVisible child then
          addTileOrDescendants rounds child layer
        else some layer) layer
      some (match ancestorResource with
        | none => layer
        | some ancestorResource => { layer with currentResourceTile := some ancestorResource })

/-- The tiles of level zero are made once. -/
def getTopLevels (layer : TiledImageLayer) : Option (List Tile × TiledImageLayer) :=
  match layer.topLevels with
  | some topLevels => some (topLevels, layer)
  | none => (topLevelTiles layer.levels).map fun topLevels =>
      (topLevels, { layer with topLevels := some topLevels })

/-- `assembleTiles`, with a round for each level. -/
def assembleTiles (layer : TiledImageLayer) : Option TiledImageLayer := do
  let (topLevels, layer) ← getTopLevels { layer with currentTiles := [] }
  topLevels.foldlM (fun layer tile =>
    if dc.isTileVisible tile then
      addTileOrDescendants dc layer.levels.numLevels tile { layer with currentResourceTile := none }
    else some layer) layer

def loadAllTopLevelTextures (layer : TiledImageLayer) : Option TiledImageLayer := do
  let (topLevels, layer) ← getTopLevels layer
  let layer := topLevels.foldl (fun layer tile =>
    if layer.isTextureInMemory tile then layer else forceTextureLoad dc tile layer) layer
  some { layer with levelZeroLoaded := true }

/-- `draw`. The requests are sent at its end. -/
def draw (layer : TiledImageLayer) : Option (Frame × TiledImageLayer) := do
  let layer ← assembleTiles dc layer
  let expired := if dc.checksExpiration then
      (layer.currentTiles.map DrawnTile.tile).filter fun tile => dc.isTextureExpired tile.tileKey
    else []
  some (⟨layer.currentTiles, layer.requestQ ++ expired⟩, { layer with
    currentTiles := if layer.currentTiles.length ≥ 1 then [] else layer.currentTiles
    requestQ := [] })

def doRender (layer : TiledImageLayer) : Option (Frame × TiledImageLayer) := do
  let layer ← (if layer.forceLevelZeroLoads ∧ ¬ layer.levelZeroLoaded then loadAllTopLevelTextures dc layer
    else some layer)
  if ¬ dc.hasSurfaceGeometry then some (⟨[], []⟩, layer) else draw dc layer

end

/-- Frames, each with its own view. Before a frame, textures have come and gone. -/
def frames (calls : List (DrawContext × List TileKey)) (layer : TiledImageLayer) :
    Option (Frame × TiledImageLayer) :=
  calls.foldlM (fun r call => doRender call.1 { r.2 with textures := call.2 }) (⟨[], []⟩, layer)

end TiledImageLayer

/-! ## Drawing the tiles -/

/-- The part of a GL texture matrix that is not the identity. -/
structure TextureMatrix where
  hScale : ℚ
  hShift : ℚ
  vScale : ℚ
  vShift : ℚ

namespace TextureMatrix

def glLoadIdentity : TextureMatrix := ⟨1, 0, 1, 0⟩

def glScaled (x y : ℚ) (m : TextureMatrix) : TextureMatrix :=
  { m with hScale := m.hScale * x, vScale := m.vScale * y }

def glTranslated (x y : ℚ) (m : TextureMatrix) : TextureMatrix :=
  { m with hShift := m.hScale * x + m.hShift, vShift := m.vScale * y + m.vShift }

/-- The texture coordinates of a vertex with the coordinates `st`. -/
def apply (m : TextureMatrix) (st : ℚ × ℚ) : ℚ × ℚ := (m.hScale * st.1 + m.hShift, m.vScale * st.2 + m.vShift)

end TextureMatrix

open TextureMatrix

def applyResourceTextureTransform (tile fallbackTile : Tile) (m : TextureMatrix) : TextureMatrix :=
  let levelDelta : Int := tile.level.levelNumber - fallbackTile.level.levelNumber
  if levelDelta ≤ 0 then m
  else
    let twoToTheN : Int := 2 ^ levelDelta.toNat
    let oneOverTwoToTheN : ℚ := 1 / twoToTheN
    let sShift := oneOverTwoToTheN * (tile.column.tmod twoToTheN : Int)
    let tShift := oneOverTwoToTheN * (tile.row.tmod twoToTheN : Int)
    (m.glTranslated sShift tShift).glScaled oneOverTwoToTheN oneOverTwoToTheN

/-- The tile whose texture is bound for a tile that is drawn. -/
def boundTile (layer : TiledImageLayer) (drawn : DrawnTile) : Option Tile :=
  if layer.isTextureInMemory drawn.tile then some drawn.tile else drawn.fallbackTile.filter layer.isTextureInMemory

/-- `applyInternalTransform`, from the identity on, where a texture is bound. -/
def applyInternalTransform (layer : TiledImageLayer) (mustFlipVertically : TileKey → Bool) (drawn : DrawnTile)
    (m : TextureMatrix) : TextureMatrix :=
  let flip (tile : Tile) := if mustFlipVertically tile.tileKey then (m.glScaled 1 (-1)).glTranslated 0 (-1) else m
  if layer.isTextureInMemory drawn.tile then flip drawn.tile
  else
    match drawn.fallbackTile.filter layer.isTextureInMemory with
    | none => m
    | some resourceTile => applyResourceTextureTransform drawn.tile resourceTile (flip resourceTile)

/-- `GeographicSurfaceTileRenderer.computeTextureTransform`, and how the matrix takes
it: from a sector of the surface geometry to a tile. -/
def applyTextureTransform (sg st : Sector) (m : TextureMatrix) : TextureMatrix :=
  let tileWidth := st.deltaLon.radians
  let tileHeight := st.deltaLat.radians
  let vScale := if tileHeight > 0 then sg.deltaLat.radians / tileHeight else 1
  let hScale := if tileWidth > 0 then sg.deltaLon.radians / tileWidth else 1
  let vShift := -(st.minLatitude.radians - sg.minLatitude.radians) / sg.deltaLat.radians
  let hShift := -(st.minLongitude.radians - sg.minLongitude.radians) / sg.deltaLon.radians
  (m.glScaled hScale vScale).glTranslated hShift vShift

def intersectsInterior (sector that : Sector) : Bool :=
  ¬ that.maxLongitude.degrees ≤ sector.minLongitude.degrees ∧
    ¬ that.minLongitude.degrees ≥ sector.maxLongitude.degrees ∧
    ¬ that.maxLatitude.degrees ≤ sector.minLatitude.degrees ∧ ¬ that.minLatitude.degrees ≥ sector.maxLatitude.degrees

/-- What `SurfaceTileRenderer.renderTiles` draws of a tile where the surface geometry
of a sector has the texture coordinates `st`: a texture, and where in it. The mask
has no color outside of the tile. -/
def renderTile (layer : TiledImageLayer) (mustFlipVertically : TileKey → Bool) (sg : Sector) (st : ℚ × ℚ)
    (drawn : DrawnTile) : Option (Tile × (ℚ × ℚ)) :=
  if ¬ intersectsInterior drawn.tile.sector sg then none
  else
    match boundTile layer drawn with
    | none => none
    | some texture =>
      let m := applyTextureTransform sg drawn.tile.sector (applyInternalTransform layer mustFlipVertically drawn
        glLoadIdentity)
      let mask := (applyTextureTransform sg drawn.tile.sector glLoadIdentity).apply st
      if (0 ≤ mask.1 ∧ mask.1 ≤ 1) ∧ 0 ≤ mask.2 ∧ mask.2 ≤ 1 then some (texture, m.apply st) else none

end WorldWind.Layers
