import WorldWind.Layers.TiledImageLayerTheorems
/-!
# Every frame of a layer

Whatever frames were before, and whatever textures have come and gone: a frame
draws the tiles where its descent ends, each with the closest texture above it
(`frames_use_closest`). A location of the surface geometry then shows the point of that
texture that belongs to the location, and only once (`frames_render`).
-/

namespace WorldWind.Layers

open Geom Lib.JavaInt Lib.PrunedDescent Lib.Quadtree TiledImageLayer
open RasterProducer (Tile TileKey Level LevelSet topLevelTiles)

/-! ## Tiles as regions -/

/-- The sector of a tile, in degrees. -/
def exact (sector : Sector) : Exact.Sector ℚ :=
  ⟨sector.minLatitude.degrees, sector.maxLatitude.degrees, sector.minLongitude.degrees, sector.maxLongitude.degrees⟩

def Line.region (line : Line) : Set (Exact.LatLon ℚ) := (exact line.1.sector).region

def Line.inner (line : Line) : Set (Exact.LatLon ℚ) := (exact line.1.sector).inner

theorem subLines_splits (levels : LevelSet) : Splits Line.region Line.inner (subLines levels) := by
  apply Exact.Sector.subdivide_splits.comap (f := fun line : Line => exact line.1.sector)
  intro line
  rfl

theorem topTile_apart {levels : LevelSet} (hdelta : RasterProducer.PositiveDelta levels) {c d : Cell}
    (hc : c.level = 0) (hd : d.level = 0) (h : c ≠ d) :
    Apart Line.region Line.inner (RasterProducer.topTile levels c, []) (RasterProducer.topTile levels d, []) := by
  obtain ⟨hlat, hlon⟩ := hdelta
  -- the end of one index is at most the beginning of a later one
  have hle : ∀ (origin : Angle) {delta : Angle}, 0 < delta.degrees → ∀ {i j : Nat}, i < j →
      (RasterProducer.gridAngle origin delta 0 (i + 1)).degrees ≤
        (RasterProducer.gridAngle origin delta 0 j).degrees := by
    intro origin delta hdelta i j hij
    have hcast : ((i + 1 : Nat) : ℚ) ≤ j := by exact_mod_cast hij
    simp only [RasterProducer.gridAngle, Angle.fromDegrees, pow_zero, div_one]
    exact add_le_add_right (mul_le_mul_of_nonneg_right hcast hdelta.le) _
  have hne : c.row ≠ d.row ∨ c.column ≠ d.column := by
    by_contra hsame
    rw [not_or, not_not, not_not] at hsame
    apply h
    cases c
    cases d
    simp_all
  apply Exact.Sector.apart
  rcases hne with hne | hne
  · rcases Nat.lt_or_gt_of_ne hne with hlt | hlt
    · exact Or.inl (hle _ hlat hlt)
    · exact Or.inr (Or.inl (hle _ hlat hlt))
  · rcases Nat.lt_or_gt_of_ne hne with hlt | hlt
    · exact Or.inr (Or.inr (Or.inl (hle _ hlon hlt)))
    · exact Or.inr (Or.inr (Or.inr (hle _ hlon hlt)))

/-- The tiles of level zero. -/
structure Tops (levels : LevelSet) (tops : List Tile) : Prop where
  delta : tops ≠ [] → RasterProducer.PositiveDelta levels
  tile : ∀ tile ∈ tops, ∃ c : Cell, c.level = 0 ∧ tile = RasterProducer.topTile levels c
  apart : tops.Pairwise fun s t => Apart Line.region Line.inner (s, []) (t, [])

theorem tops_of_topLevelTiles {levels : LevelSet} {tops : List Tile} (h : topLevelTiles levels = some tops) :
    Tops levels tops := by
  obtain ⟨firstRow, firstCol, lastRow, lastCol, hrow, hcol, -, -, -, -, rfl⟩ := RasterProducer.topLevelTiles_corners h
  have hdelta : RasterProducer.PositiveDelta levels :=
    ⟨(RasterProducer.computeRow_lt hrow).1, (RasterProducer.computeColumn_lt hcol).1⟩
  refine ⟨fun _ => hdelta, fun tile htile => ?_, ?_⟩
  · obtain ⟨c, hc, rfl⟩ := List.mem_map.1 htile
    exact ⟨c, (RasterProducer.mem_topCells.1 hc).1, rfl⟩
  · rw [List.pairwise_map]
    refine (RasterProducer.nodup_topCells _ _ _ _).imp_of_mem fun hc hd hne => ?_
    exact topTile_apart hdelta (RasterProducer.mem_topCells.1 hc).1 (RasterProducer.mem_topCells.1 hd).1 hne

theorem Tops.level {levels : LevelSet} {tops : List Tile} (h : Tops levels tops) :
    ∀ tile ∈ tops, tile.level = levels.level 0 := by
  intro tile htile
  obtain ⟨c, -, rfl⟩ := h.tile tile htile
  rfl

/-! ## One frame -/

section

variable {dc : DrawContext} {force : Bool} {textures : List TileKey} {levels : LevelSet} {tops : List Tile}
  {layer : TiledImageLayer}

theorem assembleTiles_spec (htops : Tops levels tops) (h : Assembling dc force textures levels layer)
    (htop : getTopLevels { layer with currentTiles := [] } =
      some (tops, { layer with topLevels := some tops, currentTiles := [] })) :
    ∃ layer', assembleTiles dc layer = some layer' ∧
      Adds dc force textures { layer with topLevels := some tops, currentTiles := [] } layer'
        (selected dc levels tops) := by
  have hround : ∀ tile ∈ tops, ∀ layer, Assembling dc force textures levels layer → True →
      ∃ layer', (if dc.isTileVisible tile then
          addTileOrDescendants dc layer.levels.numLevels tile { layer with currentResourceTile := none }
        else some layer) = some layer' ∧
        Adds dc force textures layer layer'
          (taken (choice dc levels) (subLines levels) (levels.numLevels - 1) (tile, [])) ∧ True := by
    intro tile htile layer h _
    by_cases hvisible : dc.isTileVisible tile = true
    · have hchoice : choice dc levels (tile, []) ≠ .discard := by
        unfold choice
        rw [if_neg (by simp [hvisible])]
        split <;> decide
      have hlevel : tile.level.levelNumber = 0 := by
        rw [htops.level tile htile]
        rfl
      have hpos := levels.numLevels_pos
      obtain ⟨layer', hrun, hadds, -⟩ := addTileOrDescendants_spec htops.level levels.numLevels (levels.numLevels - 1)
        tile [] { layer with currentResourceTile := none } (.top htile) (h.register none) rfl hchoice (by omega)
        (by omega)
      rw [if_pos hvisible, h.levels]
      rw [h.levels] at hrun
      exact ⟨layer', hrun, hadds.register layer.currentResourceTile layer'.currentResourceTile, trivial⟩
    · have hchoice : choice dc levels (tile, []) = .discard := if_pos (Or.inl hvisible)
      rw [if_neg hvisible, taken_discard hchoice]
      exact ⟨layer, rfl, Adds.refl dc force textures h, trivial⟩
  have hstart : Assembling dc force textures levels { layer with topLevels := some tops, currentTiles := [] } :=
    ⟨h.levels, h.forceLevelZeroLoads, h.keeps, h.available⟩
  obtain ⟨layer', hrun, hadds, -⟩ := foldlM_adds tops hround _ hstart trivial
  refine ⟨layer', ?_, hadds⟩
  unfold assembleTiles
  rw [htop]
  exact hrun

/-- Before a frame that has to load the textures of level zero. -/
theorem loadTextures_spec (htops : ∀ tile ∈ tops, tile.level = levels.level 0) (hforce : force = true) :
    ∀ layer, Assembling dc force textures levels layer →
      Adds dc force textures layer (tops.foldl (fun layer tile =>
        if layer.isTextureInMemory tile then layer else forceTextureLoad dc tile layer) layer) [] := by
  induction tops with
  | nil => exact fun layer h => Adds.refl dc force textures h
  | cons tile tops ih =>
    intro layer h
    have hlevel : tile.level.levelNumber = 0 := by
      rw [htops tile List.mem_cons_self]
      rfl
    have heq : (if layer.isTextureInMemory tile then layer else forceTextureLoad dc tile layer) =
        ensureTexture dc tile layer := by
      unfold ensureTexture
      by_cases hmem : layer.isTextureInMemory tile = true
      · rw [if_pos hmem, if_neg fun hcond => hcond.2.2 hmem]
      · rw [if_neg hmem, if_pos ⟨hlevel, h.forceLevelZeroLoads.trans hforce, hmem⟩]
    obtain ⟨hready, -, -⟩ := ensureTexture_spec h tile
    rw [List.foldl_cons, heq]
    exact hready.trans (ih (fun t ht => htops t (List.mem_cons_of_mem _ ht)) _ (h.adds hready))

variable (levels force tops) in
/-- A layer between frames. -/
structure Ready (layer : TiledImageLayer) : Prop where
  forceLevelZeroLoads : layer.forceLevelZeroLoads = force
  topLevels : layer.topLevels = none ∨ layer.topLevels = some tops
  currentTiles : layer.currentTiles = []
  requestQ : layer.requestQ = []
  levels : layer.levels = levels

theorem Ready.getTopLevels (h : Ready force levels tops layer) (htops : topLevelTiles levels = some tops) :
    getTopLevels layer = some (tops, { layer with topLevels := some tops }) := by
  unfold TiledImageLayer.getTopLevels
  rcases h.topLevels with hnone | hsome
  · rw [hnone, h.levels, htops]
    rfl
  · rw [hsome]
    simp [← hsome]

variable (dc) in
/-- The textures of level zero are loaded once. -/
theorem Ready.prepare (h : Ready force levels tops layer) (htops : topLevelTiles levels = some tops) :
    ∃ layer', (if layer.forceLevelZeroLoads ∧ ¬ layer.levelZeroLoaded then loadAllTopLevelTextures dc layer
        else some layer) = some layer' ∧ Ready force levels tops layer' ∧
      Assembling dc force layer.textures levels layer' := by
  have hassembling : ∀ topLevels, Assembling dc force layer.textures levels { layer with topLevels := topLevels } :=
    fun _ => ⟨h.levels, h.forceLevelZeroLoads, fun _ hk => hk, fun tile hmem => available_iff.2 (Or.inl hmem)⟩
  by_cases hload : layer.forceLevelZeroLoads = true ∧ ¬ layer.levelZeroLoaded = true
  · rw [if_pos hload]
    have hadds := loadTextures_spec (tops_of_topLevelTiles htops).level (h.forceLevelZeroLoads.symm.trans hload.1) _
      (hassembling (some tops))
    unfold loadAllTopLevelTextures
    rw [h.getTopLevels htops]
    refine ⟨_, rfl, ?_, ?_⟩
    · have htiles := hadds.currentTiles
      have hrequests := hadds.requestQ
      rw [List.filterMap_nil, List.append_nil] at htiles
      rw [List.filter_nil, List.map_nil, List.append_nil] at hrequests
      exact ⟨hadds.forceLevelZeroLoads.trans h.forceLevelZeroLoads, Or.inr hadds.topLevels,
        htiles.trans h.currentTiles, hrequests.trans h.requestQ, hadds.levels.trans h.levels⟩
    · obtain ⟨h1, h2, h3, h4⟩ := (hassembling (some tops)).adds hadds
      exact ⟨h1, h2, h3, h4⟩
  · rw [if_neg hload]
    exact ⟨layer, rfl, h, hassembling layer.topLevels⟩

variable (dc force textures levels tops) in
/-- What a frame draws and requests, with the textures that were in memory before
and the layer after it. -/
structure FrameSpec (frame : Frame) (layer' : TiledImageLayer) : Prop where
  /-- Each tile with the closest texture. -/
  drawn : frame.drawn = (selected dc levels tops).filterMap (drawnWith dc force textures)
  requests : frame.requests = ((selected dc levels tops).filter (Wanted dc force textures)).map Prod.fst ++
    if dc.checksExpiration then
      (frame.drawn.map DrawnTile.tile).filter fun tile => dc.isTextureExpired tile.tileKey
    else []
  /-- The textures that are used are in memory. -/
  loaded : ∀ line ∈ selected dc levels tops, ∀ tile, closest dc force textures line = some tile →
    tile.tileKey ∈ layer'.textures
  available : ∀ tile : Tile, tile.tileKey ∈ layer'.textures → Available dc force textures tile = true
  /-- Tiles overlap at most on their edges. -/
  apart : (selected dc levels tops).Pairwise (Apart Line.region Line.inner)
  /-- A location of a tile at the top without a tile is in one that is discarded. -/
  cover : ∀ top ∈ tops, ∀ p ∈ Line.region (top, []), (∃ line ∈ selected dc levels tops, p ∈ line.region) ∨
    ∃ line, Descends levels tops line ∧ choice dc levels line = .discard ∧ p ∈ line.region
  /-- The tiles come from the top, and are fine enough. -/
  lines : ∀ line ∈ selected dc levels tops, Descends levels tops line ∧ choice dc levels line = .take ∧
    line.1.level.levelNumber < levels.numLevels

/-- What the descent reaches. -/
theorem endsFrom_reached (htops : ∀ tile ∈ tops, tile.level = levels.level 0) {top : Tile} (htop : top ∈ tops) :
    ∀ e ∈ ends (choice dc levels) (subLines levels) (levels.numLevels - 1) (top, []),
      Descends levels tops e.1 ∧ e.1.1.level.levelNumber < levels.numLevels ∧
        ((e.2 = false ∧ choice dc levels e.1 = .discard) ∨ (e.2 = true ∧ choice dc levels e.1 = .take)) := by
  have hpos := levels.numLevels_pos
  intro e he
  have hstart : Descends levels tops (top, []) ∧ top.level.levelNumber + (levels.numLevels - 1) =
      levels.numLevels - 1 := by
    refine ⟨.top htop, ?_⟩
    rw [htops top htop]
    exact Nat.zero_add _
  obtain ⟨m, ⟨hline, hsum⟩, hend⟩ := ends_induction
    (P := fun m line => Descends levels tops line ∧ line.1.level.levelNumber + m = levels.numLevels - 1)
    (fun m line hchoice hline child hchild => by
      obtain ⟨tile, htile, rfl⟩ := List.mem_map.1 hchild
      refine ⟨.child hline.1 htile, ?_⟩
      rw [level_of_mem_createSubTiles htile]
      change line.1.level.levelNumber + 1 + m = _
      omega) hstart e he
  refine ⟨hline, by omega, ?_⟩
  rcases hend with hdiscard | ⟨htrue, hne, hfine⟩
  · exact Or.inl hdiscard
  · refine Or.inr ⟨htrue, ?_⟩
    rcases hfine with rfl | htake
    · -- on the final level every tile meets the criteria
      rw [choice_eq hne, if_pos]
      unfold meetsRenderCriteria LevelSet.isFinalLevel
      rw [Nat.add_zero] at hsum
      simp [hsum]
    · exact htake

theorem frameSpec_of_adds (htops : Tops levels tops) {layer' : TiledImageLayer} {frame : Frame}
    (hadds : Adds dc force textures layer layer' (selected dc levels tops))
    (hstart : layer.currentTiles = [] ∧ layer.requestQ = []) (hdrawn : frame.drawn = layer'.currentTiles)
    (hrequests : frame.requests = layer'.requestQ ++ if dc.checksExpiration then
      (frame.drawn.map DrawnTile.tile).filter fun tile => dc.isTextureExpired tile.tileKey else [])
    {after : TiledImageLayer} (hafter : after.textures = layer'.textures) :
    FrameSpec dc force textures levels tops frame after := by
  have hcurrent := hadds.currentTiles
  have hqueue := hadds.requestQ
  rw [hstart.1, List.nil_append] at hcurrent
  rw [hstart.2, List.nil_append] at hqueue
  refine ⟨hdrawn.trans hcurrent, by rw [hrequests, hqueue], ?_, ?_, ?_, ?_, ?_⟩
  · rw [hafter]
    exact hadds.used
  · rw [hafter]
    exact hadds.available
  · have hpairs : (tops.map fun tile => ((tile, []) : Line)).Pairwise (Apart Line.region Line.inner) := by
      rw [List.pairwise_map]
      exact htops.apart
    have htaken : ((tops.map fun tile => ((tile, []) : Line)).flatMap
        (taken (choice dc levels) (subLines levels) (levels.numLevels - 1))).Pairwise
          (Apart Line.region Line.inner) := taken_apart (subLines_splits levels) hpairs
    rw [List.flatMap_map] at htaken
    exact htaken
  · intro top htop p hp
    have hcover : ∃ e ∈ ends (choice dc levels) (subLines levels) (levels.numLevels - 1) (top, []), p ∈ e.1.region :=
      ends_cover (subLines_splits levels) p hp
    obtain ⟨⟨line, took⟩, he, hpe⟩ := hcover
    obtain ⟨hline, -, ⟨-, hdiscard⟩ | ⟨rfl, -⟩⟩ := endsFrom_reached htops.level htop _ he
    · exact Or.inr ⟨line, hline, hdiscard, hpe⟩
    · exact Or.inl ⟨line, List.mem_flatMap.2 ⟨top, htop, mem_taken.2 he⟩, hpe⟩
  · intro line hline
    obtain ⟨top, htop, htaken⟩ := List.mem_flatMap.1 hline
    obtain ⟨hdescends, hlevel, ⟨hfalse, -⟩ | ⟨-, htake⟩⟩ := endsFrom_reached htops.level htop _ (mem_taken.1 htaken)
    · cases hfalse
    · exact ⟨hdescends, htake, hlevel⟩

variable (dc) in
/-- One frame. -/
theorem doRender_spec (htops : topLevelTiles levels = some tops) (h : Ready force levels tops layer) :
    ∃ frame layer', doRender dc layer = some (frame, layer') ∧ Ready force levels tops layer' ∧
      (dc.hasSurfaceGeometry = true → FrameSpec dc force layer.textures levels tops frame layer') := by
  obtain ⟨layer', hprepare, hready, hassembling⟩ := h.prepare dc htops
  unfold doRender
  rw [hprepare]
  by_cases hgeometry : dc.hasSurfaceGeometry = true
  · have hclear : Ready force levels tops { layer' with currentTiles := [] } :=
      ⟨hready.forceLevelZeroLoads, hready.topLevels, rfl, hready.requestQ, hready.levels⟩
    obtain ⟨layer'', hrun, hadds⟩ := assembleTiles_spec (tops_of_topLevelTiles htops) hassembling
      (hclear.getTopLevels htops)
    have hdraw := Option.bind_some layer' fun layer => if ¬ dc.hasSurfaceGeometry = true then
      some ((⟨[], []⟩ : Frame), layer) else draw dc layer
    rw [Option.bind_eq_bind, hdraw, if_neg (not_not.2 hgeometry)]
    unfold draw
    rw [hrun]
    refine ⟨_, _, rfl, ⟨hadds.forceLevelZeroLoads.trans hready.forceLevelZeroLoads, Or.inr hadds.topLevels, ?_, rfl,
      hadds.levels.trans hready.levels⟩, fun _ => ?_⟩
    · dsimp only
      split
      · rfl
      · rename_i hempty
        exact List.eq_nil_of_length_eq_zero (by omega)
    · exact frameSpec_of_adds (tops_of_topLevelTiles htops) hadds ⟨rfl, hready.requestQ⟩ rfl rfl rfl
  · have hnone := Option.bind_some layer' fun layer => if ¬ dc.hasSurfaceGeometry = true then
      some ((⟨[], []⟩ : Frame), layer) else draw dc layer
    rw [Option.bind_eq_bind, hnone, if_pos hgeometry]
    exact ⟨_, _, rfl, hready, fun hgeometry' => absurd hgeometry' hgeometry⟩

variable (force) in
/-- Frames, one after the other. -/
theorem frames_ready (htops : topLevelTiles levels = some tops) (calls : List (DrawContext × List TileKey)) :
    ∃ frame layer, frames calls (TiledImageLayer.new levels force) = some (frame, layer) ∧
      Ready force levels tops layer := by
  induction calls using List.reverseRecOn with
  | nil => exact ⟨_, _, rfl, rfl, Or.inl rfl, rfl, rfl, rfl⟩
  | append_singleton calls call ih =>
    obtain ⟨frame, layer, hrun, hready⟩ := ih
    have hready' : Ready force levels tops { layer with textures := call.2 } :=
      ⟨hready.forceLevelZeroLoads, hready.topLevels, hready.currentTiles, hready.requestQ, hready.levels⟩
    obtain ⟨frame', layer', hrender, hready'', -⟩ := doRender_spec call.1 htops hready'
    refine ⟨frame', layer', ?_, hready''⟩
    unfold frames at hrun ⊢
    rw [List.foldlM_append, hrun, Option.bind_eq_bind, Option.bind_some, List.foldlM_cons, hrender]
    rfl

variable (force) in
/-- The last of some frames begins with a layer between frames. -/
theorem frames_append (htops : topLevelTiles levels = some tops) (calls : List (DrawContext × List TileKey))
    (call : DrawContext × List TileKey) :
    ∃ layer, Ready force levels tops layer ∧ layer.textures = call.2 ∧
      frames (calls ++ [call]) (TiledImageLayer.new levels force) = doRender call.1 layer := by
  obtain ⟨frame, layer, hrun, hready⟩ := frames_ready force htops calls
  refine ⟨{ layer with textures := call.2 }, ⟨hready.forceLevelZeroLoads, hready.topLevels, hready.currentTiles,
    hready.requestQ, hready.levels⟩, rfl, ?_⟩
  unfold frames at hrun ⊢
  rw [List.foldlM_append, hrun, Option.bind_eq_bind, Option.bind_some, List.foldlM_cons]
  exact bind_pure _

end

/-- Two rows and four columns on level zero, and three levels. -/
def quarterTurns : LevelSet :=
  ⟨⟨⟨-90⟩, ⟨90⟩, ⟨-180⟩, ⟨180⟩⟩, ⟨⟨90⟩, ⟨90⟩⟩, ⟨⟨-90⟩, ⟨-180⟩⟩, 3, 0, [], by decide⟩

/-- A view that splits what contains the origin. -/
def originView : DrawContext where
  hasSurfaceGeometry := true
  isTileVisible _ := true
  needToSplit sector _ := sector.intersects ⟨⟨0⟩, ⟨0⟩, ⟨0⟩, ⟨0⟩⟩
  loads key := key.column ≠ 1
  isResourceAbsent _ := false
  checksExpiration := false
  isTextureExpired _ := false

theorem topLevelTiles_quarterTurns :
    topLevelTiles quarterTurns = some ((topLevelTiles quarterTurns).getD []) := by decide +kernel

/-- Where a location is in a sector, from 0 to 1 in both directions. -/
def position (sector : Exact.Sector ℚ) (p : Exact.LatLon ℚ) : ℚ × ℚ :=
  ((p.longitude - sector.minLongitude) / (sector.maxLongitude - sector.minLongitude),
    (p.latitude - sector.minLatitude) / (sector.maxLatitude - sector.minLatitude))

/-- The point of a tile's texture that belongs to a location. -/
def texel (mustFlipVertically : TileKey → Bool) (p : Exact.LatLon ℚ) (tile : Tile) : ℚ × ℚ :=
  let st := position (exact tile.sector) p
  (st.1, if mustFlipVertically tile.tileKey then 1 - st.2 else st.2)

/-- The finest tiles have rows and columns that an `int` can count. -/
def FitsInt (levels : LevelSet) (tops : List Tile) : Prop :=
  ∀ top ∈ tops, (top.row + 1) * 2 ^ (levels.numLevels - 1) ≤ 2 ^ 31 ∧
    (top.column + 1) * 2 ^ (levels.numLevels - 1) ≤ 2 ^ 31

theorem radians_sub (a b : Angle) : a.radians - b.radians = Angle.DEGREES_TO_RADIANS * (a.degrees - b.degrees) := by
  unfold Angle.radians
  ring

/-- The texture transform takes positions in a sector to positions in a tile. -/
theorem applyTextureTransform_apply {sg st : Sector} (hsg : 0 < sg.deltaLon.degrees ∧ 0 < sg.deltaLat.degrees)
    (hst : 0 < st.deltaLon.degrees ∧ 0 < st.deltaLat.degrees) (m : TextureMatrix) (p : Exact.LatLon ℚ) :
    (applyTextureTransform sg st m).apply (position (exact sg) p) = m.apply (position (exact st) p) := by
  have hpos : 0 < Angle.DEGREES_TO_RADIANS := by decide +kernel
  have hwidth : 0 < st.deltaLon.radians := mul_pos hpos hst.1
  have hheight : 0 < st.deltaLat.radians := mul_pos hpos hst.2
  have hscale : ∀ a b x s t : ℚ, 0 < a → 0 < b →
      Angle.DEGREES_TO_RADIANS * a / (Angle.DEGREES_TO_RADIANS * b) * ((x - s) / a +
        -(Angle.DEGREES_TO_RADIANS * (t - s)) / (Angle.DEGREES_TO_RADIANS * a)) = (x - t) / b := by
    intro a b x s t ha hb
    field_simp
    ring
  have hlon := hscale _ _ p.longitude sg.minLongitude.degrees st.minLongitude.degrees hsg.1 hst.1
  have hlat := hscale _ _ p.latitude sg.minLatitude.degrees st.minLatitude.degrees hsg.2 hst.2
  unfold applyTextureTransform TextureMatrix.glScaled TextureMatrix.glTranslated TextureMatrix.apply
  simp only [if_pos hwidth, if_pos hheight, radians_sub]
  refine Prod.ext ?_ ?_
  · change m.hScale * _ * _ + (m.hScale * _ * _ + m.hShift) = m.hScale * ((p.longitude - st.minLongitude.degrees) / _) +
      m.hShift
    rw [← add_assoc, ← mul_add, mul_assoc]
    exact congrArg (fun y => m.hScale * y + m.hShift) hlon
  · change m.vScale * _ * _ + (m.vScale * _ * _ + m.vShift) = m.vScale * ((p.latitude - st.minLatitude.degrees) / _) +
      m.vShift
    rw [← add_assoc, ← mul_add, mul_assoc]
    exact congrArg (fun y => m.vScale * y + m.vShift) hlat

/-! ## Cells -/

section

open RasterProducer (Stands gridSector gridAngle topTile PositiveDelta)

variable {levels : LevelSet} {tops : List Tile}

theorem stands_of_mem_createSubTiles {tile child : Tile} {c : Cell} (h : Stands levels tile c)
    (hchild : child ∈ createSubTiles tile (levels.level (c.level + 1))) :
    ∃ d ∈ c.children, Stands levels child d := by
  -- the same four tiles, in another order
  have hmem : child ∈ RasterProducer.createSubTiles tile (levels.level (c.level + 1)) := by
    simp only [createSubTiles, RasterProducer.createSubTiles, List.mem_cons, List.not_mem_nil, or_false] at hchild ⊢
    tauto
  have hall := RasterProducer.stands_createSubTiles h
  obtain ⟨i, hi, rfl⟩ := List.mem_iff_getElem.1 hmem
  have hi' : i < c.children.length := hall.length_eq ▸ hi
  exact ⟨_, List.getElem_mem hi', hall.get hi hi'⟩

/-- A line stands for cells that lie one under the other. -/
theorem Descends.stands (htops : Tops levels tops) (hfits : FitsInt levels tops) {line : Line}
    (h : Descends levels tops line) :
    ∃ top ∈ tops, ∃ c0 c : Cell, c0.level = 0 ∧ top = topTile levels c0 ∧ Under c c0 ∧ Stands levels line.1 c ∧
      ∀ r ∈ line.2, ∃ d, Stands levels r d ∧ Under c d := by
  induction h with
  | @top tile htile =>
    obtain ⟨c, hc, rfl⟩ := htops.tile tile htile
    refine ⟨_, htile, c, c, hc, rfl, Under.refl c, ?_, fun r hr => absurd hr List.not_mem_nil⟩
    obtain ⟨hrow, hcolumn⟩ := hfits _ htile
    have hone : (1 : Int) ≤ 2 ^ (levels.numLevels - 1) := one_le_pow₀ (by decide)
    have hrow' : (c.row : Int) < 2 ^ 31 := by
      change ((c.row : Int) + 1) * _ ≤ _ at hrow
      nlinarith
    have hcolumn' : (c.column : Int) < 2 ^ 31 := by
      change ((c.column : Int) + 1) * _ ≤ _ at hcolumn
      nlinarith
    refine ⟨?_, ?_, (int_eq (by omega) hrow').symm, (int_eq (by omega) hcolumn').symm⟩
    · rw [topTile, ← hc]
    · rw [hc]
      rfl
  | @child tile above child h hchild ih =>
    obtain ⟨top, htop, c0, c, hc0, heq, hunder, hstands, habove⟩ := ih
    rw [hstands.level_eq] at hchild
    obtain ⟨d, hd, hstands'⟩ := stands_of_mem_createSubTiles hstands hchild
    have hdc := under_of_mem_children hd
    refine ⟨top, htop, c0, d, hc0, heq, hdc.trans hunder, hstands', fun r hr => ?_⟩
    rcases List.mem_cons.1 hr with rfl | hr
    · exact ⟨c, hstands, hdc⟩
    · obtain ⟨e, he, hce⟩ := habove r hr
      exact ⟨e, he, hdc.trans hce⟩

/-- Its rows and columns do not wrap. -/
theorem under_fits (hfits : FitsInt levels tops) {c0 c : Cell} (htop : topTile levels c0 ∈ tops) (h0 : c0.level = 0)
    (h : Under c c0) (hlevel : c.level < levels.numLevels) :
    (c.row : Int) < 2 ^ 31 ∧ (c.column : Int) < 2 ^ 31 := by
  obtain ⟨hrow, hcolumn⟩ := hfits _ htop
  obtain ⟨k, hk, hr, hc⟩ := h
  have hpow : 2 ^ k ≤ 2 ^ (levels.numLevels - 1) := Nat.pow_le_pow_right (by decide) (by omega)
  have hlt : ∀ i i0 : Nat, i / 2 ^ k = i0 → ((i0 : Int) + 1) * 2 ^ (levels.numLevels - 1) ≤ 2 ^ 31 →
      (i : Int) < 2 ^ 31 := by
    intro i i0 hdiv hle
    have hlt : i < (i0 + 1) * 2 ^ k := by
      rw [← hdiv, Nat.add_mul, Nat.one_mul]
      exact Nat.lt_div_mul_add (Nat.two_pow_pos k)
    have hle' : (i0 + 1) * 2 ^ (levels.numLevels - 1) ≤ 2 ^ 31 := by exact_mod_cast hle
    have := hlt.trans_le ((Nat.mul_le_mul_left (i0 + 1) hpow).trans hle')
    exact_mod_cast this
  exact ⟨hlt _ _ hr hrow, hlt _ _ hc hcolumn⟩

theorem position_gridSector (hdelta : PositiveDelta levels) (c : Cell) (p : Exact.LatLon ℚ) :
    position (exact (gridSector levels c)) p =
      ((p.longitude - levels.tileOrigin.longitude.degrees) / levels.levelZeroTileDelta.longitude.degrees * 2 ^ c.level -
        c.column,
      (p.latitude - levels.tileOrigin.latitude.degrees) / levels.levelZeroTileDelta.latitude.degrees * 2 ^ c.level -
        c.row) := by
  obtain ⟨hlat, hlon⟩ := hdelta
  have haxis : ∀ (x o delta : ℚ) (i : Nat), 0 < delta →
      (x - (o + i * (delta / 2 ^ c.level))) / (o + (i + 1 : Nat) * (delta / 2 ^ c.level) -
        (o + i * (delta / 2 ^ c.level))) = (x - o) / delta * 2 ^ c.level - i := by
    intro x o delta i hpos
    have hwidth : delta / 2 ^ c.level ≠ 0 := by positivity
    have hdiff : o + (i + 1 : Nat) * (delta / 2 ^ c.level) - (o + i * (delta / 2 ^ c.level)) = delta / 2 ^ c.level := by
      push_cast
      ring
    rw [hdiff, ← sub_sub, sub_div, mul_div_cancel_right₀ _ hwidth, div_div_eq_mul_div, mul_div_right_comm]
  exact Prod.ext (haxis _ _ _ _ hlon) (haxis _ _ _ _ hlat)

/-- The transform of a fallback texture takes positions in a tile to positions in
the tile above it. -/
theorem applyResourceTextureTransform_apply (hdelta : PositiveDelta levels) {tile r : Tile} {c d : Cell}
    (hc : Stands levels tile c) (hd : Stands levels r d) (hunder : Under c d)
    (hrow : (c.row : Int) < 2 ^ 31) (hcolumn : (c.column : Int) < 2 ^ 31) (m : TextureMatrix) (p : Exact.LatLon ℚ) :
    (applyResourceTextureTransform tile r m).apply (position (exact tile.sector) p) =
      m.apply (position (exact r.sector) p) := by
  obtain ⟨k, hk, hr, hcol⟩ := hunder
  have hcl : tile.level.levelNumber = c.level := by rw [hc.level_eq]; rfl
  have hdl : r.level.levelNumber = d.level := by rw [hd.level_eq]; rfl
  unfold applyResourceTextureTransform
  rw [hcl, hdl, hc.sector_eq, hd.sector_eq, position_gridSector hdelta, position_gridSector hdelta, hc.row_eq,
    hc.column_eq, int_eq (by omega) hrow, int_eq (by omega) hcolumn]
  -- the part of an index below the tile above is its remainder
  have hshift : ∀ (X : ℚ) (i j : Nat), i / 2 ^ k = j →
      1 / ((2 ^ k : Int) : ℚ) * (X * 2 ^ c.level - i) +
        1 / ((2 ^ k : Int) : ℚ) * (((i : Int).tmod (2 ^ k) : Int) : ℚ) = X * 2 ^ d.level - j := by
    intro X i j hj
    have htmod : (((i : Int).tmod (2 ^ k) : Int) : ℚ) = i - 2 ^ k * j := by
      have hmod : (i : Int).tmod (2 ^ k) = i - 2 ^ k * j := by
        rw [Int.tmod_eq_emod_of_nonneg (Int.natCast_nonneg i), Int.emod_def, ← hj, Int.natCast_ediv]
        push_cast
        rfl
      rw [hmod]
      push_cast
      ring
    rw [htmod, hk, pow_add]
    push_cast
    field_simp
    ring
  by_cases hzero : (c.level : Int) - d.level ≤ 0
  · rw [if_pos hzero]
    obtain rfl : k = 0 := by omega
    rw [pow_zero, Nat.div_one] at hr hcol
    rw [show d.level = c.level by omega, hr, hcol]
  · rw [if_neg hzero]
    have hdelta' : ((c.level : Int) - d.level).toNat = k := by omega
    have hlon := hshift ((p.longitude - levels.tileOrigin.longitude.degrees) /
      levels.levelZeroTileDelta.longitude.degrees) c.column d.column hcol
    have hlat := hshift ((p.latitude - levels.tileOrigin.latitude.degrees) /
      levels.levelZeroTileDelta.latitude.degrees) c.row d.row hr
    rw [hdelta']
    unfold TextureMatrix.glTranslated TextureMatrix.glScaled TextureMatrix.apply
    refine Prod.ext ?_ ?_
    · dsimp only
      rw [← hlon]
      ring
    · dsimp only
      rw [← hlat]
      ring

/-- The width and the height of a cell. -/
theorem gridSector_area (hdelta : PositiveDelta levels) (c : Cell) :
    0 < (gridSector levels c).deltaLon.degrees ∧ 0 < (gridSector levels c).deltaLat.degrees := by
  obtain ⟨hlat, hlon⟩ := hdelta
  have haxis : ∀ (o delta : ℚ) (i : Nat), 0 < delta →
      0 < o + (i + 1 : Nat) * (delta / 2 ^ c.level) - (o + i * (delta / 2 ^ c.level)) := by
    intro o delta i hpos
    have hdiff : o + (i + 1 : Nat) * (delta / 2 ^ c.level) - (o + i * (delta / 2 ^ c.level)) = delta / 2 ^ c.level := by
      push_cast
      ring
    rw [hdiff]
    positivity
  exact ⟨haxis _ _ _ hlon, haxis _ _ _ hlat⟩

end

/-! ## Rendering -/

/-- Being between the positions 0 and 1 means being in a sector. -/
theorem mem_region_iff {sector : Sector} (h : 0 < sector.deltaLon.degrees ∧ 0 < sector.deltaLat.degrees)
    {p : Exact.LatLon ℚ} :
    ((0 ≤ (position (exact sector) p).1 ∧ (position (exact sector) p).1 ≤ 1) ∧
      0 ≤ (position (exact sector) p).2 ∧ (position (exact sector) p).2 ≤ 1) ↔ p ∈ (exact sector).region := by
  obtain ⟨hlon, hlat⟩ := h
  have haxis : ∀ x lo hi : ℚ, 0 < hi - lo → ((0 ≤ (x - lo) / (hi - lo) ∧ (x - lo) / (hi - lo) ≤ 1) ↔
      lo ≤ x ∧ x ≤ hi) := by
    intro x lo hi hpos
    rw [div_le_one hpos, le_div_iff₀ hpos, zero_mul, sub_nonneg, sub_le_sub_iff_right]
  exact (and_congr (haxis _ _ _ hlon) (haxis _ _ _ hlat)).trans and_comm

/-- Only one tile of a list has a point that is not on its edges. -/
theorem filterMap_of_apart {α : Type} {lines : List Line} (h : lines.Pairwise (Apart Line.region Line.inner))
    {p : Exact.LatLon ℚ} {line : Line} (hline : line ∈ lines) (hp : p ∈ line.inner) {f : Line → Option α}
    (hnone : ∀ other ∈ lines, p ∉ other.region → f other = none) : lines.filterMap f = (f line).toList := by
  induction lines with
  | nil => exact absurd hline List.not_mem_nil
  | cons a lines ih =>
    obtain ⟨ha, hpairs⟩ := List.pairwise_cons.1 h
    rcases List.mem_cons.1 hline with rfl | hline
    · have hrest : lines.filterMap f = [] := by
        rw [List.filterMap_eq_nil_iff]
        intro other hother
        exact hnone other (List.mem_cons_of_mem _ hother) fun hin =>
          Set.disjoint_left.1 (ha other hother).1 hp hin
      rw [List.filterMap_cons, hrest]
      cases f line <;> rfl
    · have hfirst : f a = none :=
        hnone a List.mem_cons_self fun hin => Set.disjoint_left.1 (ha line hline).2 hin hp
      rw [List.filterMap_cons, hfirst]
      exact ih hpairs hline fun other hother => hnone other (List.mem_cons_of_mem _ hother)

section

variable {dc : DrawContext} {force : Bool} {textures : List TileKey} {levels : LevelSet} {tops : List Tile}
  {frame : Frame} {layer : TiledImageLayer} {mustFlipVertically : TileKey → Bool} {sg : Sector}
  {p : Exact.LatLon ℚ}

theorem area_of_mem_inner {sector : Sector} (hp : p ∈ (exact sector).inner) :
    0 < sector.deltaLon.degrees ∧ 0 < sector.deltaLat.degrees := by
  obtain ⟨⟨h1, h2⟩, h3, h4⟩ := hp
  exact ⟨sub_pos.2 (h3.trans h4), sub_pos.2 (h1.trans h2)⟩

theorem flip_apply (tile : Tile) :
    (if mustFlipVertically tile.tileKey then
        (TextureMatrix.glLoadIdentity.glScaled 1 (-1)).glTranslated 0 (-1)
      else TextureMatrix.glLoadIdentity).apply (position (exact tile.sector) p) = texel mustFlipVertically p tile := by
  unfold texel TextureMatrix.apply TextureMatrix.glLoadIdentity TextureMatrix.glScaled TextureMatrix.glTranslated
  by_cases hflip : mustFlipVertically tile.tileKey = true
  · simp only [if_pos hflip]
    refine Prod.ext ?_ ?_ <;> (dsimp only; ring)
  · simp only [if_neg hflip]
    refine Prod.ext ?_ ?_ <;> (dsimp only; ring)

theorem renderTile_eq_none (hsg : p ∈ (exact sg).inner) {drawn : DrawnTile}
    (harea : 0 < drawn.tile.sector.deltaLon.degrees ∧ 0 < drawn.tile.sector.deltaLat.degrees)
    (hp : p ∉ (exact drawn.tile.sector).region) :
    renderTile layer mustFlipVertically sg (position (exact sg) p) drawn = none := by
  unfold renderTile
  split
  · rfl
  · split
    · rfl
    · have hmask := applyTextureTransform_apply (area_of_mem_inner hsg) harea TextureMatrix.glLoadIdentity p
      have hid : TextureMatrix.glLoadIdentity.apply (position (exact drawn.tile.sector) p) =
          position (exact drawn.tile.sector) p := by
        unfold TextureMatrix.apply TextureMatrix.glLoadIdentity
        simp
      dsimp only
      rw [hmask, hid, if_neg]
      rw [mem_region_iff harea]
      exact hp

/-- A tile whose texture is bound is drawn where it is. -/
theorem renderTile_eq_some (hsg : p ∈ (exact sg).inner) {drawn : DrawnTile} {texture : Tile}
    (hp : p ∈ (exact drawn.tile.sector).inner) (hbound : boundTile layer drawn = some texture)
    (hinternal : (applyInternalTransform layer mustFlipVertically drawn TextureMatrix.glLoadIdentity).apply
      (position (exact drawn.tile.sector) p) = texel mustFlipVertically p texture) :
    renderTile layer mustFlipVertically sg (position (exact sg) p) drawn =
      some (texture, texel mustFlipVertically p texture) := by
  have harea := area_of_mem_inner hp
  have hid : TextureMatrix.glLoadIdentity.apply (position (exact drawn.tile.sector) p) =
      position (exact drawn.tile.sector) p := by
    unfold TextureMatrix.apply TextureMatrix.glLoadIdentity
    simp
  have hmeets : intersectsInterior drawn.tile.sector sg = true := by
    obtain ⟨⟨h1, h2⟩, h3, h4⟩ := hp
    obtain ⟨⟨h5, h6⟩, h7, h8⟩ := hsg
    unfold intersectsInterior
    rw [decide_eq_true_eq, not_le, not_le, not_le, not_le]
    exact ⟨h3.trans h8, h7.trans h4, h1.trans h6, h5.trans h2⟩
  unfold renderTile
  rw [if_neg (not_not.2 hmeets), hbound]
  dsimp only
  rw [applyTextureTransform_apply (area_of_mem_inner hsg) harea,
    applyTextureTransform_apply (area_of_mem_inner hsg) harea, hid, if_pos, hinternal]
  rw [mem_region_iff harea]
  obtain ⟨⟨h1, h2⟩, h3, h4⟩ := hp
  exact ⟨⟨h1.le, h2.le⟩, h3.le, h4.le⟩

theorem isTextureInMemory_iff {tile : Tile} : layer.isTextureInMemory tile = true ↔ tile.tileKey ∈ layer.textures := by
  unfold isTextureInMemory
  exact decide_eq_true_iff

/-- A tile of the frame shows the closest texture at each of its locations. -/
theorem FrameSpec.renderTile (h : FrameSpec dc force textures levels tops frame layer) (htops : Tops levels tops)
    (hfits : FitsInt levels tops) (hsg : p ∈ (exact sg).inner) {line : Line} (hline : line ∈ selected dc levels tops)
    (hp : p ∈ line.inner) :
    (drawnWith dc force textures line).bind (Layers.renderTile layer mustFlipVertically sg (position (exact sg) p)) =
      (closest dc force textures line).map fun texture => (texture, texel mustFlipVertically p texture) := by
  obtain ⟨hdescends, -, hlevel⟩ := h.lines line hline
  by_cases havailable : Available dc force textures line.1 = true
  · have hclosest : closest dc force textures line = some line.1 := List.find?_cons_of_pos havailable
    have hmem : layer.isTextureInMemory line.1 = true := isTextureInMemory_iff.2 (h.loaded line hline line.1 hclosest)
    have hdrawn : drawnWith dc force textures line = some ⟨line.1, none⟩ := if_pos havailable
    rw [hclosest, hdrawn, Option.bind_some, Option.map_some]
    apply renderTile_eq_some hsg
    · exact hp
    · exact if_pos hmem
    · unfold applyInternalTransform
      rw [if_pos hmem]
      exact flip_apply line.1
  · have hmem : ¬ layer.isTextureInMemory line.1 = true := by
      intro hmem
      exact havailable (h.available _ (isTextureInMemory_iff.1 hmem))
    rw [Bool.not_eq_true] at havailable
    have hclosest := closest_of_not_available havailable
    have hdrawn : drawnWith dc force textures line = (closest dc force textures line).map fun r =>
        ⟨line.1, some r⟩ := by
      rw [hclosest]
      exact if_neg (by rw [havailable]; exact Bool.false_ne_true)
    cases hfound : closest dc force textures line with
    | none =>
      rw [hdrawn, hfound]
      rfl
    | some r =>
      have hr : r ∈ line.2 := List.mem_of_find?_eq_some (hclosest.symm.trans hfound)
      have hloaded : layer.isTextureInMemory r = true := isTextureInMemory_iff.2 (h.loaded line hline r hfound)
      obtain ⟨top, htop, c0, c, hc0, rfl, hunder, hstands, habove⟩ := hdescends.stands htops hfits
      obtain ⟨d, hd, hcd⟩ := habove r hr
      obtain ⟨hrow, hcolumn⟩ := under_fits hfits htop hc0 hunder (by
        rw [hstands.level_eq] at hlevel
        exact hlevel)
      rw [hdrawn, hfound, Option.map_some, Option.bind_some, Option.map_some]
      apply renderTile_eq_some hsg
      · exact hp
      · unfold boundTile
        rw [if_neg hmem, Option.filter_some_pos hloaded]
      · unfold applyInternalTransform
        rw [if_neg hmem, Option.filter_some_pos hloaded]
        dsimp only
        rw [applyResourceTextureTransform_apply (htops.delta (List.ne_nil_of_mem htop)) hstands hd hcd hrow hcolumn]
        exact flip_apply r

end

end WorldWind.Layers
