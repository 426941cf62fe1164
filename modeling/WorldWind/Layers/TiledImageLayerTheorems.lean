import WorldWind.Geom.Regions
import WorldWind.Layers.TiledImageLayer
/-!
# The tiles of a frame use the closest textures

The descent ends at tiles that share at most their edges (`selected`). Each is
drawn with its own texture if that is in memory, or else with that of the closest
tile above it that has one (`drawnWith`), and the textures that are missing are
requested. `currentResourceTile` is that closest tile all the way down, and is put
back on the way up (`addTileOrDescendants_spec`).
-/

namespace WorldWind.Layers

open Geom Lib.JavaInt Lib.PrunedDescent TiledImageLayer
open RasterProducer (Tile TileKey Level LevelSet topLevelTiles)

/-! ## Tiles and the tiles above them -/

/-- A tile, and the tiles above it from its parent on. -/
abbrev Line := Tile × List Tile

/-- The lines that begin with a tile of level zero. -/
inductive Descends (levels : LevelSet) (tops : List Tile) : Line → Prop
  | top {tile : Tile} : tile ∈ tops → Descends levels tops (tile, [])
  | child {tile : Tile} {above : List Tile} {child : Tile} : Descends levels tops (tile, above) →
      child ∈ createSubTiles tile (levels.level (tile.level.levelNumber + 1)) →
      Descends levels tops (child, tile :: above)

def subLines (levels : LevelSet) (line : Line) : List Line :=
  (createSubTiles line.1 (levels.level (line.1.level.levelNumber + 1))).map fun child => (child, line.1 :: line.2)

theorem level_of_mem_createSubTiles {tile child : Tile} {nextLevel : Level}
    (h : child ∈ createSubTiles tile nextLevel) : child.level = nextLevel := by
  simp only [createSubTiles, List.mem_cons, List.not_mem_nil, or_false] at h
  rcases h with rfl | rfl | rfl | rfl <;> rfl

section

variable {levels : LevelSet} {tops : List Tile}

theorem Descends.level_eq (htops : ∀ tile ∈ tops, tile.level = levels.level 0) {line : Line}
    (h : Descends levels tops line) : line.1.level.levelNumber = line.2.length := by
  induction h with
  | top htile => rw [htops _ htile]; rfl
  | child h hchild ih =>
    rw [level_of_mem_createSubTiles hchild, List.length_cons, ← ih]
    rfl

end

/-! ## What is selected -/

section

variable (dc : DrawContext)

/-- What the tests say of a tile. Those of level zero are not tested against the
sector of the layer. -/
def choice (levels : LevelSet) (line : Line) : Choice :=
  if ¬ dc.isTileVisible line.1 ∨ (line.2 ≠ [] ∧ ¬ levels.sector.intersects line.1.sector) then .discard
  else if meetsRenderCriteria dc levels line.1 then .take
  else .descend

/-- The tiles where the descent ends, without those that it discards. -/
def selected (levels : LevelSet) (tops : List Tile) : List Line :=
  tops.flatMap fun tile => taken (choice dc levels) (subLines levels) (levels.numLevels - 1) (tile, [])

variable (force : Bool) (textures : List TileKey)

/-- A texture is in memory, or is loaded when it is needed. -/
def Available (tile : Tile) : Bool :=
  tile.tileKey ∈ textures ∨ (tile.level.levelNumber = 0 ∧ force = true ∧ dc.loads tile.tileKey = true)

/-- The closest texture on a line. -/
def closest (line : Line) : Option Tile := (line.1 :: line.2).find? (Available dc force textures)

/-- How a tile is drawn, if there is a texture for it. -/
def drawnWith (line : Line) : Option DrawnTile :=
  if Available dc force textures line.1 then some ⟨line.1, none⟩
  else (line.2.find? (Available dc force textures)).map fun resourceTile => ⟨line.1, some resourceTile⟩

/-- The tiles whose textures are requested. -/
def Wanted (line : Line) : Bool := !Available dc force textures line.1 && !dc.isResourceAbsent line.1.tileKey

/-- The tile above that the descent has registered: one with a texture in memory
before the frame, or of level zero. -/
def registered (above : List Tile) : Option Tile :=
  above.find? fun tile => tile.tileKey ∈ textures ∨ tile.level.levelNumber = 0

variable {dc force textures}

theorem available_iff {tile : Tile} : Available dc force textures tile = true ↔
    tile.tileKey ∈ textures ∨ (tile.level.levelNumber = 0 ∧ force = true ∧ dc.loads tile.tileKey = true) := by
  unfold Available
  exact decide_eq_true_iff

/-- The registered tile is the only one above whose texture can be used. -/
theorem find_available {above : List Tile} (hlevels : above.Pairwise fun tile _ => tile.level.levelNumber ≠ 0) :
    above.find? (Available dc force textures) =
      (registered textures above).filter (Available dc force textures) := by
  induction above with
  | nil => rfl
  | cons tile above ih =>
    obtain ⟨hne, hlevels⟩ := List.pairwise_cons.1 hlevels
    unfold registered
    by_cases havailable : Available dc force textures tile = true
    · have hreg : tile.tileKey ∈ textures ∨ tile.level.levelNumber = 0 :=
        (available_iff.1 havailable).imp_right fun h => h.1
      simp [havailable, hreg, Option.filter_some]
    · by_cases hreg : tile.tileKey ∈ textures ∨ tile.level.levelNumber = 0
      · -- it is of level zero, and there is nothing above it
        have hzero : tile.level.levelNumber = 0 := by
          rcases hreg with hmem | hzero
          · exact absurd (available_iff.2 (Or.inl hmem)) havailable
          · exact hzero
        have hnil : above = [] := by
          cases above with
          | nil => rfl
          | cons tile' above => exact absurd hzero (hne tile' List.mem_cons_self)
        subst hnil
        simp [havailable, hreg, Option.filter_some]
      · rw [List.find?_cons_of_neg havailable, ih hlevels]
        unfold registered
        rw [List.find?_cons_of_neg (by simpa using hreg)]

/-! ## Adding tiles -/

variable (dc force textures) in
/-- A layer in the middle of a frame. -/
structure Assembling (levels : LevelSet) (layer : TiledImageLayer) : Prop where
  levels : layer.levels = levels
  forceLevelZeroLoads : layer.forceLevelZeroLoads = force
  keeps : ∀ k ∈ textures, k ∈ layer.textures
  available : ∀ tile : Tile, tile.tileKey ∈ layer.textures → Available dc force textures tile = true

variable (dc force textures) in
/-- What a part of the descent has done to a layer when it has ended at some tiles. -/
structure Adds (layer layer' : TiledImageLayer) (lines : List Line) : Prop where
  levels : layer'.levels = layer.levels
  forceLevelZeroLoads : layer'.forceLevelZeroLoads = layer.forceLevelZeroLoads
  levelZeroLoaded : layer'.levelZeroLoaded = layer.levelZeroLoaded
  topLevels : layer'.topLevels = layer.topLevels
  currentTiles : layer'.currentTiles = layer.currentTiles ++ lines.filterMap (drawnWith dc force textures)
  requestQ : layer'.requestQ = layer.requestQ ++ (lines.filter (Wanted dc force textures)).map Prod.fst
  keeps : ∀ k ∈ layer.textures, k ∈ layer'.textures
  available : ∀ tile : Tile, tile.tileKey ∈ layer'.textures → Available dc force textures tile = true
  used : ∀ line ∈ lines, ∀ tile, closest dc force textures line = some tile → tile.tileKey ∈ layer'.textures

variable (dc force textures) in
theorem Adds.refl {levels : LevelSet} {layer : TiledImageLayer} (h : Assembling dc force textures levels layer) :
    Adds dc force textures layer layer [] :=
  ⟨rfl, rfl, rfl, rfl, (List.append_nil _).symm, (List.append_nil _).symm, fun _ hk => hk, h.available,
    fun _ hline => absurd hline List.not_mem_nil⟩

variable {levels : LevelSet} {layer layer' layer'' : TiledImageLayer} {lines lines' : List Line}

theorem Adds.trans (h : Adds dc force textures layer layer' lines) (h' : Adds dc force textures layer' layer'' lines') :
    Adds dc force textures layer layer'' (lines ++ lines') where
  levels := h'.levels.trans h.levels
  forceLevelZeroLoads := h'.forceLevelZeroLoads.trans h.forceLevelZeroLoads
  levelZeroLoaded := h'.levelZeroLoaded.trans h.levelZeroLoaded
  topLevels := h'.topLevels.trans h.topLevels
  currentTiles := by rw [h'.currentTiles, h.currentTiles, List.filterMap_append, List.append_assoc]
  requestQ := by rw [h'.requestQ, h.requestQ, List.filter_append, List.map_append, List.append_assoc]
  keeps k hk := h'.keeps k (h.keeps k hk)
  available := h'.available
  used line hline tile htile := by
    rcases List.mem_append.1 hline with hline | hline
    · exact h'.keeps _ (h.used line hline tile htile)
    · exact h'.used line hline tile htile

theorem Assembling.adds (h : Assembling dc force textures levels layer)
    (h' : Adds dc force textures layer layer' lines) : Assembling dc force textures levels layer' :=
  ⟨h'.levels.trans h.levels, h'.forceLevelZeroLoads.trans h.forceLevelZeroLoads,
    fun k hk => h'.keeps k (h.keeps k hk), h'.available⟩

/-- Whatever tile is registered. -/
theorem Assembling.register (h : Assembling dc force textures levels layer) (tile : Option Tile) :
    Assembling dc force textures levels { layer with currentResourceTile := tile } :=
  ⟨h.levels, h.forceLevelZeroLoads, h.keeps, h.available⟩

theorem Adds.register (h : Adds dc force textures layer layer' lines) (tile tile' : Option Tile) :
    Adds dc force textures { layer with currentResourceTile := tile } { layer' with currentResourceTile := tile' }
      lines :=
  ⟨h.levels, h.forceLevelZeroLoads, h.levelZeroLoaded, h.topLevels, h.currentTiles, h.requestQ, h.keeps, h.available,
    h.used⟩

/-- Below level zero only the textures from before the frame are in memory. -/
theorem Assembling.mem_iff (h : Assembling dc force textures levels layer) {tile : Tile}
    (hlevel : tile.level.levelNumber ≠ 0) : layer.isTextureInMemory tile = true ↔ tile.tileKey ∈ textures := by
  unfold isTextureInMemory
  rw [decide_eq_true_eq]
  constructor
  · intro hmem
    rcases available_iff.1 (h.available tile hmem) with hmem | ⟨hzero, -⟩
    · exact hmem
    · exact absurd hzero hlevel
  · exact h.keeps _

theorem Assembling.not_mem (h : Assembling dc force textures levels layer) {tile : Tile}
    (hmem : ¬ layer.isTextureInMemory tile = true) : tile.tileKey ∉ textures := by
  intro hin
  apply hmem
  unfold isTextureInMemory
  exact decide_eq_true (h.keeps _ hin)

/-! ## One tile -/

variable (dc) in
/-- A tile of level zero is loaded if it has to be. -/
def ensureTexture (tile : Tile) (layer : TiledImageLayer) : TiledImageLayer :=
  if tile.level.levelNumber = 0 ∧ layer.forceLevelZeroLoads ∧ ¬ layer.isTextureInMemory tile then
    forceTextureLoad dc tile layer
  else layer

/-- After that, the available textures are those in memory. -/
theorem ensureTexture_spec (h : Assembling dc force textures levels layer) (tile : Tile) :
    Adds dc force textures layer (ensureTexture dc tile layer) [] ∧
      (ensureTexture dc tile layer).isTextureInMemory tile = Available dc force textures tile ∧
      (ensureTexture dc tile layer).currentResourceTile = layer.currentResourceTile := by
  unfold ensureTexture forceTextureLoad
  by_cases hmem : layer.isTextureInMemory tile = true
  · rw [if_neg fun hcond => hcond.2.2 hmem]
    refine ⟨Adds.refl dc force textures h, ?_, rfl⟩
    unfold isTextureInMemory at hmem
    rw [h.available tile (of_decide_eq_true hmem)]
    exact hmem
  · have hnot := h.not_mem hmem
    by_cases hforce : tile.level.levelNumber = 0 ∧ force = true
    · rw [if_pos ⟨hforce.1, h.forceLevelZeroLoads.trans hforce.2, hmem⟩]
      by_cases hloads : dc.loads tile.tileKey = true
      · rw [if_pos hloads]
        have havailable : Available dc force textures tile = true :=
          available_iff.2 (Or.inr ⟨hforce.1, hforce.2, hloads⟩)
        refine ⟨?_, ?_, rfl⟩
        · refine ⟨rfl, rfl, rfl, rfl, (List.append_nil _).symm, (List.append_nil _).symm,
            fun k hk => List.mem_cons_of_mem _ hk, fun tile' hmem' => ?_,
            fun _ hline => absurd hline List.not_mem_nil⟩
          rcases List.mem_cons.1 hmem' with hkey | hmem'
          · -- the texture belongs to every tile with the same key
            apply available_iff.2
            refine Or.inr ⟨?_, hforce.2, ?_⟩
            · exact (congrArg TileKey.level hkey).trans hforce.1
            · rw [hkey]
              exact hloads
          · exact h.available tile' hmem'
        · rw [havailable]
          exact decide_eq_true List.mem_cons_self
      · rw [if_neg hloads]
        refine ⟨Adds.refl dc force textures h, ?_, rfl⟩
        rw [Bool.not_eq_true] at hmem
        rw [hmem, eq_comm, ← Bool.not_eq_true, available_iff]
        rintro (hin | ⟨-, -, hin⟩)
        · exact hnot hin
        · exact hloads hin
    · rw [if_neg fun hcond => hforce ⟨hcond.1, h.forceLevelZeroLoads.symm.trans hcond.2.1⟩]
      refine ⟨Adds.refl dc force textures h, ?_, rfl⟩
      rw [Bool.not_eq_true] at hmem
      rw [hmem, eq_comm, ← Bool.not_eq_true, available_iff]
      rintro (hin | ⟨hzero, htrue, -⟩)
      · exact hnot hin
      · exact hforce ⟨hzero, htrue⟩

theorem addTile_eq (tile : Tile) (layer : TiledImageLayer) :
    addTile dc tile layer =
      if (ensureTexture dc tile layer).isTextureInMemory tile then
        (ensureTexture dc tile layer).addTileToCurrent tile none
      else addTileWithFallback dc tile (ensureTexture dc tile layer) := by
  unfold addTile ensureTexture
  by_cases hmem : layer.isTextureInMemory tile = true
  · simp [hmem]
  · by_cases hforce : tile.level.levelNumber = 0 ∧ layer.forceLevelZeroLoads = true
    · simp [hmem, hforce]
    · have hcond : ¬ (tile.level.levelNumber = 0 ∧ layer.forceLevelZeroLoads = true ∧
          ¬ layer.isTextureInMemory tile = true) := fun hcond => hforce ⟨hcond.1, hcond.2.1⟩
      rw [if_neg hmem, if_neg hforce, if_neg hcond, if_neg hmem]

/-- What is drawn and requested for one tile, once its texture is there. -/
theorem adds_one {line : Line} {drawn : Option DrawnTile}
    (h : Adds dc force textures { layer with
      requestQ := layer.requestQ ++ if Wanted dc force textures line then [line.1] else [] } layer' [])
    (hdrawn : drawnWith dc force textures line = drawn)
    (hused : ∀ tile, closest dc force textures line = some tile → tile.tileKey ∈ layer'.textures) :
    Adds dc force textures layer { layer' with currentTiles := layer'.currentTiles ++ drawn.toList } [line] := by
  refine ⟨h.levels, h.forceLevelZeroLoads, h.levelZeroLoaded, h.topLevels, ?_, ?_, h.keeps, h.available,
    fun line' hline => ?_⟩
  · have htiles := h.currentTiles
    rw [List.filterMap_nil, List.append_nil] at htiles
    rw [htiles]
    cases hd : drawn <;> simp [hdrawn, hd]
  · have hrequests := h.requestQ
    rw [List.filter_nil, List.map_nil, List.append_nil] at hrequests
    rw [hrequests]
    by_cases hwanted : Wanted dc force textures line = true <;> simp [hwanted]
  · obtain rfl := List.mem_singleton.1 hline
    exact hused

theorem closest_of_not_available {line : Line} (h : Available dc force textures line.1 = false) :
    closest dc force textures line = line.2.find? (Available dc force textures) := by
  unfold closest
  rw [List.find?_cons_of_neg (by rw [h]; exact Bool.false_ne_true)]

theorem addTileWithFallback_spec (h : Assembling dc force textures levels layer) {tile : Tile} {above : List Tile}
    (hlevel : tile.level.levelNumber < levels.numLevels)
    (habove : above.Pairwise fun tile _ => tile.level.levelNumber ≠ 0)
    (hcurrent : layer.currentResourceTile = registered textures above)
    (hnot : Available dc force textures tile = false) :
    Adds dc force textures layer (addTileWithFallback dc tile layer) [(tile, above)] ∧
      (addTileWithFallback dc tile layer).currentResourceTile = layer.currentResourceTile := by
  have hclosest : closest dc force textures (tile, above) =
      (registered textures above).filter (Available dc force textures) :=
    (closest_of_not_available hnot).trans (find_available habove)
  have hdrawn : drawnWith dc force textures (tile, above) =
      ((registered textures above).filter (Available dc force textures)).map fun r => ⟨tile, some r⟩ := by
    unfold drawnWith
    rw [if_neg (by rw [hnot]; exact Bool.false_ne_true), find_available habove]
  -- the request
  obtain ⟨requested, hrequested⟩ : ∃ requested : TiledImageLayer, requested =
    if tile.level.levelNumber < layer.levels.numLevels then
      if dc.isResourceAbsent tile.tileKey then layer else layer.requestTexture tile
    else layer := ⟨_, rfl⟩
  have hrequest : requested = { layer with
      requestQ := layer.requestQ ++ if Wanted dc force textures (tile, above) then [tile] else [] } := by
    unfold Wanted
    rw [hrequested, if_pos (by rw [h.levels]; exact hlevel)]
    simp only [hnot]
    by_cases habsent : dc.isResourceAbsent tile.tileKey = true
    · simp [habsent]
    · simp [habsent, requestTexture]
  have hassembling : Assembling dc force textures levels requested := by
    rw [hrequest]
    exact ⟨h.levels, h.forceLevelZeroLoads, h.keeps, h.available⟩
  have hcurrent' : requested.currentResourceTile = layer.currentResourceTile := by rw [hrequest]
  unfold addTileWithFallback
  rw [← hrequested]
  dsimp only
  rw [hcurrent', hcurrent]
  cases hreg : registered textures above with
  | none =>
    rw [hreg, Option.filter_none] at hclosest hdrawn
    have hstart : Adds dc force textures { layer with
        requestQ := layer.requestQ ++ if Wanted dc force textures (tile, above) then [tile] else [] } requested [] := by
      rw [← hrequest]
      exact Adds.refl dc force textures hassembling
    have hadds := adds_one hstart hdrawn fun tile' htile => by
      rw [hclosest] at htile
      cases htile
    rw [Option.map_none, Option.toList_none, List.append_nil] at hadds
    exact ⟨hadds, by rw [hcurrent', hcurrent, hreg]⟩
  | some r =>
    rw [hreg] at hclosest hdrawn
    change Adds dc force textures layer
        (if (ensureTexture dc r requested).isTextureInMemory r then
          (ensureTexture dc r requested).addTileToCurrent tile (some r) else ensureTexture dc r requested) _ ∧
      (if (ensureTexture dc r requested).isTextureInMemory r then
          (ensureTexture dc r requested).addTileToCurrent tile (some r)
        else ensureTexture dc r requested).currentResourceTile = _
    obtain ⟨hready, hmem, hsame⟩ := ensureTexture_spec hassembling r
    have hsame' : (ensureTexture dc r requested).currentResourceTile = some r := by
      rw [hsame, hcurrent', hcurrent, hreg]
    have hstart : Adds dc force textures { layer with
        requestQ := layer.requestQ ++ if Wanted dc force textures (tile, above) then [tile] else [] }
        (ensureTexture dc r requested) [] := by
      rw [← hrequest]
      exact hready
    by_cases havailable : Available dc force textures r = true
    · rw [Option.filter_some_pos havailable] at hclosest hdrawn
      rw [havailable] at hmem
      rw [if_pos hmem]
      refine ⟨adds_one hstart hdrawn fun tile' htile => ?_, hsame'⟩
      obtain rfl := Option.some.inj (hclosest.symm.trans htile)
      exact of_decide_eq_true hmem
    · rw [Bool.not_eq_true] at havailable
      rw [Option.filter_some_neg havailable] at hclosest hdrawn
      rw [havailable] at hmem
      rw [if_neg (by rw [hmem]; exact Bool.false_ne_true)]
      have hadds := adds_one hstart hdrawn fun tile' htile => by
        rw [hclosest] at htile
        cases htile
      rw [Option.map_none, Option.toList_none, List.append_nil] at hadds
      exact ⟨hadds, hsame'⟩

theorem addTile_spec (h : Assembling dc force textures levels layer) {tile : Tile} {above : List Tile}
    (hlevel : tile.level.levelNumber < levels.numLevels)
    (habove : above.Pairwise fun tile _ => tile.level.levelNumber ≠ 0)
    (hcurrent : layer.currentResourceTile = registered textures above) :
    Adds dc force textures layer (addTile dc tile layer) [(tile, above)] ∧
      (addTile dc tile layer).currentResourceTile = layer.currentResourceTile := by
  obtain ⟨hready, hmem, hsame⟩ := ensureTexture_spec h tile
  rw [addTile_eq]
  by_cases havailable : Available dc force textures tile = true
  · rw [havailable] at hmem
    rw [if_pos hmem]
    have hdrawn : drawnWith dc force textures (tile, above) = some ⟨tile, none⟩ := if_pos havailable
    have hclosest : closest dc force textures (tile, above) = some tile := List.find?_cons_of_pos havailable
    have hstart : Adds dc force textures { layer with
        requestQ := layer.requestQ ++ if Wanted dc force textures (tile, above) then [tile] else [] }
        (ensureTexture dc tile layer) [] := by
      unfold Wanted
      simp only [havailable, Bool.not_true, Bool.false_and, Bool.false_eq_true, if_false, List.append_nil]
      exact hready
    refine ⟨adds_one hstart hdrawn fun tile' htile => ?_, hsame⟩
    obtain rfl := Option.some.inj (hclosest.symm.trans htile)
    exact of_decide_eq_true hmem
  · rw [Bool.not_eq_true] at havailable
    rw [havailable] at hmem
    rw [if_neg (by rw [hmem]; exact Bool.false_ne_true)]
    obtain ⟨hadds, hcurrent'⟩ := addTileWithFallback_spec (h.adds hready) hlevel habove (hsame.trans hcurrent)
      havailable
    exact ⟨hready.trans hadds, hcurrent'.trans hsame⟩

/-! ## The descent -/

/-- A loop whose rounds add tiles, and keep something. -/
theorem foldlM_adds {α : Type} {f : TiledImageLayer → α → Option TiledImageLayer} {lines : α → List Line}
    {keeps : TiledImageLayer → Prop} (l : List α)
    (hstep : ∀ a ∈ l, ∀ layer, Assembling dc force textures levels layer → keeps layer →
      ∃ layer', f layer a = some layer' ∧ Adds dc force textures layer layer' (lines a) ∧ keeps layer') :
    ∀ layer, Assembling dc force textures levels layer → keeps layer →
      ∃ layer', l.foldlM f layer = some layer' ∧ Adds dc force textures layer layer' (l.flatMap lines) ∧
        keeps layer' := by
  induction l with
  | nil => exact fun layer h hkeeps => ⟨layer, rfl, Adds.refl dc force textures h, hkeeps⟩
  | cons a l ih =>
    intro layer h hkeeps
    obtain ⟨layer', hf, hadds, hkeeps'⟩ := hstep a List.mem_cons_self layer h hkeeps
    obtain ⟨layer'', hfold, hadds', hkeeps''⟩ :=
      ih (fun b hb => hstep b (List.mem_cons_of_mem _ hb)) layer' (h.adds hadds) hkeeps'
    refine ⟨layer'', ?_, hadds.trans hadds', hkeeps''⟩
    rw [List.foldlM_cons, hf]
    exact hfold

variable {tops : List Tile}

variable (textures) in
/-- The line of a tile ends at level zero. -/
theorem Descends.above_levels (htops : ∀ tile ∈ tops, tile.level = levels.level 0) {line : Line}
    (h : Descends levels tops line) :
    (line.2.Pairwise fun tile _ => tile.level.levelNumber ≠ 0) ∧
      (line.2 ≠ [] → registered textures line.2 ≠ none) := by
  induction h with
  | top htile => exact ⟨List.Pairwise.nil, fun hne => absurd rfl hne⟩
  | @child tile above child h hchild ih =>
    have hlevel := h.level_eq htops
    constructor
    · refine List.pairwise_cons.2 ⟨fun tile' htile' => ?_, ih.1⟩
      have := List.length_pos_of_mem htile'
      dsimp only at hlevel
      omega
    · intro _
      unfold registered
      by_cases hreg : tile.tileKey ∈ textures ∨ tile.level.levelNumber = 0
      · rw [List.find?_cons_of_pos (by simpa using hreg)]
        exact Option.some_ne_none tile
      · rw [List.find?_cons_of_neg (by simpa using hreg)]
        refine ih.2 fun hnil => hreg (Or.inr ?_)
        dsimp only at hlevel hnil
        rw [hlevel, hnil]
        rfl

theorem choice_ne_discard {tile : Tile} {above : List Tile} (habove : above ≠ []) :
    choice dc levels (tile, above) ≠ .discard ↔
      (levels.sector.intersects tile.sector && dc.isTileVisible tile) = true := by
  unfold choice
  by_cases hvisible : dc.isTileVisible tile = true
  · by_cases hin : levels.sector.intersects tile.sector = true
    · rw [if_neg (by simp [hvisible, hin])]
      by_cases hmeets : meetsRenderCriteria dc levels tile = true <;> simp [hmeets, hvisible, hin]
    · simp [hvisible, hin, habove]
  · simp [hvisible]

theorem choice_eq {line : Line} (h : choice dc levels line ≠ .discard) :
    choice dc levels line = if meetsRenderCriteria dc levels line.1 then .take else .descend := by
  unfold choice at h ⊢
  split
  · rename_i hdiscard
    rw [if_pos hdiscard] at h
    exact absurd rfl h
  · rfl

/-- **The descent returns**, and adds the taken ends; below level zero it puts the
registered tile back. -/
theorem addTileOrDescendants_spec (htops : ∀ tile ∈ tops, tile.level = levels.level 0) (rounds : Nat) :
    ∀ (n : Nat) (tile : Tile) (above : List Tile) (layer : TiledImageLayer), Descends levels tops (tile, above) →
      Assembling dc force textures levels layer → layer.currentResourceTile = registered textures above →
      choice dc levels (tile, above) ≠ .discard → tile.level.levelNumber + n = levels.numLevels - 1 → n < rounds →
      ∃ layer', addTileOrDescendants dc rounds tile layer = some layer' ∧
        Adds dc force textures layer layer' (taken (choice dc levels) (subLines levels) n (tile, above)) ∧
        (above ≠ [] → layer'.currentResourceTile = layer.currentResourceTile) := by
  have hpos := levels.numLevels_pos
  induction rounds with
  | zero => exact fun n _ _ _ _ _ _ _ _ h => absurd h (Nat.not_lt_zero n)
  | succ rounds ih =>
    intro n tile above layer hline h hcurrent hchoice hn hrounds
    obtain ⟨habove, hregistered⟩ := hline.above_levels textures htops
    dsimp only at habove hregistered
    have hcriteria : meetsRenderCriteria dc layer.levels tile = meetsRenderCriteria dc levels tile := by rw [h.levels]
    unfold addTileOrDescendants
    rw [hcriteria]
    by_cases hmeets : meetsRenderCriteria dc levels tile = true
    · -- the tile itself is added
      have htake : choice dc levels (tile, above) = .take := (choice_eq hchoice).trans (if_pos hmeets)
      have hlevel : tile.level.levelNumber < levels.numLevels := by omega
      obtain ⟨hadds, hsame⟩ := addTile_spec h hlevel habove hcurrent
      rw [if_pos hmeets, taken_take htake]
      exact ⟨_, rfl, hadds, fun _ => hsame⟩
    · have hdescend : choice dc levels (tile, above) = .descend := (choice_eq hchoice).trans (if_neg hmeets)
      -- a tile of the final level would meet the criteria
      have hlevel : tile.level.levelNumber ≠ levels.numLevels - 1 := by
        intro hfinal
        apply hmeets
        unfold meetsRenderCriteria LevelSet.isFinalLevel
        simp [hfinal]
      obtain ⟨m, rfl⟩ : ∃ m, n = m + 1 := ⟨n - 1, by omega⟩
      rw [if_neg hmeets, taken_descend hdescend]
      have hnext : getLevel layer.levels (tile.level.levelNumber + 1) =
          some (levels.level (tile.level.levelNumber + 1)) := by
        rw [h.levels]
        exact if_pos (by omega)
      -- the loop over the sub-tiles, once a tile is registered
      have hloop : ∀ start : TiledImageLayer, Assembling dc force textures levels start →
          start.currentResourceTile = registered textures (tile :: above) →
          ∃ layer', (createSubTiles tile (levels.level (tile.level.levelNumber + 1))).foldlM (fun layer child =>
              if layer.levels.sector.intersects child.sector && dc.isTileVisible child then
                addTileOrDescendants dc rounds child layer
              else some layer) start = some layer' ∧
            Adds dc force textures start layer'
              ((subLines levels (tile, above)).flatMap (taken (choice dc levels) (subLines levels) m)) ∧
            layer'.currentResourceTile = registered textures (tile :: above) := by
        intro start hstart hreg
        unfold subLines
        rw [List.flatMap_map]
        refine foldlM_adds _ (fun child hchild layer h hcurrent => ?_) start hstart hreg
        rw [h.levels]
        by_cases hin : (levels.sector.intersects child.sector && dc.isTileVisible child) = true
        · have hchild' : child.level.levelNumber = tile.level.levelNumber + 1 := by
            rw [level_of_mem_createSubTiles hchild]
            rfl
          obtain ⟨layer', hrun, hadds, hsame⟩ := ih m child (tile :: above) layer (.child hline hchild) h hcurrent
            ((choice_ne_discard (List.cons_ne_nil _ _)).2 hin) (by omega) (by omega)
          rw [if_pos hin]
          exact ⟨layer', hrun, hadds, (hsame (List.cons_ne_nil _ _)).trans hcurrent⟩
        · have hdiscard : choice dc levels (child, tile :: above) = .discard := by
            by_contra hne
            exact hin ((choice_ne_discard (List.cons_ne_nil _ _)).1 hne)
          rw [if_neg hin, taken_discard hdiscard]
          exact ⟨layer, rfl, Adds.refl dc force textures h, hcurrent⟩
      by_cases hreg : tile.tileKey ∈ textures ∨ tile.level.levelNumber = 0
      · have hregisters : (layer.isTextureInMemory tile || decide (tile.level.levelNumber = 0)) = true := by
          rcases hreg with hmem | hzero
          · rw [show layer.isTextureInMemory tile = true from decide_eq_true (h.keeps _ hmem), Bool.true_or]
          · rw [decide_eq_true hzero, Bool.or_true]
        have hfind : some tile = registered textures (tile :: above) := by
          unfold registered
          rw [List.find?_cons_of_pos (by simpa using hreg)]
        obtain ⟨layer', hrun, hadds, hcurrent'⟩ := hloop { layer with currentResourceTile := some tile }
          (h.register _) hfind
        simp only [hregisters, if_true, hnext, Option.bind_eq_bind, Option.bind_some, hrun]
        cases hancestor : layer.currentResourceTile with
        | none =>
          refine ⟨_, rfl, hadds.register layer.currentResourceTile layer'.currentResourceTile, fun hne => ?_⟩
          exact absurd (hcurrent.symm.trans hancestor) (hregistered hne)
        | some r =>
          exact ⟨_, rfl, hadds.register layer.currentResourceTile (some r), fun _ => rfl⟩
      · have hregisters : (layer.isTextureInMemory tile || decide (tile.level.levelNumber = 0)) = false := by
          rw [not_or] at hreg
          rw [decide_eq_false hreg.2, Bool.or_false, ← Bool.not_eq_true, h.mem_iff hreg.2]
          exact hreg.1
        have hfind : registered textures above = registered textures (tile :: above) := by
          unfold registered
          rw [List.find?_cons_of_neg (by simpa using hreg)]
        obtain ⟨layer', hrun, hadds, hcurrent'⟩ := hloop layer h (hcurrent.trans hfind)
        simp only [hregisters, Bool.false_eq_true, if_false, hnext, Option.bind_eq_bind, Option.bind_some, hrun]
        exact ⟨_, rfl, hadds, fun _ => hcurrent'.trans (hfind.symm.trans hcurrent.symm)⟩

end

end WorldWind.Layers
