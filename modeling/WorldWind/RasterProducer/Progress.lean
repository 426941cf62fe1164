import WorldWind.RasterProducer.Theorems
import WorldWind.Lib.Descent
/-!
# The progress of a run

`calculateTileCount` counts, level by level, the rows and columns between the
corners of the level set's sector. `createTileRaster` calls `updateProgress`
for each tile it has drawn. Here a run carries the progress along: it draws
what it drew without (`installWithProgress_fst`), and calls `updateProgress`
for each cell that the descent from level zero enters
(`installWithProgress_eq`).
-/

namespace WorldWind.RasterProducer

open Geom Lib.JavaInt Lib.Quadtree Lib.Descent

variable {R : Type} (rasters : Rasters R) (levelSet : LevelSet) (params : LimitMaxLevel) (dataRasterList : List R)

/-! ## The fields and the events -/

/-- `tile`, `tileCount`, and the new values of the `AVKey.PROGRESS` events. -/
structure Progress where
  tile : Int
  tileCount : Int
  fired : List ℚ

def startProgress (p : Progress) : Progress :=
  { p with tile := 0, fired := p.fired ++ [0] }

def updateProgress (p : Progress) : Progress :=
  let tile := int (p.tile + 1)
  { p with tile := tile, fired := p.fired ++ [(tile : ℚ) / p.tileCount] }

/-- `Level.getTileDelta`: the delta of level zero, halved from level to level. -/
def tileDelta (levelNumber : Nat) : LatLon :=
  ⟨.fromDegrees (levelSet.levelZeroTileDelta.latitude.degrees / 2 ^ levelNumber),
    .fromDegrees (levelSet.levelZeroTileDelta.longitude.degrees / 2 ^ levelNumber)⟩

/-- The loop over the levels, with `tileCount` so far. -/
def calculateTileCount : List Level → Int → Option Int
  | [], tileCount => some tileCount
  | level :: levels, tileCount => do
    let sector := levelSet.sector
    let dLat := (tileDelta levelSet level.levelNumber).latitude
    let dLon := (tileDelta levelSet level.levelNumber).longitude
    let latOrigin := levelSet.tileOrigin.latitude
    let lonOrigin := levelSet.tileOrigin.longitude
    let firstRow ← computeRow dLat sector.minLatitude latOrigin
    let firstCol ← computeColumn dLon sector.minLongitude lonOrigin
    let lastRow ← computeRow dLat sector.maxLatitude latOrigin
    let lastCol ← computeColumn dLon sector.maxLongitude lonOrigin
    let tileCount := int (tileCount + int (int (int (lastRow - firstRow) + 1) * int (int (lastCol - firstCol) + 1)))
    if isFinalLevel levelSet params level.levelNumber then some tileCount else calculateTileCount levels tileCount

/-! ## A run that carries the progress -/

/-- `createTileRaster` with `updateProgress` after each tile. -/
def createTileRasterWithProgress : List Level → Tile → StateM Progress (Option R × List (Tile × R))
  | [], tile => do
    modify updateProgress
    return (drawDataSources rasters levelSet dataRasterList tile, [])
  | nextLevel :: levels, tile => do
    if isFinalLevel levelSet params tile.level.levelNumber then
      modify updateProgress
      return (drawDataSources rasters levelSet dataRasterList tile, [])
    else
      let subTiles := createSubTiles tile nextLevel
      let results ← subTiles.mapM fun subTile =>
        if subTile.sector.intersects levelSet.sector then createTileRasterWithProgress levels subTile
        else pure (none, [])
      modify updateProgress
      return drawSubRasters rasters tile subTiles results

/-- A run with its progress, from the fields before it. -/
def installWithProgress (p : Progress) : Option (List (Tile × R) × Progress) := do
  let tileCount ← calculateTileCount levelSet params (levelSet.level 0 :: levelSet.levelsAfter 0) 0
  let tiles ← topLevelTiles levelSet
  let run := tiles.mapM fun tile => do
    let result ← createTileRasterWithProgress rasters levelSet params dataRasterList (levelSet.levelsAfter 0) tile
    return result.2 ++ installTileRasterLater tile result.1
  let (installed, progress) := run (startProgress { p with tileCount := tileCount })
  some (installed.flatten, progress)

/-- The calls of `updateProgress` for a tile and the tiles under it. -/
def updates : List Level → Tile → Nat
  | [], _ => 1
  | nextLevel :: levels, tile =>
    if isFinalLevel levelSet params tile.level.levelNumber then 1
    else
      1 + ((createSubTiles tile nextLevel).map fun subTile =>
        if subTile.sector.intersects levelSet.sector then updates levels subTile else 0).sum

/-! ## What a run draws and calls -/

variable {rasters levelSet params dataRasterList}

theorem run_mapM {α β : Type} {f : α → StateM Progress β} {g : α → β} {n : α → Nat} (l : List α)
    (h : ∀ a p, f a p = (g a, updateProgress^[n a] p)) (p : Progress) :
    l.mapM f p = (l.map g, updateProgress^[(l.map n).sum] p) := by
  induction l generalizing p with
  | nil => rfl
  | cons a l ih =>
    rw [List.mapM_cons, List.map_cons, List.map_cons, List.sum_cons, Nat.add_comm, Function.iterate_add_apply]
    simp only [bind, StateT.bind, pure, StateT.pure, h, ih]

theorem createTileRasterWithProgress_eq (levels : List Level) (tile : Tile) (p : Progress) :
    createTileRasterWithProgress rasters levelSet params dataRasterList levels tile p
      = (createTileRaster rasters levelSet params dataRasterList levels tile,
        updateProgress^[updates levelSet params levels tile] p) := by
  induction levels generalizing tile p with
  | nil => rfl
  | cons nextLevel levels ih =>
    rw [createTileRasterWithProgress, createTileRaster, updates]
    by_cases hfinal : isFinalLevel levelSet params tile.level.levelNumber = true
    · rw [if_pos hfinal, if_pos hfinal, if_pos hfinal]
      rfl
    · rw [if_neg hfinal, if_neg hfinal, if_neg hfinal]
      have hrun := run_mapM (createSubTiles tile nextLevel)
        (f := fun subTile => if subTile.sector.intersects levelSet.sector then
          createTileRasterWithProgress rasters levelSet params dataRasterList levels subTile else pure (none, []))
        (g := fun subTile => if subTile.sector.intersects levelSet.sector then
          createTileRaster rasters levelSet params dataRasterList levels subTile else (none, []))
        (n := fun subTile => if subTile.sector.intersects levelSet.sector then updates levelSet params levels subTile else 0)
        (by
          intro subTile p
          by_cases hmeets : subTile.sector.intersects levelSet.sector = true
          · rw [if_pos hmeets, if_pos hmeets, if_pos hmeets, ih]
          · rw [if_neg hmeets, if_neg hmeets, if_neg hmeets]
            rfl) p
      simp only [bind, StateT.bind, hrun]
      rw [Nat.add_comm, Function.iterate_succ_apply']
      rfl

/-! ## The cells a run enters -/

variable (levelSet) in
def rowMeets (level row : Nat) : Bool :=
  (gridAngle levelSet.tileOrigin.latitude levelSet.levelZeroTileDelta.latitude level row).degrees
      ≤ levelSet.sector.maxLatitude.degrees ∧
    levelSet.sector.minLatitude.degrees
      ≤ (gridAngle levelSet.tileOrigin.latitude levelSet.levelZeroTileDelta.latitude level (row + 1)).degrees

variable (levelSet) in
def columnMeets (level column : Nat) : Bool :=
  (gridAngle levelSet.tileOrigin.longitude levelSet.levelZeroTileDelta.longitude level column).degrees
      ≤ levelSet.sector.maxLongitude.degrees ∧
    levelSet.sector.minLongitude.degrees
      ≤ (gridAngle levelSet.tileOrigin.longitude levelSet.levelZeroTileDelta.longitude level (column + 1)).degrees

theorem meets_iff (c : Cell) : (gridSector levelSet c).intersects levelSet.sector = true ↔
    rowMeets levelSet c.level c.row = true ∧ columnMeets levelSet c.level c.column = true := by
  rw [Sector.intersects, rowMeets, columnMeets, decide_eq_true_eq, decide_eq_true_eq, decide_eq_true_eq]
  simp only [gridSector, not_lt, gt_iff_lt]
  tauto

theorem nested_rowMeets (hdelta : PositiveDelta levelSet) : Nested (rowMeets levelSet) := by
  intro l i h
  have hbetween := gridAngle_between levelSet.tileOrigin.latitude hdelta.1 l (show i / 2 ^ 1 = i / 2 by simp)
  rw [rowMeets, decide_eq_true_eq] at h ⊢
  exact ⟨hbetween.1.trans h.1, h.2.trans hbetween.2⟩

theorem nested_columnMeets (hdelta : PositiveDelta levelSet) : Nested (columnMeets levelSet) := by
  intro l i h
  have hbetween := gridAngle_between levelSet.tileOrigin.longitude hdelta.2 l (show i / 2 ^ 1 = i / 2 by simp)
  rw [columnMeets, decide_eq_true_eq] at h ⊢
  exact ⟨hbetween.1.trans h.1, h.2.trans hbetween.2⟩

theorem map_eq_of_stands {α : Type} {f : Tile → α} {g : Cell → α} {tiles : List Tile} {cells : List Cell}
    (h : List.Forall₂ (Stands levelSet) tiles cells) (hfg : ∀ tile c, c ∈ cells → Stands levelSet tile c →
      f tile = g c) :
    tiles.map f = cells.map g := by
  induction h with
  | nil => rfl
  | cons hst _ ih =>
    rw [List.map_cons, List.map_cons, hfg _ _ List.mem_cons_self hst,
      ih fun tile c hc => hfg tile c (List.mem_cons_of_mem _ hc)]

/-- The tiles under a tile are drawn for the cells a descent enters. -/
theorem updates_eq (n : Nat) : ∀ (c : Cell) (tile : Tile), Stands levelSet tile c →
    c.level + n = finalLevel levelSet params →
    updates levelSet params (levelSet.levelsAfter c.level) tile
      = visits (rowMeets levelSet) (columnMeets levelSet) n c.level c.row c.column := by
  have hfinal := finalLevel_le levelSet params
  induction n with
  | zero =>
    intro c tile hst hlevel
    have hisFinal : isFinalLevel levelSet params tile.level.levelNumber = true := by
      rw [hst.level_eq]
      exact (isFinalLevel_iff (by simp only [LevelSet.level]; omega)).2 hlevel
    cases levelSet.levelsAfter c.level with
    | nil => rfl
    | cons nextLevel levels => rw [updates, if_pos hisFinal, visits]
  | succ n ih =>
    intro c tile hst hlevel
    have hnot : isFinalLevel levelSet params tile.level.levelNumber ≠ true := by
      rw [hst.level_eq]
      intro h
      have := (isFinalLevel_iff (by simp only [LevelSet.level]; omega)).1 h
      simp only [LevelSet.level] at this
      omega
    rw [levelsAfter_cons (by omega), updates, if_neg hnot, map_eq_of_stands (stands_createSubTiles hst)
      (g := fun d => if rowMeets levelSet d.level d.row ∧ columnMeets levelSet d.level d.column then
        visits (rowMeets levelSet) (columnMeets levelSet) n d.level d.row d.column else 0)]
    · rw [visits]
      simp only [Cell.children, List.map_cons, List.map_nil, List.sum_cons, List.sum_nil]
      omega
    · intro subTile d hd hsub
      have hdl := (mem_children.1 hd).1
      rw [hsub.sector_eq]
      by_cases hmeets : (gridSector levelSet d).intersects levelSet.sector = true
      · rw [if_pos hmeets, if_pos ((meets_iff d).1 hmeets), ← ih d subTile hsub (by omega), hdl]
      · rw [if_neg hmeets, if_neg fun h => hmeets ((meets_iff d).2 h)]

/-! ## The tile count -/

variable (levelSet) in
/-- The rows that are counted on a level. -/
def rowCount (l : Nat) : Int :=
  (computeRow (tileDelta levelSet l).latitude levelSet.sector.maxLatitude levelSet.tileOrigin.latitude).getD 0
    - (computeRow (tileDelta levelSet l).latitude levelSet.sector.minLatitude levelSet.tileOrigin.latitude).getD 0 + 1

variable (levelSet) in
/-- The columns that are counted on a level. -/
def columnCount (l : Nat) : Int :=
  (computeColumn (tileDelta levelSet l).longitude levelSet.sector.maxLongitude levelSet.tileOrigin.longitude).getD 0
    - (computeColumn (tileDelta levelSet l).longitude levelSet.sector.minLongitude levelSet.tileOrigin.longitude).getD 0
    + 1

theorem computeRow_isSome_iff {delta latitude : Angle} (origin : Angle) :
    (∃ row, computeRow delta latitude origin = some row) ↔
    0 < delta.degrees ∧ -90 ≤ latitude.degrees ∧ latitude.degrees ≤ 90 := by
  rw [computeRow]
  by_cases hdelta : delta.degrees ≤ 0
  · rw [if_pos hdelta]
    simp [hdelta.not_gt]
  · rw [if_neg hdelta]
    by_cases hrange : latitude.degrees < -90 ∨ latitude.degrees > 90
    · rw [if_pos hrange]
      rcases hrange with h | h <;> simp [h.not_ge]
    · rw [if_neg hrange]
      push Not at hrange
      simpa using ⟨lt_of_not_ge hdelta, hrange.1, hrange.2⟩

theorem computeColumn_isSome_iff {delta longitude : Angle} (origin : Angle) :
    (∃ column, computeColumn delta longitude origin = some column) ↔
      0 < delta.degrees ∧ -180 ≤ longitude.degrees ∧ longitude.degrees ≤ 180 := by
  rw [computeColumn]
  by_cases hdelta : delta.degrees ≤ 0
  · rw [if_pos hdelta]
    simp [hdelta.not_gt]
  · rw [if_neg hdelta]
    by_cases hrange : longitude.degrees < -180 ∨ longitude.degrees > 180
    · rw [if_pos hrange]
      rcases hrange with h | h <;> simp [h.not_ge]
    · rw [if_neg hrange]
      push Not at hrange
      simpa using ⟨lt_of_not_ge hdelta, hrange.1, hrange.2⟩

variable (levelSet) in
/-- What `computeRow` and `computeColumn` accept on every level. -/
structure Accepted : Prop where
  delta_pos : PositiveDelta levelSet
  minLatitude : -90 ≤ levelSet.sector.minLatitude.degrees ∧ levelSet.sector.minLatitude.degrees ≤ 90
  maxLatitude : -90 ≤ levelSet.sector.maxLatitude.degrees ∧ levelSet.sector.maxLatitude.degrees ≤ 90
  minLongitude : -180 ≤ levelSet.sector.minLongitude.degrees ∧ levelSet.sector.minLongitude.degrees ≤ 180
  maxLongitude : -180 ≤ levelSet.sector.maxLongitude.degrees ∧ levelSet.sector.maxLongitude.degrees ≤ 180

theorem tileDelta_pos (hdelta : PositiveDelta levelSet) (l : Nat) :
    0 < (tileDelta levelSet l).latitude.degrees ∧ 0 < (tileDelta levelSet l).longitude.degrees := by
  obtain ⟨hlat, hlon⟩ := hdelta
  exact ⟨div_pos hlat (by positivity), div_pos hlon (by positivity)⟩

theorem int_add_int_mul (x r c : Int) : int (x + int (int r * int c)) = int (x + r * c) := by
  rw [int_mul_int, int_int_mul, int_add_int]

theorem calculateTileCount_eq (h : Accepted levelSet) (n : Nat) : ∀ (l : Nat) (tileCount : Int),
    l + n = finalLevel levelSet params →
    calculateTileCount levelSet params (levelSet.level l :: levelSet.levelsAfter l) tileCount
      = some (int (tileCount + ∑ k ∈ Finset.Ico l (finalLevel levelSet params + 1),
        rowCount levelSet k * columnCount levelSet k)) := by
  have hfinal := finalLevel_le levelSet params
  have hcount : ∀ (l : Nat) (levels : List Level) (tileCount : Int),
      calculateTileCount levelSet params (levelSet.level l :: levels) tileCount
        = if isFinalLevel levelSet params l then
            some (int (tileCount + rowCount levelSet l * columnCount levelSet l))
          else calculateTileCount levelSet params levels
            (int (tileCount + rowCount levelSet l * columnCount levelSet l)) := by
    intro l levels tileCount
    obtain ⟨hlat, hlon⟩ := tileDelta_pos h.delta_pos l
    obtain ⟨firstRow, hfirstRow⟩ := (computeRow_isSome_iff levelSet.tileOrigin.latitude).2 ⟨hlat, h.minLatitude⟩
    obtain ⟨lastRow, hlastRow⟩ := (computeRow_isSome_iff levelSet.tileOrigin.latitude).2 ⟨hlat, h.maxLatitude⟩
    obtain ⟨firstCol, hfirstCol⟩ := (computeColumn_isSome_iff levelSet.tileOrigin.longitude).2 ⟨hlon, h.minLongitude⟩
    obtain ⟨lastCol, hlastCol⟩ := (computeColumn_isSome_iff levelSet.tileOrigin.longitude).2 ⟨hlon, h.maxLongitude⟩
    rw [calculateTileCount]
    simp only [LevelSet.level, hfirstRow, hlastRow, hfirstCol, hlastCol, Option.bind_eq_bind, Option.bind_some,
      int_int_add, int_add_int_mul, rowCount, columnCount, Option.getD_some]
  induction n with
  | zero =>
    intro l tileCount hl
    rw [Nat.add_zero] at hl
    rw [hcount, if_pos ((isFinalLevel_iff hl.le).2 hl), ← hl, Finset.sum_Ico_succ_top le_rfl, Finset.Ico_self,
      Finset.sum_empty, Int.zero_add]
  | succ n ih =>
    intro l tileCount hl
    have hnot : isFinalLevel levelSet params l ≠ true := by
      intro hf
      have := (isFinalLevel_iff (by omega)).1 hf
      omega
    have hlt : l < finalLevel levelSet params + 1 := by omega
    rw [hcount, if_neg hnot, levelsAfter_cons (by omega), ih (l + 1) _ (by omega), int_int_add,
      Finset.sum_eq_sum_Ico_succ_bot hlt, Int.add_assoc]

end WorldWind.RasterProducer
