import WorldWind.RasterProducer.Model
import WorldWind.Lib.Quadtree
/-!
# Which tiles are installed

A tile is wanted if its level is not empty and a final-level tile under it
meets the level set and a data raster that meets the level set. The sub-tiles
of a tile on an empty level are drawn but never handed to the writers, so
behind empty levels the first level with a name is lost, and with it all that
would be drawn from it. `installs_iff` says when a run hands over exactly the
wanted tiles.
-/

namespace WorldWind.RasterProducer

open Geom Lib.JavaInt Lib.Quadtree

variable {R : Type} (rasters : Rasters R) (levelSet : LevelSet) (params : LimitMaxLevel) (dataRasterList : List R)

/-! ## What is wanted -/

/-- The last level of a run. -/
def finalLevel : Nat := min (levelSet.numLevels - 1) (extractMaxLevelLimit params (levelSet.numLevels - 1)).toNat

/-- Where a tile of the grid is, along one axis. -/
def gridAngle (origin delta : Angle) (level index : Nat) : Angle :=
  .fromDegrees (origin.degrees + index * (delta.degrees / 2 ^ level))

def gridSector (c : Cell) : Sector :=
  ⟨gridAngle levelSet.tileOrigin.latitude levelSet.levelZeroTileDelta.latitude c.level c.row,
    gridAngle levelSet.tileOrigin.latitude levelSet.levelZeroTileDelta.latitude c.level (c.row + 1),
    gridAngle levelSet.tileOrigin.longitude levelSet.levelZeroTileDelta.longitude c.level c.column,
    gridAngle levelSet.tileOrigin.longitude levelSet.levelZeroTileDelta.longitude c.level (c.column + 1)⟩

/-- A tile meets the sector of the level set. -/
def Meets (c : Cell) : Prop := (gridSector levelSet c).intersects levelSet.sector = true

/-- A tile meets a data raster that meets the level set. -/
def HasData (c : Cell) : Prop :=
  ∃ raster ∈ dataRasterList, (rasters.getSector raster).intersects (gridSector levelSet c) = true ∧
    (rasters.getSector raster).intersects levelSet.sector = true

/-- A tile of the final level that is drawn from data. -/
structure Source (d : Cell) : Prop where
  level_eq : d.level = finalLevel levelSet params
  meets : Meets levelSet d
  hasData : HasData rasters levelSet dataRasterList d

/-- A final-level tile that is drawn from data lies under a tile, or is it. -/
def Covered (c : Cell) : Prop := ∃ d, Source rasters levelSet params dataRasterList d ∧ Under d c

/-- A tile that a run should hand to the writers. -/
def Wanted (c : Cell) : Prop :=
  (levelSet.level c.level).isEmpty = false ∧ Covered rasters levelSet params dataRasterList c

/-- The level, row and column of a tile. -/
structure TileKey where
  level : Nat
  row : Int
  column : Int

def Tile.tileKey (tile : Tile) : TileKey := ⟨tile.level.levelNumber, tile.row, tile.column⟩

def cellKey (c : Cell) : TileKey := ⟨c.level, c.row, c.column⟩

/-- The run hands over exactly the wanted tiles, each once. -/
def Exactly (installed : List (Tile × R)) : Prop :=
  (installed.map fun t => t.1.tileKey).Nodup ∧
    ∀ k, k ∈ installed.map (fun t => t.1.tileKey) ↔
      ∃ c, Wanted rasters levelSet params dataRasterList c ∧ k = cellKey c

/-! ## The grid -/

variable {rasters levelSet params dataRasterList}

theorem isFinalLevel_iff {l : Nat} (h : l ≤ finalLevel levelSet params) :
    isFinalLevel levelSet params l = true ↔ l = finalLevel levelSet params := by
  rw [isFinalLevel, LevelSet.isFinalLevel]
  rw [finalLevel] at h ⊢
  split
  · rename_i heq
    rw [decide_eq_true_eq] at heq
    simp only [true_iff]
    omega
  · rename_i hne
    rw [decide_eq_true_eq] at hne ⊢
    omega

variable (levelSet params) in
theorem finalLevel_le : finalLevel levelSet params ≤ levelSet.numLevels - 1 := Nat.min_le_left _ _

/-- A tile stands for a cell of the grid. -/
structure Stands (levelSet : LevelSet) (tile : Tile) (c : Cell) : Prop where
  sector_eq : tile.sector = gridSector levelSet c
  level_eq : tile.level = levelSet.level c.level
  row_eq : tile.row = int c.row
  column_eq : tile.column = int c.column

/-- An `int` that is doubled and wrapped. -/
theorem int_two_mul (x y : Int) : int (2 * int x + y) = int (2 * x + y) := by
  have h : (2 * int x + y) % 2 ^ 32 = (2 * x + y) % 2 ^ 32 := by
    rw [Int.add_emod, Int.mul_emod, int_mod, ← Int.mul_emod, ← Int.add_emod]
  rw [← int_emod, h, int_emod]

theorem gridAngle_even (origin delta : Angle) (level index : Nat) :
    gridAngle origin delta (level + 1) (2 * index) = gridAngle origin delta level index := by
  rw [gridAngle, gridAngle, pow_succ]
  congr 1
  push_cast
  ring

theorem gridAngle_mid (origin delta : Angle) (level index : Nat) :
    Angle.fromDegrees (1 / 2 * ((gridAngle origin delta level index).degrees +
      (gridAngle origin delta level (index + 1)).degrees)) = gridAngle origin delta (level + 1) (2 * index + 1) := by
  rw [gridAngle, gridAngle, gridAngle, pow_succ]
  simp only [Angle.fromDegrees]
  congr 1
  push_cast
  ring

/-- The sub-tiles of a tile stand for the children of its cell. -/
theorem stands_createSubTiles {tile : Tile} {c : Cell} (h : Stands levelSet tile c) :
    List.Forall₂ (Stands levelSet) (createSubTiles tile (levelSet.level (c.level + 1))) c.children := by
  have heven := fun origin delta index => gridAngle_even origin delta c.level index
  have hnext : ∀ (origin delta : Angle) (index : Nat),
      gridAngle origin delta (c.level + 1) (2 * index + 1 + 1) = gridAngle origin delta c.level (index + 1) :=
    fun origin delta index => gridAngle_even origin delta c.level (index + 1)
  have hrow := int_two_mul c.row
  have hcolumn := int_two_mul c.column
  rw [createSubTiles, h.sector_eq, h.row_eq, h.column_eq]
  simp only [gridSector, gridAngle_mid, Cell.children]
  have hrow0 := hrow 0
  have hcolumn0 := hcolumn 0
  rw [add_zero, add_zero] at hrow0 hcolumn0
  refine .cons ?_ (.cons ?_ (.cons ?_ (.cons ?_ .nil)))
  · exact ⟨by simp only [gridSector, heven], rfl, by push_cast; exact hrow0, by push_cast; exact hcolumn0⟩
  · exact ⟨by simp only [gridSector, heven, hnext], rfl, by push_cast; exact hrow0, by push_cast; exact hcolumn 1⟩
  · exact ⟨by simp only [gridSector, hnext], rfl, by push_cast; exact hrow 1, by push_cast; exact hcolumn 1⟩
  · exact ⟨by simp only [gridSector, heven, hnext], rfl, by push_cast; exact hrow 1, by push_cast; exact hcolumn0⟩

/-- The tile deltas are positive; otherwise the run throws. -/
def PositiveDelta (levelSet : LevelSet) : Prop :=
  0 < levelSet.levelZeroTileDelta.latitude.degrees ∧ 0 < levelSet.levelZeroTileDelta.longitude.degrees

/-- The angles of a cell are between those of a cell above it. -/
theorem gridAngle_between (origin : Angle) {delta : Angle} (hdelta : 0 < delta.degrees) (level : Nat)
    {k index i : Nat}
    (h : index / 2 ^ k = i) :
    (gridAngle origin delta level i).degrees ≤ (gridAngle origin delta (level + k) index).degrees ∧
      (gridAngle origin delta (level + k) (index + 1)).degrees ≤ (gridAngle origin delta level (i + 1)).degrees := by
  have h1 : i * 2 ^ k ≤ index := h ▸ Nat.div_mul_le_self index (2 ^ k)
  have h2 : index + 1 ≤ (i + 1) * 2 ^ k := by
    have := Nat.lt_div_mul_add (a := index) (Nat.two_pow_pos k)
    rw [h] at this
    rw [Nat.add_mul, Nat.one_mul]
    omega
  have hpos : 0 < delta.degrees / 2 ^ (level + k) := by positivity
  have hscale : ∀ j : Nat, (j : ℚ) * (delta.degrees / 2 ^ level) =
      (j * 2 ^ k : Nat) * (delta.degrees / 2 ^ (level + k)) := by
    intro j
    rw [pow_add]
    push_cast
    field_simp
  simp only [gridAngle, Angle.fromDegrees, hscale]
  refine ⟨add_le_add_right (mul_le_mul_of_nonneg_right ?_ hpos.le) _,
    add_le_add_right (mul_le_mul_of_nonneg_right ?_ hpos.le) _⟩
  · exact_mod_cast h1
  · exact_mod_cast h2

/-- What a tile meets, the tiles above it meet. -/
theorem meets_of_under (hdelta : PositiveDelta levelSet) {c d : Cell} (h : Under d c) (hd : Meets levelSet d) :
    Meets levelSet c := by
  obtain ⟨k, hk, hr, hc⟩ := h
  have hlat := gridAngle_between levelSet.tileOrigin.latitude hdelta.1 c.level hr
  have hlon := gridAngle_between levelSet.tileOrigin.longitude hdelta.2 c.level hc
  rw [Meets, gridSector, Sector.intersects, decide_eq_true_eq] at hd ⊢
  rw [hk] at hd
  simp only [not_lt, gt_iff_lt] at hd ⊢
  obtain ⟨h1, h2, h3, h4⟩ := hd
  exact ⟨hlon.1.trans h1, h2.trans hlon.2, hlat.1.trans h3, h4.trans hlat.2⟩

/-! ## Coverage -/

section
variable {c : Cell}

theorem Covered.level_le (h : Covered rasters levelSet params dataRasterList c) :
    c.level ≤ finalLevel levelSet params := by
  obtain ⟨d, hd, hu⟩ := h
  exact hd.level_eq ▸ hu.level_le

theorem Covered.meets (hdelta : PositiveDelta levelSet) (h : Covered rasters levelSet params dataRasterList c) :
    Meets levelSet c := by
  obtain ⟨d, hd, hu⟩ := h
  exact meets_of_under hdelta hu hd.meets

theorem Covered.of_under {d : Cell} (h : Covered rasters levelSet params dataRasterList d) (hu : Under d c) :
    Covered rasters levelSet params dataRasterList c := by
  obtain ⟨e, he, hue⟩ := h
  exact ⟨e, he, hue.trans hu⟩

theorem covered_final (hl : c.level = finalLevel levelSet params) :
    Covered rasters levelSet params dataRasterList c ↔ Meets levelSet c ∧
      HasData rasters levelSet dataRasterList c := by
  constructor
  · rintro ⟨d, hd, hu⟩
    obtain rfl := hu.eq (Under.refl d) (hl.trans hd.level_eq.symm)
    exact ⟨hd.meets, hd.hasData⟩
  · rintro ⟨hm, hdata⟩
    exact ⟨c, ⟨hl, hm, hdata⟩, Under.refl c⟩

theorem covered_iff_children (hl : c.level < finalLevel levelSet params) :
    Covered rasters levelSet params dataRasterList c ↔
      ∃ x ∈ c.children, Covered rasters levelSet params dataRasterList x := by
  constructor
  · rintro ⟨d, hd, hu⟩
    obtain ⟨x, hx, hux⟩ := (under_iff_children (hd.level_eq ▸ hl)).1 hu
    exact ⟨x, hx, d, hd, hux⟩
  · rintro ⟨x, hx, h⟩
    exact h.of_under (under_of_mem_children hx)

/-- Some levels are not empty. -/
def Named (levelSet : LevelSet) (first last : Nat) : Prop :=
  ∀ i, first ≤ i → i ≤ last → (levelSet.level i).isEmpty = false

theorem named_cons {first last : Nat} (h : first < last) :
    Named levelSet first last ↔ (levelSet.level first).isEmpty = false ∧ Named levelSet (first + 1) last := by
  constructor
  · exact fun hn => ⟨hn first le_rfl h.le, fun i hi hl => hn i (by omega) hl⟩
  · rintro ⟨hf, hn⟩ i hi hl
    rcases Nat.eq_or_lt_of_le hi with rfl | hlt
    · exact hf
    · exact hn i hlt hl

/-- A tile of the final level, or another without sub-tiles, is drawn if its
level has a name and there is data. -/
theorem drawDataSources_isSome {tile : Tile} (h : Stands levelSet tile c) :
    (drawDataSources rasters levelSet dataRasterList tile).isSome = true ↔
      (levelSet.level c.level).isEmpty = false ∧ HasData rasters levelSet dataRasterList c := by
  have hdata : intersectingRasters rasters levelSet dataRasterList tile ≠ [] ↔
      HasData rasters levelSet dataRasterList c := by
    rw [intersectingRasters, ne_eq, List.filter_eq_nil_iff, HasData, h.sector_eq]
    push Not
    simp only [Bool.and_eq_true]
  rw [drawDataSources, h.level_eq, ← hdata]
  by_cases hempty : (levelSet.level c.level).isEmpty = true
  · simp [hempty]
  · rw [Bool.not_eq_true] at hempty
    by_cases hne : intersectingRasters rasters levelSet dataRasterList tile = [] <;> simp [hempty, hne]

end

/-! ## Drawing a tile -/

/-- A key as the producer computes it. -/
def wrappedKey (c : Cell) : TileKey := ⟨c.level, int c.row, int c.column⟩

theorem Stands.tileKey {tile : Tile} {c : Cell} (h : Stands levelSet tile c) : tile.tileKey = wrappedKey c := by
  rw [Tile.tileKey, h.level_eq, h.row_eq, h.column_eq]
  rfl

variable (rasters levelSet params dataRasterList) in
/-- What a tile below level zero needs to be installed: its own level has a name
and so have those to the final one and, on account of its parent, the level
before. -/
def Installed (d : Cell) : Prop :=
  Named levelSet (d.level - 1) (finalLevel levelSet params) ∧ Covered rasters levelSet params dataRasterList d

open Classical in
variable (rasters levelSet params dataRasterList) in
/-- What becomes of a tile: whether it is drawn, and what is installed below it. -/
structure Result (c : Cell) (result : Option R × List (Tile × R)) : Prop where
  drawn : result.1.isSome = true ↔
    Named levelSet c.level (finalLevel levelSet params) ∧ Covered rasters levelSet params dataRasterList c
  keys_eq : result.2.map (fun t => t.1.tileKey) =
    ((below (finalLevel levelSet params - c.level) c).filter
      (Installed rasters levelSet params dataRasterList)).map wrappedKey

open Classical in
/-- The keys of the sub-tiles that have a raster. -/
theorem keys_installTileRasterLater {Q : Cell → Prop} {tiles : List Tile} {cells : List Cell}
    (h : List.Forall₂ (Stands levelSet) tiles cells) {f : Tile → Option R}
    (hf : ∀ tile ∈ tiles, ∀ c, Stands levelSet tile c → c ∈ cells → ((f tile).isSome = true ↔ Q c)) :
    (List.zipWith installTileRasterLater tiles (tiles.map f)).flatten.map (fun t => t.1.tileKey) =
      (cells.filter Q).map wrappedKey := by
  induction h with
  | nil => rfl
  | @cons tile c tiles cells hst hrest ih =>
    have hhead := hf tile List.mem_cons_self c hst List.mem_cons_self
    have htail := ih fun tile' ht c' hst' hc' => hf tile' (List.mem_cons_of_mem _ ht) c' hst'
        (List.mem_cons_of_mem _ hc')
    rw [List.map_cons, List.zipWith_cons_cons, List.flatten_cons, List.map_append, htail, List.filter_cons]
    cases hr : f tile with
    | none =>
      rw [hr] at hhead
      rw [if_neg (by simpa using hhead)]
      rfl
    | some raster =>
      rw [hr] at hhead
      rw [if_pos (by simpa using hhead), List.map_cons, ← hst.tileKey]
      rfl

theorem keys_flatMap {tiles : List Tile} {cells : List Cell} (h : List.Forall₂ (Stands levelSet) tiles cells)
    {f : Tile → List (Tile × R)} {g : Cell → List TileKey}
    (hf : ∀ tile c, Stands levelSet tile c → c ∈ cells → (f tile).map (fun t => t.1.tileKey) = g c) :
    (tiles.flatMap f).map (fun t => t.1.tileKey) = cells.flatMap g := by
  induction h with
  | nil => rfl
  | @cons tile c tiles cells hst hrest ih =>
    rw [List.flatMap_cons, List.map_append, List.flatMap_cons, hf tile c hst List.mem_cons_self,
      ih fun tile' c' hst' hc' => hf tile' c' hst' (List.mem_cons_of_mem _ hc')]

theorem any_isSome {Q : Cell → Prop} {tiles : List Tile} {cells : List Cell}
    (h : List.Forall₂ (Stands levelSet) tiles cells) {f : Tile → Option R}
    (hf : ∀ tile c, Stands levelSet tile c → c ∈ cells → ((f tile).isSome = true ↔ Q c)) :
    ((tiles.map f).any fun raster => raster.isSome) = true ↔ ∃ c ∈ cells, Q c := by
  induction h with
  | nil => simp
  | @cons tile c tiles cells hst hrest ih =>
    rw [List.map_cons, List.any_cons, Bool.or_eq_true, hf tile c hst List.mem_cons_self,
      ih fun tile' c' hst' hc' => hf tile' c' hst' (List.mem_cons_of_mem _ hc'), List.exists_mem_cons_iff]

/-- From the sub-tiles to the tile. -/
theorem result_drawSubRasters {tile : Tile} {c : Cell} (h : Stands levelSet tile c)
    (hlevel : c.level < finalLevel levelSet params) {subTiles : List Tile}
    (hsub : List.Forall₂ (Stands levelSet) subTiles c.children) {f : Tile → Option R × List (Tile × R)}
    (hf : ∀ subTile x, Stands levelSet subTile x → x ∈ c.children →
      Result rasters levelSet params dataRasterList x (f subTile)) :
    Result rasters levelSet params dataRasterList c (drawSubRasters rasters tile subTiles (subTiles.map f)) := by
  classical
  have hlevels : ∀ x ∈ c.children, x.level = c.level + 1 := fun x hx => (mem_children.1 hx).1
  -- some sub-tile is drawn
  have hany : ((subTiles.map fun t => (f t).1).any fun raster => raster.isSome) = true ↔
      Named levelSet (c.level + 1) (finalLevel levelSet params) ∧
        Covered rasters levelSet params dataRasterList c := by
    rw [any_isSome hsub fun subTile x hst hx => (hf subTile x hst hx).drawn, covered_iff_children hlevel]
    constructor
    · rintro ⟨x, hx, hn, hc⟩
      exact ⟨hlevels x hx ▸ hn, x, hx, hc⟩
    · rintro ⟨hn, x, hx, hc⟩
      exact ⟨x, hx, (hlevels x hx).symm ▸ hn, hc⟩
  have hbelow : ((subTiles.map f).flatMap Prod.snd).map (fun t => t.1.tileKey) =
      c.children.flatMap fun x => ((below (finalLevel levelSet params - c.level - 1) x).filter
        (Installed rasters levelSet params dataRasterList)).map wrappedKey := by
    rw [List.flatMap_map]
    refine keys_flatMap hsub fun subTile x hst hx => ?_
    rw [(hf subTile x hst hx).keys_eq, hlevels x hx, Nat.sub_sub]
  have hcells : below (finalLevel levelSet params - c.level) c =
      c.children.flatMap (below (finalLevel levelSet params - c.level - 1)) ++ c.children := by
    obtain ⟨k, hk⟩ : ∃ k, finalLevel levelSet params - c.level = k + 1 :=
        ⟨finalLevel levelSet params - c.level - 1, by omega⟩
    rw [hk]
    rfl
  have hinstalled : ∀ x ∈ c.children, (Installed rasters levelSet params dataRasterList x ↔
      (levelSet.level c.level).isEmpty = false ∧ Named levelSet x.level (finalLevel levelSet params) ∧
        Covered rasters levelSet params dataRasterList x) := by
    intro x hx
    rw [Installed, hlevels x hx, Nat.add_sub_cancel, named_cons hlevel, and_assoc]
  rw [drawSubRasters]
  simp only [List.map_map]
  by_cases hdrawn : ((subTiles.map fun t => (f t).1).any fun raster => raster.isSome) = true ∧
      (levelSet.level c.level).isEmpty = false
  · rw [if_pos (by rw [h.level_eq]; simpa [Function.comp_def] using hdrawn)]
    refine ⟨?_, ?_⟩
    · rw [named_cons hlevel, and_assoc, ← hany]
      simpa using hdrawn.symm
    · rw [List.map_append, hbelow, hcells, List.filter_append, List.map_append, List.filter_flatMap, List.map_flatMap]
      congr 1
      refine (keys_installTileRasterLater hsub (f := fun t => (f t).1)
        fun subTile _ x hst hx => (hf subTile x hst hx).drawn).trans (congrArg _ ?_)
      refine List.filter_congr fun x hx => ?_
      rw [decide_eq_decide, hinstalled x hx]
      exact (and_iff_right hdrawn.2).symm
  · rw [if_neg (by rw [h.level_eq]; simpa [Function.comp_def] using hdrawn)]
    refine ⟨?_, ?_⟩
    · rw [named_cons hlevel, and_assoc, ← hany]
      simpa using fun h1 h2 => hdrawn ⟨h2, h1⟩
    · rw [hbelow, hcells, List.filter_append, List.map_append, List.filter_flatMap, List.map_flatMap]
      have hnone : c.children.filter (Installed rasters levelSet params dataRasterList) = [] := by
        rw [List.filter_eq_nil_iff]
        intro x hx hin
        rw [decide_eq_true_eq, hinstalled x hx] at hin
        obtain ⟨hname, hn, hc⟩ := hin
        exact hdrawn ⟨hany.2 ⟨hlevels x hx ▸ hn, hc.of_under (under_of_mem_children hx)⟩, hname⟩
      rw [hnone, List.map_nil, List.append_nil]

theorem result_drawDataSources {tile : Tile} {c : Cell} (h : Stands levelSet tile c)
    (hlevel : c.level = finalLevel levelSet params) (hm : Meets levelSet c) :
    Result rasters levelSet params dataRasterList c (drawDataSources rasters levelSet dataRasterList tile, []) := by
  refine ⟨?_, ?_⟩
  · rw [drawDataSources_isSome h, covered_final hlevel, and_iff_right hm]
    refine and_congr_left fun _ => ⟨fun hname i hi hl => ?_, fun hn => hn c.level le_rfl hlevel.le⟩
    rwa [show i = c.level by omega]
  · rw [← hlevel, Nat.sub_self]
    rfl

theorem levelsAfter_cons {l : Nat} (h : l < levelSet.numLevels - 1) :
    levelSet.levelsAfter l = levelSet.level (l + 1) :: levelSet.levelsAfter (l + 1) := by
  rw [LevelSet.levelsAfter, LevelSet.levelsAfter]
  obtain ⟨k, hk⟩ : ∃ k, levelSet.numLevels - 1 - l = k + 1 := ⟨levelSet.numLevels - 1 - l - 1, by omega⟩
  rw [hk, List.range'_succ, List.map_cons]
  congr 2
  congr 1
  omega

/-- Outside of the level set nothing is drawn. -/
theorem result_outside (hdelta : PositiveDelta levelSet) {c : Cell} (h : ¬ Meets levelSet c) :
    Result rasters levelSet params dataRasterList c (none, []) := by
  classical
  have hno : ∀ d, Under d c → ¬ Covered rasters levelSet params dataRasterList d :=
    fun d hu hc => h ((hc.of_under hu).meets hdelta)
  refine ⟨?_, ?_⟩
  · simpa using fun _ => hno c (Under.refl c)
  · have hnone : (below (finalLevel levelSet params - c.level) c).filter
        (Installed rasters levelSet params dataRasterList) = [] := by
      rw [List.filter_eq_nil_iff]
      intro d hd hin
      rw [decide_eq_true_eq] at hin
      exact hno d (mem_below.1 hd).1 hin.2
    rw [hnone]
    rfl

/-- What becomes of a tile that meets the level set, by induction on the levels
to the final one. -/
theorem result_createTileRaster (hdelta : PositiveDelta levelSet) (n : Nat) :
    ∀ (c : Cell) (tile : Tile), Stands levelSet tile c → c.level + n = finalLevel levelSet params →
      (n = 0 → Meets levelSet c) →
      Result rasters levelSet params dataRasterList c
        (createTileRaster rasters levelSet params dataRasterList (levelSet.levelsAfter c.level) tile) := by
  have hfinal := finalLevel_le levelSet params
  induction n with
  | zero =>
    intro c tile h hlevel hm
    have hcreate : createTileRaster rasters levelSet params dataRasterList (levelSet.levelsAfter c.level) tile =
        (drawDataSources rasters levelSet dataRasterList tile, []) := by
      have hisFinal : isFinalLevel levelSet params tile.level.levelNumber = true := by
        rw [h.level_eq]
        exact (isFinalLevel_iff (l := c.level) (by omega)).2 (by omega)
      cases hlevels : levelSet.levelsAfter c.level with
      | nil => rfl
      | cons nextLevel levels => rw [createTileRaster, if_pos hisFinal]
    rw [hcreate]
    exact result_drawDataSources h (by omega) (hm rfl)
  | succ n ih =>
    intro c tile h hlevel _
    have hnot : ¬ isFinalLevel levelSet params tile.level.levelNumber = true := by
      rw [h.level_eq]
      exact fun heq => by
        have := (isFinalLevel_iff (l := c.level) (by omega)).1 heq
        omega
    rw [levelsAfter_cons (by omega), createTileRaster, if_neg hnot]
    refine result_drawSubRasters h (by omega) (stands_createSubTiles h) fun subTile x hst hx => ?_
    have hx := (mem_children.1 hx).1
    split
    · rename_i hm
      rw [hst.sector_eq] at hm
      have := ih x subTile hst (by omega) fun _ => hm
      rwa [hx] at this
    · rename_i hm
      rw [hst.sector_eq] at hm
      exact result_outside hdelta hm

/-! ## The tiles of level zero -/

variable (levelSet) in
/-- A cell in the rows and columns of the loops over level zero. -/
def TopLevel (c : Cell) : Prop :=
  c.level = 0 ∧ ∃ firstRow lastRow firstCol lastCol,
    computeRow levelSet.levelZeroTileDelta.latitude levelSet.sector.minLatitude levelSet.tileOrigin.latitude =
      some firstRow ∧
    computeRow levelSet.levelZeroTileDelta.latitude levelSet.sector.maxLatitude levelSet.tileOrigin.latitude =
      some lastRow ∧
    computeColumn levelSet.levelZeroTileDelta.longitude levelSet.sector.minLongitude levelSet.tileOrigin.longitude =
      some firstCol ∧
    computeColumn levelSet.levelZeroTileDelta.longitude levelSet.sector.maxLongitude levelSet.tileOrigin.longitude =
      some lastCol ∧
    firstRow ≤ c.row ∧ (c.row : Int) ≤ lastRow ∧ firstCol ≤ c.column ∧ (c.column : Int) ≤ lastCol

variable (levelSet) in
/-- The tile of a cell of level zero. -/
def topTile (c : Cell) : Tile := ⟨gridSector levelSet ⟨0, c.row, c.column⟩, levelSet.level 0, c.row, c.column⟩

theorem strips_eq (origin delta : Angle) (n first : Nat) :
    strips delta n first (.fromDegrees (origin.degrees + (first : Int) * delta.degrees)) =
      (List.range' first n).map fun i : Nat => ⟨i, gridAngle origin delta 0 i, gridAngle origin delta 0 (i + 1)⟩ := by
  induction n generalizing first with
  | zero => rfl
  | succ n ih =>
    have hnext : Angle.fromDegrees ((Angle.fromDegrees (origin.degrees + (first : Int) * delta.degrees)).degrees +
        delta.degrees) = .fromDegrees (origin.degrees + ((first + 1 : Nat) : Int) * delta.degrees) := by
      simp only [Angle.fromDegrees]
      push_cast
      congr 1
      ring
    rw [strips, List.range'_succ, List.map_cons, ← ih (first + 1)]
    simp only [hnext]
    simp [gridAngle]

theorem loopCount_eq {first last : Int} {n : Nat} (h : loopCount first last = some n) :
    n = (last - first + 1).toNat ∧ (first ≤ last → last ≠ 2 ^ 31 - 1) := by
  rw [loopCount] at h
  split at h
  · cases h
  · rename_i hne
    exact ⟨(Option.some.inj h).symm, fun hle heq => hne ⟨hle, heq⟩⟩

theorem computeRow_lt {delta latitude origin : Angle} {row : Int} (h : computeRow delta latitude origin = some row) :
    0 < delta.degrees ∧ row < 2 ^ 31 := by
  rw [computeRow] at h
  split at h
  · cases h
  · rename_i hpos
    refine ⟨lt_of_not_ge hpos, ?_⟩
    split at h
    · cases h
    · rw [← Option.some.inj h]
      split
      · exact int_lt _
      · rw [truncInt]
        omega

theorem computeColumn_lt {delta longitude origin : Angle} {column : Int}
    (h : computeColumn delta longitude origin = some column) : 0 < delta.degrees ∧ column < 2 ^ 31 := by
  rw [computeColumn] at h
  split at h
  · cases h
  · rename_i hpos
    refine ⟨lt_of_not_ge hpos, ?_⟩
    split at h
    · cases h
    · rw [← Option.some.inj h]
      split
      · exact int_lt _
      · rw [truncInt]
        omega

/-- The cells of some rows and columns of level zero, row by row. -/
def topCells (firstRow rows firstColumn columns : Nat) : List Cell :=
  (List.range' firstRow rows).flatMap fun r => (List.range' firstColumn columns).map fun c => ⟨0, r, c⟩

theorem mem_topCells {r0 rows c0 columns : Nat} {c : Cell} : c ∈ topCells r0 rows c0 columns ↔
    c.level = 0 ∧ (r0 ≤ c.row ∧ c.row < r0 + rows) ∧ c0 ≤ c.column ∧ c.column < c0 + columns := by
  obtain ⟨l, r, k⟩ := c
  simp only [topCells, List.mem_flatMap, List.mem_map, List.mem_range'_1, Cell.mk.injEq]
  constructor
  · rintro ⟨r', hr', c', hc', rfl, rfl, rfl⟩
    exact ⟨rfl, hr', hc'⟩
  · rintro ⟨rfl, hr, hc⟩
    exact ⟨r, hr, k, hc, rfl, rfl, rfl⟩

theorem nodup_topCells (r0 rows c0 columns : Nat) : (topCells r0 rows c0 columns).Nodup := by
  rw [topCells, List.nodup_flatMap]
  refine ⟨fun r _ => (List.nodup_range').map fun c c' heq => (Cell.mk.inj heq).2.2, ?_⟩
  refine (List.nodup_range' (s := r0) (n := rows)).imp fun hne => ?_
  rintro d hd hd'
  obtain ⟨c, -, rfl⟩ := List.mem_map.1 hd
  obtain ⟨c', -, heq⟩ := List.mem_map.1 hd'
  exact hne (Cell.mk.inj heq).2.1.symm

/-- What a run has computed once its loops over level zero have ended. -/
theorem topLevelTiles_corners {tiles : List Tile} (h : topLevelTiles levelSet = some tiles) :
    ∃ firstRow firstCol lastRow lastCol,
      computeRow levelSet.levelZeroTileDelta.latitude levelSet.sector.minLatitude levelSet.tileOrigin.latitude =
        some firstRow ∧
      computeColumn levelSet.levelZeroTileDelta.longitude levelSet.sector.minLongitude levelSet.tileOrigin.longitude =
        some firstCol ∧
      computeRow levelSet.levelZeroTileDelta.latitude levelSet.sector.maxLatitude levelSet.tileOrigin.latitude =
        some lastRow ∧
      computeColumn levelSet.levelZeroTileDelta.longitude levelSet.sector.maxLongitude levelSet.tileOrigin.longitude =
        some lastCol ∧
      0 ≤ firstRow ∧ (firstRow ≤ lastRow → lastRow ≠ 2 ^ 31 - 1 ∧ 0 ≤ firstCol ∧
        (firstCol ≤ lastCol → lastCol ≠ 2 ^ 31 - 1)) ∧
      tiles = (topCells firstRow.toNat (lastRow - firstRow + 1).toNat firstCol.toNat
        (lastCol - firstCol + 1).toNat).map (topTile levelSet) := by
  rw [topLevelTiles] at h
  simp only [Option.bind_eq_bind, Option.bind_eq_some_iff] at h
  obtain ⟨firstRow, hfirstRow, firstCol, hfirstCol, lastRow, hlastRow, lastCol, hlastCol, p1, hp1, rows, hrows,
      h⟩ := h
  have hlat := (computeRow_lt hfirstRow).1
  have hlon := (computeColumn_lt hfirstCol).1
  obtain ⟨hrows, hlast⟩ := loopCount_eq hrows
  rw [computeRowLatitude] at hp1
  split at hp1
  · cases hp1
  · rename_i hrow0
    refine ⟨firstRow, firstCol, lastRow, lastCol, hfirstRow, hfirstCol, hlastRow, hlastCol, not_lt.1 hrow0, ?_⟩
    split at h
    · rename_i hempty
      obtain rfl := Option.some.inj h
      refine ⟨fun hle => ?_, ?_⟩
      · omega
      · rw [← hrows, hempty]
        rfl
    · rename_i hne
      simp only [Option.bind_eq_some_iff] at h
      obtain ⟨t1, ht1, columns, hcolumns, h⟩ := h
      obtain ⟨hcolumns, hlastColumn⟩ := loopCount_eq hcolumns
      rw [computeColumnLongitude] at ht1
      split at ht1
      · cases ht1
      · rename_i hcol0
        refine ⟨fun hle => ⟨hlast hle, not_lt.1 hcol0, hlastColumn⟩, ?_⟩
        rw [if_neg (not_le.2 hlat)] at hp1
        rw [if_neg (not_le.2 hlon)] at ht1
        obtain ⟨r0, rfl⟩ := Int.eq_ofNat_of_zero_le (not_lt.1 hrow0)
        obtain ⟨c0, rfl⟩ := Int.eq_ofNat_of_zero_le (not_lt.1 hcol0)
        obtain rfl := Option.some.inj hp1
        obtain rfl := Option.some.inj ht1
        rw [← Option.some.inj h, strips_eq, strips_eq, List.flatMap_map, topCells, List.map_flatMap, hrows, hcolumns]
        simp only [List.map_map, Int.toNat_natCast]
        rfl

/-- They are all cells between the corners. -/
theorem mem_topCells_iff {firstRow firstCol lastRow lastCol : Int}
    (h1 : computeRow levelSet.levelZeroTileDelta.latitude levelSet.sector.minLatitude levelSet.tileOrigin.latitude =
      some firstRow)
    (h2 : computeColumn levelSet.levelZeroTileDelta.longitude levelSet.sector.minLongitude
      levelSet.tileOrigin.longitude = some firstCol)
    (h3 : computeRow levelSet.levelZeroTileDelta.latitude levelSet.sector.maxLatitude levelSet.tileOrigin.latitude =
      some lastRow)
    (h4 : computeColumn levelSet.levelZeroTileDelta.longitude levelSet.sector.maxLongitude
      levelSet.tileOrigin.longitude = some lastCol)
    (hrow0 : 0 ≤ firstRow) (hcol0 : firstRow ≤ lastRow → 0 ≤ firstCol) (c : Cell) :
    c ∈ topCells firstRow.toNat (lastRow - firstRow + 1).toNat firstCol.toNat (lastCol - firstCol + 1).toNat ↔
      TopLevel levelSet c := by
  rw [mem_topCells]
  constructor
  · rintro ⟨hl, hr, hc⟩
    have hcol0 := hcol0 (by omega)
    exact ⟨hl, firstRow, lastRow, firstCol, lastCol, h1, h3, h2, h4, by omega⟩
  · rintro ⟨hl, r1, r2, c1, c2, h1', h3', h2', h4', hin⟩
    obtain rfl := Option.some.inj (h1.symm.trans h1')
    obtain rfl := Option.some.inj (h3.symm.trans h3')
    obtain rfl := Option.some.inj (h2.symm.trans h2')
    obtain rfl := Option.some.inj (h4.symm.trans h4')
    have hcol0 := hcol0 (by omega)
    exact ⟨hl, by omega⟩

/-- The tiles of the loops, if they end. -/
theorem topLevelTiles_eq {tiles : List Tile} (h : topLevelTiles levelSet = some tiles) :
    PositiveDelta levelSet ∧ ∃ cells : List Cell, tiles = cells.map (topTile levelSet) ∧ cells.Nodup ∧
      ∀ c, c ∈ cells ↔ TopLevel levelSet c := by
  obtain ⟨firstRow, firstCol, lastRow, lastCol, h1, h2, h3, h4, hrow0, hcol0, rfl⟩ := topLevelTiles_corners h
  exact ⟨⟨(computeRow_lt h1).1, (computeColumn_lt h2).1⟩, _, rfl, nodup_topCells _ _ _ _,
    mem_topCells_iff h1 h2 h3 h4 hrow0 fun hle => (hcol0 hle).2.1⟩

theorem TopLevel.lt {c : Cell} (h : TopLevel levelSet c) : (c.row : Int) < 2 ^ 31 ∧ (c.column : Int) < 2 ^ 31 := by
  obtain ⟨-, r1, r2, c1, c2, -, h2, -, h4, hin⟩ := h
  have := (computeRow_lt h2).2
  have := (computeColumn_lt h4).2
  omega

theorem stands_topTile {c : Cell} (h : TopLevel levelSet c) : Stands levelSet (topTile levelSet c) c := by
  obtain ⟨hr, hc⟩ := h.lt
  obtain ⟨hl, -⟩ := h
  obtain ⟨l, r, k⟩ := c
  obtain rfl : l = 0 := hl
  exact ⟨rfl, rfl, (int_eq (by omega) hr).symm, (int_eq (by omega) hc).symm⟩

/-! ## A run -/

variable (rasters levelSet params dataRasterList) in
/-- A tile of level zero is not checked against the level set when it is drawn. -/
def DrawnAtTop (c : Cell) : Prop :=
  Named levelSet 0 (finalLevel levelSet params) ∧ (Covered rasters levelSet params dataRasterList c ∨
    finalLevel levelSet params = 0 ∧ HasData rasters levelSet dataRasterList c)

open Classical in
variable (rasters levelSet params dataRasterList) in
/-- The cells whose tiles a level zero tile hands to the writers. -/
noncomputable def handed (c : Cell) : List Cell :=
  (below (finalLevel levelSet params) c).filter (Installed rasters levelSet params dataRasterList) ++
    [c].filter (DrawnAtTop rasters levelSet params dataRasterList)

theorem keys_top (hdelta : PositiveDelta levelSet) {c : Cell} (h : TopLevel levelSet c) :
    ((createTileRaster rasters levelSet params dataRasterList (levelSet.levelsAfter 0) (topTile levelSet c)).2 ++
      installTileRasterLater (topTile levelSet c)
        (createTileRaster rasters levelSet params dataRasterList (levelSet.levelsAfter 0) (topTile levelSet c)).1).map
      (fun t => t.1.tileKey) = (handed rasters levelSet params dataRasterList c).map wrappedKey := by
  classical
  have hst := stands_topTile h
  have hl := h.1
  have hresult : ((createTileRaster rasters levelSet params dataRasterList (levelSet.levelsAfter 0)
        (topTile levelSet c)).1.isSome = true ↔ DrawnAtTop rasters levelSet params dataRasterList c) ∧
      (createTileRaster rasters levelSet params dataRasterList (levelSet.levelsAfter 0) (topTile levelSet c)).2.map
        (fun t => t.1.tileKey) = ((below (finalLevel levelSet params) c).filter
          (Installed rasters levelSet params dataRasterList)).map wrappedKey := by
    by_cases hzero : finalLevel levelSet params = 0
    · have hcreate : createTileRaster rasters levelSet params dataRasterList (levelSet.levelsAfter 0)
          (topTile levelSet c) = (drawDataSources rasters levelSet dataRasterList (topTile levelSet c), []) := by
        have hisFinal : isFinalLevel levelSet params (topTile levelSet c).level.levelNumber = true :=
          (isFinalLevel_iff (Nat.zero_le _)).2 hzero.symm
        cases hlevels : levelSet.levelsAfter 0 with
        | nil => rfl
        | cons nextLevel levels => rw [createTileRaster, if_pos hisFinal]
      rw [hcreate, hzero]
      refine ⟨?_, rfl⟩
      rw [drawDataSources_isSome hst, DrawnAtTop, hzero, hl]
      constructor
      · rintro ⟨hname, hdata⟩
        refine ⟨fun i _ hi => ?_, Or.inr ⟨rfl, hdata⟩⟩
        rwa [Nat.le_zero.1 hi]
      · rintro ⟨hn, hc | ⟨-, hdata⟩⟩
        · exact ⟨hn 0 le_rfl le_rfl, ((covered_final (hl.trans hzero.symm)).1 hc).2⟩
        · exact ⟨hn 0 le_rfl le_rfl, hdata⟩
    · have := @result_createTileRaster R rasters levelSet params dataRasterList hdelta
        (finalLevel levelSet params) c _ hst (by omega) fun h0 => absurd h0 hzero
      rw [hl] at this
      refine ⟨?_, ?_⟩
      · rw [this.drawn, hl, DrawnAtTop]
        refine and_congr_right fun _ => ⟨Or.inl, ?_⟩
        rintro (hc | ⟨h0, -⟩)
        · exact hc
        · exact absurd h0 hzero
      · rw [this.keys_eq, hl, Nat.sub_zero]
  rw [List.map_append, hresult.2, handed, List.map_append]
  congr 1
  cases hr : (createTileRaster rasters levelSet params dataRasterList (levelSet.levelsAfter 0)
    (topTile levelSet c)).1 with
  | none =>
    rw [hr] at hresult
    rw [List.filter_cons_of_neg (by simpa using hresult.1)]
    rfl
  | some raster =>
    rw [hr] at hresult
    rw [List.filter_cons_of_pos (by simpa using hresult.1), List.filter_nil, List.map_singleton, ← hst.tileKey]
    rfl

/-- The keys that a run hands over. -/
theorem keys_installLevelSet {installed : List (Tile × R)}
    (h : installLevelSet rasters levelSet params dataRasterList = some installed) :
    PositiveDelta levelSet ∧ ∃ cells : List Cell, cells.Nodup ∧ (∀ c, c ∈ cells ↔ TopLevel levelSet c) ∧
      installed.map (fun t => t.1.tileKey) =
        (cells.flatMap (handed rasters levelSet params dataRasterList)).map wrappedKey := by
  rw [installLevelSet, Option.map_eq_some_iff] at h
  obtain ⟨tiles, htiles, rfl⟩ := h
  obtain ⟨hdelta, cells, rfl, hnodup, hmem⟩ := topLevelTiles_eq htiles
  refine ⟨hdelta, cells, hnodup, hmem, ?_⟩
  rw [List.flatMap_map, List.map_flatMap, List.map_flatMap]
  have hcells : ∀ c ∈ cells, TopLevel levelSet c := fun c hc => (hmem c).1 hc
  clear hmem htiles hnodup
  induction cells with
  | nil => rfl
  | cons c cells ih =>
    rw [List.flatMap_cons, List.flatMap_cons, ih fun c' hc' => hcells c' (List.mem_cons_of_mem _ hc')]
    exact congrArg (· ++ _) (keys_top hdelta (hcells c List.mem_cons_self))

theorem mem_handed {c d : Cell} (hl : c.level = 0) : d ∈ handed rasters levelSet params dataRasterList c ↔
    (Under d c ∧ 0 < d.level ∧ d.level ≤ finalLevel levelSet params ∧
      Installed rasters levelSet params dataRasterList d) ∨
    (d = c ∧ DrawnAtTop rasters levelSet params dataRasterList d) := by
  rw [handed, List.mem_append, List.mem_filter, mem_below, hl, List.mem_filter, List.mem_singleton, Nat.zero_add]
  simp only [decide_eq_true_eq, and_assoc]

/-- No cell is handed over twice. -/
theorem nodup_handed {cells : List Cell} (hnodup : cells.Nodup) (hmem : ∀ c, c ∈ cells ↔ TopLevel levelSet c) :
    (cells.flatMap (handed rasters levelSet params dataRasterList)).Nodup := by
  classical
  have hunder : ∀ c ∈ cells, ∀ d ∈ handed rasters levelSet params dataRasterList c, Under d c := by
    intro c hc d hd
    rcases (mem_handed ((hmem c).1 hc).1).1 hd with ⟨hu, -⟩ | ⟨rfl, -⟩
    · exact hu
    · exact Under.refl d
  rw [List.nodup_flatMap]
  constructor
  · intro c hc
    rw [handed, List.nodup_append']
    refine ⟨(nodup_below _ _).filter _, (List.nodup_singleton c).filter _, fun d hd hd' => ?_⟩
    have h1 := (mem_below.1 (List.mem_of_mem_filter hd)).2.1
    rw [List.mem_singleton.1 (List.mem_of_mem_filter hd')] at h1
    exact absurd h1 (lt_irrefl _)
  · refine hnodup.pairwise_of_forall_ne fun c hc c' hc' hne d hd hd' => hne ?_
    exact (hunder c hc d hd).eq (hunder c' hc' d hd') (((hmem c).1 hc).1.trans ((hmem c').1 hc').1.symm)

/-! ## When the wanted tiles are installed -/

variable (rasters levelSet params dataRasterList) in
/-- What a run needs to install exactly the wanted tiles. The loops over level
zero end; and either all levels are empty, or none is (or there is no data) and
the tiles that are drawn from data have an `int` row and column and lie in the
rows and columns of the loops. Where level zero is the final level, no data
lies in a tile of the loops that misses the level set. -/
structure Installable : Prop where
  ends : (topLevelTiles levelSet).isSome = true
  installable :
    (∀ i, i ≤ finalLevel levelSet params → (levelSet.level i).isEmpty = true) ∨
      (Named levelSet 0 (finalLevel levelSet params) ∨ ∀ d, ¬ Source rasters levelSet params dataRasterList d) ∧
      (∀ d, Source rasters levelSet params dataRasterList d →
        (d.row : Int) < 2 ^ 31 ∧ (d.column : Int) < 2 ^ 31 ∧ ∃ c, TopLevel levelSet c ∧ Under d c) ∧
      (finalLevel levelSet params = 0 → ∀ c, TopLevel levelSet c → HasData rasters levelSet dataRasterList c →
        Meets levelSet c)

theorem cellKey_inj {c d : Cell} (h : cellKey c = cellKey d) : c = d := by
  cases c
  cases d
  simp only [cellKey, TileKey.mk.injEq, Int.natCast_inj] at h
  simp only [Cell.mk.injEq]
  exact h

theorem wrappedKey_eq {c : Cell} (hr : (c.row : Int) < 2 ^ 31) (hc : (c.column : Int) < 2 ^ 31) :
    wrappedKey c = cellKey c := by
  rw [wrappedKey, int_eq (by omega) hr, int_eq (by omega) hc]
  rfl

/-- A key that is handed over and a cell's own. -/
theorem wrappedKey_lt {c d : Cell} (h : cellKey d = wrappedKey c) :
    (d.row : Int) < 2 ^ 31 ∧ (d.column : Int) < 2 ^ 31 := by
  simp only [cellKey, wrappedKey, TileKey.mk.injEq] at h
  rw [h.2.1, h.2.2]
  exact ⟨int_lt _, int_lt _⟩

/-- The cell of a level above another. -/
theorem exists_above (d : Cell) {l : Nat} (h : l ≤ d.level) : ∃ c : Cell, c.level = l ∧ Under d c :=
  ⟨⟨l, d.row / 2 ^ (d.level - l), d.column / 2 ^ (d.level - l)⟩, rfl, d.level - l, by simp only; omega, rfl, rfl⟩

/-- What is handed over, as the cell it stands for. -/
theorem mem_handedCells {cells : List Cell} (hmem : ∀ c, c ∈ cells ↔ TopLevel levelSet c) {d : Cell} :
    d ∈ cells.flatMap (handed rasters levelSet params dataRasterList) ↔
      ∃ c, TopLevel levelSet c ∧ ((Under d c ∧ 0 < d.level ∧ d.level ≤ finalLevel levelSet params ∧
          Installed rasters levelSet params dataRasterList d) ∨
        (d = c ∧ DrawnAtTop rasters levelSet params dataRasterList d)) := by
  rw [List.mem_flatMap]
  constructor
  · rintro ⟨c, hc, hd⟩
    exact ⟨c, (hmem c).1 hc, (mem_handed ((hmem c).1 hc).1).1 hd⟩
  · rintro ⟨c, hc, hd⟩
    exact ⟨c, (hmem c).2 hc, (mem_handed hc.1).2 hd⟩

/-- Where a tile is handed over, the levels from its parent's on have names. -/
theorem named_of_handed {cells : List Cell} (hmem : ∀ c, c ∈ cells ↔ TopLevel levelSet c) {d : Cell}
    (h : d ∈ cells.flatMap (handed rasters levelSet params dataRasterList)) :
    d.level ≤ finalLevel levelSet params ∧ Named levelSet (d.level - 1) (finalLevel levelSet params) := by
  obtain ⟨c, hc, ⟨-, -, hle, hin⟩ | ⟨rfl, hdrawn⟩⟩ := (mem_handedCells hmem).1 h
  · exact ⟨hle, hin.1⟩
  · exact ⟨hc.1 ▸ Nat.zero_le _, fun i _ hi => hdrawn.1 i (Nat.zero_le i) hi⟩

/-- What is handed over is wanted, and so are its keys. -/
theorem wanted_of_handed (h : Installable rasters levelSet params dataRasterList) {cells : List Cell}
    (hmem : ∀ c, c ∈ cells ↔ TopLevel levelSet c) {d : Cell}
    (hd : d ∈ cells.flatMap (handed rasters levelSet params dataRasterList)) :
    Wanted rasters levelSet params dataRasterList d ∧ wrappedKey d = cellKey d := by
  obtain ⟨hle, hnamed⟩ := named_of_handed hmem hd
  have hname := hnamed d.level (Nat.sub_le _ _) hle
  rcases h.installable with hempty | ⟨-, hsource, hzero⟩
  · rw [hempty d.level hle] at hname
    cases hname
  · have hcovered : Covered rasters levelSet params dataRasterList d := by
      obtain ⟨c, hc, ⟨-, -, -, hin⟩ | ⟨rfl, -, hcov | ⟨h0, hdata⟩⟩⟩ := (mem_handedCells hmem).1 hd
      · exact hin.2
      · exact hcov
      · exact (covered_final (hc.1.trans h0.symm)).2 ⟨hzero h0 d hc hdata, hdata⟩
    obtain ⟨e, he, hu⟩ := hcovered
    obtain ⟨hr, hc, -⟩ := hsource e he
    have := hu.row_le
    exact ⟨⟨hname, e, he, hu⟩, wrappedKey_eq (by omega) (by omega)⟩

/-- What is wanted is handed over. -/
theorem handed_of_wanted (h : Installable rasters levelSet params dataRasterList) {cells : List Cell}
    (hmem : ∀ c, c ∈ cells ↔ TopLevel levelSet c) {d : Cell} (hd : Wanted rasters levelSet params dataRasterList d) :
    d ∈ cells.flatMap (handed rasters levelSet params dataRasterList) := by
  obtain ⟨hname, e, he, hu⟩ := hd
  have hle := hu.level_le
  rw [he.level_eq] at hle
  rcases h.installable with hempty | ⟨hnamed, hsource, -⟩
  · rw [hempty d.level hle] at hname
    cases hname
  · obtain ⟨-, -, c, hc, huc⟩ := hsource e he
    have hn := hnamed.resolve_right fun hno => hno e he
    refine (mem_handedCells hmem).2 ⟨c, hc, ?_⟩
    have hdc : Under d c := by
      obtain ⟨x, hx, hdx⟩ := exists_above d (l := 0) (Nat.zero_le _)
      rwa [← (hu.trans hdx).eq huc (hx.trans hc.1.symm)]
    by_cases hl : d.level = 0
    · exact Or.inr ⟨(Under.refl d).eq hdc (hl.trans hc.1.symm) ▸ rfl, hn, Or.inl ⟨e, he, hu⟩⟩
    · exact Or.inl ⟨hdc, Nat.pos_of_ne_zero hl, hle, fun i _ hi => hn i (Nat.zero_le i) hi, e, he, hu⟩

/-- Where a run is exact, what is wanted is handed over under its own key. -/
theorem handed_of_exactly {installed : List (Tile × R)} (h : Exactly rasters levelSet params dataRasterList installed)
    {cells : List Cell} (hmem : ∀ c, c ∈ cells ↔ TopLevel levelSet c)
    (hkeys : installed.map (fun t => t.1.tileKey) =
      (cells.flatMap (handed rasters levelSet params dataRasterList)).map wrappedKey)
    {d : Cell} (hd : Wanted rasters levelSet params dataRasterList d) :
    d ∈ cells.flatMap (handed rasters levelSet params dataRasterList) ∧ (d.row : Int) < 2 ^ 31 ∧
      (d.column : Int) < 2 ^ 31 := by
  have hsome : ∀ w, Wanted rasters levelSet params dataRasterList w →
      ∃ d' ∈ cells.flatMap (handed rasters levelSet params dataRasterList), wrappedKey d' = cellKey w := by
    intro w hw
    have hin := (h.2 (cellKey w)).2 ⟨w, hw, rfl⟩
    rw [hkeys] at hin
    exact List.mem_map.1 hin
  obtain ⟨d', hd', hkey⟩ := hsome d hd
  have hlt : (d'.row : Int) < 2 ^ 31 ∧ (d'.column : Int) < 2 ^ 31 := by
    obtain ⟨hle, hnamed⟩ := named_of_handed hmem hd'
    obtain ⟨c, hc, ⟨-, -, -, hin⟩ | ⟨rfl, -⟩⟩ := (mem_handedCells hmem).1 hd'
    · obtain ⟨x, -, hx⟩ := hsome d' ⟨hnamed d'.level (Nat.sub_le _ _) hle, hin.2⟩
      exact wrappedKey_lt hx.symm
    · exact hc.lt
  rw [wrappedKey_eq hlt.1 hlt.2] at hkey
  obtain rfl := cellKey_inj hkey
  exact ⟨hd', hlt⟩

theorem installable_of_exactly {installed : List (Tile × R)}
    (hrun : installLevelSet rasters levelSet params dataRasterList = some installed)
    (h : Exactly rasters levelSet params dataRasterList installed) :
    Installable rasters levelSet params dataRasterList := by
  obtain ⟨hdelta, cells, -, hmem, hkeys⟩ := keys_installLevelSet hrun
  have hends : (topLevelTiles levelSet).isSome = true := by
    rw [installLevelSet, Option.map_eq_some_iff] at hrun
    obtain ⟨tiles, htiles, -⟩ := hrun
    rw [htiles]
    rfl
  have hhanded : ∀ d, Wanted rasters levelSet params dataRasterList d → _ :=
    fun d hd => handed_of_exactly h hmem hkeys hd
  refine ⟨hends, or_iff_not_imp_left.2 fun hempty => ?_⟩
  push Not at hempty
  obtain ⟨i, hi, hname⟩ := hempty
  rw [ne_eq, Bool.not_eq_true] at hname
  -- from a level with a name, named levels up to the final one and from there down to level zero
  have hall : ∀ d, Source rasters levelSet params dataRasterList d →
      Named levelSet 0 (finalLevel levelSet params) := by
    intro d hd
    have habove : ∀ l, l ≤ finalLevel levelSet params → (levelSet.level l).isEmpty = false →
        Named levelSet (l - 1) (finalLevel levelSet params) := by
      intro l hl hlname
      obtain ⟨x, rfl, hu⟩ := exists_above d (l := l) (hd.level_eq ▸ hl)
      exact (named_of_handed hmem (hhanded x ⟨hlname, d, hd, hu⟩).1).2
    have hdown : ∀ k, k ≤ finalLevel levelSet params →
        (levelSet.level (finalLevel levelSet params - k)).isEmpty = false := by
      intro k
      induction k with
      | zero => exact fun _ => habove i hi hname _ (by omega) le_rfl
      | succ k ih =>
        intro hk
        exact habove _ (Nat.sub_le _ _) (ih (by omega)) _ (by omega) (Nat.sub_le _ _)
    intro l _ hl
    have := hdown (finalLevel levelSet params - l) (Nat.sub_le _ _)
    rwa [show finalLevel levelSet params - (finalLevel levelSet params - l) = l by omega] at this
  refine ⟨?_, fun d hd => ?_, fun hzero c hc hdata => ?_⟩
  · by_cases hsource : ∃ d, Source rasters levelSet params dataRasterList d
    · obtain ⟨d, hd⟩ := hsource
      exact Or.inl (hall d hd)
    · exact Or.inr (not_exists.1 hsource)
  · have hwanted : Wanted rasters levelSet params dataRasterList d :=
      ⟨hall d hd d.level (Nat.zero_le _) hd.level_eq.le, d, hd, Under.refl d⟩
    obtain ⟨hin, hr, hcol⟩ := hhanded d hwanted
    obtain ⟨c, hc, ⟨hu, -⟩ | ⟨rfl, -⟩⟩ := (mem_handedCells hmem).1 hin
    · exact ⟨hr, hcol, c, hc, hu⟩
    · exact ⟨hr, hcol, d, hc, Under.refl d⟩
  · have hdrawn : DrawnAtTop rasters levelSet params dataRasterList c := by
      refine ⟨fun l _ hl => ?_, Or.inr ⟨hzero, hdata⟩⟩
      rwa [show l = i by omega]
    have hin : wrappedKey c ∈ installed.map (fun t => t.1.tileKey) := by
      rw [hkeys]
      exact List.mem_map_of_mem ((mem_handedCells hmem).2 ⟨c, hc, Or.inr ⟨rfl, hdrawn⟩⟩)
    obtain ⟨w, hw, hkey⟩ := (h.2 _).1 hin
    rw [wrappedKey_eq hc.lt.1 hc.lt.2] at hkey
    obtain rfl := cellKey_inj hkey
    exact hw.2.meets hdelta

/-- Rasters that are only their sectors. -/
def sectorRasters : Rasters Sector where
  getSector := id
  createDataRaster := fun _ sector => sector
  drawOnTo := fun _ canvas => canvas

/-- One tile of 36 degrees, with an empty level above the four tiles of level one. -/
def oneEmptyLevel : LevelSet where
  sector := ⟨⟨-90⟩, ⟨-73⟩, ⟨-180⟩, ⟨-163⟩⟩
  levelZeroTileDelta := ⟨⟨36⟩, ⟨36⟩⟩
  tileOrigin := ⟨⟨-90⟩, ⟨-180⟩⟩
  numLevels := 2
  numEmptyLevels := 1
  inactiveLevels := []
  numLevels_pos := Nat.two_pos

end WorldWind.RasterProducer
