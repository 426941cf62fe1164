import WorldWind.RasterProducer.ProgressTheorems
/-!
# `util/LevelSet.java`: the numbers of tiles

Absent tiles are remembered by a number, `row * columns + column`. The result
is a `long`, but the product and the sum are of `int`s and wrap. So a level on
which enough rows lie behind one another has tiles of the same number
(`tileNumbers_iff`). Tiles of negative rows all have the number -1.
-/

namespace WorldWind.RasterProducer

open Geom Lib.JavaInt

variable (levelSet : LevelSet)

/-- The field of the constructor, unless `computeColumn` throws there. -/
def numLevelZeroColumns : Option Int := do
  let firstLevelZeroCol ← computeColumn levelSet.levelZeroTileDelta.longitude levelSet.sector.minLongitude
    levelSet.tileOrigin.longitude
  let lastLevelZeroCol ← computeColumn levelSet.levelZeroTileDelta.longitude levelSet.sector.maxLongitude
    levelSet.tileOrigin.longitude
  some (max 1 (int (int (lastLevelZeroCol - firstLevelZeroCol) + 1)))

/-- The power is a `double`, and the product is cast to `int`. -/
def numColumnsInLevel (numLevelZeroColumns : Int) (level : Level) : Int :=
  truncInt (2 ^ level.levelNumber * numLevelZeroColumns)

def getTileNumber (numLevelZeroColumns : Int) (level : Level) (row column : Int) : Int :=
  if row < 0 then -1 else int (int (row * numColumnsInLevel numLevelZeroColumns level) + column)

/-! ## The tiles of a level -/

/-- A row that `computeRow` returns for a latitude of the sector. -/
def LevelRow (l : Nat) (row : Int) : Prop :=
  ∃ latitude : Angle, levelSet.sector.minLatitude.degrees ≤ latitude.degrees ∧
    latitude.degrees ≤ levelSet.sector.maxLatitude.degrees ∧
    computeRow (tileDelta levelSet l).latitude latitude levelSet.tileOrigin.latitude = some row

def LevelColumn (l : Nat) (column : Int) : Prop :=
  ∃ longitude : Angle, levelSet.sector.minLongitude.degrees ≤ longitude.degrees ∧
    longitude.degrees ≤ levelSet.sector.maxLongitude.degrees ∧
    computeColumn (tileDelta levelSet l).longitude longitude levelSet.tileOrigin.longitude = some column

/-- The number of a tile, once the level set is constructed. -/
def tileNumber (l : Nat) (row column : Int) : Option Int :=
  (numLevelZeroColumns levelSet).map fun columns => getTileNumber columns (levelSet.level l) row column

/-- Different tiles of the level have different numbers. -/
def Numbered (l : Nat) : Prop :=
  ∀ row row' column column', LevelRow levelSet l row → LevelRow levelSet l row' → LevelColumn levelSet l column →
    LevelColumn levelSet l column' → tileNumber levelSet l row column = tileNumber levelSet l row' column' →
    row = row' ∧ column = column'

/-- The sector lies in the grid, and the level's indexes are `int`s. -/
structure InIntGrid (l : Nat) : Prop where
  accepted : Accepted levelSet
  inGrid : InGrid levelSet
  rows : quotient levelSet.tileOrigin.latitude levelSet.levelZeroTileDelta.latitude l levelSet.sector.maxLatitude <
    2 ^ 31
  columns : quotient levelSet.tileOrigin.longitude levelSet.levelZeroTileDelta.longitude l levelSet.sector.maxLongitude
    < 2 ^ 31

/-- Rows that are `k` apart begin at least a row's columns apart, modulo 2^32. -/
def Spaced (columns : Int) (l : Nat) : Prop :=
  ∀ k, 0 < k → k < rowCount levelSet l →
    columnCount levelSet l ≤ k * columns % 2 ^ 32 ∧ k * columns % 2 ^ 32 + columnCount levelSet l ≤ 2 ^ 32

/-- The same for any rows and columns: no two tiles of negative rows, none of
number -1 besides, and none whose places differ by a multiple of 2^32. -/
def Separate (columns : Int) (l : Nat) : Prop :=
  ∀ row row' column column', LevelRow levelSet l row → LevelRow levelSet l row' → LevelColumn levelSet l column →
    LevelColumn levelSet l column' →
    (row < 0 → row' < 0 → row = row' ∧ column = column') ∧
      (row < 0 → 0 ≤ row' → ¬ (2 ^ 32 : Int) ∣ row' * columns + column' + 1) ∧
      (0 ≤ row → 0 ≤ row' → (2 ^ 32 : Int) ∣ (row - row') * columns + (column - column') → row = row' ∧
        column = column')

variable {levelSet}

/-! ## Equal numbers -/

theorem int_eq_int_iff_dvd {x y : Int} : int x = int y ↔ (2 ^ 32 : Int) ∣ x - y := by
  constructor
  · intro h
    have hmod := congrArg (· % (2 ^ 32 : Int)) h
    simp only [int_mod] at hmod
    omega
  · intro h
    have hmod : x % 2 ^ 32 = y % 2 ^ 32 := by omega
    rw [← int_emod x, hmod, int_emod]

theorem getTileNumber_eq {n0 row column : Int} {level : Level} (h : 0 ≤ row) :
    getTileNumber n0 level row column = int (row * numColumnsInLevel n0 level + column) := by
  rw [getTileNumber, if_neg (not_lt.2 h), int_int_add]

theorem numbered_iff_separate {n0 : Int} (h0 : numLevelZeroColumns levelSet = some n0) (l : Nat) :
    Numbered levelSet l ↔ Separate levelSet (numColumnsInLevel n0 (levelSet.level l)) l := by
  simp only [Numbered, tileNumber, h0, Option.map_some, Option.some.injEq]
  have hminus : int (-1) = -1 := int_eq (by omega) (by omega)
  constructor
  · intro h row row' column column' hrow hrow' hcolumn hcolumn'
    refine ⟨fun hneg hneg' => ?_, fun hneg hpos hdvd => ?_, fun hpos hpos' hdvd => ?_⟩
    · exact h row row' column column' hrow hrow' hcolumn hcolumn'
        (by rw [getTileNumber, getTileNumber, if_pos hneg, if_pos hneg'])
    · have heq := h row row' column column' hrow hrow' hcolumn hcolumn' (by
        rw [getTileNumber, if_pos hneg, getTileNumber_eq hpos, ← hminus, int_eq_int_iff_dvd]
        omega)
      omega
    · refine h row row' column column' hrow hrow' hcolumn hcolumn' ?_
      rw [getTileNumber_eq hpos, getTileNumber_eq hpos', int_eq_int_iff_dvd]
      rw [Int.sub_mul] at hdvd
      omega
  · intro h row row' column column' hrow hrow' hcolumn hcolumn' heq
    obtain ⟨hneg, hmixed, hpos⟩ := h row row' column column' hrow hrow' hcolumn hcolumn'
    obtain ⟨-, hmixed', -⟩ := h row' row column' column hrow' hrow hcolumn' hcolumn
    by_cases hr : row < 0 <;> by_cases hr' : row' < 0
    · exact hneg hr hr'
    · rw [getTileNumber, if_pos hr, getTileNumber_eq (not_lt.1 hr'), ← hminus, int_eq_int_iff_dvd] at heq
      exact absurd (by omega) (hmixed hr (not_lt.1 hr'))
    · rw [getTileNumber_eq (not_lt.1 hr), getTileNumber, if_pos hr', ← hminus, int_eq_int_iff_dvd] at heq
      exact absurd (by omega) (hmixed' hr' (not_lt.1 hr))
    · rw [getTileNumber_eq (not_lt.1 hr), getTileNumber_eq (not_lt.1 hr'), int_eq_int_iff_dvd] at heq
      refine hpos (not_lt.1 hr) (not_lt.1 hr') ?_
      rw [Int.sub_mul]
      omega

/-! ## Rows and columns between two corners -/

/-- The places of two intervals of rows and columns. -/
theorem spaced_iff {rows columns n first firstColumn : Int} (hcolumns : 0 < columns) (hlt : columns ≤ 2 ^ 31) :
    (∀ k, 0 < k → k < rows → columns ≤ k * n % 2 ^ 32 ∧ k * n % 2 ^ 32 + columns ≤ 2 ^ 32) ↔
      ∀ row row' column column', first ≤ row → row < first + rows → first ≤ row' → row' < first + rows →
        firstColumn ≤ column → column < firstColumn + columns → firstColumn ≤ column' →
          column' < firstColumn + columns →
        (2 ^ 32 : Int) ∣ (row - row') * n + (column - column') → row = row' ∧ column = column' := by
  constructor
  · intro h
    -- the rows in order, the other case is the mirror image
    have hle : ∀ row row' column column', row' ≤ row → first ≤ row → row < first + rows → first ≤ row' →
        row' < first + rows → firstColumn ≤ column → column < firstColumn + columns → firstColumn ≤ column' →
        column' < firstColumn + columns →
        (2 ^ 32 : Int) ∣ (row - row') * n + (column - column') → row = row' ∧ column = column' := by
      intro row row' column column' hle h1 h2 h3 h4 h5 h6 h7 h8 hdvd
      by_cases heq : row = row'
      · subst heq
        rw [Int.sub_self, Int.zero_mul] at hdvd
        exact ⟨rfl, by omega⟩
      · have hk := h (row - row') (by omega) (by omega)
        generalize (row - row') * n = place at hdvd hk
        omega
    intro row row' column column' h1 h2 h3 h4 h5 h6 h7 h8 hdvd
    rcases le_total row' row with hrow | hrow
    · exact hle row row' column column' hrow h1 h2 h3 h4 h5 h6 h7 h8 hdvd
    · have hdvd' : (2 ^ 32 : Int) ∣ (row' - row) * n + (column' - column) := by
        have hneg : (row' - row) * n + (column' - column) = -((row - row') * n + (column - column')) := by ring
        rw [hneg]
        exact (Int.dvd_neg).2 hdvd
      obtain ⟨h, h'⟩ := hle row' row column' column hrow h3 h4 h1 h2 h7 h8 h5 h6 hdvd'
      exact ⟨h.symm, h'.symm⟩
  · intro h k hk hrows
    have hmod := Int.emod_nonneg (k * n) (by decide : (2 ^ 32 : Int) ≠ 0)
    have hmod' := Int.emod_lt_of_pos (k * n) (by decide : (0 : Int) < 2 ^ 32)
    have hcong : (2 ^ 32 : Int) ∣ k * n - k * n % 2 ^ 32 := Int.dvd_self_sub_emod
    have hsub : first + k - first = k := by omega
    constructor
    · by_contra hclose
      have := h (first + k) first firstColumn (firstColumn + k * n % 2 ^ 32) (by omega) (by omega) (by omega)
          (by omega)
        (by omega) (by omega) (by omega) (by omega) (by rw [hsub]; omega)
      omega
    · by_contra hclose
      have := h (first + k) first (firstColumn + (2 ^ 32 - k * n % 2 ^ 32)) firstColumn (by omega) (by omega)
          (by omega)
        (by omega) (by omega) (by omega) (by omega) (by omega) (by rw [hsub]; omega)
      omega

section
variable {full : ℚ} {origin delta lo hi : Angle}

/-- Part of a sector in the grid lies in the grid. -/
theorem OnAxis.part (h : OnAxis full origin delta lo hi) {x y : Angle} (hx : lo.degrees ≤ x.degrees)
    (hxy : x.degrees ≤ y.degrees) (hy : y.degrees ≤ hi.degrees) : OnAxis full origin delta x y where
  delta_pos := h.delta_pos
  full_pos := h.full_pos
  origin_le := h.origin_le.trans hx
  lo_le := hxy
  hi_le := by linarith [h.hi_le]
  divides := fun hfull => h.divides (le_antisymm h.hi_le (by linarith))

theorem quotient_mono (hdelta : 0 < delta.degrees) (l : Nat) {x y : Angle} (h : x.degrees ≤ y.degrees) :
    quotient origin delta l x ≤ quotient origin delta l y :=
  div_le_div_of_nonneg_right (by linarith) (div_pos hdelta (by positivity)).le

/-- An index that is an `int` is exact. -/
theorem axisIndex_eq_exactIndex (hdelta : 0 < delta.degrees) (l : Nat) {x : Angle} (hx : origin.degrees ≤ x.degrees)
    (hlt : quotient origin delta l x < 2 ^ 31) :
    axisIndex full (delta.degrees / 2 ^ l) (x.degrees - origin.degrees) = exactIndex full origin delta l x := by
  have hfloor : ⌊quotient origin delta l x⌋ < 2 ^ 31 := by
    rw [Int.floor_lt]
    exact_mod_cast hlt
  rw [axisIndex_eq hdelta l hx, exactIndex, min_eq_right (by omega)]

/-- The indexes of the points between two corners are those between the indexes
of the corners. -/
theorem OnAxis.exists_index_iff (h : OnAxis full origin delta lo hi) (l : Nat) (index : Int) :
    (∃ x : Angle, lo.degrees ≤ x.degrees ∧ x.degrees ≤ hi.degrees ∧ exactIndex full origin delta l x = index) ↔
      exactIndex full origin delta l lo ≤ index ∧ index ≤ exactIndex full origin delta l hi := by
  constructor
  · rintro ⟨x, hlo, hhi, rfl⟩
    exact ⟨((h.part le_rfl hlo hhi).exactIndex_bounds l).2.1, ((h.part hlo hhi le_rfl).exactIndex_bounds l).2.1⟩
  · rintro ⟨hlo, hhi⟩
    rcases hlo.eq_or_lt with heq | hlt
    · exact ⟨lo, le_rfl, h.lo_le, heq⟩
    · -- the point where the tile begins
      have hpos : 0 < delta.degrees / 2 ^ l := div_pos h.delta_pos (by positivity)
      obtain ⟨-, -, hfull, -⟩ := h.floors l
      have hlofull : lo.degrees - origin.degrees ≠ full := by
        intro hlofull
        obtain ⟨hhifull, hfloor⟩ := hfull hlofull
        rw [exactIndex, if_pos hlofull] at hlt
        rw [exactIndex, if_pos hhifull] at hhi
        omega
      rw [exactIndex, if_neg hlofull, Int.floor_lt, quotient, div_lt_iff₀ hpos] at hlt
      have hle : index ≤ ⌊quotient origin delta l hi⌋ := by
        rw [exactIndex] at hhi
        split at hhi <;> omega
      rw [Int.le_floor, quotient, le_div_iff₀ hpos] at hle
      refine ⟨.fromDegrees (origin.degrees + index * (delta.degrees / 2 ^ l)), ?_, ?_, ?_⟩
      · simp only [Angle.fromDegrees]
        linarith
      · simp only [Angle.fromDegrees]
        linarith
      · have hq : quotient origin delta l (.fromDegrees (origin.degrees + index * (delta.degrees / 2 ^ l))) =
            index := by
          rw [quotient, Angle.fromDegrees, add_sub_cancel_left, mul_div_cancel_right₀ _ hpos.ne']
        rw [exactIndex, hq, Int.floor_intCast, if_neg]
        intro hend
        have hhifull : hi.degrees - origin.degrees = full := by
          refine le_antisymm h.hi_le ?_
          simp only [Angle.fromDegrees] at hend
          linarith
        have hq' : quotient origin delta l hi = index := by
          rw [← hq, quotient, quotient, hend, hhifull]
        rw [exactIndex, if_pos hhifull, hq', Int.floor_intCast] at hhi
        omega

end

/-! ## The levels -/

theorem levelRow_iff {l : Nat} (h : InIntGrid levelSet l) (row : Int) : LevelRow levelSet l row ↔
    exactIndex 180 levelSet.tileOrigin.latitude levelSet.levelZeroTileDelta.latitude l levelSet.sector.minLatitude ≤
      row ∧
      row ≤ exactIndex 180 levelSet.tileOrigin.latitude levelSet.levelZeroTileDelta.latitude l
        levelSet.sector.maxLatitude := by
  obtain ⟨haccepted, ⟨hgrid, -⟩, hfits, -⟩ := h
  rw [← hgrid.exists_index_iff, LevelRow]
  refine exists_congr fun x => and_congr_right fun hlo => and_congr_right fun hhi => ?_
  have hrange : -90 ≤ x.degrees ∧ x.degrees ≤ 90 :=
    ⟨haccepted.minLatitude.1.trans hlo, hhi.trans haccepted.maxLatitude.2⟩
  rw [computeRow_eq_axisIndex (tileDelta_pos haccepted.delta_pos l).1 hrange, Option.some.injEq,
    ← axisIndex_eq_exactIndex hgrid.delta_pos l (hgrid.origin_le.trans hlo)
      ((quotient_mono hgrid.delta_pos l hhi).trans_lt hfits)]
  rfl

theorem levelColumn_iff {l : Nat} (h : InIntGrid levelSet l) (column : Int) : LevelColumn levelSet l column ↔
    exactIndex 360 levelSet.tileOrigin.longitude levelSet.levelZeroTileDelta.longitude l levelSet.sector.minLongitude
        ≤ column ∧
      column ≤ exactIndex 360 levelSet.tileOrigin.longitude levelSet.levelZeroTileDelta.longitude l
        levelSet.sector.maxLongitude := by
  obtain ⟨haccepted, ⟨-, hgrid⟩, -, hfits⟩ := h
  rw [← hgrid.exists_index_iff, LevelColumn]
  refine exists_congr fun x => and_congr_right fun hlo => and_congr_right fun hhi => ?_
  have hrange : -180 ≤ x.degrees ∧ x.degrees ≤ 180 :=
    ⟨haccepted.minLongitude.1.trans hlo, hhi.trans haccepted.maxLongitude.2⟩
  rw [computeColumn_eq_axisIndex (tileDelta_pos haccepted.delta_pos l).2 hrange (hgrid.origin_le.trans hlo),
    Option.some.injEq, ← axisIndex_eq_exactIndex hgrid.delta_pos l (hgrid.origin_le.trans hlo)
      ((quotient_mono hgrid.delta_pos l hhi).trans_lt hfits)]
  rfl

/-- In the grid, the tiles have different numbers if the rows are spaced. -/
theorem separate_iff_spaced {l : Nat} (h : InIntGrid levelSet l) (columns : Int) :
    Separate levelSet columns l ↔ Spaced levelSet columns l := by
  have hrows := h.inGrid.1.exactIndex_bounds l
  have hcolumns := h.inGrid.2.exactIndex_bounds l
  have hrowCount := (h.inGrid.1.count_le l (rowCount_eq h.accepted l)).2.2.2 (.inl h.rows)
  have hcolumnCount := (h.inGrid.2.count_le l (columnCount_eq h.accepted h.inGrid l)).2.2.2 (.inl h.columns)
  have hlast : exactIndex 360 levelSet.tileOrigin.longitude levelSet.levelZeroTileDelta.longitude l
      levelSet.sector.maxLongitude < 2 ^ 31 := by
    have hfloor : ⌊quotient levelSet.tileOrigin.longitude levelSet.levelZeroTileDelta.longitude l
        levelSet.sector.maxLongitude⌋ < 2 ^ 31 := by
      rw [Int.floor_lt]
      exact_mod_cast h.columns
    rw [exactIndex]
    split <;> omega
  rw [Spaced, spaced_iff (by omega) (by omega)]
  constructor
  · intro hsep row row' column column' h1 h2 h3 h4 h5 h6 h7 h8 hdvd
    exact (hsep row row' column column' ((levelRow_iff h row).2 ⟨h1, by omega⟩)
      ((levelRow_iff h row').2 ⟨h3, by omega⟩)
      ((levelColumn_iff h column).2 ⟨h5, by omega⟩) ((levelColumn_iff h column').2 ⟨h7, by omega⟩)).2.2
      (by omega) (by omega) hdvd
  · intro hspaced row row' column column' hrow hrow' hcolumn hcolumn'
    rw [levelRow_iff h] at hrow hrow'
    rw [levelColumn_iff h] at hcolumn hcolumn'
    refine ⟨fun hneg => by omega, fun hneg => by omega, fun _ _ hdvd => ?_⟩
    exact hspaced row row' column column' hrow.1 (by omega) hrow'.1 (by omega) hcolumn.1 (by omega) hcolumn'.1
      (by omega)
      hdvd

/-- The whole globe in five rows and ten columns. -/
def tenColumns : LevelSet where
  sector := ⟨⟨-90⟩, ⟨90⟩, ⟨-180⟩, ⟨180⟩⟩
  levelZeroTileDelta := ⟨⟨36⟩, ⟨36⟩⟩
  tileOrigin := ⟨⟨-90⟩, ⟨-180⟩⟩
  numLevels := 1
  numEmptyLevels := 0
  inactiveLevels := []
  numLevels_pos := Nat.one_pos

/-- Sixteen levels from 45 degrees on. The last has 2^18 columns. -/
def sixteenLevels : LevelSet where
  sector := ⟨⟨-90⟩, ⟨90⟩, ⟨-180⟩, ⟨180⟩⟩
  levelZeroTileDelta := ⟨⟨45⟩, ⟨45⟩⟩
  tileOrigin := ⟨⟨-90⟩, ⟨-180⟩⟩
  numLevels := 16
  numEmptyLevels := 0
  inactiveLevels := []
  numLevels_pos := by decide

end WorldWind.RasterProducer
