import WorldWind.Elevations.Extremes
/-!
# The extremes of a sector bound those of its locations

The extremes of a sector are taken over the rows and columns between those of
its corners. They bound the extremes of its locations, in every table, if the
rows and columns of the locations are between those of the corners
(`bounds_iff_between`). The far end of the grid and the meridian of the tile
origin may prevent that (`getExtremeElevations_bounds_iff`).
-/

namespace WorldWind.Elevations.Extremes

open Geom Lib.JavaInt RasterProducer
open Rasters (MAX_VALUE)

namespace BasicElevationModel

variable {model : BasicElevationModel} {table : List ℚ}

/-! ## Bounds -/

variable (model) in
/-- The rows and columns of a sector's locations are between those of its corners. -/
structure Between (sector : Sector) : Prop where
  rows : ∀ latitude : Angle, sector.minLatitude.degrees ≤ latitude.degrees →
    latitude.degrees ≤ sector.maxLatitude.degrees →
    model.rowIndex sector.minLatitude ≤ model.rowIndex latitude ∧
      model.rowIndex latitude ≤ model.rowIndex sector.maxLatitude
  columns : ∀ longitude : Angle, sector.minLongitude.degrees ≤ longitude.degrees →
    longitude.degrees ≤ sector.maxLongitude.degrees →
    model.columnIndex sector.minLongitude ≤ model.columnIndex longitude ∧
      model.columnIndex longitude ≤ model.columnIndex sector.maxLongitude

variable (model) in
/-- No elevation is replaced by the largest one, unless the model's limit is the
largest one. -/
def ReplacementOk : Prop :=
  |model.missingDataSignal| < MAX_VALUE → model.missingDataReplacement = MAX_VALUE → model.maxElevation = MAX_VALUE

theorem MAX_VALUE_pos : (0 : ℚ) < MAX_VALUE := by
  rw [MAX_VALUE]
  positivity

/-- An elevation of the table, and where it may be the largest one. -/
theorem replaced_range (hok : model.ReplacementOk) {x : ℚ} (hx : |x| < MAX_VALUE) :
    -MAX_VALUE ≤ model.replaced x ∧ model.replaced x ≤ MAX_VALUE ∧
      (model.replaced x = MAX_VALUE → model.maxElevation = MAX_VALUE) := by
  obtain ⟨h1, h2⟩ := abs_lt.1 hx
  rw [replaced]
  split_ifs with hsignal
  · exact ⟨model.replacement_le.1, model.replacement_le.2, hok (hsignal ▸ hx)⟩
  · exact ⟨h1.le, h2.le, fun h => absurd h h2.ne⟩

theorem pair_range (h : model.HasEntries table) (hok : model.ReplacementOk) (k : Nat) :
    ∀ x ∈ [(model.pair table k).1, (model.pair table k).2],
      -MAX_VALUE ≤ x ∧ x ≤ MAX_VALUE ∧ (x = MAX_VALUE → model.maxElevation = MAX_VALUE) := by
  have hget : ∀ i : Nat, |table.getD i 0| < MAX_VALUE := by
    intro i
    by_cases hi : i < table.length
    · rw [List.getD_eq_getElem _ _ hi]
      exact h.finite _ (List.getElem_mem hi)
    · rw [List.getD_eq_default _ _ (not_lt.1 hi), abs_zero]
      exact MAX_VALUE_pos
  intro x hx
  rcases List.mem_pair.1 hx with rfl | rfl
  · exact replaced_range hok (hget _)
  · exact replaced_range hok (hget _)

/-- The limits of entries in order bound them. -/
theorem orLimits_bounds {l : List (ℚ × ℚ)} {e : ℚ × ℚ} (he : e ∈ l)
    (hl : ∀ e ∈ l, ∀ x ∈ [e.1, e.2],
      -MAX_VALUE ≤ x ∧ x ≤ MAX_VALUE ∧ (x = MAX_VALUE → model.maxElevation = MAX_VALUE)) :
    ∀ x ∈ [e.1, e.2], (model.orLimits (l.foldl addEntry (MAX_VALUE, -MAX_VALUE))).1 ≤ x ∧
      x ≤ (model.orLimits (l.foldl addEntry (MAX_VALUE, -MAX_VALUE))).2 := by
  obtain ⟨-, -, hbounds⟩ := @foldl_addEntry_bounds l (MAX_VALUE, -MAX_VALUE)
  obtain ⟨-, hmem⟩ := @foldl_addEntry_mem l (MAX_VALUE, -MAX_VALUE)
  intro x hx
  obtain ⟨hlo, hhi⟩ := hbounds e he x hx
  rw [orLimits]
  constructor
  · dsimp only
    split_ifs with hmax
    · exact model.minElevation_le.trans (hmax ▸ hlo)
    · exact hlo
  · dsimp only
    split_ifs with hmax
    · have hlimit : model.maxElevation = MAX_VALUE := by
        rcases hmem with h | ⟨e', he', h⟩
        · have := MAX_VALUE_pos
          rw [hmax] at h
          dsimp only at h
          linarith
        · exact (hl e' he' _ h).2.2 hmax
      rw [hlimit]
      exact (hl e he x hx).2.1
    · exact hhi

/-- The extremes of a sector whose locations are between its corners. -/
theorem bounds_of_between (h : model.HasEntries table) {sector : Sector} (hin : Within sector model.levels.sector)
    (hbetween : model.Between sector) (hok : model.ReplacementOk) : (model.withExtremes table).Bounds sector := by
  have hlocation : ∀ latitude longitude, Contains sector latitude longitude →
      ∀ x ∈ [((model.withExtremes table).getExtremeElevationsAt latitude longitude).1,
        ((model.withExtremes table).getExtremeElevationsAt latitude longitude).2],
      (model.orLimits ((model.box table (model.rowIndex sector.minLatitude) (model.rowIndex sector.maxLatitude)
        (model.columnIndex sector.minLongitude) (model.columnIndex sector.maxLongitude)).foldl addEntry
          (MAX_VALUE, -MAX_VALUE))).1 ≤ x ∧
      x ≤ (model.orLimits ((model.box table (model.rowIndex sector.minLatitude) (model.rowIndex sector.maxLatitude)
        (model.columnIndex sector.minLongitude) (model.columnIndex sector.maxLongitude)).foldl addEntry
          (MAX_VALUE, -MAX_VALUE))).2 := by
    intro latitude longitude hcontains
    rw [getExtremeElevationsAt_eq h (hin.contains hcontains)]
    refine orLimits_bounds (mem_box.2 ⟨_, _, hbetween.rows latitude hcontains.1.1 hcontains.1.2,
      hbetween.columns longitude hcontains.2.1 hcontains.2.2, rfl⟩) ?_
    intro e he
    obtain ⟨row, col, -, -, rfl⟩ := mem_box.1 he
    exact pair_range h hok _
  obtain ⟨hle1, hle2⟩ := hlocation sector.minLatitude sector.minLongitude
    ⟨⟨le_refl _, hin.latitudes⟩, le_refl _, hin.longitudes⟩ _ List.mem_cons_self
  exact ⟨_, _, getExtremeElevations_eq h hin, hle1.trans hle2, hlocation⟩

/-- A table of the same length. -/
theorem HasEntries.of_length (h : model.HasEntries table) {table' : List ℚ} (hlength : table'.length = table.length)
    (hfinite : ∀ x ∈ table', |x| < MAX_VALUE) : model.HasEntries table' :=
  ⟨h.level, hlength ▸ h.length_lt, hfinite, hlength ▸ h.entries⟩

/-- One entry differs from all others. -/
def spiked (length k : Nat) (other spike : ℚ) : List ℚ :=
  (List.range length).map fun i => if i / 2 = k then spike else other

theorem pair_spiked {length k j : Nat} {other spike : ℚ} (hj : 2 * j + 1 < length)
    (hother : other ≠ model.missingDataSignal) (hspike : spike ≠ model.missingDataSignal) :
    model.pair (spiked length k other spike) j = if j = k then (spike, spike) else (other, other) := by
  have hget : ∀ i < length, (spiked length k other spike).getD i 0 = if i / 2 = k then spike else other := by
    intro i hi
    have hlength : i < (spiked length k other spike).length := by rwa [spiked, List.length_map, List.length_range]
    rw [List.getD_eq_getElem _ _ hlength]
    simp only [spiked, List.getElem_map, List.getElem_range]
  rw [pair, hget _ (by omega), hget _ hj, show 2 * j / 2 = j by omega, show (2 * j + 1) / 2 = j by omega]
  split_ifs
  · rw [replaced, if_neg hspike]
  · rw [replaced, if_neg hother]

/-- Two elevations that are not missing. -/
theorem exists_elevations (signal : ℚ) : ∃ other spike : ℚ, other ≠ spike ∧ other ≠ signal ∧ spike ≠ signal ∧
    |other| < MAX_VALUE ∧ |spike| < MAX_VALUE := by
  have hmax : (2 : ℚ) < MAX_VALUE := by
    have hpow : (2 : ℚ) ^ 1 ≤ 2 ^ 1023 := pow_le_pow_right₀ (by norm_num) (by norm_num)
    have hfactor : (3 / 2 : ℚ) ≤ 2 - 1 / 2 ^ 52 := by norm_num
    calc (2 : ℚ) < 3 / 2 * 2 ^ 1 := by norm_num
      _ ≤ MAX_VALUE := mul_le_mul hfactor hpow (by norm_num) (by norm_num)
  by_cases h0 : signal = 0
  · exact ⟨1, 2, by norm_num, by rw [h0]; norm_num, by rw [h0]; norm_num, by norm_num; linarith,
      by norm_num; linarith⟩
  · by_cases h1 : signal = 1
    · exact ⟨0, 2, by norm_num, Ne.symm h0, by rw [h1]; norm_num, by norm_num; linarith, by norm_num; linarith⟩
    · exact ⟨0, 1, by norm_num, Ne.symm h0, Ne.symm h1, by norm_num; linarith, by norm_num; linarith⟩

/-- Extremes that bound the locations of the sector in every table visit their
entries. -/
theorem exists_visited (h : model.HasEntries table) {sector : Sector} (hin : Within sector model.levels.sector)
    (hbounds : ∀ table, model.HasEntries table → (model.withExtremes table).Bounds sector)
    {latitude longitude : Angle} (hcontains : Contains sector latitude longitude) :
    ∃ row col, (model.rowIndex sector.minLatitude ≤ row ∧ row ≤ model.rowIndex sector.maxLatitude) ∧
      (model.columnIndex sector.minLongitude ≤ col ∧ col ≤ model.columnIndex sector.maxLongitude) ∧
      row * model.columns + col = model.rowIndex latitude * model.columns + model.columnIndex longitude := by
  by_contra hnone
  push Not at hnone
  have hloc := h.located (hin.contains hcontains)
  obtain ⟨other, spike, hne, hother, hspike, hother', hspike'⟩ := exists_elevations model.missingDataSignal
  have hk := Int.add_nonneg (Int.mul_nonneg hloc.row_nonneg hloc.columns_pos.le) hloc.column_nonneg
  obtain ⟨k, hk⟩ := Int.eq_ofNat_of_zero_le hk
  -- a table that has another elevation at the location's entry only
  have hspiked : model.HasEntries (spiked table.length k other spike) := by
    refine h.of_length (by rw [spiked, List.length_map, List.length_range]) fun x hx => ?_
    obtain ⟨i, -, rfl⟩ := List.mem_map.1 hx
    split_ifs
    · exact hspike'
    · exact hother'
  have hbox : ∀ e ∈ model.box (spiked table.length k other spike) (model.rowIndex sector.minLatitude)
      (model.rowIndex sector.maxLatitude) (model.columnIndex sector.minLongitude)
      (model.columnIndex sector.maxLongitude), e = (other, other) := by
    intro e he
    obtain ⟨row, col, hrow, hcol, rfl⟩ := mem_box.1 he
    obtain ⟨-, hcol0, hprod, hinside⟩ := inside_between h hin hrow hcol
    rw [pair_spiked (by omega) hother hspike, if_neg]
    intro heq
    exact hnone row col hrow hcol (by omega)
  obtain ⟨lo, hi, hresult, -, hlocation⟩ := hbounds _ hspiked
  have hvalue := hlocation latitude longitude hcontains spike
  rw [getExtremeElevationsAt_eq hspiked (hin.contains hcontains), hk, Int.toNat_natCast,
    pair_spiked (by have := hloc.inside; omega) hother hspike, if_pos rfl] at hvalue
  obtain ⟨hlo, hhi⟩ := hvalue List.mem_cons_self
  rw [getExtremeElevations_eq hspiked hin] at hresult
  obtain ⟨-, -, hle⟩ := @foldl_addEntry_bounds (model.box (spiked table.length k other spike)
    (model.rowIndex sector.minLatitude) (model.rowIndex sector.maxLatitude) (model.columnIndex sector.minLongitude)
    (model.columnIndex sector.maxLongitude)) (MAX_VALUE, -MAX_VALUE)
  obtain ⟨hmin, hmax⟩ := @foldl_addEntry_mem (model.box (spiked table.length k other spike)
    (model.rowIndex sector.minLatitude) (model.rowIndex sector.maxLatitude) (model.columnIndex sector.minLongitude)
    (model.columnIndex sector.maxLongitude)) (MAX_VALUE, -MAX_VALUE)
  revert hresult hle hmin hmax
  generalize (model.box (spiked table.length k other spike) (model.rowIndex sector.minLatitude)
    (model.rowIndex sector.maxLatitude) (model.columnIndex sector.minLongitude)
    (model.columnIndex sector.maxLongitude)).foldl addEntry (MAX_VALUE, -MAX_VALUE) = s
  intro hresult hle hmin hmax
  obtain ⟨rfl, rfl⟩ := Prod.mk.inj (Option.some.inj hresult)
  have hpos := MAX_VALUE_pos
  obtain ⟨hother1, hother2⟩ := abs_lt.1 hother'
  obtain ⟨hspike1, hspike2⟩ := abs_lt.1 hspike'
  rcases hmax with hmax | ⟨e, he, hmax⟩
  · -- no entry
    rw [hmax, if_neg (by dsimp only; linarith)] at hhi
    dsimp only at hhi
    linarith
  · obtain ⟨hle1, hle2⟩ := hle e he other (by rw [hbox e he]; exact List.mem_cons_self)
    rw [hbox e he] at hmax
    have hmax : s.2 = other := by simpa using hmax
    have hmin : s.1 = other := by
      rcases hmin with hmin | ⟨e', he', hmin⟩
      · exact absurd hle1 (by rw [hmin]; dsimp only; linarith)
      · rw [hbox e' he'] at hmin
        simpa using hmin
    rw [hmax, if_neg (by linarith)] at hhi
    rw [hmin, if_neg (by linarith)] at hlo
    exact hne (le_antisymm hlo hhi)

theorem between_of_bounds (h : model.HasEntries table) {sector : Sector} (hin : Within sector model.levels.sector)
    (hbounds : ∀ table, model.HasEntries table → (model.withExtremes table).Bounds sector) :
    model.Between sector := by
  have hpos := (h.located hin.corners.1).columns_pos
  -- beyond the corners' rows and columns, an index is larger or smaller than all that are visited
  constructor
  · intro latitude h1 h2
    constructor
    · obtain ⟨row, col, hrow, hcol, heq⟩ := exists_visited h hin hbounds
        (show Contains sector latitude sector.minLongitude from ⟨⟨h1, h2⟩, le_refl _, hin.longitudes⟩)
      by_contra hlt
      have hmul := Int.mul_lt_mul_of_pos_right (lt_of_lt_of_le (not_le.1 hlt) hrow.1) hpos
      omega
    · obtain ⟨row, col, hrow, hcol, heq⟩ := exists_visited h hin hbounds
        (show Contains sector latitude sector.maxLongitude from ⟨⟨h1, h2⟩, hin.longitudes, le_refl _⟩)
      by_contra hlt
      have hmul := Int.mul_lt_mul_of_pos_right (lt_of_le_of_lt hrow.2 (not_le.1 hlt)) hpos
      omega
  · intro longitude h1 h2
    constructor
    · obtain ⟨row, col, hrow, hcol, heq⟩ := exists_visited h hin hbounds
        (show Contains sector sector.minLatitude longitude from ⟨⟨le_refl _, hin.latitudes⟩, h1, h2⟩)
      have hmul := Int.mul_le_mul_of_nonneg_right hrow.1 hpos.le
      omega
    · obtain ⟨row, col, hrow, hcol, heq⟩ := exists_visited h hin hbounds
        (show Contains sector sector.maxLatitude longitude from ⟨⟨hin.latitudes, le_refl _⟩, h1, h2⟩)
      have hmul := Int.mul_le_mul_of_nonneg_right hrow.2 hpos.le
      omega

theorem replacementOk_of_bounds (h : model.HasEntries table) {sector : Sector}
    (hin : Within sector model.levels.sector)
    (hbounds : ∀ table, model.HasEntries table → (model.withExtremes table).Bounds sector) :
    model.ReplacementOk := by
  intro hsignal hreplacement
  -- a table with nothing but missing elevations
  have hmissing : model.HasEntries (List.replicate table.length model.missingDataSignal) :=
    h.of_length List.length_replicate fun x hx => by rwa [List.eq_of_mem_replicate hx]
  have hpair : ∀ k : Nat, 2 * k + 1 < table.length →
      model.pair (List.replicate table.length model.missingDataSignal) k = (MAX_VALUE, MAX_VALUE) := by
    intro k hk
    rw [pair, List.getD_replicate _ (by omega), List.getD_replicate _ hk, replaced, if_pos rfl, hreplacement]
  have hcontains : Contains sector sector.minLatitude sector.minLongitude :=
    ⟨⟨le_refl _, hin.latitudes⟩, le_refl _, hin.longitudes⟩
  have hloc := h.located (hin.contains hcontains)
  have hprod := Int.mul_nonneg hloc.row_nonneg hloc.columns_pos.le
  have hcolumn := hloc.column_nonneg
  have hinside := hloc.inside
  obtain ⟨lo, hi, hresult, -, hlocation⟩ := hbounds _ hmissing
  have hvalue := hlocation _ _ hcontains MAX_VALUE
  rw [getExtremeElevationsAt_eq hmissing (hin.contains hcontains), hpair _ (by omega)] at hvalue
  obtain ⟨-, hhi⟩ := hvalue List.mem_cons_self
  rw [getExtremeElevations_eq hmissing hin] at hresult
  rw [← (Prod.mk.inj (Option.some.inj hresult)).2] at hhi
  split_ifs at hhi with hmax
  · exact le_antisymm model.maxElevation_le hhi
  · -- an elevation is never above the largest one
    obtain ⟨-, hmem⟩ := @foldl_addEntry_mem (model.box (List.replicate table.length model.missingDataSignal)
      (model.rowIndex sector.minLatitude) (model.rowIndex sector.maxLatitude) (model.columnIndex sector.minLongitude)
      (model.columnIndex sector.maxLongitude)) (MAX_VALUE, -MAX_VALUE)
    rcases hmem with hmem | ⟨e, he, hmem⟩
    · have hpos := MAX_VALUE_pos
      rw [hmem] at hhi
      dsimp only at hhi
      linarith
    · obtain ⟨row, col, hrow, hcol, rfl⟩ := mem_box.1 he
      obtain ⟨-, hcol0, hprod0, hinside0⟩ := inside_between h hin hrow hcol
      rw [hpair _ (by omega)] at hmem
      exact absurd (by simpa using hmem) hmax

theorem bounds_iff_between (h : model.HasEntries table) {sector : Sector} (hin : Within sector model.levels.sector) :
    (∀ table, model.HasEntries table → (model.withExtremes table).Bounds sector) ↔
      model.Between sector ∧ model.ReplacementOk :=
  ⟨fun hbounds => ⟨between_of_bounds h hin hbounds, replacementOk_of_bounds h hin hbounds⟩,
    fun ⟨hbetween, hok⟩ _ htable => bounds_of_between htable hin hbetween hok⟩

/-! ## Order -/

variable (model) in
/-- The corners' rows and columns are in order: at the ends of the grid, and
where the sector goes across the meridian of the tile origin. -/
structure Ordered (sector : Sector) : Prop where
  rows : Ends 180 model.delta.latitude.degrees
    (sector.minLatitude.degrees - model.levels.tileOrigin.latitude.degrees)
    (sector.maxLatitude.degrees - model.levels.tileOrigin.latitude.degrees)
  columns : model.levels.tileOrigin.longitude.degrees ≤ sector.minLongitude.degrees →
    Ends 360 model.delta.longitude.degrees
      (sector.minLongitude.degrees - model.levels.tileOrigin.longitude.degrees)
      (sector.maxLongitude.degrees - model.levels.tileOrigin.longitude.degrees)
  across : sector.minLongitude.degrees < model.levels.tileOrigin.longitude.degrees →
    model.levels.tileOrigin.longitude.degrees ≤ sector.maxLongitude.degrees → 360 ≤ model.delta.longitude.degrees

/-- The angle at a distance from the origin. -/
theorem forall_angle_iff {lo hi : Angle} (origin : Angle) {p : ℚ → Prop} :
    (∀ x, lo.degrees - origin.degrees ≤ x → x ≤ hi.degrees - origin.degrees → p x) ↔
      ∀ angle : Angle, lo.degrees ≤ angle.degrees → angle.degrees ≤ hi.degrees →
        p (angle.degrees - origin.degrees) := by
  constructor
  · intro h angle h1 h2
    exact h _ (by linarith) (by linarith)
  · intro h x h1 h2
    have := h (.fromDegrees (x + origin.degrees)) (by simp only [Angle.fromDegrees]; linarith)
      (by simp only [Angle.fromDegrees]; linarith)
    simpa only [Angle.fromDegrees, add_sub_cancel_right] using this

/-- The rows and columns are below half the length of the table. -/
theorem Located.index_lt {latitude longitude : Angle} (h : Located model table latitude longitude)
    (hlength : table.length < 2 ^ 31) :
    model.rowIndex latitude < 2 ^ 30 ∧ model.columnIndex longitude < 2 ^ 30 := by
  have hcolumns := h.columns_pos
  have hmul := Int.mul_le_mul_of_nonneg_left (show (1 : Int) ≤ model.columns by omega) h.row_nonneg
  have hprod := Int.mul_nonneg h.row_nonneg h.columns_pos.le
  have hinside := h.inside
  have hcolumn := h.column_nonneg
  omega

theorem rows_iff (h : model.HasEntries table) {sector : Sector} (hin : Within sector model.levels.sector) :
    (∀ latitude : Angle, sector.minLatitude.degrees ≤ latitude.degrees →
      latitude.degrees ≤ sector.maxLatitude.degrees →
      model.rowIndex sector.minLatitude ≤ model.rowIndex latitude ∧
        model.rowIndex latitude ≤ model.rowIndex sector.maxLatitude) ↔
    Ends 180 model.delta.latitude.degrees
      (sector.minLatitude.degrees - model.levels.tileOrigin.latitude.degrees)
      (sector.maxLatitude.degrees - model.levels.tileOrigin.latitude.degrees) := by
  rw [← between_iff_ends (h.located hin.corners.1).delta_pos.1 (by norm_num) (by linarith [hin.latitudes]),
    forall_angle_iff model.levels.tileOrigin.latitude]
  · rfl
  · rw [forall_angle_iff model.levels.tileOrigin.latitude]
    intro latitude h1 h2
    have hloc := h.located (hin.contains ⟨⟨h1, h2⟩, le_refl _, hin.longitudes⟩)
    exact ⟨hloc.row_nonneg, (hloc.index_lt h.length_lt).1⟩

/-- East of the origin, the distance is not wrapped. -/
theorem columnIndex_east {longitude : Angle} (heast : model.levels.tileOrigin.longitude.degrees ≤ longitude.degrees) :
    model.columnIndex longitude = axisIndex 360 model.delta.longitude.degrees
      (longitude.degrees - model.levels.tileOrigin.longitude.degrees) := by
  have hgrid : gridLongitude model.levels.tileOrigin.longitude longitude
      = longitude.degrees - model.levels.tileOrigin.longitude.degrees := by
    rw [gridLongitude, if_neg (not_lt.2 (sub_nonneg.2 heast))]
  rw [columnIndex, axisIndex, hgrid]

/-- West of the origin, it is. -/
theorem columnIndex_west {longitude : Angle} (hwest : longitude.degrees < model.levels.tileOrigin.longitude.degrees) :
    model.columnIndex longitude = truncInt ((360 + (longitude.degrees - model.levels.tileOrigin.longitude.degrees))
      / model.delta.longitude.degrees) := by
  rw [columnIndex, if_neg (by linarith), gridLongitude, if_pos (by linarith)]

theorem columns_iff_east (h : model.HasEntries table) {sector : Sector} (hin : Within sector model.levels.sector)
    (heast : model.levels.tileOrigin.longitude.degrees ≤ sector.minLongitude.degrees) :
    (∀ longitude : Angle, sector.minLongitude.degrees ≤ longitude.degrees →
      longitude.degrees ≤ sector.maxLongitude.degrees →
      model.columnIndex sector.minLongitude ≤ model.columnIndex longitude ∧
        model.columnIndex longitude ≤ model.columnIndex sector.maxLongitude) ↔
    Ends 360 model.delta.longitude.degrees
      (sector.minLongitude.degrees - model.levels.tileOrigin.longitude.degrees)
      (sector.maxLongitude.degrees - model.levels.tileOrigin.longitude.degrees) := by
  rw [← between_iff_ends (h.located hin.corners.1).delta_pos.2 (by norm_num) (by linarith [hin.longitudes]),
    forall_angle_iff model.levels.tileOrigin.longitude, columnIndex_east heast,
    columnIndex_east (heast.trans hin.longitudes)]
  · refine forall_congr' fun longitude => forall_congr' fun h1 => forall_congr' fun _ => ?_
    rw [columnIndex_east (heast.trans h1)]
  · rw [forall_angle_iff model.levels.tileOrigin.longitude]
    intro longitude h1 h2
    have hloc := h.located (hin.contains ⟨⟨le_refl _, hin.latitudes⟩, h1, h2⟩)
    rw [← columnIndex_east (heast.trans h1)]
    exact ⟨hloc.column_nonneg, (hloc.index_lt h.length_lt).2⟩

theorem columns_west (h : model.HasEntries table) {sector : Sector} (hin : Within sector model.levels.sector)
    (hwest : sector.maxLongitude.degrees < model.levels.tileOrigin.longitude.degrees) (longitude : Angle)
    (h1 : sector.minLongitude.degrees ≤ longitude.degrees) (h2 : longitude.degrees ≤ sector.maxLongitude.degrees) :
    model.columnIndex sector.minLongitude ≤ model.columnIndex longitude ∧
      model.columnIndex longitude ≤ model.columnIndex sector.maxLongitude := by
  have hdelta := (h.located hin.corners.1).delta_pos.2
  rw [columnIndex_west (by linarith), columnIndex_west (by linarith), columnIndex_west hwest]
  exact ⟨truncInt_mono (div_le_div_of_nonneg_right (by linarith) hdelta.le),
    truncInt_mono (div_le_div_of_nonneg_right (by linarith) hdelta.le)⟩

/-- The first column is east of the meridian of the origin, and the last one
west of it. -/
theorem columns_iff_across (h : model.HasEntries table) {sector : Sector} (hin : Within sector model.levels.sector)
    (hwest : sector.minLongitude.degrees < model.levels.tileOrigin.longitude.degrees)
    (heast : model.levels.tileOrigin.longitude.degrees ≤ sector.maxLongitude.degrees) :
    (∀ longitude : Angle, sector.minLongitude.degrees ≤ longitude.degrees →
      longitude.degrees ≤ sector.maxLongitude.degrees →
      model.columnIndex sector.minLongitude ≤ model.columnIndex longitude ∧
        model.columnIndex longitude ≤ model.columnIndex sector.maxLongitude) ↔
    360 ≤ model.delta.longitude.degrees := by
  have hdelta := (h.located hin.corners.1).delta_pos.2
  have hmin := (h.located hin.corners.1).longitude_range
  have hmax := (h.located hin.corners.2).longitude_range
  -- less than a delta from the origin, or from the end of the grid
  have hzero : ∀ longitude : Angle, model.levels.tileOrigin.longitude.degrees ≤ longitude.degrees →
      longitude.degrees ≤ sector.maxLongitude.degrees →
      longitude.degrees - model.levels.tileOrigin.longitude.degrees < model.delta.longitude.degrees →
      model.columnIndex longitude = 0 := by
    intro longitude h1 h2 hlt
    rw [columnIndex_east h1, axisIndex, if_neg (by linarith)]
    exact truncInt_small hdelta (by linarith) hlt
  constructor
  · intro horder
    by_contra hlt
    have hlt := not_le.1 hlt
    have hfirst : 360 + (sector.minLongitude.degrees - model.levels.tileOrigin.longitude.degrees)
        < model.delta.longitude.degrees := by
      by_contra hge
      have hcol := (horder model.levels.tileOrigin.longitude hwest.le heast).1
      rw [hzero _ (le_refl _) heast (by linarith), columnIndex_west hwest] at hcol
      have hone := truncInt_mono ((one_le_div hdelta).2 (not_lt.1 hge))
      have hval : truncInt 1 = 1 := by decide +kernel
      omega
    -- a column behind that of the first longitude
    have hcol := (horder
      (.fromDegrees (model.levels.tileOrigin.longitude.degrees + model.delta.longitude.degrees - 360))
      (by simp only [Angle.fromDegrees]; linarith) (by simp only [Angle.fromDegrees]; linarith)).2
    rw [hzero sector.maxLongitude heast (le_refl _) (by linarith),
      columnIndex_west (by simp only [Angle.fromDegrees]; linarith)] at hcol
    have hone : truncInt ((360 + ((Angle.fromDegrees
        (model.levels.tileOrigin.longitude.degrees + model.delta.longitude.degrees - 360)).degrees
          - model.levels.tileOrigin.longitude.degrees)) / model.delta.longitude.degrees) = 1 := by
      have hquotient : (360 + ((Angle.fromDegrees
          (model.levels.tileOrigin.longitude.degrees + model.delta.longitude.degrees - 360)).degrees
            - model.levels.tileOrigin.longitude.degrees)) / model.delta.longitude.degrees = 1 := by
        rw [div_eq_one_iff_eq hdelta.ne', Angle.fromDegrees]
        ring
      rw [hquotient]
      decide +kernel
    omega
  · intro hge longitude h1 h2
    have hall : ∀ longitude : Angle, sector.minLongitude.degrees ≤ longitude.degrees →
        longitude.degrees ≤ sector.maxLongitude.degrees → model.columnIndex longitude = 0 := by
      intro longitude h1 h2
      rcases lt_or_ge longitude.degrees model.levels.tileOrigin.longitude.degrees with hlon | hlon
      · rw [columnIndex_west hlon]
        exact truncInt_small hdelta (by linarith) (by linarith)
      · exact hzero longitude hlon h2 (by linarith)
    rw [hall _ (le_refl _) hin.longitudes, hall _ h1 h2, hall _ hin.longitudes (le_refl _)]
    exact ⟨le_refl _, le_refl _⟩

theorem between_iff_ordered (h : model.HasEntries table) {sector : Sector} (hin : Within sector model.levels.sector) :
    model.Between sector ↔ model.Ordered sector := by
  constructor
  · rintro ⟨hrows, hcolumns⟩
    exact ⟨(rows_iff h hin).1 hrows, fun heast => (columns_iff_east h hin heast).1 hcolumns,
      fun hwest heast => (columns_iff_across h hin hwest heast).1 hcolumns⟩
  · rintro ⟨hrows, hcolumns, hacross⟩
    refine ⟨(rows_iff h hin).2 hrows, ?_⟩
    by_cases hmin : model.levels.tileOrigin.longitude.degrees ≤ sector.minLongitude.degrees
    · exact (columns_iff_east h hin hmin).2 (hcolumns hmin)
    · have hmin := not_le.1 hmin
      by_cases hmax : model.levels.tileOrigin.longitude.degrees ≤ sector.maxLongitude.degrees
      · exact (columns_iff_across h hin hmin hmax).2 (hacross hmin hmax)
      · exact columns_west h hin (not_le.1 hmax)

end BasicElevationModel

/-! ## Every table -/

section
variable {model : BasicElevationModel} {table : List ℚ}

end

/-! ## A sector across the meridian of the origin -/

def degreesSector (minLatitude maxLatitude minLongitude maxLongitude : ℚ) : Sector :=
  ⟨.fromDegrees minLatitude, .fromDegrees maxLatitude, .fromDegrees minLongitude, .fromDegrees maxLongitude⟩

/-- Two tiles, east and west of the meridian of the origin. -/
def twoTiles : BasicElevationModel where
  levels :=
    { sector := degreesSector (-10) 10 (-10) 10
      levelZeroTileDelta := ⟨.fromDegrees 180, .fromDegrees 180⟩
      tileOrigin := ⟨.fromDegrees (-90), .fromDegrees 0⟩
      numLevels := 1
      numEmptyLevels := 0
      inactiveLevels := []
      numLevels_pos := Nat.one_pos }
  extremesLevel := 0
  extremes := none
  minElevation := 0
  maxElevation := 0
  missingDataSignal := -MAX_VALUE
  missingDataReplacement := 0
  minElevation_le := by decide +kernel
  maxElevation_le := by decide +kernel
  replacement_le := by decide +kernel

theorem twoTiles_hasEntries : twoTiles.HasEntries [0, 0, 0, 0] := by
  refine ⟨by decide, by norm_num, fun x hx => ?_, ?_⟩
  · have hzero : x = 0 := by simpa using hx
    rw [hzero, abs_zero]
    exact BasicElevationModel.MAX_VALUE_pos
  · intro latitude longitude hcontains
    have h180 : (0 : ℚ) < (Angle.fromDegrees 180).degrees := by norm_num [Angle.fromDegrees]
    have hdelta : tileDelta twoTiles.levels twoTiles.extremesLevel.toNat
        = ⟨.fromDegrees 180, .fromDegrees 180⟩ := by decide +kernel
    obtain ⟨⟨h1, h2⟩, h3, h4⟩ := hcontains
    simp only [twoTiles, degreesSector, Angle.fromDegrees] at h1 h2 h3 h4
    have hrow : computeRow (.fromDegrees 180) latitude (.fromDegrees (-90)) = some 0 := by
      rw [computeRow_eq h180 (by linarith) (by linarith), if_neg (by simp only [Angle.fromDegrees]; linarith),
        truncInt_small h180 (by simp only [Angle.fromDegrees]; linarith) (by simp only [Angle.fromDegrees]; linarith)]
    have hcols : columnsOf (.fromDegrees 180) = some 2 := by decide +kernel
    rw [hdelta]
    rcases lt_or_ge longitude.degrees 0 with hlon | hlon
    · refine ⟨0, 1, 2, hrow, ?_, hcols, by decide, by decide, by decide, by decide⟩
      have hgrid : gridLongitude (.fromDegrees 0) longitude = 360 + longitude.degrees := by
        rw [gridLongitude, if_pos (by simpa only [Angle.fromDegrees, sub_zero] using hlon)]
        simp only [Angle.fromDegrees, sub_zero]
      have hfloor : ⌊(360 + longitude.degrees) / 180⌋ = 1 := by
        rw [Int.floor_eq_iff]
        constructor <;> norm_num <;> linarith
      change computeColumn (.fromDegrees 180) longitude (.fromDegrees 0) = some 1
      rw [computeColumn_eq h180 (by linarith) (by linarith), if_neg (by simp only [Angle.fromDegrees]; linarith),
        hgrid]
      simp only [Angle.fromDegrees]
      rw [truncInt_nonneg (by linarith), hfloor]
      rfl
    · refine ⟨0, 0, 2, hrow, ?_, hcols, by decide, by decide, by decide, by decide⟩
      have hgrid : gridLongitude (.fromDegrees 0) longitude = longitude.degrees := by
        rw [gridLongitude, if_neg (by simpa only [Angle.fromDegrees, sub_zero, not_lt] using hlon)]
        simp only [Angle.fromDegrees, sub_zero]
      change computeColumn (.fromDegrees 180) longitude (.fromDegrees 0) = some 0
      rw [computeColumn_eq h180 (by linarith) (by linarith), if_neg (by simp only [Angle.fromDegrees]; linarith),
        hgrid, truncInt_small h180 hlon (by simp only [Angle.fromDegrees]; linarith)]

end WorldWind.Elevations.Extremes
