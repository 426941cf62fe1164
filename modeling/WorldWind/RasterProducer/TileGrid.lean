import WorldWind.RasterProducer.Model
/-!
# `util/Tile.java`: the row and the column of a location

`computeRow` and `computeColumn` divide the distance from the tile origin by the
grid interval and cut the quotient to an `int`. At the far end of the grid they
subtract one, which is the last row only if the interval divides the grid.
-/

namespace WorldWind.RasterProducer

open Geom Lib.JavaInt

/-! ## The grid -/

/-- The latitude is in the row, which is one of the grid's. -/
def RowContains (delta origin latitude : Angle) (row : Int) : Prop :=
  0 ≤ row ∧ origin.degrees + row * delta.degrees ≤ latitude.degrees ∧
    latitude.degrees ≤ origin.degrees + (row + 1) * delta.degrees

/-- The longitude is in the column, which is one of the grid's. Longitudes are
taken modulo 360, between 0 and 360 from the origin. -/
def ColumnContains (delta origin longitude : Angle) (column : Int) : Prop :=
  0 ≤ column ∧ ∃ (x : ℚ) (k : Int), x = longitude.degrees - origin.degrees + 360 * k ∧ 0 ≤ x ∧ x ≤ 360 ∧
    column * delta.degrees ≤ x ∧ x ≤ (column + 1) * delta.degrees

/-- `LevelSet.computeSectorForKey`, for the grid of the key's level. -/
def computeSectorForKey (delta origin : LatLon) (row column : Int) : Option Sector := do
  let minLatitude ← computeRowLatitude row delta.latitude origin.latitude
  let minLongitude ← computeColumnLongitude column delta.longitude origin.longitude
  some ⟨minLatitude, .fromDegrees (minLatitude.degrees + delta.latitude.degrees),
    minLongitude, .fromDegrees (minLongitude.degrees + delta.longitude.degrees)⟩

/-- The distance is a whole number of intervals, and an `int` can count them. -/
def Divides (delta : Angle) (distance : ℚ) : Prop := ∃ n : Nat, n < 2 ^ 31 ∧ n * delta.degrees = distance

/-! ## The quotient -/

theorem truncInt_nonneg {x : ℚ} (h : 0 ≤ x) : truncInt x = min (2 ^ 31 - 1) ⌊x⌋ := by
  have hfloor := Int.floor_nonneg.2 h
  rw [truncInt, if_pos h]
  omega

section
variable {delta : Angle} {x : ℚ}

/-- The quotient's tile begins before the point, and ends behind it unless the
cast to `int` saturates. -/
theorem trunc_contains (hdelta : 0 < delta.degrees) (hx : 0 ≤ x) :
    0 ≤ truncInt (x / delta.degrees) ∧ truncInt (x / delta.degrees) < 2 ^ 31 ∧
      truncInt (x / delta.degrees) * delta.degrees ≤ x ∧
      (x ≤ (truncInt (x / delta.degrees) + 1) * delta.degrees ↔ x / delta.degrees ≤ 2 ^ 31) := by
  have hq : 0 ≤ x / delta.degrees := div_nonneg hx hdelta.le
  have hfloor := Int.floor_nonneg.2 hq
  have hle := Int.floor_le (x / delta.degrees)
  have hlt := Int.lt_floor_add_one (x / delta.degrees)
  rw [truncInt_nonneg hq, ← div_le_iff₀ hdelta, ← le_div_iff₀ hdelta]
  refine ⟨by omega, by omega, ?_, ?_⟩
  · refine le_trans ?_ hle
    exact_mod_cast min_le_right _ _
  · by_cases hsmall : ⌊x / delta.degrees⌋ ≤ 2 ^ 31 - 1
    · rw [min_eq_right hsmall]
      refine ⟨fun _ => ?_, fun _ => hlt.le⟩
      have hcast : ((⌊x / delta.degrees⌋ : ℤ) : ℚ) + 1 ≤ 2 ^ 31 := by exact_mod_cast (by omega)
      exact hlt.le.trans hcast
    · rw [min_eq_left (by omega)]
      norm_num

/-- The tile before the quotient's ends at the point or before it: at the point
if the interval divides the distance. -/
theorem last_contains (hdelta : 0 < delta.degrees) (hx : 0 ≤ x) :
    x ≤ truncInt (x / delta.degrees) * delta.degrees ↔ Divides delta x := by
  obtain ⟨h0, hlt, hle, -⟩ := trunc_contains hdelta hx
  constructor
  · intro h
    obtain ⟨n, hn⟩ := Int.eq_ofNat_of_zero_le h0
    rw [hn] at h hle hlt
    exact ⟨n, by omega, le_antisymm (by exact_mod_cast hle) (by exact_mod_cast h)⟩
  · rintro ⟨n, hn, rfl⟩
    rw [mul_div_cancel_right₀ _ hdelta.ne', truncInt_nonneg (by positivity), Int.floor_natCast,
      min_eq_right (by omega)]
    exact_mod_cast le_refl _

/-- The tile before the quotient's is one of the grid's and contains the point
if the interval divides the distance. -/
theorem last_iff (hdelta : 0 < delta.degrees) (hx : 0 < x) :
    0 ≤ int (truncInt (x / delta.degrees) - 1) ∧ int (truncInt (x / delta.degrees) - 1) * delta.degrees ≤ x ∧
        x ≤ (int (truncInt (x / delta.degrees) - 1) + 1) * delta.degrees ↔ Divides delta x := by
  obtain ⟨h0, hlt, hle, -⟩ := trunc_contains hdelta hx.le
  rw [← last_contains hdelta hx.le, int_eq (by omega) (by omega)]
  push_cast
  rw [sub_add_cancel]
  constructor
  · rintro ⟨-, -, h⟩
    exact h
  · intro h
    have hpos : truncInt (x / delta.degrees) ≠ 0 := by
      intro hzero
      rw [hzero, Int.cast_zero, zero_mul] at h
      exact absurd h (not_le.2 hx)
    exact ⟨by omega, by linarith, h⟩

theorem Divides.quotient_le (h : Divides delta x) (hdelta : 0 < delta.degrees) : x / delta.degrees ≤ 2 ^ 31 := by
  obtain ⟨n, hn, rfl⟩ := h
  rw [mul_div_cancel_right₀ _ hdelta.ne']
  exact_mod_cast hn.le

theorem trunc_exact (hdelta : 0 < delta.degrees) {n : Int} (h0 : 0 ≤ n) (hn : n < 2 ^ 31) :
    truncInt (n * delta.degrees / delta.degrees) = n := by
  have hcast : (0 : ℚ) ≤ n := by exact_mod_cast h0
  rw [mul_div_cancel_right₀ _ hdelta.ne', truncInt_nonneg hcast, Int.floor_intCast, min_eq_right (by omega)]

end

/-! ## Rows -/

section
variable {delta origin latitude : Angle}

theorem computeRow_eq (hdelta : 0 < delta.degrees) (h1 : -90 ≤ latitude.degrees) (h2 : latitude.degrees ≤ 90) :
    computeRow delta latitude origin =
      some (if latitude.degrees - origin.degrees = 180 then
        int (truncInt ((latitude.degrees - origin.degrees) / delta.degrees) - 1)
      else truncInt ((latitude.degrees - origin.degrees) / delta.degrees)) := by
  rw [computeRow, if_neg (not_le.2 hdelta), if_neg (by rintro (h | h) <;> linarith)]

theorem rowContains_iff (row : Int) :
    RowContains delta origin latitude row ↔
      0 ≤ row ∧ row * delta.degrees ≤ latitude.degrees - origin.degrees ∧
        latitude.degrees - origin.degrees ≤ (row + 1) * delta.degrees := by
  rw [RowContains]
  refine and_congr_right fun _ => and_congr ?_ ?_ <;> constructor <;> intro h <;> linarith

/-- The computed row contains the latitude. -/
theorem computeRow_contains_iff (hdelta : 0 < delta.degrees) (horigin : -90 ≤ origin.degrees)
    (h1 : origin.degrees ≤ latitude.degrees) (h2 : latitude.degrees ≤ 90) :
    (∃ row, computeRow delta latitude origin = some row ∧ RowContains delta origin latitude row) ↔
      (latitude.degrees - origin.degrees) / delta.degrees ≤ 2 ^ 31 ∧
        (latitude.degrees - origin.degrees = 180 → Divides delta 180) := by
  have hx : 0 ≤ latitude.degrees - origin.degrees := sub_nonneg.2 h1
  obtain ⟨h0, hlt, hle, hsat⟩ := trunc_contains hdelta hx
  rw [computeRow_eq hdelta (by linarith) h2]
  simp only [Option.some.injEq, exists_eq_left', rowContains_iff]
  by_cases h180 : latitude.degrees - origin.degrees = 180
  · rw [h180] at hsat ⊢
    rw [if_pos rfl, last_iff hdelta (by norm_num)]
    exact ⟨fun h => ⟨h.quotient_le hdelta, fun _ => h⟩, fun h => h.2 rfl⟩
  · rw [if_neg h180]
    simp only [h180, false_implies, and_true]
    exact ⟨fun h => hsat.1 h.2.2, fun h => ⟨h0, hle, hsat.2 h⟩⟩

/-- A row's minimum latitude is in the row, unless it is past the pole. -/
theorem computeRow_computeRowLatitude (hdelta : 0 < delta.degrees) (horigin : -90 ≤ origin.degrees) {row : Int}
    (h0 : 0 ≤ row) (hrow : row < 2 ^ 31) (htop : row * delta.degrees < 180) :
    (computeRowLatitude row delta origin).bind (fun latitude => computeRow delta latitude origin) = some row ↔
      origin.degrees + row * delta.degrees ≤ 90 := by
  have hcast : (0 : ℚ) ≤ row := by exact_mod_cast h0
  have hedge := mul_nonneg hcast hdelta.le
  rw [computeRowLatitude, if_neg (not_lt.2 h0), if_neg (not_le.2 hdelta), Option.bind_some]
  by_cases hpole : origin.degrees + row * delta.degrees ≤ 90
  · rw [computeRow_eq hdelta (by simp only [Angle.fromDegrees]; linarith) (by simpa only [Angle.fromDegrees])]
    simp only [Angle.fromDegrees, add_sub_cancel_left, if_neg htop.ne, trunc_exact hdelta h0 hrow, hpole]
  · rw [computeRow, if_neg (not_le.2 hdelta), if_pos (.inr (by simpa only [Angle.fromDegrees] using not_le.1 hpole))]
    simp [hpole]

end

/-! ## Columns -/

section
variable {delta origin longitude : Angle}

/-- The longitude from the origin, between 0 and 360. -/
def gridLongitude (origin longitude : Angle) : ℚ :=
  if longitude.degrees - origin.degrees < 0 then 360 + (longitude.degrees - origin.degrees)
  else longitude.degrees - origin.degrees

theorem computeColumn_eq (hdelta : 0 < delta.degrees) (h1 : -180 ≤ longitude.degrees) (h2 : longitude.degrees ≤ 180) :
    computeColumn delta longitude origin =
      some (if longitude.degrees - origin.degrees = 360 then
        int (truncInt (gridLongitude origin longitude / delta.degrees) - 1)
      else truncInt (gridLongitude origin longitude / delta.degrees)) := by
  rw [computeColumn, if_neg (not_le.2 hdelta), if_neg (by rintro (h | h) <;> linarith)]
  rfl

theorem gridLongitude_bounds (h1 : -360 ≤ longitude.degrees - origin.degrees)
    (h2 : longitude.degrees - origin.degrees ≤ 360) :
    0 ≤ gridLongitude origin longitude ∧ gridLongitude origin longitude ≤ 360 ∧
      (gridLongitude origin longitude = 360 ↔ longitude.degrees - origin.degrees = 360) := by
  rw [gridLongitude]
  split
  · refine ⟨by linarith, by linarith, fun h => ?_, fun h => ?_⟩ <;> linarith
  · refine ⟨by linarith, h2, Iff.rfl⟩

/-- The meridian at the origin is both ends of the grid; any other longitude
has one place in it. -/
theorem place_iff (h1 : -360 ≤ longitude.degrees - origin.degrees) (h2 : longitude.degrees - origin.degrees ≤ 360)
    (x : ℚ) :
    (∃ k : Int, x = longitude.degrees - origin.degrees + 360 * k ∧ 0 ≤ x ∧ x ≤ 360) ↔
      x = gridLongitude origin longitude ∨ gridLongitude origin longitude = 0 ∧ x = 360 ∨
        gridLongitude origin longitude = 360 ∧ x = 0 := by
  rw [gridLongitude]
  generalize longitude.degrees - origin.degrees = d at h1 h2
  constructor
  · rintro ⟨k, rfl, h3, h4⟩
    have hk1 : (-2 : ℚ) < k := by linarith
    have hk2 : (k : ℚ) < 3 := by linarith
    have hk1 : -2 < k := by exact_mod_cast hk1
    have hk2 : k < 3 := by exact_mod_cast hk2
    obtain rfl | rfl | rfl | rfl : k = -1 ∨ k = 0 ∨ k = 1 ∨ k = 2 := by omega
    all_goals push_cast at h3 h4 ⊢
    · rw [if_neg (by linarith)]
      exact .inr (.inr ⟨by linarith, by linarith⟩)
    · rw [if_neg (by linarith)]
      exact .inl (by ring)
    · split
      · exact .inl (by ring)
      · exact .inr (.inl ⟨by linarith, by linarith⟩)
    · rw [if_pos (by linarith)]
      exact .inr (.inl ⟨by linarith, by linarith⟩)
  · split
    · rintro (rfl | ⟨h, rfl⟩ | ⟨h, rfl⟩)
      · exact ⟨1, by push_cast; ring, by linarith, by linarith⟩
      · exact ⟨2, by push_cast; linarith, by norm_num, by norm_num⟩
      · exact absurd h (by linarith)
    · rintro (rfl | ⟨rfl, rfl⟩ | ⟨rfl, rfl⟩)
      · exact ⟨0, by push_cast; ring, by linarith, h2⟩
      · exact ⟨1, by norm_num, by norm_num, by norm_num⟩
      · exact ⟨-1, by norm_num, by norm_num, by norm_num⟩

/-- The first tile is before the quotient's if the interval is over half the
grid. -/
theorem first_iff (hdelta : 0 < delta.degrees) :
    (0 ≤ int (truncInt (360 / delta.degrees) - 1) ∧ int (truncInt (360 / delta.degrees) - 1) * delta.degrees ≤ 0 ∧
        0 ≤ (int (truncInt (360 / delta.degrees) - 1) + 1) * delta.degrees) ↔
      180 < delta.degrees ∧ delta.degrees ≤ 360 := by
  have hq : 0 ≤ 360 / delta.degrees := div_nonneg (by norm_num) hdelta.le
  obtain ⟨h0, hlt, -, -⟩ := trunc_contains hdelta (x := 360) (by norm_num)
  have hone : truncInt (360 / delta.degrees) = 1 ↔ 180 < delta.degrees ∧ delta.degrees ≤ 360 := by
    have hfloor : truncInt (360 / delta.degrees) = 1 ↔ ⌊360 / delta.degrees⌋ = 1 := by
      rw [truncInt_nonneg hq]
      omega
    rw [hfloor, Int.floor_eq_iff, Int.cast_one, le_div_iff₀ hdelta, div_lt_iff₀ hdelta]
    constructor <;> rintro ⟨h1, h2⟩ <;> constructor <;> linarith
  rw [← hone, int_eq (by omega) (by omega)]
  push_cast
  rw [sub_add_cancel]
  constructor
  · rintro ⟨h1, h2, -⟩
    have hle : ((truncInt (360 / delta.degrees) : ℤ) : ℚ) - 1 ≤ 0 := by
      by_contra hpos
      exact absurd h2 (not_le.2 (mul_pos (not_le.1 hpos) hdelta))
    have hle : truncInt (360 / delta.degrees) ≤ 1 := by exact_mod_cast sub_nonpos.1 hle
    omega
  · intro h
    rw [h]
    simp [hdelta.le]

/-- The computed column contains the longitude. -/
theorem computeColumn_contains_iff (hdelta : 0 < delta.degrees) (h1 : -180 ≤ origin.degrees)
    (h2 : origin.degrees ≤ 180)
    (h3 : -180 ≤ longitude.degrees) (h4 : longitude.degrees ≤ 180) :
    (∃ column, computeColumn delta longitude origin = some column ∧ ColumnContains delta origin longitude column) ↔
      gridLongitude origin longitude / delta.degrees ≤ 2 ^ 31 ∧
        (longitude.degrees - origin.degrees = 360 →
          Divides delta 360 ∨ 180 < delta.degrees ∧ delta.degrees ≤ 360) := by
  obtain ⟨hx, hx', h360⟩ := @gridLongitude_bounds origin longitude (by linarith) (by linarith)
  obtain ⟨h0, hlt, hle, hsat⟩ := trunc_contains hdelta hx
  have hcontains : ∀ column, ColumnContains delta origin longitude column ↔ 0 ≤ column ∧
      ∃ x, (x = gridLongitude origin longitude ∨ gridLongitude origin longitude = 0 ∧ x = 360 ∨
        gridLongitude origin longitude = 360 ∧ x = 0) ∧
        column * delta.degrees ≤ x ∧ x ≤ (column + 1) * delta.degrees := by
    intro column
    rw [ColumnContains]
    refine and_congr_right fun _ => exists_congr fun x => ?_
    rw [← place_iff (by linarith) (by linarith)]
    constructor
    · rintro ⟨k, heq, hb1, hb2, hb⟩
      exact ⟨⟨k, heq, hb1, hb2⟩, hb⟩
    · rintro ⟨⟨k, heq, hb1, hb2⟩, hb⟩
      exact ⟨k, heq, hb1, hb2, hb⟩
  rw [computeColumn_eq hdelta h3 h4]
  simp only [Option.some.injEq, exists_eq_left', hcontains]
  by_cases htop : longitude.degrees - origin.degrees = 360
  · rw [h360.2 htop, if_pos htop]
    constructor
    · rintro ⟨hc, x, rfl | ⟨h, -⟩ | ⟨-, rfl⟩, hb⟩
      · have hdiv := (last_iff hdelta (by norm_num)).1 ⟨hc, hb⟩
        exact ⟨hdiv.quotient_le hdelta, fun _ => .inl hdiv⟩
      · norm_num at h
      · have hhalf := (first_iff hdelta).1 ⟨hc, hb⟩
        refine ⟨?_, fun _ => .inr hhalf⟩
        rw [div_le_iff₀ hdelta]
        linarith
    · rintro ⟨-, h⟩
      rcases h htop with hdiv | hhalf
      · obtain ⟨hc, hb⟩ := (last_iff hdelta (by norm_num)).2 hdiv
        exact ⟨hc, 360, .inl rfl, hb⟩
      · obtain ⟨hc, hb⟩ := (first_iff hdelta).2 hhalf
        exact ⟨hc, 0, .inr (.inr ⟨rfl, rfl⟩), hb⟩
  · rw [if_neg htop]
    constructor
    · rintro ⟨-, x, rfl | ⟨h, rfl⟩ | ⟨h, -⟩, hb⟩
      · exact ⟨hsat.1 hb.2, fun h => absurd h htop⟩
      · rw [h, zero_div]
        exact ⟨by norm_num, fun h => absurd h htop⟩
      · exact absurd (h360.1 h) htop
    · rintro ⟨h, -⟩
      exact ⟨h0, _, .inl rfl, hle, hsat.2 h⟩

/-- A column's minimum longitude is in the column, unless it is past the 180
meridian. -/
theorem computeColumn_computeColumnLongitude (hdelta : 0 < delta.degrees) (horigin : -180 ≤ origin.degrees)
    {column : Int} (h0 : 0 ≤ column) (hcolumn : column < 2 ^ 31) (htop : column * delta.degrees < 360) :
    (computeColumnLongitude column delta origin).bind (fun longitude => computeColumn delta longitude origin) =
        some column ↔
      origin.degrees + column * delta.degrees ≤ 180 := by
  have hcast : (0 : ℚ) ≤ column := by exact_mod_cast h0
  have hedge := mul_nonneg hcast hdelta.le
  rw [computeColumnLongitude, if_neg (not_lt.2 h0), if_neg (not_le.2 hdelta), Option.bind_some]
  by_cases hmeridian : origin.degrees + column * delta.degrees ≤ 180
  · rw [computeColumn_eq hdelta (by simp only [Angle.fromDegrees]; linarith) (by simpa only [Angle.fromDegrees])]
    simp only [gridLongitude, Angle.fromDegrees, add_sub_cancel_left, if_neg htop.ne, if_neg (not_lt.2 hedge),
      trunc_exact hdelta h0 hcolumn, hmeridian]
  · rw [computeColumn, if_neg (not_le.2 hdelta),
      if_pos (.inr (by simpa only [Angle.fromDegrees] using not_le.1 hmeridian))]
    simp [hmeridian]

end

/-! ## Both -/

/-- A row and a column that contain a location name a tile over it. -/
theorem computeSectorForKey_contains {delta origin location : LatLon} {row column : Int}
    (hlat : 0 < delta.latitude.degrees) (hlon : 0 < delta.longitude.degrees)
    (hrow : RowContains delta.latitude origin.latitude location.latitude row)
    (hcolumn : ColumnContains delta.longitude origin.longitude location.longitude column) :
    ∃ sector, computeSectorForKey delta origin row column = some sector ∧
      sector.minLatitude.degrees ≤ location.latitude.degrees ∧
      location.latitude.degrees ≤ sector.maxLatitude.degrees ∧
      ∃ k : Int, sector.minLongitude.degrees ≤ location.longitude.degrees + 360 * k ∧
        location.longitude.degrees + 360 * k ≤ sector.maxLongitude.degrees := by
  obtain ⟨hrow0, hmin, hmax⟩ := hrow
  obtain ⟨hcolumn0, x, k, rfl, -, -, hleft, hright⟩ := hcolumn
  rw [computeSectorForKey, computeRowLatitude, computeColumnLongitude, if_neg (not_lt.2 hrow0),
    if_neg (not_lt.2 hcolumn0), if_neg (not_le.2 hlat), if_neg (not_le.2 hlon)]
  simp only [Option.bind_eq_bind, Option.bind_some, Option.some.injEq, exists_eq_left', Angle.fromDegrees]
  exact ⟨hmin, by linarith, k, by linarith, by linarith⟩

/-- **When the row and the column name a tile that contains the location.** At
the far end of the grid: if the interval divides it. The cast to `int` must not
saturate. The minimum edges of rows and columns are always found again, if they
are latitudes and longitudes. -/
theorem computeRow_computeColumn_iff (delta origin location : LatLon) (row column : Int)
    (hlat : 0 < delta.latitude.degrees) (hlon : 0 < delta.longitude.degrees)
    (horigin1 : -90 ≤ origin.latitude.degrees) (horigin2 : -180 ≤ origin.longitude.degrees)
    (horigin3 : origin.longitude.degrees ≤ 180)
    (hlocation1 : origin.latitude.degrees ≤ location.latitude.degrees) (hlocation2 : location.latitude.degrees ≤ 90)
    (hlocation3 : -180 ≤ location.longitude.degrees) (hlocation4 : location.longitude.degrees ≤ 180)
    (hrow0 : 0 ≤ row) (hrow : row < 2 ^ 31) (hcolumn0 : 0 ≤ column) (hcolumn : column < 2 ^ 31) :
    ((∃ r, computeRow delta.latitude location.latitude origin.latitude = some r ∧
          RowContains delta.latitude origin.latitude location.latitude r) ∧
        (∃ c, computeColumn delta.longitude location.longitude origin.longitude = some c ∧
          ColumnContains delta.longitude origin.longitude location.longitude c) ∧
        (row * delta.latitude.degrees < 180 →
          (computeRowLatitude row delta.latitude origin.latitude).bind
            (fun latitude => computeRow delta.latitude latitude origin.latitude) = some row) ∧
        (column * delta.longitude.degrees < 360 →
          (computeColumnLongitude column delta.longitude origin.longitude).bind
            (fun longitude => computeColumn delta.longitude longitude origin.longitude) = some column)) ↔
      ((location.latitude.degrees - origin.latitude.degrees) / delta.latitude.degrees ≤ 2 ^ 31 ∧
          (location.latitude.degrees - origin.latitude.degrees = 180 → Divides delta.latitude 180)) ∧
        (gridLongitude origin.longitude location.longitude / delta.longitude.degrees ≤ 2 ^ 31 ∧
          (location.longitude.degrees - origin.longitude.degrees = 360 →
            Divides delta.longitude 360 ∨ 180 < delta.longitude.degrees ∧ delta.longitude.degrees ≤ 360)) ∧
        (row * delta.latitude.degrees < 180 → origin.latitude.degrees + row * delta.latitude.degrees ≤ 90) ∧
        (column * delta.longitude.degrees < 360 →
          origin.longitude.degrees + column * delta.longitude.degrees ≤ 180) := by
  refine and_congr ?_ (and_congr ?_ (and_congr ?_ ?_))
  · exact computeRow_contains_iff hlat horigin1 hlocation1 hlocation2
  · exact computeColumn_contains_iff hlon horigin2 horigin3 hlocation3 hlocation4
  · exact imp_congr_right fun htop => computeRow_computeRowLatitude hlat horigin1 hrow0 hrow htop
  · exact imp_congr_right fun htop => computeColumn_computeColumnLongitude hlon horigin2 hcolumn0 hcolumn htop

/-- The location at the north pole and the 180 meridian, ten intervals of 36
degrees from the origin and five from the south pole. -/
theorem computeRow_computeColumn_corner :
    (∃ r, computeRow ⟨36⟩ ⟨90⟩ ⟨-90⟩ = some r ∧ RowContains ⟨36⟩ ⟨-90⟩ ⟨90⟩ r) ∧
      ∃ c, computeColumn ⟨36⟩ ⟨180⟩ ⟨-180⟩ = some c ∧ ColumnContains ⟨36⟩ ⟨-180⟩ ⟨180⟩ c := by
  have h := computeRow_computeColumn_iff ⟨⟨36⟩, ⟨36⟩⟩ ⟨⟨-90⟩, ⟨-180⟩⟩ ⟨⟨90⟩, ⟨180⟩⟩ 4 9 (by norm_num) (by norm_num)
    (by norm_num) (by norm_num) (by norm_num) (by norm_num) (by norm_num) (by norm_num) (by norm_num) (by norm_num)
    (by norm_num) (by norm_num) (by norm_num)
  obtain ⟨hrow, hcolumn, -⟩ := h.2 ⟨⟨by norm_num, fun _ => ⟨5, by norm_num, by norm_num⟩⟩,
    ⟨by norm_num [gridLongitude], fun _ => .inl ⟨10, by norm_num, by norm_num⟩⟩, fun _ => by norm_num,
    fun _ => by norm_num⟩
  exact ⟨hrow, hcolumn⟩

/-- Intervals of 100 degrees: the pole is in row 1, and row 0 is returned. -/
theorem computeRow_misses_pole :
    ¬ ∃ r, computeRow ⟨100⟩ ⟨90⟩ ⟨-90⟩ = some r ∧ RowContains ⟨100⟩ ⟨-90⟩ ⟨90⟩ r := by
  rw [computeRow_contains_iff (by norm_num) (by norm_num) (by norm_num) (by norm_num)]
  rintro ⟨-, h⟩
  obtain ⟨n, -, hn⟩ := h (by norm_num)
  have hn : (n : ℚ) * 100 = 180 := hn
  have hn : n * 100 = 180 := by exact_mod_cast hn
  omega

end WorldWind.RasterProducer
