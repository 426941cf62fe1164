import WorldWind.Geom
import WorldWind.Lib.Bilinear
import WorldWind.Lib.Casts
/-!
# `lookupElevation` of `BasicElevationModel.java` and `LocalElevationModel.java`

Both models mix the samples of a tile around a location, and both do it with the
same lines of code, but for the test of a missing sample. What they should give
is the bilinear mix of the tile (`bilinear`). The lines leave the samples below
alone at the east edge, and they take a missing sample into account that has no
weight. Elsewhere they give the mix (`lookup_iff`), and there two tiles agree on
the edge they share (`lookup_seam`).

Doubles are exact numbers. No result is an exception.
-/

namespace WorldWind.Elevations

open Geom Lib.Bilinear Lib.Casts Lib.JavaInt

/-! ## The code -/

/-- A sector with samples, rows from the maximum latitude down. -/
structure Tile where
  sector : Sector
  width : Nat
  height : Nat
  elevations : List ℚ
  latitudes : sector.minLatitude.degrees < sector.maxLatitude.degrees
  longitudes : sector.minLongitude.degrees < sector.maxLongitude.degrees
  two_le_width : 2 ≤ width
  two_le_height : 2 ≤ height
  length_eq : elevations.length = width * height
  length_lt : elevations.length < 2 ^ 31

/-- `BufferWrapper.getDouble`. -/
def getDouble (elevations : List ℚ) (k : Int) : Option ℚ := if 0 ≤ k then elevations[k.toNat]? else none

/-- The lines that the two models share, with the test of a missing sample and the signal to return. -/
def lookup (isMissing : ℚ → Bool) (signal : ℚ) (tile : Tile) (latRadians lonRadians : ℚ) : Option ℚ := do
  let tileWidth : Int := tile.width
  let tileHeight : Int := tile.height
  let sectorDeltaLat := tile.sector.deltaLat.radians
  let sectorDeltaLon := tile.sector.deltaLon.radians
  let dLat := tile.sector.maxLatitude.radians - latRadians
  let dLon := lonRadians - tile.sector.minLongitude.radians
  let sLat := dLat / sectorDeltaLat
  let sLon := dLon / sectorDeltaLon
  let j := intCast ((tileHeight - 1 : Int) * sLat)
  let i := intCast ((tileWidth - 1 : Int) * sLon)
  let k := int (int (j * tileWidth) + i)
  let eLeft ← getDouble tile.elevations k
  let eRight ← if i < tileWidth - 1 then getDouble tile.elevations (int (k + 1)) else some eLeft
  if isMissing eLeft || isMissing eRight then return signal
  let dw := sectorDeltaLon / (tileWidth - 1 : Int)
  let dh := sectorDeltaLat / (tileHeight - 1 : Int)
  let ssLon := (dLon - i * dw) / dw
  let ssLat := (dLat - j * dh) / dh
  let eTop := eLeft + ssLon * (eRight - eLeft)
  if j < tileHeight - 1 ∧ i < tileWidth - 1 then
    let eLeft ← getDouble tile.elevations (int (k + tileWidth))
    let eRight ← getDouble tile.elevations (int (int (k + tileWidth) + 1))
    if isMissing eLeft || isMissing eRight then return signal
    let eBot := eLeft + ssLon * (eRight - eLeft)
    return eTop + ssLat * (eBot - eTop)
  else
    let eBot := eLeft + ssLon * (eRight - eLeft)
    return eTop + ssLat * (eBot - eTop)

/-- `containsRadians`. -/
def containsRadians (sector : Sector) (radiansLatitude radiansLongitude : ℚ) : Bool :=
  radiansLatitude ≥ sector.minLatitude.radians ∧ radiansLatitude ≤ sector.maxLatitude.radians ∧
    radiansLongitude ≥ sector.minLongitude.radians ∧ radiansLongitude ≤ sector.maxLongitude.radians

namespace BasicElevationModel

def lookupElevation (missingDataSignal : ℚ) (latitude longitude : Angle) (tile : Tile) : Option ℚ :=
  lookup (fun e => missingDataSignal = e) missingDataSignal tile latitude.radians longitude.radians

end BasicElevationModel

structure LocalTile extends Tile where
  minElevation : ℚ
  maxElevation : ℚ
  missingDataFlag : ℚ

def LocalTile.isMissingData (tile : LocalTile) (value : ℚ) : Bool :=
  value = tile.missingDataFlag || value < tile.minElevation || value > tile.maxElevation || value = -32767

structure LocalElevationModel where
  tiles : List LocalTile
  missingDataFlag : ℚ

namespace LocalElevationModel

def findTile (model : LocalElevationModel) (latRadians lonRadians : ℚ) : Option LocalTile :=
  model.tiles.find? fun tile => containsRadians tile.sector latRadians lonRadians

/-- The inner none is null. -/
def lookupElevation (model : LocalElevationModel) (latRadians lonRadians : ℚ) : Option (Option ℚ) :=
  match model.findTile latRadians lonRadians with
  | none => some none
  | some tile => (lookup tile.isMissingData model.missingDataFlag tile.toTile latRadians lonRadians).map some

end LocalElevationModel

/-! ## The mix of a tile -/

namespace Tile

variable (tile : Tile)

def sample (r c : Nat) : ℚ := tile.elevations.getD (r * tile.width + c) 0

/-- How many columns a longitude is away from the minimum longitude. -/
def column (lonRadians : ℚ) : ℚ :=
  ((tile.width : ℚ) - 1) * ((lonRadians - tile.sector.minLongitude.radians) / tile.sector.deltaLon.radians)

/-- How many rows a latitude is away from the maximum latitude. -/
def row (latRadians : ℚ) : ℚ :=
  ((tile.height : ℚ) - 1) * ((tile.sector.maxLatitude.radians - latRadians) / tile.sector.deltaLat.radians)

/-- The mix of the samples at a location, and the signal when a sample that has a weight is missing. -/
def bilinear (isMissing : ℚ → Bool) (signal : ℚ) (latRadians lonRadians : ℚ) : ℚ :=
  if ∃ r < tile.height, ∃ c < tile.width,
    weight (tile.column lonRadians) (tile.row latRadians) r c ≠ 0 ∧ isMissing (tile.sample r c) = true
  then signal
  else interpolate tile.width tile.height tile.sample (tile.column lonRadians) (tile.row latRadians)

/-- West of the east edge, a missing sample of the cell comes with one that has a weight. On the east edge the
sample above the location is the same as the one below. Otherwise the mix happens to be what is returned. -/
def Regular (isMissing : ℚ → Bool) (signal : ℚ) (latRadians lonRadians : ℚ) : Prop :=
  let u := tile.column lonRadians
  let v := tile.row latRadians
  let i := ⌊u⌋₊
  let j := ⌊v⌋₊
  if i + 1 < tile.width then
    (isMissing (tile.sample j i) ∨ isMissing (tile.sample j (i + 1)) ∨ (j + 1 < tile.height ∧
      (isMissing (tile.sample (j + 1) i) ∨ isMissing (tile.sample (j + 1) (i + 1))))) →
    (isMissing (tile.sample j i) ∨ (u ≠ i ∧ isMissing (tile.sample j (i + 1))) ∨
      (v ≠ j ∧ isMissing (tile.sample (j + 1) i)) ∨ (u ≠ i ∧ v ≠ j ∧ isMissing (tile.sample (j + 1) (i + 1)))) ∨
      interpolate tile.width tile.height tile.sample u v = signal
  else
    v = j ∨ isMissing (tile.sample j i) ∨
      if isMissing (tile.sample (j + 1) i) then tile.sample j i = signal else tile.sample (j + 1) i = tile.sample j i

end Tile

/-! ## A location in a tile -/

theorem radians_pos : 0 < Angle.DEGREES_TO_RADIANS := by
  norm_num [Angle.DEGREES_TO_RADIANS, PI]

theorem deltaLon_pos (tile : Tile) : 0 < tile.sector.deltaLon.radians :=
  mul_pos radians_pos (sub_pos.2 tile.longitudes)

theorem deltaLat_pos (tile : Tile) : 0 < tile.sector.deltaLat.radians :=
  mul_pos radians_pos (sub_pos.2 tile.latitudes)

theorem deltaLon_eq (sector : Sector) :
    sector.deltaLon.radians = sector.maxLongitude.radians - sector.minLongitude.radians := mul_sub _ _ _

theorem deltaLat_eq (sector : Sector) :
    sector.deltaLat.radians = sector.maxLatitude.radians - sector.minLatitude.radians := mul_sub _ _ _

/-- A place in a grid: the line before it, and whether there is a line after it. -/
structure At (size : Nat) (x : ℚ) (n : Nat) : Prop where
  le : (n : ℚ) ≤ x
  lt : x < n + 1
  inside : n + 1 < size ∨ (n < size ∧ x = n)

theorem at_floor {size : Nat} {x : ℚ} (hsize : 2 ≤ size) (h1 : 0 ≤ x) (h2 : x ≤ 1) :
    At size (((size : ℚ) - 1) * x) ⌊((size : ℚ) - 1) * x⌋₊ := by
  have hpos : (0 : ℚ) ≤ (size : ℚ) - 1 := by
    have : (2 : ℚ) ≤ size := by exact_mod_cast hsize
    linarith
  have h0 := mul_nonneg hpos h1
  have hmax : ((size : ℚ) - 1) * x ≤ (size : ℚ) - 1 := mul_le_of_le_one_right hpos h2
  refine ⟨Nat.floor_le h0, Nat.lt_floor_add_one _, ?_⟩
  generalize ((size : ℚ) - 1) * x = y at h0 hmax
  have hfloor := Nat.floor_le h0
  by_cases hlast : ⌊y⌋₊ + 1 < size
  · exact Or.inl hlast
  · have hge : (size : ℚ) ≤ ⌊y⌋₊ + 1 := by exact_mod_cast not_lt.1 hlast
    have heq : y = ⌊y⌋₊ := by linarith
    refine Or.inr ⟨?_, heq⟩
    have : ((⌊y⌋₊ : Nat) : ℚ) < size := by linarith
    exact_mod_cast this

theorem containsRadians_iff {sector : Sector} {lat lon : ℚ} :
    containsRadians sector lat lon = true ↔ sector.minLatitude.radians ≤ lat ∧ lat ≤ sector.maxLatitude.radians ∧
      sector.minLongitude.radians ≤ lon ∧ lon ≤ sector.maxLongitude.radians := by
  rw [containsRadians, decide_eq_true_eq]

theorem at_column {tile : Tile} {lat lon : ℚ} (h : containsRadians tile.sector lat lon = true) :
    At tile.width (tile.column lon) ⌊tile.column lon⌋₊ := by
  rw [containsRadians_iff] at h
  have hpos := deltaLon_pos tile
  refine at_floor tile.two_le_width (div_nonneg (by linarith [h.2.2.1]) hpos.le) ((div_le_one hpos).2 ?_)
  rw [deltaLon_eq]
  linarith [h.2.2.2]

theorem at_row {tile : Tile} {lat lon : ℚ} (h : containsRadians tile.sector lat lon = true) :
    At tile.height (tile.row lat) ⌊tile.row lat⌋₊ := by
  rw [containsRadians_iff] at h
  have hpos := deltaLat_pos tile
  refine at_floor tile.two_le_height (div_nonneg (by linarith [h.2.1]) hpos.le) ((div_le_one hpos).2 ?_)
  rw [deltaLat_eq]
  linarith [h.1]

theorem getDouble_eq (tile : Tile) {r c : Nat} (hr : r < tile.height) (hc : c < tile.width) :
    getDouble tile.elevations ((r * tile.width + c : Nat) : Int) = some (tile.sample r c) := by
  have hlt : r * tile.width + c < tile.elevations.length := by
    rw [tile.length_eq]
    calc r * tile.width + c < (r + 1) * tile.width := by rw [Nat.add_mul, Nat.one_mul]; omega
      _ ≤ tile.height * tile.width := Nat.mul_le_mul_right _ hr
      _ = tile.width * tile.height := Nat.mul_comm _ _
  rw [getDouble, if_pos (Int.natCast_nonneg _), Int.toNat_natCast, Tile.sample, List.getElem?_eq_getElem hlt,
    List.getD_eq_getElem _ _ hlt]

theorem size_lt (tile : Tile) : tile.width < 2 ^ 31 ∧ tile.height < 2 ^ 31 := by
  have h := tile.length_lt
  rw [tile.length_eq] at h
  exact ⟨lt_of_le_of_lt (Nat.le_mul_of_pos_right _ (by have := tile.two_le_height; omega)) h,
    lt_of_le_of_lt (Nat.le_mul_of_pos_left _ (by have := tile.two_le_width; omega)) h⟩

theorem intCast_of_at {size n : Nat} {x : ℚ} (hsize : size < 2 ^ 31) (h : At size x n) : intCast x = n := by
  have hn : n < size := by rcases h.inside with h | h <;> omega
  have h1 : (0 : ℚ) ≤ n := Nat.cast_nonneg n
  have h2 : (n : ℚ) + 1 ≤ 2 ^ 31 := by
    have : n + 1 ≤ 2 ^ 31 := by omega
    exact_mod_cast this
  rw [intCast_eq_floor (by linarith [h.le]) (by linarith [h.lt])]
  exact Int.floor_eq_iff.2 ⟨by exact_mod_cast h.le, by exact_mod_cast h.lt⟩

/-- How far a location is behind a line of samples, in units of the distance of two lines. -/
theorem fraction_eq {size delta d n : ℚ} (hsize : 1 < size) (hdelta : 0 < delta) :
    (d - n * (delta / (size - 1))) / (delta / (size - 1)) = (size - 1) * (d / delta) - n := by
  have h1 : size - 1 ≠ 0 := by linarith
  field_simp

/-- What the lines compute, in the rows and columns of the location. -/
theorem lookup_eq (isMissing : ℚ → Bool) (signal : ℚ) {tile : Tile} {lat lon : ℚ} {i j : Nat}
    (hi : At tile.width (tile.column lon) i) (hj : At tile.height (tile.row lat) j) :
    lookup isMissing signal tile lat lon = some
      (let eLeft := tile.sample j i
      let eRight := if i + 1 < tile.width then tile.sample j (i + 1) else eLeft
      let eTop := eLeft + (tile.column lon - i) * (eRight - eLeft)
      if isMissing eLeft || isMissing eRight then signal
      else if j + 1 < tile.height ∧ i + 1 < tile.width then
        let eLeft := tile.sample (j + 1) i
        let eRight := tile.sample (j + 1) (i + 1)
        if isMissing eLeft || isMissing eRight then signal
        else eTop + (tile.row lat - j) * (eLeft + (tile.column lon - i) * (eRight - eLeft) - eTop)
      else eTop) := by
  obtain ⟨hw, hh⟩ := size_lt tile
  have hjh : j < tile.height := by rcases hj.inside with h | h <;> omega
  have hiw : i < tile.width := by rcases hi.inside with h | h <;> omega
  have hcast : ∀ n : Nat, (((n : Int) - 1 : Int) : ℚ) = (n : ℚ) - 1 := fun n => by push_cast; rfl
  have hij : intCast ((((tile.height : Int) - 1 : Int) : ℚ) * ((tile.sector.maxLatitude.radians - lat) /
      tile.sector.deltaLat.radians)) = j := by
    rw [hcast]
    exact intCast_of_at hh hj
  have hii : intCast ((((tile.width : Int) - 1 : Int) : ℚ) * ((lon - tile.sector.minLongitude.radians) /
      tile.sector.deltaLon.radians)) = i := by
    rw [hcast]
    exact intCast_of_at hw hi
  have hone : ∀ {n : Nat}, 2 ≤ n → (1 : ℚ) < n := fun h => by
    have : 1 < (_ : Nat) := h
    exact_mod_cast this
  have hlon : (lon - tile.sector.minLongitude.radians - ((i : Int) : ℚ) * (tile.sector.deltaLon.radians /
      (((tile.width : Int) - 1 : Int) : ℚ))) / (tile.sector.deltaLon.radians / (((tile.width : Int) - 1 : Int) : ℚ)) =
      tile.column lon - i := by
    rw [hcast, fraction_eq (hone tile.two_le_width) (deltaLon_pos tile)]
    rfl
  have hlat : (tile.sector.maxLatitude.radians - lat - ((j : Int) : ℚ) * (tile.sector.deltaLat.radians /
      (((tile.height : Int) - 1 : Int) : ℚ))) / (tile.sector.deltaLat.radians / (((tile.height : Int) - 1 : Int) :
      ℚ)) =
      tile.row lat - j := by
    rw [hcast, fraction_eq (hone tile.two_le_height) (deltaLat_pos tile)]
    rfl
  have hindex : ∀ {r c : Nat}, r < tile.height → c < tile.width → r * tile.width + c < 2 ^ 31 := fun {r c} hr hc => by
    have h := tile.length_lt
    rw [tile.length_eq] at h
    calc r * tile.width + c < (r + 1) * tile.width := by rw [Nat.add_mul, Nat.one_mul]; omega
      _ ≤ tile.height * tile.width := Nat.mul_le_mul_right _ hr
      _ = tile.width * tile.height := Nat.mul_comm _ _
      _ < 2 ^ 31 := h
  have hsum := hindex hjh hiw
  have hk : int (int ((j : Int) * (tile.width : Int)) + (i : Int)) = ((j * tile.width + i : Nat) : Int) := by
    rw [int_int_add, show (j : Int) * (tile.width : Int) + i = ((j * tile.width + i : Nat) : Int) by push_cast; rfl]
    exact int_eq (by omega) (by omega)
  have heast : (i : Int) < (tile.width : Int) - 1 ↔ i + 1 < tile.width := by omega
  have hsouth : (j : Int) < (tile.height : Int) - 1 ↔ j + 1 < tile.height := by omega
  have hk1 : i + 1 < tile.width → getDouble tile.elevations (int (((j * tile.width + i : Nat) : Int) + 1)) =
      some (tile.sample j (i + 1)) := fun h => by
    have := hindex hjh h
    rw [int_eq (by omega) (by omega), ← getDouble_eq tile hjh h]
    push_cast
    ring_nf
  have hk2 : j + 1 < tile.height → int (((j * tile.width + i : Nat) : Int) + (tile.width : Int)) =
      (((j + 1) * tile.width + i : Nat) : Int) := fun h => by
    have := hindex h hiw
    rw [show ((j * tile.width + i : Nat) : Int) + tile.width = (((j + 1) * tile.width + i : Nat) : Int) by
      push_cast; ring]
    exact int_eq (by omega) (by omega)
  have hk3 : j + 1 < tile.height → i + 1 < tile.width →
      getDouble tile.elevations (int ((((j + 1) * tile.width + i : Nat) : Int) + 1)) =
        some (tile.sample (j + 1) (i + 1)) := fun h h' => by
    have := hindex h h'
    rw [int_eq (by omega) (by omega), ← getDouble_eq tile h h']
    push_cast
    ring_nf
  rw [lookup]
  simp only [hij, hii, hlon, hlat, hk, heast, hsouth, getDouble_eq tile hjh hiw, Option.bind_eq_bind,
    Option.bind_some]
  by_cases heast' : i + 1 < tile.width
  · by_cases hsouth' : j + 1 < tile.height
    · simp only [heast', hsouth', if_true, and_self, hk1 heast', hk2 hsouth', hk3 hsouth' heast',
        getDouble_eq tile hsouth' hiw, Option.bind_some]
      split_ifs <;> rfl
    · -- the top row stands for the bottom row
      simp only [heast', hsouth', if_true, if_false, false_and, hk1 heast', Option.bind_some, sub_self, mul_zero,
        add_zero]
      split_ifs <;> rfl
  · simp only [heast', if_false, and_false, sub_self, mul_zero, add_zero]
    split_ifs <;> rfl

/-! ## Where the lines give the mix -/

/-- The mix in the rows and columns of the location. -/
theorem bilinear_eq (isMissing : ℚ → Bool) (signal : ℚ) {tile : Tile} {lat lon : ℚ} {i j : Nat}
    (hi : At tile.width (tile.column lon) i) (hj : At tile.height (tile.row lat) j) :
    tile.bilinear isMissing signal lat lon =
      if isMissing (tile.sample j i) ∨ (tile.column lon ≠ i ∧ isMissing (tile.sample j (i + 1))) ∨
        (tile.row lat ≠ j ∧ isMissing (tile.sample (j + 1) i)) ∨
        (tile.column lon ≠ i ∧ tile.row lat ≠ j ∧ isMissing (tile.sample (j + 1) (i + 1)))
      then signal
      else interpolate tile.width tile.height tile.sample (tile.column lon) (tile.row lat) :=
  if_congr (touches_iff (p := fun r c => isMissing (tile.sample r c) =
    true) hi.le hi.lt hi.inside hj.le hj.lt hj.inside)
    rfl rfl

/-- West of the east edge the lines mix the four samples of the cell, unless one of them is missing. -/
theorem lookup_west (isMissing : ℚ → Bool) (signal : ℚ) {tile : Tile} {lat lon : ℚ} {i j : Nat}
    (hi : At tile.width (tile.column lon) i) (hj : At tile.height (tile.row lat) j) (heast : i + 1 < tile.width) :
    lookup isMissing signal tile lat lon = some
      (if isMissing (tile.sample j i) ∨ isMissing (tile.sample j (i + 1)) ∨ (j + 1 < tile.height ∧
        (isMissing (tile.sample (j + 1) i) ∨ isMissing (tile.sample (j + 1) (i + 1))))
      then signal
      else interpolate tile.width tile.height tile.sample (tile.column lon) (tile.row lat)) := by
  have hmix := interpolate_eq tile.sample hi.le hi.lt hi.inside hj.le hj.lt hj.inside
  rw [lookup_eq isMissing signal hi hj, hmix, Option.some_inj]
  dsimp only
  simp only [if_pos heast, Bool.or_eq_true]
  by_cases htop : isMissing (tile.sample j i) = true ∨ isMissing (tile.sample j (i + 1)) = true
  · rw [if_pos htop, if_pos (htop.imp_right Or.inl)]
  rw [if_neg htop]
  by_cases hsouth : j + 1 < tile.height
  · rw [if_pos ⟨hsouth, heast⟩]
    by_cases hbot : isMissing (tile.sample (j + 1) i) = true ∨ isMissing (tile.sample (j + 1) (i + 1)) = true
    · rw [if_pos hbot, if_pos (Or.inr (Or.inr ⟨hsouth, hbot⟩))]
    · rw [if_neg hbot, if_neg]
      · ring
      · rintro (h | h | h)
        · exact htop (Or.inl h)
        · exact htop (Or.inr h)
        · exact hbot h.2
  · have hv := (hj.inside.resolve_left hsouth).2
    rw [if_neg fun h => hsouth h.1, if_neg]
    · rw [hv]
      ring
    · rintro (h | h | h)
      · exact htop (Or.inl h)
      · exact htop (Or.inr h)
      · exact hsouth h.1

/-- On the east edge the lines return the sample above the location. -/
theorem lookup_east (isMissing : ℚ → Bool) (signal : ℚ) {tile : Tile} {lat lon : ℚ} {i j : Nat}
    (hi : At tile.width (tile.column lon) i) (hj : At tile.height (tile.row lat) j) (heast : ¬i + 1 < tile.width) :
    lookup isMissing signal tile lat lon =
      some (if isMissing (tile.sample j i) then signal else tile.sample j i) := by
  rw [lookup_eq isMissing signal hi hj]
  dsimp only
  simp only [heast, and_false, if_false, Bool.or_self, sub_self, mul_zero, add_zero]

/-- The lines give the mix of the tile exactly at the regular locations. -/
theorem lookup_iff (isMissing : ℚ → Bool) (signal : ℚ) {tile : Tile} {lat lon : ℚ}
    (h : containsRadians tile.sector lat lon = true) :
    lookup isMissing signal tile lat lon = some (tile.bilinear isMissing signal lat lon) ↔
      tile.Regular isMissing signal lat lon := by
  have hi := at_column h
  have hj := at_row h
  rw [bilinear_eq isMissing signal hi hj, Tile.Regular]
  by_cases heast : ⌊tile.column lon⌋₊ + 1 < tile.width
  · rw [lookup_west isMissing signal hi hj heast, Option.some_inj, if_pos heast]
    generalize ⌊tile.column lon⌋₊ = i at hi heast ⊢
    generalize ⌊tile.row lat⌋₊ = j at hj ⊢
    by_cases hvoid : isMissing (tile.sample j i) = true ∨ isMissing (tile.sample j (i + 1)) = true ∨
      (j + 1 < tile.height ∧ (isMissing (tile.sample (j + 1) i) = true ∨
        isMissing (tile.sample (j + 1) (i + 1)) = true))
    · rw [if_pos hvoid, forall_prop_of_true hvoid]
      split_ifs with htouch
      · exact iff_of_true rfl (Or.inl htouch)
      · exact ⟨fun h => Or.inr h.symm, fun h => (h.resolve_left htouch).symm⟩
    · rw [if_neg hvoid, if_neg]
      · exact iff_of_true rfl fun h => absurd h hvoid
      · have hsouth : tile.row lat ≠ j → j + 1 < tile.height := fun hv => hj.inside.resolve_right fun h => hv h.2
        rintro (h | ⟨-, h⟩ | ⟨hv, h⟩ | ⟨-, hv, h⟩)
        · exact hvoid (Or.inl h)
        · exact hvoid (Or.inr (Or.inl h))
        · exact hvoid (Or.inr (Or.inr ⟨hsouth hv, Or.inl h⟩))
        · exact hvoid (Or.inr (Or.inr ⟨hsouth hv, Or.inr h⟩))
  · rw [lookup_east isMissing signal hi hj heast, Option.some_inj, if_neg heast]
    have hmix := interpolate_eq tile.sample hi.le hi.lt hi.inside hj.le hj.lt hj.inside
    generalize ⌊tile.column lon⌋₊ = i at hi heast hmix ⊢
    generalize ⌊tile.row lat⌋₊ = j at hj hmix ⊢
    have hu := (hi.inside.resolve_left heast).2
    rw [hmix, hu]
    simp only [ne_eq, not_true_eq_false, false_and, false_or, or_false, sub_self, sub_zero, one_mul, zero_mul,
      add_zero]
    by_cases hv : tile.row lat = j
    · simp only [hv, not_true_eq_false, false_and, or_false, sub_self, sub_zero, one_mul, zero_mul, add_zero, true_or]
    by_cases htop : isMissing (tile.sample j i) = true
    · simp only [htop, true_or, or_true, if_true]
    by_cases hbot : isMissing (tile.sample (j + 1) i) = true
    · simp only [htop, hbot, hv, not_false_eq_true, and_self, or_true, false_or, if_true, Bool.false_eq_true,
        if_false]
    · -- a mix of two samples is the first of them where they are the same
      simp only [htop, hbot, hv, and_false, or_false, false_or, if_false, Bool.false_eq_true]
      have hne : tile.row lat - j ≠ 0 := sub_ne_zero.2 hv
      constructor
      · intro h
        have : (tile.row lat - j) * (tile.sample (j + 1) i - tile.sample j i) = 0 := by linarith
        exact sub_eq_zero.1 ((mul_eq_zero.1 this).resolve_left hne)
      · intro h
        rw [h]
        ring

/-! ## Seams -/

/-- A tile and the tile to the east of it, with the same samples on the edge they share. -/
structure EastNeighbour (isMissing isMissing' : ℚ → Bool) (tile east : Tile) : Prop where
  minLatitude : east.sector.minLatitude = tile.sector.minLatitude
  maxLatitude : east.sector.maxLatitude = tile.sector.maxLatitude
  longitude : east.sector.minLongitude = tile.sector.maxLongitude
  height : east.height = tile.height
  sample : ∀ r < tile.height, east.sample r 0 = tile.sample r (tile.width - 1)
  missing : ∀ r < tile.height, isMissing' (east.sample r 0) = isMissing (tile.sample r (tile.width - 1))

/-- A tile and the tile to the south of it, with the same samples on the edge they share. -/
structure SouthNeighbour (isMissing isMissing' : ℚ → Bool) (tile south : Tile) : Prop where
  minLongitude : south.sector.minLongitude = tile.sector.minLongitude
  maxLongitude : south.sector.maxLongitude = tile.sector.maxLongitude
  latitude : south.sector.maxLatitude = tile.sector.minLatitude
  width : south.width = tile.width
  sample : ∀ c < tile.width, south.sample 0 c = tile.sample (tile.height - 1) c
  missing : ∀ c < tile.width, isMissing' (south.sample 0 c) = isMissing (tile.sample (tile.height - 1) c)

/-- A location on the edge that two neighbours share. -/
inductive Seam (isMissing isMissing' : ℚ → Bool) (tile tile' : Tile) (latRadians lonRadians : ℚ) : Prop
  | east (neighbour : EastNeighbour isMissing isMissing' tile tile')
      (longitude : lonRadians = tile.sector.maxLongitude.radians)
  | south (neighbour : SouthNeighbour isMissing isMissing' tile tile')
      (latitude : latRadians = tile.sector.minLatitude.radians)

theorem column_max (tile : Tile) : tile.column tile.sector.maxLongitude.radians = ((tile.width - 1 : Nat) : ℚ) := by
  have h := deltaLon_pos tile
  rw [Tile.column, ← deltaLon_eq, div_self h.ne', mul_one, Nat.cast_sub (by have := tile.two_le_width; omega),
    Nat.cast_one]

theorem column_min (tile : Tile) : tile.column tile.sector.minLongitude.radians = ((0 : Nat) : ℚ) := by
  rw [Tile.column, sub_self, zero_div, mul_zero, Nat.cast_zero]

theorem row_min (tile : Tile) : tile.row tile.sector.minLatitude.radians = ((tile.height - 1 : Nat) : ℚ) := by
  have h := deltaLat_pos tile
  rw [Tile.row, ← deltaLat_eq, div_self h.ne', mul_one, Nat.cast_sub (by have := tile.two_le_height; omega),
    Nat.cast_one]

theorem row_max (tile : Tile) : tile.row tile.sector.maxLatitude.radians = ((0 : Nat) : ℚ) := by
  rw [Tile.row, sub_self, zero_div, mul_zero, Nat.cast_zero]

/-- On the shared edge both tiles mix the samples of the edge. -/
theorem bilinear_seam {isMissing isMissing' : ℚ → Bool} (signal : ℚ) {tile tile' : Tile} {lat lon : ℚ}
    (h : Seam isMissing isMissing' tile tile' lat lon) :
    tile.bilinear isMissing signal lat lon = tile'.bilinear isMissing' signal lat lon := by
  cases h with
  | east neighbour hlon =>
    have hrow : tile'.row lat = tile.row lat := by
      simp only [Tile.row, Sector.deltaLat, neighbour.minLatitude, neighbour.maxLatitude, neighbour.height]
    have hw : tile.width - 1 < tile.width := by have := tile.two_le_width; omega
    have hw' : 0 < tile'.width := by have := tile'.two_le_width; omega
    have hcol : tile.column lon = ((tile.width - 1 : Nat) : ℚ) := by rw [hlon, column_max]
    have hcol' : tile'.column lon = ((0 : Nat) : ℚ) := by rw [hlon, ← neighbour.longitude, column_min]
    refine if_ctx_congr ?_ (fun _ => rfl) fun _ => ?_
    · rw [hcol, hcol', hrow]
      refine (touches_column (p := fun r c => isMissing (tile.sample r c) = true) tile.height hw _).trans
        (Iff.trans ?_ (touches_column (p := fun r c => isMissing' (tile'.sample r c) = true) tile'.height hw' _).symm)
      rw [neighbour.height]
      refine exists_congr fun r => and_congr_right fun hr => ?_
      rw [neighbour.missing r hr]
    · rw [hcol, hcol', hrow, interpolate_column _ _ hw, interpolate_column _ _ hw', neighbour.height]
      refine Finset.sum_congr rfl fun r hr => ?_
      rw [neighbour.sample r (Finset.mem_range.1 hr)]
  | south neighbour hlat =>
    have hcol : tile'.column lon = tile.column lon := by
      simp only [Tile.column, Sector.deltaLon, neighbour.minLongitude, neighbour.maxLongitude, neighbour.width]
    have hh : tile.height - 1 < tile.height := by have := tile.two_le_height; omega
    have hh' : 0 < tile'.height := by have := tile'.two_le_height; omega
    have hrow : tile.row lat = ((tile.height - 1 : Nat) : ℚ) := by rw [hlat, row_min]
    have hrow' : tile'.row lat = ((0 : Nat) : ℚ) := by rw [hlat, ← neighbour.latitude, row_max]
    refine if_ctx_congr ?_ (fun _ => rfl) fun _ => ?_
    · rw [hrow, hrow', hcol]
      refine (touches_row (p := fun r c => isMissing (tile.sample r c) = true) tile.width hh _).trans
        (Iff.trans ?_ (touches_row (p := fun r c => isMissing' (tile'.sample r c) = true) tile'.width hh' _).symm)
      rw [neighbour.width]
      refine exists_congr fun c => and_congr_right fun hc => ?_
      rw [neighbour.missing c hc]
    · rw [hrow, hrow', hcol, interpolate_row _ _ hh, interpolate_row _ _ hh', neighbour.width]
      refine Finset.sum_congr rfl fun c hc => ?_
      rw [neighbour.sample c (Finset.mem_range.1 hc)]

theorem contains_neighbour {isMissing isMissing' : ℚ → Bool} {tile tile' : Tile} {lat lon : ℚ}
    (h : Seam isMissing isMissing' tile tile' lat lon) (hin : containsRadians tile.sector lat lon = true) :
    containsRadians tile'.sector lat lon = true := by
  have hlons : tile'.sector.minLongitude.radians ≤ tile'.sector.maxLongitude.radians :=
    (mul_lt_mul_of_pos_left tile'.longitudes radians_pos).le
  have hlats : tile'.sector.minLatitude.radians ≤ tile'.sector.maxLatitude.radians :=
    (mul_lt_mul_of_pos_left tile'.latitudes radians_pos).le
  rw [containsRadians_iff] at hin ⊢
  cases h with
  | east neighbour hlon =>
    rw [hlon, ← neighbour.longitude, neighbour.minLatitude, neighbour.maxLatitude]
    exact ⟨hin.1, hin.2.1, le_rfl, hlons⟩
  | south neighbour hlat =>
    rw [hlat, ← neighbour.latitude, neighbour.minLongitude, neighbour.maxLongitude]
    exact ⟨hlats, le_rfl, hin.2.2⟩

/-- At a location of the shared edge that is regular in both tiles, both give the same. -/
theorem lookup_seam {isMissing isMissing' : ℚ → Bool} (signal : ℚ) {tile tile' : Tile} {lat lon : ℚ}
    (h : Seam isMissing isMissing' tile tile' lat lon) (hin : containsRadians tile.sector lat lon = true)
    (hregular : tile.Regular isMissing signal lat lon) (hregular' : tile'.Regular isMissing' signal lat lon) :
    lookup isMissing signal tile lat lon = lookup isMissing' signal tile' lat lon := by
  rw [(lookup_iff isMissing signal hin).2 hregular,
    (lookup_iff isMissing' signal (contains_neighbour h hin)).2 hregular', bilinear_seam signal h]

theorem findTile_eq_some {model : LocalElevationModel} {tile : LocalTile} {lat lon : ℚ}
    (h : model.findTile lat lon = some tile) : containsRadians tile.sector lat lon = true :=
  List.find?_some (p := fun tile : LocalTile => containsRadians tile.sector lat lon) h

theorem LocalElevationModel.lookupElevation_eq {model : LocalElevationModel} {tile : LocalTile} {lat lon : ℚ}
    (h : model.findTile lat lon = some tile) :
    model.lookupElevation lat lon =
      (lookup tile.isMissingData model.missingDataFlag tile.toTile lat lon).map some := by
  rw [LocalElevationModel.lookupElevation, h]

theorem map_some_eq {x : Option ℚ} {y : ℚ} : x.map some = some (some y) ↔ x = some y := by
  cases x <;> simp

/-- Both models give the mix of a tile at a location in it exactly where the location is regular. A location in
some tile of a local model has a first tile. And two neighbours agree on the edge they share where it is regular. -/
theorem lookupElevation_iff (signal : ℚ) (tile : Tile) (latitude longitude : Angle) :
    (containsRadians tile.sector latitude.radians longitude.radians = true →
      (BasicElevationModel.lookupElevation signal latitude longitude tile =
          some (tile.bilinear (fun e => signal = e) signal latitude.radians longitude.radians) ↔
        tile.Regular (fun e => signal = e) signal latitude.radians longitude.radians)) ∧
    (∀ tile' : Tile,
      Seam (fun e => signal = e) (fun e => signal = e) tile tile' latitude.radians longitude.radians →
      containsRadians tile.sector latitude.radians longitude.radians = true →
      tile.Regular (fun e => signal = e) signal latitude.radians longitude.radians →
      tile'.Regular (fun e => signal = e) signal latitude.radians longitude.radians →
      BasicElevationModel.lookupElevation signal latitude longitude tile =
        BasicElevationModel.lookupElevation signal latitude longitude tile') ∧
    (∀ (model : LocalElevationModel) (tile : LocalTile) (lat lon : ℚ), tile ∈ model.tiles →
      containsRadians tile.sector lat lon = true → ∃ first, model.findTile lat lon = some first) ∧
    (∀ (model : LocalElevationModel) (tile : LocalTile) (lat lon : ℚ), model.findTile lat lon = some tile →
      containsRadians tile.sector lat lon = true ∧
      (model.lookupElevation lat lon = some (some (tile.bilinear tile.isMissingData model.missingDataFlag lat lon)) ↔
        tile.Regular tile.isMissingData model.missingDataFlag lat lon)) ∧
    ∀ (model model' : LocalElevationModel) (tile tile' : LocalTile) (lat lon : ℚ),
      model'.missingDataFlag = model.missingDataFlag → model.findTile lat lon = some tile →
      model'.findTile lat lon = some tile' →
      Seam tile.isMissingData tile'.isMissingData tile.toTile tile'.toTile lat lon →
      tile.Regular tile.isMissingData model.missingDataFlag lat lon →
      tile'.Regular tile'.isMissingData model.missingDataFlag lat lon →
      model.lookupElevation lat lon = model'.lookupElevation lat lon := by
  refine ⟨?_, ?_, ?_, ?_, ?_⟩
  · intro hin
    exact lookup_iff _ signal hin
  · intro tile' hseam hin hregular hregular'
    exact lookup_seam signal hseam hin hregular hregular'
  · intro model tile lat lon hmem hin
    refine Option.isSome_iff_exists.1 (List.find?_isSome.2 ⟨tile, hmem, hin⟩)
  · intro model tile lat lon hfind
    have hin := findTile_eq_some hfind
    refine ⟨hin, ?_⟩
    rw [LocalElevationModel.lookupElevation_eq hfind, map_some_eq]
    exact lookup_iff _ _ hin
  · intro model model' tile tile' lat lon hflag hfind hfind' hseam hregular hregular'
    rw [LocalElevationModel.lookupElevation_eq hfind, LocalElevationModel.lookupElevation_eq hfind', hflag,
      lookup_seam _ hseam (findTile_eq_some hfind) hregular hregular']

/-- A tile of one square degree whose last sample stands out. -/
def cornerTile : Tile where
  sector := .fromDegrees 0 1 0 1
  width := 2
  height := 2
  elevations := [0, 0, 0, 10]
  latitudes := zero_lt_one
  longitudes := zero_lt_one
  two_le_width := le_rfl
  two_le_height := le_rfl
  length_eq := rfl
  length_lt := by norm_num

/-- The northern half of the cell is regular up to the east edge. -/
theorem lookupElevation_corner :
    BasicElevationModel.lookupElevation (-1) (.fromDegrees (1 / 2)) (.fromDegrees (1 / 2)) cornerTile =
      some (cornerTile.bilinear (fun e => -1 = e) (-1) (Angle.fromDegrees (1 / 2)).radians
        (Angle.fromDegrees (1 / 2)).radians) :=
  ((lookupElevation_iff (-1) cornerTile (.fromDegrees (1 / 2)) (.fromDegrees (1 / 2))).1 (by decide +kernel)).2 (by
    rw [Tile.Regular]
    decide +kernel)

/-- In the middle of the east edge the sample above is returned. -/
theorem eastEdge_notMixed :
    containsRadians cornerTile.sector (Angle.fromDegrees (1 / 2)).radians (Angle.fromDegrees 1).radians = true ∧
      BasicElevationModel.lookupElevation (-1) (.fromDegrees (1 / 2)) (.fromDegrees 1) cornerTile = some 0 ∧
      cornerTile.bilinear (fun e => -1 = e) (-1) (Angle.fromDegrees (1 / 2)).radians (Angle.fromDegrees 1).radians =
        5 := by
  decide +kernel

end WorldWind.Elevations
