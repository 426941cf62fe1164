import WorldWind.Geom
/-!
# The bounding rectangle of a shapefile

`Shapefile.readGeographicBoundingRectangle`. A rectangle may reach over a pole
or over the date line. Its latitudes are then reflected at the pole, and its
longitudes become the whole circle. The correction at the south pole sets the
wrong bound, so it is exactly the rectangles over that pole whose result is
wrong (`readGeographicBoundingRectangle_bounds_iff`).
-/

namespace WorldWind.Shapefile

open Geom

/-- The coordinates are `coords[0]` to `coords[3]`. -/
structure BoundingRectangle where
  minLat : ℚ
  maxLat : ℚ
  minLon : ℚ
  maxLon : ℚ
  isNormalized : Bool
  deriving DecidableEq

/-- The four doubles at the buffer's position: minX, minY, maxX, maxY. -/
structure FourDoubles where
  minx : ℚ
  miny : ℚ
  maxx : ℚ
  maxy : ℚ

def readBoundingRectangleCoordinates (buffer : FourDoubles) : BoundingRectangle :=
  ⟨buffer.miny, buffer.maxy, buffer.minx, buffer.maxx, false⟩

/-- The correction of a rectangle over the south pole. The comment says that it
sets the min latitude to -90. -/
def correctMinLatitude (rect : BoundingRectangle) : BoundingRectangle :=
  if rect.minLat < -90 then
    let normalizedLat := (Angle.fromDegrees rect.minLat).normalizedLatitude.degrees
    { rect with
      minLat := 90
      isNormalized := true
      maxLat := if rect.maxLat < normalizedLat then normalizedLat else rect.maxLat }
  else rect

def correctMaxLatitude (rect : BoundingRectangle) : BoundingRectangle :=
  if rect.maxLat > 90 then
    let normalizedLat := (Angle.fromDegrees rect.maxLat).normalizedLatitude.degrees
    { rect with
      maxLat := 90
      isNormalized := true
      minLat := if rect.minLat > normalizedLat then normalizedLat else rect.minLat }
  else rect

def correctLongitudes (rect : BoundingRectangle) : BoundingRectangle :=
  if rect.minLon < -180 ∨ rect.maxLon > 180 then { rect with minLon := -180, maxLon := 180, isNormalized := true }
  else rect

def readGeographicBoundingRectangle (buffer : FourDoubles) : BoundingRectangle :=
  correctLongitudes (correctMaxLatitude (correctMinLatitude (readBoundingRectangleCoordinates buffer)))

/-! ## Normalized angles -/

/-- The part of the quotient that is cut off is less than one. -/
theorem abs_remainder_lt (x : ℚ) {y : ℚ} (hy : 0 < y) : |remainder x y| < y := by
  have hden : (0 : ℚ) < (x / y).den := by exact_mod_cast (x / y).den_pos
  have hsplit : ((x / y).num.tmod (x / y).den : ℚ) + (x / y).den * ((x / y).num.tdiv (x / y).den : ℤ) =
      (x / y).num := by
    exact_mod_cast Int.tmod_add_mul_tdiv (x / y).num (x / y).den
  have hcut : x / y - ((x / y).num.tdiv (x / y).den : ℤ) = (x / y).num.tmod (x / y).den / (x / y).den := by
    rw [eq_div_iff hden.ne', sub_mul, Rat.mul_den_eq_num]
    linarith
  have hrem : remainder x y = y * ((x / y).num.tmod (x / y).den / (x / y).den) := by
    rw [← hcut, remainder, mul_sub, mul_div_cancel₀ x hy.ne']
  have hlt : |((x / y).num.tmod (x / y).den : ℚ)| < (x / y).den := by
    have hpos : (0 : Int) < (x / y).den := by exact_mod_cast (x / y).den_pos
    exact abs_lt.2 ⟨by exact_mod_cast Int.lt_tmod_of_pos _ hpos, by exact_mod_cast Int.tmod_lt_of_pos _ hpos⟩
  rw [hrem, abs_mul, abs_of_pos hy, abs_div, abs_of_pos hden]
  exact mul_lt_of_lt_one_right hy ((div_lt_one hden).2 hlt)

theorem tdiv_eq_zero {a b : Int} (h1 : -b < a) (h2 : a < b) : a.tdiv b = 0 := by
  rcases le_total 0 a with h | h
  · exact Int.tdiv_eq_zero_of_lt h h2
  · rw [← Int.neg_neg a, Int.neg_tdiv, Int.tdiv_eq_zero_of_lt (by omega) (by omega), Int.neg_zero]

theorem remainder_of_abs_lt {x y : ℚ} (h : |x| < y) : remainder x y = x := by
  have hy : 0 < y := (abs_nonneg x).trans_lt h
  obtain ⟨hlow, hhigh⟩ := abs_lt.1 h
  have hden : (0 : Int) < (x / y).den := by exact_mod_cast (x / y).den_pos
  have hnum : -((x / y).den : Int) < (x / y).num ∧ (x / y).num < (x / y).den := by
    have hq : (x / y).num = x / y * (x / y).den := (Rat.mul_den_eq_num _).symm
    have hden' : (0 : ℚ) < (x / y).den := by exact_mod_cast hden
    have h1 : x / y < 1 := (div_lt_one hy).2 hhigh
    have h2 : -1 < x / y := by
      rw [lt_div_iff₀ hy]
      linarith
    constructor
    · have : (-((x / y).den : ℚ)) < (x / y).num := by
        rw [hq]
        nlinarith
      exact_mod_cast this
    · have : ((x / y).num : ℚ) < (x / y).den := by
        rw [hq]
        nlinarith
      exact_mod_cast this
  rw [remainder, tdiv_eq_zero hnum.1 hnum.2, Int.cast_zero, mul_zero, sub_zero]

theorem normalizedLongitude_range (lon : ℚ) :
    -180 ≤ (Angle.fromDegrees lon).normalizedLongitude.degrees ∧
      (Angle.fromDegrees lon).normalizedLongitude.degrees ≤ 180 := by
  obtain ⟨h1, h2⟩ := abs_lt.1 (abs_remainder_lt lon (by norm_num : (0 : ℚ) < 360))
  have hcases : (Angle.fromDegrees lon).normalizedLongitude.degrees =
      if remainder lon 360 > 180 then remainder lon 360 - 360
      else if remainder lon 360 < -180 then 360 + remainder lon 360 else remainder lon 360 := rfl
  rw [hcases]
  by_cases h3 : remainder lon 360 > 180
  · rw [if_pos h3]
    constructor <;> linarith
  · rw [if_neg h3]
    by_cases h4 : remainder lon 360 < -180
    · rw [if_pos h4]
      constructor <;> linarith
    · rw [if_neg h4]
      constructor <;> linarith

theorem normalizedLongitude_eq {lon : ℚ} (h1 : -180 ≤ lon) (h2 : lon ≤ 180) :
    (Angle.fromDegrees lon).normalizedLongitude.degrees = lon := by
  have hrem : remainder lon 360 = lon := remainder_of_abs_lt (abs_lt.2 ⟨by linarith, by linarith⟩)
  simp only [Angle.normalizedLongitude, Angle.fromDegrees, hrem]
  rw [if_neg (by linarith), if_neg (by linarith)]

theorem normalizedLatitude_eq {lat : ℚ} (h1 : -90 ≤ lat) (h2 : lat ≤ 90) :
    (Angle.fromDegrees lat).normalizedLatitude.degrees = lat := by
  have hrem : remainder lat 180 = lat := remainder_of_abs_lt (abs_lt.2 ⟨by linarith, by linarith⟩)
  simp only [Angle.normalizedLatitude, Angle.fromDegrees, hrem]
  rw [if_neg (by linarith), if_neg (by linarith)]

/-- Over the north pole. -/
theorem normalizedLatitude_north {lat : ℚ} (h1 : 90 < lat) (h2 : lat ≤ 180) :
    (Angle.fromDegrees lat).normalizedLatitude.degrees = 180 - lat := by
  rcases h2.lt_or_eq with h2 | rfl
  · have hrem : remainder lat 180 = lat := remainder_of_abs_lt (abs_lt.2 ⟨by linarith, by linarith⟩)
    simp only [Angle.normalizedLatitude, Angle.fromDegrees, hrem]
    rw [if_pos (by linarith)]
  · decide +kernel

/-- Over the south pole. -/
theorem normalizedLatitude_south {lat : ℚ} (h1 : -180 ≤ lat) (h2 : lat < -90) :
    (Angle.fromDegrees lat).normalizedLatitude.degrees = -180 - lat := by
  rcases h1.lt_or_eq with h1 | rfl
  · have hrem : remainder lat 180 = lat := remainder_of_abs_lt (abs_lt.2 ⟨by linarith, by linarith⟩)
    simp only [Angle.normalizedLatitude, Angle.fromDegrees, hrem]
    rw [if_neg (by linarith), if_pos (by linarith)]
  · decide +kernel

/-! ## The result -/

/-- The result is a part of the globe, and contains the normalized images of all
points of the rectangle that was read. -/
structure Bounds (buffer : FourDoubles) (rect : BoundingRectangle) : Prop where
  lat_range : -90 ≤ rect.minLat ∧ rect.maxLat ≤ 90
  lon_range : -180 ≤ rect.minLon ∧ rect.maxLon ≤ 180
  lat_order : rect.minLat ≤ rect.maxLat
  lon_order : rect.minLon ≤ rect.maxLon
  contains : ∀ lat lon : ℚ, buffer.miny ≤ lat → lat ≤ buffer.maxy → buffer.minx ≤ lon → lon ≤ buffer.maxx →
    (rect.minLat ≤ (Angle.fromDegrees lat).normalizedLatitude.degrees ∧
      (Angle.fromDegrees lat).normalizedLatitude.degrees ≤ rect.maxLat) ∧
    (rect.minLon ≤ (Angle.fromDegrees lon).normalizedLongitude.degrees ∧
      (Angle.fromDegrees lon).normalizedLongitude.degrees ≤ rect.maxLon)

/-- Behind the south pole the min latitude is the north pole. -/
theorem correctMinLatitude_south {rect : BoundingRectangle} (hmin : -180 ≤ rect.minLat) (h : rect.minLat < -90)
    (hmax : rect.maxLat ≤ 180) : (correctMinLatitude rect).minLat = 90 ∧ (correctMinLatitude rect).maxLat ≤ 180 ∧
      (rect.maxLat < -90 → (correctMinLatitude rect).maxLat < 90) := by
  rw [correctMinLatitude, if_pos h]
  refine ⟨rfl, ?_⟩
  dsimp only
  rw [normalizedLatitude_south hmin h]
  split_ifs
  · exact ⟨by linarith, fun _ => by linarith⟩
  · exact ⟨hmax, fun hlt => by linarith⟩

/-- Behind the north pole the latitudes are reflected. -/
theorem correctMaxLatitude_eq {rect : BoundingRectangle} (hmax : rect.maxLat ≤ 180) :
    (correctMaxLatitude rect).minLat =
    (if 90 < rect.maxLat then min rect.minLat (180 - rect.maxLat) else rect.minLat) ∧
      (correctMaxLatitude rect).maxLat = min rect.maxLat 90 := by
  rw [correctMaxLatitude]
  by_cases h : rect.maxLat > 90
  · rw [if_pos h, if_pos h, normalizedLatitude_north h hmax, min_eq_right h.le]
    refine ⟨?_, rfl⟩
    dsimp only
    by_cases hlt : rect.minLat > 180 - rect.maxLat
    · rw [if_pos hlt, min_eq_right hlt.le]
    · rw [if_neg hlt, min_eq_left (not_lt.1 hlt)]
  · rw [if_neg h, if_neg h, min_eq_left (not_lt.1 h)]
    exact ⟨rfl, rfl⟩

theorem correctLongitudes_lat (rect : BoundingRectangle) :
    (correctLongitudes rect).minLat = rect.minLat ∧ (correctLongitudes rect).maxLat = rect.maxLat := by
  rw [correctLongitudes]
  split <;> exact ⟨rfl, rfl⟩

theorem correctLatitudes_lon (rect : BoundingRectangle) :
    (correctMaxLatitude (correctMinLatitude rect)).minLon = rect.minLon ∧
      (correctMaxLatitude (correctMinLatitude rect)).maxLon = rect.maxLon := by
  have hmin : (correctMinLatitude rect).minLon = rect.minLon ∧ (correctMinLatitude rect).maxLon = rect.maxLon := by
    rw [correctMinLatitude]
    split <;> exact ⟨rfl, rfl⟩
  rw [correctMaxLatitude]
  split <;> exact hmin

/-- The longitudes are those of the rectangle, or the whole circle. -/
theorem correctLongitudes_contains (rect : BoundingRectangle) (horder : rect.minLon ≤ rect.maxLon) :
    (-180 ≤ (correctLongitudes rect).minLon ∧ (correctLongitudes rect).maxLon ≤ 180) ∧
      (correctLongitudes rect).minLon ≤ (correctLongitudes rect).maxLon ∧
      ∀ lon, rect.minLon ≤ lon → lon ≤ rect.maxLon →
        (correctLongitudes rect).minLon ≤ (Angle.fromDegrees lon).normalizedLongitude.degrees ∧
          (Angle.fromDegrees lon).normalizedLongitude.degrees ≤ (correctLongitudes rect).maxLon := by
  rw [correctLongitudes]
  by_cases h : rect.minLon < -180 ∨ rect.maxLon > 180
  · rw [if_pos h]
    exact ⟨⟨le_refl _, le_refl _⟩, by norm_num, fun lon _ _ => normalizedLongitude_range lon⟩
  · rw [if_neg h]
    obtain ⟨hwest, heast⟩ := not_or.1 h
    refine ⟨⟨not_lt.1 hwest, not_lt.1 heast⟩, horder, fun lon h1 h2 => ?_⟩
    rw [normalizedLongitude_eq (by linarith) (by linarith)]
    exact ⟨h1, h2⟩

/-- North of the south pole the latitudes contain the images of all latitudes. -/
theorem latitudes_contain {minLat maxLat lat : ℚ} (hmin : -90 ≤ minLat) (hmax : maxLat ≤ 180) (h1 : minLat ≤ lat)
    (h2 : lat ≤ maxLat) :
    (if 90 < maxLat then min minLat (180 - maxLat) else minLat) ≤ (Angle.fromDegrees lat).normalizedLatitude.degrees ∧
      (Angle.fromDegrees lat).normalizedLatitude.degrees ≤ min maxLat 90 := by
  by_cases hlat : 90 < lat
  · rw [normalizedLatitude_north hlat (h2.trans hmax), if_pos (hlat.trans_le h2)]
    exact ⟨min_le_of_right_le (by linarith), le_min (by linarith) (by linarith)⟩
  · rw [normalizedLatitude_eq (by linarith) (not_lt.1 hlat)]
    refine ⟨?_, le_min h2 (not_lt.1 hlat)⟩
    split
    · exact min_le_of_left_le h1
    · exact h1

/-- The result bounds the rectangle exactly when that does not reach over the south
pole. -/
theorem readGeographicBoundingRectangle_bounds_iff (buffer : FourDoubles) (hmin : -180 ≤ buffer.miny)
    (hlat : buffer.miny ≤ buffer.maxy) (hmax : buffer.maxy ≤ 180) (hlon : buffer.minx ≤ buffer.maxx) :
    Bounds buffer (readGeographicBoundingRectangle buffer) ↔ -90 ≤ buffer.miny := by
  let read := readBoundingRectangleCoordinates buffer
  obtain ⟨hminLat, hmaxLat⟩ := correctLongitudes_lat (correctMaxLatitude (correctMinLatitude read))
  constructor
  · intro h
    by_contra hsouth
    have hsouth := not_le.1 hsouth
    obtain ⟨hfirst, hsmall, hbehind⟩ := @correctMinLatitude_south read hmin hsouth hmax
    have hlow : 0 ≤ (readGeographicBoundingRectangle buffer).minLat := by
      rw [readGeographicBoundingRectangle, hminLat, (correctMaxLatitude_eq hsmall).1, hfirst]
      split
      · exact le_min (by norm_num) (by linarith)
      · norm_num
    -- The pole is in the rectangle, or the bounds are the wrong way round.
    have hlat90 : (Angle.fromDegrees (-90)).normalizedLatitude.degrees = -90 := by decide +kernel
    rcases le_or_gt (-90) buffer.maxy with hpole | hpole
    · have := (h.contains (-90) buffer.minx hsouth.le hpole (le_refl _) hlon).1.1
      rw [hlat90] at this
      linarith
    · have horder := h.lat_order
      have hless := hbehind hpole
      rw [readGeographicBoundingRectangle, hminLat, hmaxLat, (correctMaxLatitude_eq hsmall).1,
        (correctMaxLatitude_eq hsmall).2, if_neg hless.not_gt, hfirst] at horder
      exact absurd (horder.trans (min_le_left _ _)) hless.not_ge
  · intro hnorth
    have hread : correctMinLatitude read = read := if_neg (not_lt.2 hnorth)
    obtain ⟨hlow, hhigh⟩ := @correctMaxLatitude_eq read hmax
    obtain ⟨hrange, horder, hcontains⟩ := correctLongitudes_contains (correctMaxLatitude read) (by
      have := correctLatitudes_lon read
      rw [hread] at this
      rw [this.1, this.2]
      exact hlon)
    have hlonRead := correctLatitudes_lon read
    rw [hread] at hminLat hmaxLat hlonRead
    rw [hlow] at hminLat
    rw [hhigh] at hmaxLat
    rw [readGeographicBoundingRectangle]
    change Bounds buffer (correctLongitudes (correctMaxLatitude (correctMinLatitude read)))
    rw [hread]
    refine ⟨?_, hrange, ?_, horder, fun lat lon h1 h2 h3 h4 => ⟨?_, hcontains lon ?_ ?_⟩⟩
    · rw [hminLat, hmaxLat]
      refine ⟨?_, min_le_right _ _⟩
      split
      · have hmax' : read.maxLat ≤ 180 := hmax
        exact le_min hnorth (by linarith)
      · exact hnorth
    · rw [hminLat, hmaxLat]
      exact (latitudes_contain hnorth hmax (le_refl _) hlat).1.trans
        (latitudes_contain hnorth hmax (le_refl _) hlat).2
    · rw [hminLat, hmaxLat]
      exact latitudes_contain hnorth hmax h1 h2
    · rw [hlonRead.1]
      exact h3
    · rw [hlonRead.2]
      exact h4

/-- From 80 to 100 degrees north, over the date line. -/
def overNorthPole : FourDoubles := ⟨170, 80, 190, 100⟩

theorem readGeographicBoundingRectangle_bounds_north :
    Bounds overNorthPole (readGeographicBoundingRectangle overNorthPole) :=
  (readGeographicBoundingRectangle_bounds_iff overNorthPole (by decide +kernel) (by decide +kernel)
    (by decide +kernel)
    (by decide +kernel)).2 (by decide +kernel)

/-- From 100 to 80 degrees south, the result is the north pole and the south. -/
theorem overSouthPole_inverted :
    readGeographicBoundingRectangle ⟨0, -100, 10, -80⟩ = ⟨90, -80, 0, 10, true⟩ ∧
      ¬ Bounds ⟨0, -100, 10, -80⟩ (readGeographicBoundingRectangle ⟨0, -100, 10, -80⟩) := by
  have hresult : readGeographicBoundingRectangle ⟨0, -100, 10, -80⟩ = ⟨90, -80, 0, 10, true⟩ := by decide +kernel
  refine ⟨hresult, fun h => ?_⟩
  have horder := h.lat_order
  rw [hresult] at horder
  norm_num at horder

end WorldWind.Shapefile
