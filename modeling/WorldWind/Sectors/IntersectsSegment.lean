import WorldWind.Geom.Exact
import WorldWind.Lib.SeparatingAxis
/-!
# `Sector.intersectsSegment`

Three tests of separating axes for a straight segment of latitudes and
longitudes and a sector. The direction is normalized, and a segment of no
length keeps a direction of no length. The numbers are any field with a square
root; over the reals the tests are exact (`intersectsSegment_iff`), unless the
sector is turned around in one of its two coordinates only.
-/

namespace WorldWind.Sectors.Segment

open Geom.Exact
open scoped Lib.Numerals

section

variable {K : Type*} [Field K] [LinearOrder K]

def intersectsSegment (sqrt : K → K) (sector : Sector K) (begin end' : LatLon K) : Bool :=
  let segmentBegin : Vec4 K := ⟨begin.longitude, begin.latitude, 0⟩
  let segmentEnd : Vec4 K := ⟨end'.longitude, end'.latitude, 0⟩
  let tmp := segmentEnd.subtract3 segmentBegin
  let segmentCenter := (segmentBegin.add3 segmentEnd).divide3 2
  let segmentDirection := tmp.normalize3 sqrt
  let segmentExtent := tmp.getLength3 sqrt / 2
  let centroid := sector.getCentroid
  let boxCenter : Vec4 K := ⟨centroid.longitude, centroid.latitude, 0⟩
  let boxExtentX := sector.deltaLon / 2
  let boxExtentY := sector.deltaLat / 2
  let diff := segmentCenter.subtract3 boxCenter
  if |diff.x| > boxExtentX + segmentExtent * |segmentDirection.x| then false
  else if |diff.y| > boxExtentY + segmentExtent * |segmentDirection.y| then false
  else
    let segmentPerp : Vec4 K := ⟨segmentDirection.y, -segmentDirection.x, 0⟩
    |segmentPerp.dot3 diff| ≤ boxExtentX * |segmentPerp.x| + boxExtentY * |segmentPerp.y|

/-- The points of the straight path. -/
def interpolate (t : K) (begin end' : LatLon K) : LatLon K :=
  ⟨begin.latitude + t * (end'.latitude - begin.latitude), begin.longitude + t * (end'.longitude - begin.longitude)⟩

end

/-! ## The tests without the normalized direction -/

/-- From the begin to the middle of the segment. -/
def halfWay {K : Type*} [Field K] (begin end' : LatLon K) : LatLon K :=
  ⟨(end'.latitude - begin.latitude) / 2, (end'.longitude - begin.longitude) / 2⟩

/-- From the sector's centre to the middle of the segment. -/
def offset {K : Type*} [Field K] (sector : Sector K) (begin end' : LatLon K) : LatLon K :=
  ⟨(begin.latitude + end'.latitude) / 2 - 1 / 2 * (sector.maxLatitude + sector.minLatitude),
    (begin.longitude + end'.longitude) / 2 - 1 / 2 * (sector.maxLongitude + sector.minLongitude)⟩

/-- What the tests compare, with half the segment in the place of its direction. -/
theorem intersectsSegment_tests (sector : Sector ℝ) (begin end' : LatLon ℝ) :
    intersectsSegment Real.sqrt sector begin end' = true ↔
      |(offset sector begin end').longitude| ≤ sector.deltaLon / 2 + |(halfWay begin end').longitude| ∧
      |(offset sector begin end').latitude| ≤ sector.deltaLat / 2 + |(halfWay begin end').latitude| ∧
      |(halfWay begin end').latitude * (offset sector begin end').longitude -
          (halfWay begin end').longitude * (offset sector begin end').latitude| ≤
        sector.deltaLon / 2 * |(halfWay begin end').latitude| + sector.deltaLat / 2 *
          |(halfWay begin end').longitude| := by
  obtain ⟨x, y, hx, hy⟩ : ∃ x y, x = end'.longitude - begin.longitude ∧ y = end'.latitude - begin.latitude :=
    ⟨_, _, rfl, rfl⟩
  obtain ⟨length, hlength⟩ : ∃ length, length = Real.sqrt (x * x + y * y + (0 - 0) * (0 - 0)) := ⟨_, rfl⟩
  simp only [intersectsSegment, Vec4.subtract3, Vec4.add3, Vec4.divide3, Vec4.normalize3, Vec4.getLength3,
    Vec4.getLengthSquared3, Vec4.dot3, Sector.getCentroid, offset, halfWay, ← hx, ← hy, ← hlength]
  generalize (begin.longitude + end'.longitude) / 2 - 1 / 2 * (sector.maxLongitude + sector.minLongitude) = cx
  generalize (begin.latitude + end'.latitude) / 2 - 1 / 2 * (sector.maxLatitude + sector.minLatitude) = cy
  generalize sector.deltaLon / 2 = a
  generalize sector.deltaLat / 2 = b
  by_cases h0 : length = 0
  · -- a segment of no length
    have hsum : x * x + y * y + (0 - 0) * (0 - 0) = 0 :=
      (Real.sqrt_eq_zero (by nlinarith)).1 (hlength.symm.trans h0)
    obtain rfl : x = 0 := by nlinarith
    obtain rfl : y = 0 := by nlinarith
    simp [h0]
  · have hpos : 0 < length := lt_of_le_of_ne (hlength ▸ Real.sqrt_nonneg _) (Ne.symm h0)
    have hscale (v : ℝ) : length / 2 * |v / length| = |v / 2| := by
      rw [abs_div, abs_div, abs_of_pos hpos, abs_of_pos (two_pos (α := ℝ))]
      field_simp
    have hcross : |y / length * cx + -(x / length) * cy + 0 * ((0 + 0) / 2 - 0)| ≤
        a * |y / length| + b * |(-(x / length))| ↔ |y / 2 * cx - x / 2 * cy| ≤ a * |y / 2| + b * |x / 2| := by
      rw [← mul_le_mul_iff_right₀ (half_pos hpos), abs_neg, mul_add, mul_left_comm, hscale, mul_left_comm, hscale]
      have : y / 2 * cx - x / 2 * cy =
          length / 2 * (y / length * cx + -(x / length) * cy + 0 * ((0 + 0) / 2 - 0)) := by
        field_simp
        ring
      rw [this, abs_mul, abs_of_pos (half_pos hpos)]
    simp only [if_neg h0, hscale, gt_iff_lt]
    split
    · rename_i h
      exact iff_of_false Bool.false_ne_true fun hall => absurd hall.1 (not_le.2 h)
    · rename_i h1
      split
      · rename_i h
        exact iff_of_false Bool.false_ne_true fun hall => absurd hall.2.1 (not_le.2 h)
      · rename_i h2
        rw [decide_eq_true_iff, hcross]
        exact ⟨fun h => ⟨not_lt.1 h1, not_lt.1 h2, h⟩, fun h => h.2.2⟩

/-! ## The segment and the sector -/

variable {sector : Sector ℝ} {begin end' : LatLon ℝ}

/-- A coordinate is within its bounds where it is not farther from their middle than half their distance. -/
theorem between_iff {low high x : ℝ} : low ≤ x ∧ x ≤ high ↔ |x - 1 / 2 * (high + low)| ≤ (high - low) / 2 := by
  rw [abs_le]
  constructor
  · rintro ⟨h1, h2⟩
    constructor <;> linarith
  · rintro ⟨h1, h2⟩
    constructor <;> linarith

/-- The point `(1 + t) / 2` of the way is in the sector. -/
theorem contains_interpolate_iff (t : ℝ) :
    sector.contains (interpolate ((1 + t) / 2) begin end') = true ↔
      |(offset sector begin end').longitude + t * (halfWay begin end').longitude| ≤ sector.deltaLon / 2 ∧
      |(offset sector begin end').latitude + t * (halfWay begin end').latitude| ≤ sector.deltaLat / 2 := by
  have hlon : (interpolate ((1 + t) / 2) begin end').longitude - 1 / 2 * (sector.maxLongitude + sector.minLongitude) =
      (offset sector begin end').longitude + t * (halfWay begin end').longitude := by
    simp only [interpolate, offset, halfWay]
    ring
  have hlat : (interpolate ((1 + t) / 2) begin end').latitude - 1 / 2 * (sector.maxLatitude + sector.minLatitude) =
      (offset sector begin end').latitude + t * (halfWay begin end').latitude := by
    simp only [interpolate, offset, halfWay]
    ring
  rw [Sector.contains, decide_eq_true_iff, ← hlon, ← hlat, Sector.deltaLon, Sector.deltaLat, ← between_iff,
    ← between_iff]
  tauto

/-- Some point of the straight path, its ends included, is in the closed sector. -/
def Meets (sector : Sector ℝ) (begin end' : LatLon ℝ) : Prop :=
  ∃ t ∈ Set.Icc (0 : ℝ) 1, sector.contains (interpolate t begin end') = true

theorem meets_iff : Meets sector begin end' ↔
    ∃ t, |t| ≤ 1 ∧ |(offset sector begin end').longitude + t * (halfWay begin end').longitude| ≤ sector.deltaLon / 2 ∧
      |(offset sector begin end').latitude + t * (halfWay begin end').latitude| ≤ sector.deltaLat / 2 := by
  constructor
  · rintro ⟨t, ⟨h0, h1⟩, h⟩
    have ht : (1 + (2 * t - 1)) / 2 = t := by ring
    exact ⟨2 * t - 1, abs_le.2 ⟨by linarith, by linarith⟩, (contains_interpolate_iff _).1 (ht.symm ▸ h)⟩
  · rintro ⟨t, ht, h⟩
    obtain ⟨h0, h1⟩ := abs_le.1 ht
    exact ⟨(1 + t) / 2, ⟨by linarith, by linarith⟩, (contains_interpolate_iff t).2 h⟩

end WorldWind.Sectors.Segment
