import WorldWind.Lib.ClosedPath
import WorldWind.Lib.DigitalLine
import WorldWind.Lib.JavaInt
/-!
# Lines between points of a grid

`WWMath.bresenham` goes from the lower to the higher end along the longer axis and keeps in
`error` when the shorter one has to follow. All of its arithmetic is on `int`: the points are
those of the digital line (`scanLoop_points`) as long as the lengths of both axes fit and the
loop's counter can get past the higher end (`bresenham_iff`).
-/

namespace WorldWind.WWMath

open Lib.ClosedPath Lib.DigitalLine Lib.JavaInt

/-! ## The method -/

/-- `Math.abs`, which has no result for the lowest `int` but itself. -/
def mathAbs (x : Int) : Int := if x < 0 then int (-x) else x

/-- The loop, for `fuel` turns at most. -/
def scanLoop (steep : Bool) (x1 deltax deltay ystep : Int) : Nat → Int → Int → Int → Option (List (Int × Int))
  | 0, _, _, _ => none
  | fuel + 1, x, y, error =>
    if x ≤ x1 then
      let point := if steep then (y, x) else (x, y)
      let error := int (error - deltay)
      if error < 0 then
        (scanLoop steep x1 deltax deltay ystep fuel (int (x + 1)) (int (y + ystep))
          (int (error + deltax))).map (point :: ·)
      else (scanLoop steep x1 deltax deltay ystep fuel (int (x + 1)) y error).map (point :: ·)
    else some []

/-- The method from where the ends are in order on. -/
def scan (fuel : Nat) (steep : Bool) (x0 y0 x1 y1 : Int) : Option (List (Int × Int)) :=
  let deltax := int (x1 - x0)
  let deltay := mathAbs (int (y1 - y0))
  let error := deltax.tdiv 2
  let ystep := if y0 < y1 then 1 else -1
  scanLoop steep x1 deltax deltay ystep fuel x0 y0 error

/-- The points, where `fuel` turns of the loop are enough; a negative capacity throws. -/
def bresenham (fuel : Nat) (x0 y0 x1 y1 : Int) : Option (List (Int × Int)) :=
  if mathAbs (int (x1 - x0 + 1)) < 0 then none
  else
    let steep := decide (mathAbs (int (y1 - y0)) > mathAbs (int (x1 - x0)))
    let (x0, y0, x1, y1) := if steep then (y0, x0, y1, x1) else (x0, y0, x1, y1)
    let (x0, y0, x1, y1) := if x0 > x1 then (x1, y1, x0, y0) else (x0, y0, x1, y1)
    scan fuel steep x0 y0 x1 y1

/-! ## Lines -/

/-- How far a point is from the line through the ends, along the shorter axis. -/
def deviation (x0 y0 x1 y1 : Int) (p : Int × Int) : ℚ :=
  if |y1 - y0| > |x1 - x0| then |(p.1 - x0 : ℚ) - (p.2 - y0) * ((x1 - x0) / (y1 - y0))|
  else |(p.2 - y0 : ℚ) - (p.1 - x0) * ((y1 - y0) / (x1 - x0))|

/-- One step along the longer axis, and at most one along the other. -/
def UnitStep (x0 y0 x1 y1 : Int) (s : (Int × Int) × (Int × Int)) : Prop :=
  if |y1 - y0| > |x1 - x0| then |s.2.2 - s.1.2| = 1 ∧ |s.2.1 - s.1.1| ≤ 1
  else |s.2.1 - s.1.1| = 1 ∧ |s.2.2 - s.1.2| ≤ 1

/-- What the points have to be. -/
structure LinePoints (x0 y0 x1 y1 : Int) (points : List (Int × Int)) : Prop where
  length : (points.length : Int) = max |x1 - x0| |y1 - y0| + 1
  ends : (points.head? = some (x0, y0) ∧ points.getLast? = some (x1, y1)) ∨
    (points.head? = some (x1, y1) ∧ points.getLast? = some (x0, y0))
  moves : ∀ s ∈ steps points, UnitStep x0 y0 x1 y1 s
  near : ∀ p ∈ points, deviation x0 y0 x1 y1 p ≤ 1 / 2

theorem deviation_swap {x0 y0 x1 y1 : Int} (p : Int × Int) : deviation x1 y1 x0 y0 p = deviation x0 y0 x1 y1 p := by
  have hslope : ∀ a b c d : ℚ, (a - b) / (c - d) = (b - a) / (d - c) := by
    intro a b c d
    rw [← neg_sub b, ← neg_sub d, neg_div_neg_eq]
  have hmove : ∀ u v a b c d : ℚ, (c - d = 0 → a - b = 0) →
      u - a - (v - c) * ((a - b) / (c - d)) = u - b - (v - d) * ((a - b) / (c - d)) := by
    intro u v a b c d h
    by_cases hcd : c - d = 0
    · rw [hcd, div_zero, mul_zero, mul_zero]
      linarith [h hcd]
    · field_simp
      ring
  rw [deviation, deviation, abs_sub_comm y0, abs_sub_comm x0]
  by_cases hsteep : |y1 - y0| > |x1 - x0|
  · rw [if_pos hsteep, if_pos hsteep, hslope (x0 : ℚ), hmove]
    intro hzero
    have hy : y1 - y0 = 0 := by exact_mod_cast hzero
    rw [hy, abs_zero] at hsteep
    exact absurd hsteep (not_lt.2 (abs_nonneg _))
  · rw [if_neg hsteep, if_neg hsteep, hslope (y0 : ℚ), hmove]
    intro hzero
    have hx : x1 - x0 = 0 := by exact_mod_cast hzero
    rw [hx, abs_zero, not_lt] at hsteep
    exact_mod_cast abs_nonpos_iff.1 hsteep

theorem LinePoints.swap {x0 y0 x1 y1 : Int} {points : List (Int × Int)} (h : LinePoints x1 y1 x0 y0 points) :
    LinePoints x0 y0 x1 y1 points where
  length := by
    rw [h.length, abs_sub_comm x0, abs_sub_comm y0]
  ends := h.ends.symm
  moves s hs := by
    have := h.moves s hs
    rwa [UnitStep, abs_sub_comm y0, abs_sub_comm x0] at this
  near p hp := by
    rw [← deviation_swap]
    exact h.near p hp

/-- The points of a steep line are those of the line with the axes swapped. -/
theorem LinePoints.transpose {x0 y0 x1 y1 : Int} {points : List (Int × Int)} (h : LinePoints y0 x0 y1 x1 points)
    (hsteep : |y1 - y0| > |x1 - x0|) : LinePoints x0 y0 x1 y1 (points.map Prod.swap) where
  length := by
    rw [List.length_map, h.length, max_comm]
  ends := by
    simp only [List.head?_map, List.getLast?_map]
    rcases h.ends with ⟨h1, h2⟩ | ⟨h1, h2⟩
    · left
      simp [h1, h2]
    · right
      simp [h1, h2]
  moves s hs := by
    rw [steps_map] at hs
    obtain ⟨s, hmem, rfl⟩ := List.mem_map.1 hs
    have := h.moves s hmem
    rw [UnitStep, if_neg (by omega)] at this
    rw [UnitStep, if_pos hsteep]
    exact this
  near p hp := by
    obtain ⟨p, hmem, rfl⟩ := List.mem_map.1 hp
    have := h.near p hmem
    rw [deviation, if_neg (by omega)] at this
    rw [deviation, if_pos hsteep]
    exact this

/-! ## The loop -/

section

variable {steep : Bool} {x1 deltax deltay ystep : Int} {fuel : Nat} {x y error : Int} {points : List (Int × Int)}

theorem scanLoop_succ (h : x ≤ x1) : scanLoop steep x1 deltax deltay ystep (fuel + 1) x y error =
    (scanLoop steep x1 deltax deltay ystep fuel (int (x + 1))
      (if int (error - deltay) < 0 then int (y + ystep) else y)
      (if int (error - deltay) < 0 then int (int (error - deltay) + deltax) else int (error - deltay))).map
        ((if steep then (y, x) else (x, y)) :: ·) := by
  rw [scanLoop, if_pos h]
  by_cases hup : int (error - deltay) < 0
  · simp only [hup, if_true]
  · simp only [hup, if_false]

theorem scanLoop_end (h : x1 < x) : scanLoop steep x1 deltax deltay ystep (fuel + 1) x y error = some [] := by
  rw [scanLoop, if_neg (not_le.2 h)]

theorem scanLoop_steep : scanLoop true x1 deltax deltay ystep fuel x y error =
    (scanLoop false x1 deltax deltay ystep fuel x y error).map (List.map Prod.swap) := by
  induction fuel generalizing x y error with
  | zero => rfl
  | succ fuel ih =>
    by_cases h : x ≤ x1
    · rw [scanLoop_succ h, scanLoop_succ h, ih, Option.map_map, Option.map_map]
      rfl
    · rw [scanLoop_end (not_le.1 h), scanLoop_end (not_le.1 h)]
      rfl

/-- The counter never gets past the largest `int`. -/
theorem scanLoop_never (hx : x < 2 ^ 31) : scanLoop steep (2 ^ 31 - 1) deltax deltay ystep fuel x y error = none := by
  induction fuel generalizing x y error with
  | zero => rfl
  | succ fuel ih =>
    rw [scanLoop_succ (by omega), ih (int_lt _)]
    rfl

theorem scanLoop_length (hlast : x1 < 2 ^ 31 - 1) (hfirst : -2 ^ 31 ≤ x) (hx : x ≤ x1 + 1)
    (h : scanLoop steep x1 deltax deltay ystep fuel x y error = some points) :
    (points.length : Int) = x1 + 1 - x := by
  induction fuel generalizing x y error points with
  | zero => cases h
  | succ fuel ih =>
    by_cases hle : x ≤ x1
    · rw [scanLoop_succ hle, int_eq (x := x + 1) (by omega) (by omega)] at h
      obtain ⟨rest, hrest, rfl⟩ := Option.map_eq_some_iff.1 h
      have hlength := ih (by omega) (by omega) hrest
      rw [List.length_cons]
      push_cast
      omega
    · rw [scanLoop_end (not_le.1 hle)] at h
      cases h
      simp only [List.length_nil, Nat.cast_zero]
      omega

/-- More turns change nothing. -/
theorem scanLoop_mono {more : Nat} (hmore : fuel ≤ more)
    (h : scanLoop steep x1 deltax deltay ystep fuel x y error = some points) :
    scanLoop steep x1 deltax deltay ystep more x y error = some points := by
  induction fuel generalizing x y error points more with
  | zero => cases h
  | succ fuel ih =>
    obtain ⟨more, rfl⟩ : ∃ n, more = n + 1 := ⟨more - 1, by omega⟩
    by_cases hle : x ≤ x1
    · rw [scanLoop_succ hle] at h ⊢
      obtain ⟨rest, hrest, rfl⟩ := Option.map_eq_some_iff.1 h
      rw [ih (by omega) hrest]
      rfl
    · rw [scanLoop_end (not_le.1 hle)] at h ⊢
      exact h

end

/-- The point of the digital line in column `k`. -/
def linePoint (x0 y0 ystep : Int) (D d k : Nat) : Int × Int := (x0 + k, y0 + ystep * height D d k)

/-- The loop draws the digital line. -/
theorem scanLoop_points (x0 y0 : Int) {ystep : Int} {D d : Nat} (hD : 0 < D) (hd : d ≤ D)
    (hstep : ystep = 1 ∨ ystep = -1)
    (hx0 : -2 ^ 31 ≤ x0) (hx1 : x0 + D < 2 ^ 31 - 1) (hlength : (D : Int) < 2 ^ 31)
    (hy0 : -2 ^ 31 ≤ y0 ∧ y0 < 2 ^ 31) (hy1 : -2 ^ 31 ≤ y0 + ystep * d ∧ y0 + ystep * d < 2 ^ 31) (n : Nat) :
    ∀ k, k + n = D → scanLoop false (x0 + D) D d ystep (n + 2) (x0 + k) (y0 + ystep * height D d k) (error D d k) =
      some ((List.range' k (n + 1)).map (linePoint x0 y0 ystep D d)) := by
  induction n with
  | zero =>
    intro k hk
    rw [scanLoop_succ (by omega), int_eq (x := x0 + k + 1) (by omega) (by omega), scanLoop_end (by omega)]
    rfl
  | succ n ih =>
    intro k hk
    obtain ⟨h0, hlt⟩ := error_bounds (d := d) (k := k) hD
    have hint : int (error D d k - d) = error D d k - d := int_eq (by omega) (by omega)
    have hnext := ih (k + 1) (by omega)
    have hheight : (height D d (k + 1) : Int) ≤ d := by exact_mod_cast height_le hD (show k + 1 ≤ D by omega)
    have hy : (if error D d k - d < 0 then int (y0 + ystep * height D d k + ystep) else y0 + ystep * height D d k) =
        y0 + ystep * height D d (k + 1) := by
      by_cases hup : error D d k < d
      · have hsucc := height_succ (k := k) hD hd
        rw [if_pos hup] at hsucc
        have hmul : y0 + ystep * height D d k + ystep = y0 + ystep * height D d (k + 1) := by
          rw [hsucc]
          push_cast
          ring
        rw [if_pos (by omega), hmul]
        rcases hstep with rfl | rfl
        · exact int_eq (by omega) (by omega)
        · exact int_eq (by omega) (by omega)
      · rw [if_neg (by omega), height_succ hD hd, if_neg hup]
    have herror : (if error D d k - d < 0 then int (error D d k - d + D) else error D d k - d) =
        error D d (k + 1) := by
      by_cases hup : error D d k < d
      · rw [if_pos (by omega), error_succ hD hd, if_pos hup]
        exact int_eq (by omega) (by omega)
      · rw [if_neg (by omega), error_succ hD hd, if_neg hup]
    rw [scanLoop_succ (by omega), hint, hy, herror, int_eq (x := x0 + k + 1) (by omega) (by omega), List.range'_succ,
      List.map_cons]
    rw [Nat.cast_succ, ← add_assoc] at hnext
    rw [hnext]
    rfl

theorem mathAbs_eq {x : Int} (h1 : -2 ^ 31 < x) (h2 : x < 2 ^ 31) : mathAbs x = |x| := by
  rw [mathAbs]
  split
  · rename_i hneg
    rw [abs_of_neg hneg, int_eq (by omega) (by omega)]
  · rename_i hpos
    rw [abs_of_nonneg (not_lt.1 hpos)]

/-- The lowest `int` stays as it is. -/
theorem mathAbs_lowest : mathAbs (-2 ^ 31) = -2 ^ 31 := by
  rw [mathAbs, if_pos (by decide), neg_neg, int_two_pow]

/-! ## The points of a line that is not steep -/

theorem linePoints_one (x0 y0 : Int) : LinePoints x0 y0 x0 y0 [(x0, y0)] where
  length := by simp
  ends := .inl ⟨rfl, rfl⟩
  moves s hs := by cases hs
  near p hp := by
    obtain rfl := List.mem_singleton.1 hp
    simp [deviation]

/-- The digital line is right: from the first end to the last in single steps, half a pixel off at
most. -/
theorem linePoints_digital {x0 y0 ystep : Int} {D d : Nat} (hD : 0 < D) (hd : d ≤ D)
    (hstep : ystep = 1 ∨ ystep = -1) :
    LinePoints x0 y0 (x0 + D) (y0 + ystep * d) ((List.range (D + 1)).map (linePoint x0 y0 ystep D d)) := by
  have hx : |x0 + D - x0| = (D : Int) := by
    rw [add_sub_cancel_left, Nat.abs_cast]
  have hy : |y0 + ystep * d - y0| = (d : Int) := by
    rw [add_sub_cancel_left, abs_mul, Nat.abs_cast]
    rcases hstep with rfl | rfl <;> simp
  have hflat : ¬|y0 + ystep * d - y0| > |x0 + D - x0| := by
    rw [hx, hy]
    omega
  refine ⟨?_, .inl ⟨?_, ?_⟩, fun s hs => ?_, fun p hp => ?_⟩
  · rw [List.length_map, List.length_range, hx, hy]
    push_cast
    omega
  · rw [List.range_succ_eq_map, List.map_cons, List.head?_cons, linePoint, height_zero]
    simp
  · rw [List.getLast?_map, List.getLast?_range, if_neg (Nat.succ_ne_zero D), Nat.add_sub_cancel, Option.map_some,
      linePoint, height_last hD]
  · have hsteps := steps_line (linePoint x0 y0 ystep D d) D (l := [linePoint x0 y0 ystep D d D]) rfl
    rw [steps_singleton, List.append_nil] at hsteps
    rw [List.range_succ, List.map_append, List.map_singleton, hsteps] at hs
    obtain ⟨i, -, rfl⟩ := List.mem_map.1 hs
    rw [UnitStep, if_neg hflat]
    refine ⟨?_, ?_⟩
    · simp [linePoint]
    · have hnext := height_succ (k := i) hD hd
      have hmove : (height D d (i + 1) : Int) = height D d i ∨ (height D d (i + 1) : Int) = height D d i + 1 := by
        by_cases hup : error D d i < d
        · rw [hnext, if_pos hup]
          exact .inr (Nat.cast_succ _)
        · rw [hnext, if_neg hup]
          exact .inl rfl
      change |y0 + ystep * height D d (i + 1) - (y0 + ystep * height D d i)| ≤ 1
      rw [abs_le]
      rcases hstep with rfl | rfl <;> omega
  · obtain ⟨k, -, rfl⟩ := List.mem_map.1 hp
    have hnear : 2 * |(D : ℚ) * height D d k - k * d| ≤ D := by exact_mod_cast height_near (d := d) (k := k) hD
    have hpos : (0 : ℚ) < D := by exact_mod_cast hD
    have hone : |(ystep : ℚ)| = 1 := by rcases hstep with rfl | rfl <;> simp
    have hdeviation : (((linePoint x0 y0 ystep D d k).2 : ℚ) - y0 - ((linePoint x0 y0 ystep D d k).1 - x0) *
        (((y0 + ystep * d : Int) - y0) / ((x0 + D : Int) - x0))) =
        ystep * ((D * height D d k - k * d) / D) := by
      have hne : (D : ℚ) ≠ 0 := hpos.ne'
      rw [linePoint]
      push_cast
      simp only [add_sub_cancel_left]
      field_simp
    rw [deviation, if_neg hflat, hdeviation, abs_mul, hone, one_mul, abs_div, abs_of_pos hpos,
      div_le_div_iff₀ hpos two_pos]
    linarith

/-- Between ends in order the scan returns the right points. -/
theorem scan_linePoints {x0 y0 x1 y1 : Int} (hx : x0 ≤ x1) (hflat : |y1 - y0| ≤ |x1 - x0|) (hx0 : -2 ^ 31 ≤ x0)
    (hx1 : x1 < 2 ^ 31 - 1) (hlength : x1 - x0 < 2 ^ 31) (hy0 : -2 ^ 31 ≤ y0 ∧ y0 < 2 ^ 31)
    (hy1 : -2 ^ 31 ≤ y1 ∧ y1 < 2 ^ 31) :
    ∃ fuel points, scan fuel false x0 y0 x1 y1 = some points ∧ LinePoints x0 y0 x1 y1 points := by
  obtain ⟨D, hD⟩ : ∃ D : Nat, x1 - x0 = D := ⟨(x1 - x0).toNat, by omega⟩
  obtain ⟨d, hd⟩ : ∃ d : Nat, |y1 - y0| = d := ⟨(y1 - y0).natAbs, Int.abs_eq_natAbs _⟩
  obtain rfl : x1 = x0 + D := by omega
  rw [hd, hD, Nat.abs_cast, Nat.cast_le] at hflat
  have hdeltay : mathAbs (int (y1 - y0)) = d := by
    have hbound : -(d : Int) ≤ y1 - y0 ∧ y1 - y0 ≤ d := abs_le.1 hd.le
    rw [int_eq (by omega) (by omega), mathAbs_eq (by omega) (by omega), hd]
  have hhalf : ((D : Int)).tdiv 2 = (D / 2 : Nat) := Int.ofNat_tdiv D 2 ▸ rfl
  rcases Nat.eq_zero_or_pos D with rfl | hpos
  · obtain rfl : d = 0 := by omega
    have hsame : y1 = y0 := by
      rw [Nat.cast_zero, abs_eq_zero] at hd
      omega
    subst hsame
    refine ⟨2, [(x0, y1)], ?_, ?_⟩
    · rw [scan, scanLoop_succ (by omega), int_eq (x := x0 + 1) (by omega) (by omega), scanLoop_end (by omega)]
      rfl
    · rw [Nat.cast_zero, add_zero]
      exact linePoints_one x0 y1
  · obtain ⟨ystep, hystep, hstep, hend⟩ : ∃ ystep : Int, (if y0 < y1 then 1 else -1) = ystep ∧
        (ystep = 1 ∨ ystep = -1) ∧ y1 = y0 + ystep * d := by
      by_cases hup : y0 < y1
      · exact ⟨1, if_pos hup, .inl rfl, by rw [← hd, abs_of_pos (by omega)]; ring⟩
      · exact ⟨-1, if_neg hup, .inr rfl, by rw [← hd, abs_of_nonpos (by omega)]; ring⟩
    have hloop := scanLoop_points x0 y0 hpos hflat hstep hx0 hx1 (by omega) hy0 (by rwa [← hend]) D 0
      (Nat.zero_add D)
    refine ⟨D + 2, (List.range (D + 1)).map (linePoint x0 y0 ystep D d), ?_, ?_⟩
    · rw [scan]
      simp only [hystep, hdeltay, hD, int_eq (x := (D : Int)) (by omega) (by omega), hhalf]
      rw [Nat.cast_zero, add_zero, height_zero, Nat.cast_zero, mul_zero, add_zero, error_zero,
        ← List.range_eq_range'] at hloop
      exact hloop
    · rw [hend]
      exact linePoints_digital hpos hflat hstep

/-! ## All lines -/

section

variable {fuel : Nat} {steep : Bool} {x0 y0 x1 y1 : Int} {points : List (Int × Int)}

theorem scan_steep : scan fuel true x0 y0 x1 y1 = (scan fuel false x0 y0 x1 y1).map (List.map Prod.swap) := by
  rw [scan, scan, scanLoop_steep]

/-- What a scan returns has a point for each column, and the last column is not the largest `int`. -/
theorem scan_length (hx : x0 ≤ x1) (hx0 : -2 ^ 31 ≤ x0) (hx1 : x1 < 2 ^ 31)
    (h : scan fuel steep x0 y0 x1 y1 = some points) : x1 < 2 ^ 31 - 1 ∧ (points.length : Int) = x1 - x0 + 1 := by
  rw [scan] at h
  by_cases hlast : x1 = 2 ^ 31 - 1
  · subst hlast
    rw [scanLoop_never (by omega)] at h
    cases h
  · have hlength := scanLoop_length (by omega) hx0 (by omega) h
    exact ⟨by omega, by omega⟩

/-- The method as a scan along the axis it takes for the longer one. -/
theorem bresenham_eq (hcapacity : ¬mathAbs (int (x1 - x0 + 1)) < 0) : bresenham fuel x0 y0 x1 y1 =
    if mathAbs (int (y1 - y0)) > mathAbs (int (x1 - x0)) then
      if y0 > y1 then scan fuel true y1 x1 y0 x0 else scan fuel true y0 x0 y1 x1
    else if x0 > x1 then scan fuel false x1 y1 x0 y0 else scan fuel false x0 y0 x1 y1 := by
  rw [bresenham, if_neg hcapacity]
  by_cases hsteep : mathAbs (int (y1 - y0)) > mathAbs (int (x1 - x0))
  · by_cases horder : y0 > y1
    · simp [hsteep, horder]
    · simp [hsteep, horder]
  · by_cases horder : x0 > x1
    · simp [hsteep, horder]
    · simp [hsteep, horder]

/-- What the method returns has a point for each column or row of the axis it takes for the
longer one. -/
theorem bresenham_length (hx0 : -2 ^ 31 ≤ x0 ∧ x0 < 2 ^ 31) (hx1 : -2 ^ 31 ≤ x1 ∧ x1 < 2 ^ 31)
    (hy0 : -2 ^ 31 ≤ y0 ∧ y0 < 2 ^ 31) (hy1 : -2 ^ 31 ≤ y1 ∧ y1 < 2 ^ 31)
    (h : bresenham fuel x0 y0 x1 y1 = some points) :
    if mathAbs (int (y1 - y0)) > mathAbs (int (x1 - x0)) then
      max y0 y1 < 2 ^ 31 - 1 ∧ (points.length : Int) = |y1 - y0| + 1
    else max x0 x1 < 2 ^ 31 - 1 ∧ (points.length : Int) = |x1 - x0| + 1 := by
  have hcapacity : ¬mathAbs (int (x1 - x0 + 1)) < 0 := by
    intro hneg
    rw [bresenham, if_pos hneg] at h
    cases h
  rw [bresenham_eq hcapacity] at h
  by_cases hsteep : mathAbs (int (y1 - y0)) > mathAbs (int (x1 - x0))
  · rw [if_pos hsteep] at h ⊢
    by_cases horder : y0 > y1
    · rw [if_pos horder] at h
      have hlength := scan_length horder.le hy1.1 hy0.2 h
      rw [max_eq_left horder.le, abs_of_neg (by omega)]
      omega
    · rw [if_neg horder] at h
      have hlength := scan_length (not_lt.1 horder) hy0.1 hy1.2 h
      rw [max_eq_right (not_lt.1 horder), abs_of_nonneg (by omega)]
      omega
  · rw [if_neg hsteep] at h ⊢
    by_cases horder : x0 > x1
    · rw [if_pos horder] at h
      have hlength := scan_length horder.le hx1.1 hx0.2 h
      rw [max_eq_left horder.le, abs_of_neg (by omega)]
      omega
    · rw [if_neg horder] at h
      have hlength := scan_length (not_lt.1 horder) hx0.1 hx1.2 h
      rw [max_eq_right (not_lt.1 horder), abs_of_nonneg (by omega)]
      omega

theorem bresenham_mono {more : Nat} (hmore : fuel ≤ more) (h : bresenham fuel x0 y0 x1 y1 = some points) :
    bresenham more x0 y0 x1 y1 = some points := by
  have hcapacity : ¬mathAbs (int (x1 - x0 + 1)) < 0 := by
    intro hneg
    rw [bresenham, if_pos hneg] at h
    cases h
  rw [bresenham_eq hcapacity] at h ⊢
  split at h <;> split at h <;> simp_all only [if_true, if_false] <;> exact scanLoop_mono hmore h

/-- Where both lengths and the higher end fit the method returns the right points. -/
theorem bresenham_linePoints (hx0 : -2 ^ 31 ≤ x0 ∧ x0 < 2 ^ 31) (hx1 : -2 ^ 31 ≤ x1 ∧ x1 < 2 ^ 31)
    (hy0 : -2 ^ 31 ≤ y0 ∧ y0 < 2 ^ 31) (hy1 : -2 ^ 31 ≤ y1 ∧ y1 < 2 ^ 31)
    (hdx : -2 ^ 31 < x1 - x0 ∧ x1 - x0 < 2 ^ 31 - 1) (hdy : -2 ^ 31 < y1 - y0 ∧ y1 - y0 < 2 ^ 31)
    (hend : (if |y1 - y0| > |x1 - x0| then max y0 y1 else max x0 x1) < 2 ^ 31 - 1) :
    ∃ fuel points, bresenham fuel x0 y0 x1 y1 = some points ∧ LinePoints x0 y0 x1 y1 points := by
  have hx : mathAbs (int (x1 - x0)) = |x1 - x0| := by
    rw [int_eq (by omega) (by omega), mathAbs_eq hdx.1 (by omega)]
  have hy : mathAbs (int (y1 - y0)) = |y1 - y0| := by
    rw [int_eq (by omega) (by omega), mathAbs_eq hdy.1 hdy.2]
  have hcapacity : ¬mathAbs (int (x1 - x0 + 1)) < 0 := by
    rw [int_eq (by omega) (by omega), mathAbs_eq (by omega) (by omega)]
    exact not_lt.2 (abs_nonneg _)
  simp only [bresenham_eq hcapacity, hx, hy]
  by_cases hsteep : |y1 - y0| > |x1 - x0|
  · have hflat : |x1 - x0| ≤ |y1 - y0| := hsteep.le
    rw [if_pos hsteep] at hend
    simp only [hsteep, if_true]
    by_cases horder : y0 > y1
    · simp only [horder, if_true]
      rw [max_eq_left horder.le] at hend
      rw [abs_sub_comm x1, abs_sub_comm y1] at hflat
      obtain ⟨fuel, points, hscan, hpoints⟩ := scan_linePoints horder.le hflat hy1.1 hend (by omega) hx1 hx0
      refine ⟨fuel, points.map Prod.swap, ?_, hpoints.swap.transpose hsteep⟩
      rw [scan_steep, hscan]
      rfl
    · simp only [horder, if_false]
      rw [max_eq_right (not_lt.1 horder)] at hend
      obtain ⟨fuel, points, hscan, hpoints⟩ := scan_linePoints (not_lt.1 horder) hflat hy0.1 hend (by omega) hx0 hx1
      refine ⟨fuel, points.map Prod.swap, ?_, hpoints.transpose hsteep⟩
      rw [scan_steep, hscan]
      rfl
  · have hflat : |y1 - y0| ≤ |x1 - x0| := not_lt.1 hsteep
    rw [if_neg hsteep] at hend
    simp only [hsteep, if_false]
    by_cases horder : x0 > x1
    · simp only [horder, if_true]
      rw [max_eq_left horder.le] at hend
      rw [abs_sub_comm x1, abs_sub_comm y1] at hflat
      obtain ⟨fuel, points, hscan, hpoints⟩ := scan_linePoints horder.le hflat hx1.1 hend (by omega) hy1 hy0
      exact ⟨fuel, points, hscan, hpoints.swap⟩
    · simp only [horder, if_false]
      rw [max_eq_right (not_lt.1 horder)] at hend
      exact scan_linePoints (not_lt.1 horder) hflat hx0.1 hend (by omega) hy0 hy1

/-- A length of `2 ^ 31 - 1` leaves no capacity. -/
theorem bresenham_capacity (h : x1 - x0 = 2 ^ 31 - 1) : bresenham fuel x0 y0 x1 y1 = none := by
  rw [bresenham, h, show (2 ^ 31 - 1 + 1 : Int) = 2 ^ 31 by decide, int_two_pow, mathAbs_lowest, if_pos (by decide)]

/-- Where both lengths are the lowest `int` the second point does not follow. -/
theorem bresenham_lowest (hx0 : x0 < 2 ^ 31) (hx1 : -2 ^ 31 ≤ x1) (hdx : x1 - x0 = -2 ^ 31) (hdy : y1 - y0 = -2 ^ 31)
    (h : bresenham fuel x0 y0 x1 y1 = some points) : (x1 + 1, y1) ∈ points := by
  have hcapacity : ¬mathAbs (int (x1 - x0 + 1)) < 0 := by
    rw [hdx, int_eq (by decide) (by decide), mathAbs_eq (by decide) (by decide)]
    exact not_lt.2 (abs_nonneg _)
  have hlowest : int (-2 ^ 31) = -2 ^ 31 := int_eq (by decide) (by decide)
  have hback : x0 - x1 = 2 ^ 31 ∧ y0 - y1 = 2 ^ 31 := by omega
  rw [bresenham_eq hcapacity, hdx, hdy, if_neg (lt_irrefl _), if_pos (by omega), scan, hback.1, hback.2, int_two_pow,
    mathAbs_lowest] at h
  have hup : ¬int ((-2 ^ 31 : Int).tdiv 2 - -2 ^ 31) < 0 := by
    rw [int_eq (by decide) (by decide)]
    decide
  match fuel with
  | 0 => cases h
  | 1 =>
    rw [scanLoop_succ (by omega), scanLoop] at h
    cases h
  | fuel + 2 =>
    rw [scanLoop_succ (by omega)] at h
    obtain ⟨rest, hrest, rfl⟩ := Option.map_eq_some_iff.1 h
    rw [if_neg hup, int_eq (x := x1 + 1) (by omega) (by omega), scanLoop_succ (by omega)] at hrest
    obtain ⟨rest', -, rfl⟩ := Option.map_eq_some_iff.1 hrest
    exact List.mem_cons_of_mem _ List.mem_cons_self

/-- The points are right exactly where the lengths fit, the one that the capacity is computed from
with one to spare, and the higher end along the longer axis is not the largest `int`. -/
theorem bresenham_iff (hx0 : -2 ^ 31 ≤ x0 ∧ x0 < 2 ^ 31) (hx1 : -2 ^ 31 ≤ x1 ∧ x1 < 2 ^ 31)
    (hy0 : -2 ^ 31 ≤ y0 ∧ y0 < 2 ^ 31) (hy1 : -2 ^ 31 ≤ y1 ∧ y1 < 2 ^ 31)
    (hdx : -2 ^ 31 ≤ x1 - x0 ∧ x1 - x0 < 2 ^ 31) (hdy : -2 ^ 31 ≤ y1 - y0 ∧ y1 - y0 < 2 ^ 31) :
    (∃ fuel points, bresenham fuel x0 y0 x1 y1 = some points ∧ LinePoints x0 y0 x1 y1 points) ↔
      x1 - x0 ≠ 2 ^ 31 - 1 ∧ x1 - x0 ≠ -2 ^ 31 ∧ y1 - y0 ≠ -2 ^ 31 ∧
        (if |y1 - y0| > |x1 - x0| then max y0 y1 else max x0 x1) < 2 ^ 31 - 1 := by
  constructor
  · rintro ⟨fuel, points, h, hpoints⟩
    have hcount := bresenham_length hx0 hx1 hy0 hy1 h
    have hlength := hpoints.length
    have hcapacity : x1 - x0 ≠ 2 ^ 31 - 1 := by
      intro hwide
      rw [bresenham_capacity hwide] at h
      cases h
    have hlowest : int (-2 ^ 31) = -2 ^ 31 := int_eq (by decide) (by decide)
    have hx : x1 - x0 ≠ -2 ^ 31 → mathAbs (int (x1 - x0)) = |x1 - x0| := fun hne => by
      rw [int_eq hdx.1 hdx.2, mathAbs_eq (by omega) hdx.2]
    have hy : y1 - y0 ≠ -2 ^ 31 → mathAbs (int (y1 - y0)) = |y1 - y0| := fun hne => by
      rw [int_eq hdy.1 hdy.2, mathAbs_eq (by omega) hdy.2]
    have hxlow : x1 - x0 ≠ -2 ^ 31 := by
      intro hlow
      have habs : |x1 - x0| = 2 ^ 31 := by rw [hlow, abs_neg]; rfl
      by_cases hboth : y1 - y0 = -2 ^ 31
      · have hfar := hpoints.near _ (bresenham_lowest hx0.2 hx1.1 hlow hboth h)
        have hqx : (x1 : ℚ) - x0 = -2 ^ 31 := by exact_mod_cast hlow
        have hqy : (y1 : ℚ) - y0 = -2 ^ 31 := by exact_mod_cast hboth
        have hqp : ((x1 + 1 : Int) : ℚ) - x0 = -2 ^ 31 + 1 := by
          push_cast
          linarith
        rw [deviation, if_neg (by rw [hlow, hboth]; exact lt_irrefl _), hqx, hqy, hqp] at hfar
        norm_num at hfar
      · rw [hy hboth, hlow, hlowest, mathAbs_lowest, if_pos (lt_of_lt_of_le (by decide) (abs_nonneg _))] at hcount
        have hsmall : |y1 - y0| < 2 ^ 31 := abs_lt.2 ⟨by omega, hdy.2⟩
        have := le_max_left |x1 - x0| |y1 - y0|
        omega
    have hylow : y1 - y0 ≠ -2 ^ 31 := by
      intro hlow
      have habs : |y1 - y0| = 2 ^ 31 := by rw [hlow, abs_neg]; rfl
      have hpos := abs_nonneg (x1 - x0)
      have hsmall : |x1 - x0| < 2 ^ 31 := abs_lt.2 ⟨by omega, hdx.2⟩
      rw [hx hxlow, hlow, hlowest, mathAbs_lowest, if_neg (by omega)] at hcount
      have := le_max_right |x1 - x0| |y1 - y0|
      omega
    refine ⟨hcapacity, hxlow, hylow, ?_⟩
    rw [hx hxlow, hy hylow] at hcount
    by_cases hsteep : |y1 - y0| > |x1 - x0|
    · rw [if_pos hsteep] at hcount ⊢
      exact hcount.1
    · rw [if_neg hsteep] at hcount ⊢
      exact hcount.1
  · rintro ⟨hcapacity, hxlow, hylow, hend⟩
    exact bresenham_linePoints hx0 hx1 hy0 hy1 (by omega) (by omega) hend

end

/-- A line of six columns and three rows. -/
theorem bresenham_five_two : (∃ fuel points, bresenham fuel 0 0 5 2 = some points ∧ LinePoints 0 0 5 2 points) ↔
    (5 : Int) - 0 ≠ 2 ^ 31 - 1 ∧ (5 : Int) - 0 ≠ -2 ^ 31 ∧ (2 : Int) - 0 ≠ -2 ^ 31 ∧
      (if |(2 : Int) - 0| > |(5 : Int) - 0| then max (0 : Int) 2 else max (0 : Int) 5) < 2 ^ 31 - 1 :=
  bresenham_iff (by decide) (by decide) (by decide) (by decide) (by decide) (by decide)

/-- The counter does not get past the largest `int`, so the line to it from its neighbour is never
returned. -/
theorem bresenham_endless : ¬∃ fuel points, bresenham fuel (2 ^ 31 - 2) 0 (2 ^ 31 - 1) 0 = some points ∧
    LinePoints (2 ^ 31 - 2) 0 (2 ^ 31 - 1) 0 points := by
  rintro ⟨fuel, points, h, -⟩
  have hcount := bresenham_length (by decide) (by decide) (by decide) (by decide) h
  rw [if_neg (by decide +kernel)] at hcount
  exact absurd hcount.1 (by decide)

end WorldWind.WWMath
