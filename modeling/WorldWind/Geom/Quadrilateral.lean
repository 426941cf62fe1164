import WorldWind.Geom.Barycentric
/-!
# `BarycentricQuadrilateral.invertBilinear`

The coordinates of a point in a bilinear quadrilateral, from a quadratic
equation of which one of two formulas takes a root. In a strictly convex
quadrilateral the equation falls at the searched coordinate, and both formulas
give that root (`invertBilinear_bilinear`).
-/

namespace WorldWind.Geom.Exact

open scoped Lib.Numerals

variable {K : Type*} [Field K] [LinearOrder K]

def Vec4.dotSelf3 (v : Vec4 K) : K := v.dot3 v

def Vec4.mix3 (amount : K) (value1 value2 : Vec4 K) : Vec4 K :=
  if amount < 0 then value1
  else if amount > 1 then value2
  else
    let t1 := 1 - amount
    ⟨value1.x * t1 + value2.x * amount, value1.y * t1 + value2.y * amount, value1.z * t1 + value2.z * amount⟩

/-- No result stands for a division by zero, and no value of it for `null`. -/
def invertBilinear (sqrt : K → K) (U X Y Z W : Vec4 K) : Option (Option (K × K)) :=
  let s1 := W.subtract3 X
  let s2 := Z.subtract3 Y
  let UminX := U.subtract3 X
  let UminY := U.subtract3 Y
  let normal := (Z.subtract3 X).cross3 (W.subtract3 Y)
  let A := (s1.cross3 s2).dot3 normal
  let B := (s2.cross3 UminX).dot3 normal - (s1.cross3 UminY).dot3 normal
  let C := (UminX.cross3 UminY).dot3 normal
  let descriminant := B * B - 4 * A * C
  if descriminant < 0 then some none
  else
    let descriminant := sqrt descriminant
    (if B > 0 then quotient (-B - descriminant) (2 * A) else quotient (2 * C) (-B + descriminant)).bind fun beta =>
    let Sbeta1 := Vec4.mix3 beta X W
    let Sbeta2 := Vec4.mix3 beta Y Z
    (quotient ((U.subtract3 Sbeta1).dot3 (Sbeta2.subtract3 Sbeta1)) (Sbeta2.subtract3 Sbeta1).dotSelf3).map
      fun alpha => some (alpha, beta)

/-! ## Quadrilaterals -/

/-- The bilinear point with the coordinates `alpha` and `beta`. -/
def bilinear (X Y Z W : Vec4 K) (alpha beta : K) : Vec4 K :=
  (((X.multiply3 (1 - alpha)).add3 (Y.multiply3 alpha)).multiply3 (1 - beta)).add3
    (((W.multiply3 (1 - alpha)).add3 (Z.multiply3 alpha)).multiply3 beta)

/-- How far the turn from one direction to another goes along a normal. -/
def turn (n u v : Vec4 K) : K := (u.cross3 v).dot3 n

/-- The corners lie in a plane, and the boundary turns the same way at each, seen from one side of it. -/
structure StrictlyConvex (X Y Z W N : Vec4 K) : Prop where
  planeY : (Y.subtract3 X).dot3 N = 0
  planeZ : (Z.subtract3 X).dot3 N = 0
  planeW : (W.subtract3 X).dot3 N = 0
  turnX : 0 < turn N (X.subtract3 W) (Y.subtract3 X)
  turnY : 0 < turn N (Y.subtract3 X) (Z.subtract3 Y)
  turnZ : 0 < turn N (Z.subtract3 Y) (W.subtract3 Z)
  turnW : 0 < turn N (W.subtract3 Z) (X.subtract3 W)

section

variable [IsStrictOrderedRing K] {X Y Z W N : Vec4 K}

/-! ## The turns along the normal of the diagonals -/

/-- Two directions of a plane turn the same way along any vector on the plane's upper side. -/
theorem turn_pos {n u v : Vec4 K} (hn : 0 < n.dot3 N) (hu : u.dot3 N = 0) (hv : v.dot3 N = 0) (h : 0 < turn N u v) :
    0 < turn n u v := by
  have hN : N ≠ ⟨0, 0, 0⟩ := by
    rintro rfl
    simp [turn, Vec4.dot3] at h
  have hNN := Vec4.dot3_self_pos hN
  -- the cross product is parallel to the plane's normal
  have hparallel : turn n u v * N.dot3 N = turn N u v * n.dot3 N := by
    simp only [turn, Vec4.cross3, Vec4.dot3] at hu hv ⊢
    linear_combination (v.x * (n.y * N.z - n.z * N.y) + v.y * (n.z * N.x - n.x * N.z) +
      v.z * (n.x * N.y - n.y * N.x)) * hu - (u.x * (n.y * N.z - n.z * N.y) + u.y * (n.z * N.x - n.x * N.z) +
      u.z * (n.x * N.y - n.y * N.x)) * hv
  exact (mul_pos_iff_of_pos_right hNN).1 (hparallel ▸ mul_pos h hn)

/-- The four corners turn along the cross product of the diagonals, which the code takes for a normal. -/
structure DiagonalTurns (X Y Z W n : Vec4 K) : Prop where
  atX : 0 < turn n (Y.subtract3 X) (W.subtract3 X)
  atY : 0 < turn n (Y.subtract3 X) (Z.subtract3 Y)
  atZ : 0 < turn n (Z.subtract3 W) (Z.subtract3 Y)
  atW : 0 < turn n (Z.subtract3 W) (W.subtract3 X)

theorem StrictlyConvex.diagonalTurns (h : StrictlyConvex X Y Z W N) :
    DiagonalTurns X Y Z W ((Z.subtract3 X).cross3 (W.subtract3 Y)) := by
  obtain ⟨hy, hz, hw, turnX, turnY, turnZ, turnW⟩ := h
  have hside : 0 < ((Z.subtract3 X).cross3 (W.subtract3 Y)).dot3 N := by
    have heq : ((Z.subtract3 X).cross3 (W.subtract3 Y)).dot3 N =
        turn N (Y.subtract3 X) (Z.subtract3 Y) + turn N (W.subtract3 Z) (X.subtract3 W) := by
      simp only [turn, Vec4.cross3, Vec4.subtract3, Vec4.dot3]
      ring
    rw [heq]
    exact add_pos turnY turnW
  have hYZ : (Z.subtract3 Y).dot3 N = 0 := by
    simp only [Vec4.subtract3, Vec4.dot3] at hy hz ⊢
    linear_combination hz - hy
  have hWZ : (Z.subtract3 W).dot3 N = 0 := by
    simp only [Vec4.subtract3, Vec4.dot3] at hw hz ⊢
    linear_combination hz - hw
  refine ⟨turn_pos hside hy hw ?_, turn_pos hside hy hYZ turnY, turn_pos hside hWZ hYZ ?_, turn_pos hside hWZ hw ?_⟩
  · convert turnX using 1
    simp only [turn, Vec4.cross3, Vec4.subtract3, Vec4.dot3]
    ring
  · convert turnZ using 1
    simp only [turn, Vec4.cross3, Vec4.subtract3, Vec4.dot3]
    ring
  · convert turnW using 1
    simp only [turn, Vec4.cross3, Vec4.subtract3, Vec4.dot3]
    ring

/-! ## The quadratic equation -/

/-- From one side `X W` to the other at the height `beta`. -/
def across (X Y Z W : Vec4 K) (beta : K) : Vec4 K :=
  ((Y.subtract3 X).multiply3 (1 - beta)).add3 ((Z.subtract3 W).multiply3 beta)

/-- How steeply the equation falls at the searched coordinate. -/
def slope (n X Y Z W : Vec4 K) (alpha beta : K) : K :=
  alpha * turn n (across X Y Z W beta) (Z.subtract3 Y) + (1 - alpha) * turn n (across X Y Z W beta) (W.subtract3 X)

omit [LinearOrder K] [IsStrictOrderedRing K] in
theorem turn_across (n v : Vec4 K) (beta : K) :
    turn n (across X Y Z W beta) v =
      (1 - beta) * turn n (Y.subtract3 X) v + beta * turn n (Z.subtract3 W) v := by
  simp only [turn, across, Vec4.cross3, Vec4.multiply3, Vec4.add3, Vec4.dot3]
  ring

/-- A mean of two positive numbers. -/
theorem mean_pos {t a b : K} (h0 : 0 ≤ t) (h1 : t ≤ 1) (ha : 0 < a) (hb : 0 < b) : 0 < (1 - t) * a + t * b := by
  rcases h0.eq_or_lt with rfl | hpos
  · simpa using ha
  · exact add_pos_of_nonneg_of_pos (mul_nonneg (sub_nonneg.2 h1) ha.le) (mul_pos hpos hb)

theorem DiagonalTurns.across_pos {n : Vec4 K} (h : DiagonalTurns X Y Z W n) {beta : K} (h0 : 0 ≤ beta)
    (h1 : beta ≤ 1) :
    0 < turn n (across X Y Z W beta) (Z.subtract3 Y) ∧ 0 < turn n (across X Y Z W beta) (W.subtract3 X) := by
  rw [turn_across, turn_across]
  exact ⟨mean_pos h0 h1 h.atY h.atZ, mean_pos h0 h1 h.atX h.atW⟩

theorem DiagonalTurns.slope_pos {n : Vec4 K} (h : DiagonalTurns X Y Z W n) {alpha beta : K} (ha0 : 0 ≤ alpha)
    (ha1 : alpha ≤ 1) (hb0 : 0 ≤ beta) (hb1 : beta ≤ 1) : 0 < slope n X Y Z W alpha beta := by
  rw [slope, add_comm]
  exact mean_pos ha0 ha1 (h.across_pos hb0 hb1).2 (h.across_pos hb0 hb1).1

omit [LinearOrder K] [IsStrictOrderedRing K] in
/-- The linear coefficient of the equation of a bilinear point. -/
theorem coefficient_B (n : Vec4 K) (alpha beta : K) :
    turn n (Z.subtract3 Y) ((bilinear X Y Z W alpha beta).subtract3 X) -
        turn n (W.subtract3 X) ((bilinear X Y Z W alpha beta).subtract3 Y) =
      -(2 * turn n (W.subtract3 X) (Z.subtract3 Y) * beta) - slope n X Y Z W alpha beta := by
  simp only [slope, turn, across, bilinear, Vec4.cross3, Vec4.multiply3, Vec4.add3, Vec4.subtract3, Vec4.dot3]
  ring

omit [LinearOrder K] [IsStrictOrderedRing K] in
/-- The constant coefficient. -/
theorem coefficient_C (n : Vec4 K) (alpha beta : K) :
    turn n ((bilinear X Y Z W alpha beta).subtract3 X) ((bilinear X Y Z W alpha beta).subtract3 Y) =
      beta * (turn n (W.subtract3 X) (Z.subtract3 Y) * beta + slope n X Y Z W alpha beta) := by
  simp only [slope, turn, across, bilinear, Vec4.cross3, Vec4.multiply3, Vec4.add3, Vec4.subtract3, Vec4.dot3]
  ring

/-- Where the equation falls at `beta`, both formulas give `beta` and neither divides by zero. -/
theorem root_eq {A B C q beta : K} (hq : 0 < q) (hB : B = -(2 * A * beta) - q) (hC : C = beta * (A * beta + q)) :
    (if B > 0 then quotient (-B - q) (2 * A) else quotient (2 * C) (-B + q)) = some beta := by
  by_cases h : B > 0
  · have hA : 2 * A ≠ 0 := by
      intro h0
      rw [hB, h0] at h
      linarith
    rw [if_pos h, ← quotient_mul hA, hB]
    congr 1
    ring
  · have hne : -B + q ≠ 0 := by linarith [not_lt.1 h]
    rw [if_neg h, ← quotient_mul hne, hB, hC]
    congr 1
    ring

/-! ## The coordinates -/

omit [IsStrictOrderedRing K] in
theorem mix3_of_mem {t : K} (h0 : 0 ≤ t) (h1 : t ≤ 1) (v w : Vec4 K) :
    Vec4.mix3 t v w = (v.multiply3 (1 - t)).add3 (w.multiply3 t) := by
  rw [Vec4.mix3, if_neg (not_lt.2 h0), if_neg (not_lt.2 h1)]
  rfl

/-- Once `beta` is found, `alpha` is the place of the point on the line across the quadrilateral. -/
theorem alpha_eq {n : Vec4 K} (hturns : DiagonalTurns X Y Z W n) {alpha beta : K} (h0 : 0 ≤ beta) (h1 : beta ≤ 1) :
    quotient (((bilinear X Y Z W alpha beta).subtract3 (Vec4.mix3 beta X W)).dot3
        ((Vec4.mix3 beta Y Z).subtract3 (Vec4.mix3 beta X W)))
      ((Vec4.mix3 beta Y Z).subtract3 (Vec4.mix3 beta X W)).dotSelf3 = some alpha := by
  have hacross : (Vec4.mix3 beta Y Z).subtract3 (Vec4.mix3 beta X W) = across X Y Z W beta := by
    rw [mix3_of_mem h0 h1, mix3_of_mem h0 h1]
    ext <;> simp only [across, Vec4.multiply3, Vec4.add3, Vec4.subtract3] <;> ring
  have hplace : (bilinear X Y Z W alpha beta).subtract3 (Vec4.mix3 beta X W) =
      (across X Y Z W beta).multiply3 alpha := by
    rw [mix3_of_mem h0 h1]
    ext <;> simp only [across, bilinear, Vec4.multiply3, Vec4.add3, Vec4.subtract3] <;> ring
  have hne : across X Y Z W beta ≠ ⟨0, 0, 0⟩ := by
    intro hzero
    have hpos := (hturns.across_pos h0 h1).1
    rw [hzero] at hpos
    simp [turn, Vec4.cross3, Vec4.dot3] at hpos
  rw [hacross, hplace, ← quotient_mul (a := alpha) (Vec4.dot3_self_pos hne).ne']
  congr 1
  simp only [Vec4.multiply3, Vec4.dot3]
  ring

end

/-- In a strictly convex quadrilateral the inverse finds the coordinates of every bilinear point. -/
theorem invertBilinear_bilinear {X Y Z W N : Vec4 ℝ} (h : StrictlyConvex X Y Z W N) {alpha beta : ℝ} (ha0 : 0 ≤ alpha)
    (ha1 : alpha ≤ 1) (hb0 : 0 ≤ beta) (hb1 : beta ≤ 1) :
    invertBilinear Real.sqrt (bilinear X Y Z W alpha beta) X Y Z W = some (some (alpha, beta)) := by
  have hturns := h.diagonalTurns
  have hslope := hturns.slope_pos ha0 ha1 hb0 hb1
  have hB := coefficient_B (X := X) (Y := Y) (Z := Z) (W := W) ((Z.subtract3 X).cross3 (W.subtract3 Y)) alpha beta
  have hC := coefficient_C (X := X) (Y := Y) (Z := Z) (W := W) ((Z.subtract3 X).cross3 (W.subtract3 Y)) alpha beta
  simp only [turn] at hB hC
  unfold invertBilinear
  simp only []
  -- the discriminant is the square of the slope
  generalize slope _ X Y Z W alpha beta = q at hslope hB hC
  generalize ((W.subtract3 X).cross3 (Z.subtract3 Y)).dot3 _ = A at hB hC ⊢
  have hsquare : ∀ {B C : ℝ}, B = -(2 * A * beta) - q → C = beta * (A * beta + q) → B * B - 4 * A * C = q * q := by
    rintro B C rfl rfl
    ring
  rw [hsquare hB hC, if_neg (not_lt.2 (mul_self_nonneg q)), Real.sqrt_mul_self hslope.le, root_eq hslope hB hC,
    Option.bind_some, alpha_eq hturns hb0 hb1, Option.map_some]

/-- The middle of a square. -/
theorem square_middle :
    invertBilinear Real.sqrt (bilinear ⟨0, 0, 0⟩ ⟨1, 0, 0⟩ ⟨1, 1, 0⟩ ⟨0, 1, 0⟩ (1 / 2) (1 / 2)) ⟨0, 0, 0⟩ ⟨1, 0, 0⟩
      ⟨1, 1, 0⟩
      ⟨0, 1, 0⟩ = some (some (1 / 2, 1 / 2)) := by
  have hconvex : StrictlyConvex (K := ℝ) ⟨0, 0, 0⟩ ⟨1, 0, 0⟩ ⟨1, 1, 0⟩ ⟨0, 1, 0⟩ ⟨0, 0, 1⟩ := by
    constructor <;> norm_num [turn, Vec4.cross3, Vec4.dot3, Vec4.subtract3]
  exact invertBilinear_bilinear hconvex (by norm_num) (by norm_num) (by norm_num) (by norm_num)

end WorldWind.Geom.Exact
