import WorldWind.Geom.Quadrilateral
/-!
# `BarycentricQuadrilateral.getBilinearCoords`

The bilinear coordinates from the barycentric ones, by a quadratic equation. Of its
two roots the one nearer to zero is taken, and the quotient `c / q` where that one is
not between zero and one. The other root is always negative or above one, but it is
`c / q` itself where the linear coefficient is positive, so the searched coordinate is
not found there (`getBilinearCoords_right_iff`).
-/

namespace WorldWind.Geom.Exact

open scoped Lib.Numerals

variable {K : Type*} [Field K] [LinearOrder K]

structure BarycentricQuadrilateral (K : Type*) extends BarycentricTriangle K where
  p11 : Vec4 K
  w11 : Weights K

namespace BarycentricQuadrilateral

def new (p00 p10 p11 p01 : Vec4 K) : Option (BarycentricQuadrilateral K) := do
  let triangle := BarycentricTriangle.new p00 p10 p01
  let w11 ← triangle.getBarycentricCoords p11
  return { triangle with p11, w11 }

/-- `near x` is `Math.abs(x) < eps`. No result stands for a division by zero. -/
def getBilinearCoords (near : K → Prop) [DecidablePred near] (sqrt : K → K) (t : BarycentricQuadrilateral K)
    (alpha beta : K) : Option (K × K) :=
  let alpha11 := t.w11.w1
  let beta11 := t.w11.w2
  if near (alpha11 - 1) then
    let u := alpha
    if near (beta11 - 1) then some (u, beta)
    else (quotient beta (u * (beta11 - 1) + 1)).map fun v => (u, v)
  else if near (beta11 - 1) then
    let v := beta
    (quotient alpha (v * (alpha11 - 1) + 1)).map fun u => (u, v)
  else
    let a := 1 - beta11
    let b := alpha * (beta11 - 1) - beta * (alpha11 - 1) - 1
    let c := alpha
    let b24ac := b * b - 4 * a * c
    if a = 0 ∨ b24ac < 0 then some (-1, -1)
    else
      let sign := if b ≠ 0 then (if b > 0 then 1 else -1) else 1
      let q := -(1 / 2) * (b + sign * sqrt b24ac)
      (quotient q a).bind fun u =>
      (quotient c q).bind fun ualt =>
      let u := if |u| ≤ |ualt| then u else ualt
      -- the other root only where `ualt` is not the one that was taken
      let u := if u < 0 ∨ u > 1 then ualt else u
      let v := u * (beta11 - 1) + 1
      (if ¬near v then quotient beta v else some (-1)).map fun v => (u, v)

/-- The coordinates of a point. -/
def getBilinearCoordsOf (near : K → Prop) [DecidablePred near] (sqrt : K → K) (t : BarycentricQuadrilateral K)
    (point : Vec4 K) : Option (K × K) := do
  let w ← t.toBarycentricTriangle.getBarycentricCoords point
  t.getBilinearCoords near sqrt w.w1 w.w2

end BarycentricQuadrilateral

/-! ## The quadratic equation -/

section

variable [IsStrictOrderedRing K] {A B u v : K}

/-- A bilinear function is positive on the unit square where it is at the corners. -/
theorem corner_pos (hA : 0 < 1 + A) (hB : 0 < 1 + B) (hAB : 0 < 1 + A + B) (hu0 : 0 ≤ u) (hu1 : u ≤ 1) (hv0 : 0 ≤ v)
    (hv1 : v ≤ 1) : 0 < 1 + u * B + v * A := by
  have h1 : 0 < (1 - u) * 1 + u * (1 + B) := mean_pos hu0 hu1 one_pos hB
  have h2 : 0 < (1 - u) * (1 + A) + u * (1 + A + B) := mean_pos hu0 hu1 hA hAB
  have h := mean_pos hv0 hv1 h1 h2
  calc 0 < _ := h
    _ = 1 + u * B + v * A := by ring

theorem side_pos (hB : 0 < 1 + B) (hu0 : 0 ≤ u) (hu1 : u ≤ 1) : 0 < u * B + 1 := by
  have h := mean_pos hu0 hu1 one_pos hB
  calc 0 < _ := h
    _ = u * B + 1 := by ring

/-- The last step finds `v` from `u`. -/
theorem last_step (hB : 0 < 1 + B) (hu0 : 0 ≤ u) (hu1 : u ≤ 1) :
    (if ¬(u * B + 1 = 0) then quotient (v * (1 + u * B)) (u * B + 1) else some (-1)).map (fun v => (u, v)) =
      some (u, v) := by
  have hne := (side_pos hB hu0 hu1).ne'
  rw [if_pos hne, show v * (1 + u * B) = (u * B + 1) * v by ring, quotient_mul hne]
  rfl

end

/-- What is taken where the linear coefficient is positive: the searched root comes first and is the
farther one from zero, and the correction stays at the other. -/
theorem taken_of_pos {A B u v : ℝ} (hu0 : 0 ≤ u) (hvA : 0 < 1 + v * A) (hb : 1 + v * A < u * B) :
    ∃ ualt < 0, quotient (-(u * B)) (-B) = some u ∧ quotient (u * (1 + v * A)) (-(u * B)) = some ualt ∧
      ¬|u| ≤ |ualt| := by
  have hupos : 0 < u := by
    rcases hu0.eq_or_lt with rfl | h
    · linarith
    · exact h
  have hBpos : 0 < B := by
    by_contra hB
    nlinarith [not_lt.1 hB]
  refine ⟨-((1 + v * A) / B), neg_lt_zero.2 (div_pos hvA hBpos), ?_, ?_, ?_⟩
  · rw [show -(u * B) = -B * u by ring, quotient_mul (neg_ne_zero.2 hBpos.ne')]
  · have hne : -(u * B) ≠ 0 := neg_ne_zero.2 (mul_pos hupos hBpos).ne'
    rw [← quotient_mul hne]
    congr 1
    field_simp
  · rw [abs_neg, abs_of_pos hupos, abs_of_pos (div_pos hvA hBpos), not_le, div_lt_iff₀ hBpos]
    exact hb

/-- Where it is not positive, the searched root is taken, at once or by the correction. -/
theorem taken_of_nonpos {A B u v : ℝ} (hB : B ≠ 0) (hu0 : 0 ≤ u) (hu1 : u ≤ 1) (hvA : 0 < 1 + v * A)
    (hD : 0 < 1 + u * B + v * A) : ∃ root, quotient (1 + v * A) (-B) = some root ∧
      quotient (u * (1 + v * A)) (1 + v * A) = some u ∧
      (let u' := if |root| ≤ |u| then root else u
       if u' < 0 ∨ u' > 1 then u else u') = u := by
  refine ⟨(1 + v * A) / -B, if_neg (neg_ne_zero.2 hB), ?_, ?_⟩
  · rw [mul_comm, quotient_mul hvA.ne']
  · by_cases hnear : |(1 + v * A) / -B| ≤ |u|
    · have hBpos : 0 < B := by
        by_contra hle
        have hBneg : B < 0 := lt_of_le_of_ne (not_lt.1 hle) hB
        rw [abs_of_nonneg hu0, abs_of_pos (div_pos hvA (neg_pos.2 hBneg)), div_le_iff₀ (neg_pos.2 hBneg)] at hnear
        linarith
      have hneg : (1 + v * A) / -B < 0 := div_neg_of_pos_of_neg hvA (neg_lt_zero.2 hBpos)
      simp only [if_pos hnear, if_pos (Or.inl hneg : (1 + v * A) / -B < 0 ∨ (1 + v * A) / -B > 1)]
    · have hin : ¬(u < 0 ∨ u > 1) := not_or.2 ⟨not_lt.2 hu0, not_lt.2 hu1⟩
      simp only [if_neg hnear, if_neg hin]

/-- The coordinates that are found for those of the bilinear point at `u` and `v`. -/
theorem getBilinearCoords_iff (t : BarycentricQuadrilateral ℝ) {u v : ℝ} (hA : 0 < t.w11.w1) (hB : 0 < t.w11.w2)
    (hAB : 1 < t.w11.w1 + t.w11.w2) (hu0 : 0 ≤ u) (hu1 : u ≤ 1) (hv0 : 0 ≤ v) (hv1 : v ≤ 1) :
    t.getBilinearCoords (· = 0) Real.sqrt (u * (1 + v * (t.w11.w1 - 1))) (v * (1 + u * (t.w11.w2 - 1))) =
      some (u, v) ↔
      t.w11.w1 = 1 ∨ t.w11.w2 = 1 ∨ u * (t.w11.w2 - 1) ≤ 1 + v * (t.w11.w1 - 1) := by
  have hA1 : 0 < 1 + (t.w11.w1 - 1) := by linarith
  have hB1 : 0 < 1 + (t.w11.w2 - 1) := by linarith
  have hAB1 : 0 < 1 + (t.w11.w1 - 1) + (t.w11.w2 - 1) := by linarith
  have hone : ∀ x : ℝ, x = 1 ↔ x - 1 = 0 := fun x => sub_eq_zero.symm
  rw [hone t.w11.w1, hone t.w11.w2]
  unfold BarycentricQuadrilateral.getBilinearCoords
  simp only
  rw [show (1 : ℝ) - t.w11.w2 = -(t.w11.w2 - 1) by ring]
  generalize t.w11.w1 - 1 = A at hA1 hAB1 ⊢
  generalize t.w11.w2 - 1 = B at hB1 hAB1 ⊢
  have hvA : 0 < 1 + v * A := by linarith [side_pos hA1 hv0 hv1]
  have hD := corner_pos hA1 hB1 hAB1 hu0 hu1 hv0 hv1
  by_cases hA0 : A = 0
  · refine iff_of_true ?_ (.inl hA0)
    rw [if_pos hA0, hA0, mul_zero, add_zero, mul_one]
    by_cases hB0 : B = 0
    · rw [if_pos hB0, hB0, mul_zero, add_zero, mul_one]
    · have hne := (side_pos hB1 hu0 hu1).ne'
      rw [if_neg hB0, show v * (1 + u * B) = (u * B + 1) * v by ring, quotient_mul hne]
      rfl
  · by_cases hB0 : B = 0
    · refine iff_of_true ?_ (.inr (.inl hB0))
      have hne := (side_pos hA1 hv0 hv1).ne'
      rw [if_neg hA0, if_pos hB0, hB0, mul_zero, add_zero, mul_one, show u * (1 + v * A) = (v * A + 1) * u by ring,
        quotient_mul hne]
      rfl
    · -- the discriminant is the square of the slope
      have hsquare : (u * (1 + v * A) * B - v * (1 + u * B) * A - 1) *
          (u * (1 + v * A) * B - v * (1 + u * B) * A - 1) -
          4 * -B * (u * (1 + v * A)) = (1 + u * B + v * A) * (1 + u * B + v * A) := by ring
      have hlinear : u * (1 + v * A) * B - v * (1 + u * B) * A - 1 = u * B - (1 + v * A) := by ring
      have hbranch : ¬(-B = 0 ∨ (1 + u * B + v * A) * (1 + u * B + v * A) < 0) :=
        not_or.2 ⟨neg_ne_zero.2 hB0, not_lt.2 (mul_self_nonneg _)⟩
      rw [if_neg hA0, if_neg hB0, hsquare, if_neg hbranch, Real.sqrt_mul_self hD.le, hlinear]
      simp only [hA0, hB0, false_or]
      by_cases hb : 1 + v * A < u * B
      · -- the correction divides by the same `q` again
        obtain ⟨ualt, hualt, hfirst, hsecond, hfar⟩ := taken_of_pos hu0 hvA hb
        have hsign : (if u * B - (1 + v * A) ≠ 0 then (if u * B - (1 + v * A) > 0 then (1 : ℝ) else -1) else 1) =
            1 := by
          rw [if_pos (sub_pos.2 hb).ne', if_pos (sub_pos.2 hb)]
        have hq : -(1 / 2) * (u * B - (1 + v * A) + 1 * (1 + u * B + v * A)) = -(u * B) := by ring
        refine iff_of_false ?_ (not_le.2 hb)
        rw [hsign, hq, hfirst, Option.bind_some, hsecond, Option.bind_some, if_neg hfar, if_pos (Or.inl hualt)]
        intro h
        obtain ⟨w, -, hw⟩ := Option.map_eq_some_iff.1 h
        exact absurd (congrArg Prod.fst hw) (hualt.trans_le hu0).ne
      · refine iff_of_true ?_ (not_lt.1 hb)
        by_cases hzero : u * B = 1 + v * A
        · have hsign : (if u * B - (1 + v * A) ≠ 0 then (if u * B - (1 + v * A) > 0 then (1 : ℝ) else -1) else 1) =
              1 := by
            rw [if_neg (not_not.2 (sub_eq_zero.2 hzero))]
          have hq : -(1 / 2) * (u * B - (1 + v * A) + 1 * (1 + u * B + v * A)) = -B * u := by ring
          have hne : -B * u ≠ 0 := by
            rw [neg_mul, neg_ne_zero, mul_comm, hzero]
            exact hvA.ne'
          have hboth : u * (1 + v * A) = -B * u * -u := by
            rw [← hzero]
            ring
          have hin : ¬(u < 0 ∨ u > 1) := not_or.2 ⟨not_lt.2 hu0, not_lt.2 hu1⟩
          rw [hsign, hq, quotient_mul (neg_ne_zero.2 hB0), Option.bind_some, hboth, quotient_mul hne,
            Option.bind_some, if_pos (abs_neg u).ge, if_neg hin]
          exact last_step hB1 hu0 hu1
        · have hneg : u * B - (1 + v * A) < 0 := sub_neg.2 (lt_of_le_of_ne (not_lt.1 hb) hzero)
          have hsign : (if u * B - (1 + v * A) ≠ 0 then (if u * B - (1 + v * A) > 0 then (1 : ℝ) else -1) else 1) =
              -1 := by
            rw [if_pos hneg.ne, if_neg (not_lt.2 hneg.le)]
          have hq : -(1 / 2) * (u * B - (1 + v * A) + -1 * (1 + u * B + v * A)) = 1 + v * A := by ring
          obtain ⟨root, hfirst, hsecond, htaken⟩ := taken_of_nonpos hB0 hu0 hu1 hvA hD
          simp only at htaken
          rw [hsign, hq, hfirst, Option.bind_some, hsecond, Option.bind_some, htaken]
          exact last_step hB1 hu0 hu1

/-! ## Quadrilaterals in a plane of one height -/

section

variable {p00 p10 p11 p01 : Vec4 ℝ} {s : ℝ}

/-- The fourth corner lies beyond the diagonal and inside both sides at the first. -/
theorem StrictlyConvex.weights (h : StrictlyConvex p00 p10 p11 p01 ⟨0, 0, s⟩) :
    normal p00 p10 p01 ≠ ⟨0, 0, 0⟩ ∧ ¬LargestX (normal p00 p10 p01) ∧
      ∃ a b, p11 = planePoint p00 p10 p01 a b ∧ 0 < a ∧ 0 < b ∧ 1 < a + b := by
  obtain ⟨hy, hz, hw, turnX, turnY, turnZ, turnW⟩ := h
  simp only [turn, Vec4.cross3, Vec4.dot3, Vec4.subtract3, mul_zero, zero_add] at hy hz hw turnX turnY turnZ turnW
  have hs : s ≠ 0 := by
    rintro rfl
    simp at turnX
  have h10 : p10.z - p00.z = 0 := (mul_eq_zero.1 hy).resolve_right hs
  have h11 : p11.z - p00.z = 0 := (mul_eq_zero.1 hz).resolve_right hs
  have h01 : p01.z - p00.z = 0 := (mul_eq_zero.1 hw).resolve_right hs
  have hnormal : (normal p00 p10 p01).x = 0 ∧ (normal p00 p10 p01).y = 0 ∧ 0 < (normal p00 p10 p01).z * s := by
    refine ⟨?_, ?_, ?_⟩
    · simp only [normal, Vec4.cross3, Vec4.subtract3, h10, h01]
      ring
    · simp only [normal, Vec4.cross3, Vec4.subtract3, h10, h01]
      ring
    · simp only [normal, Vec4.cross3, Vec4.subtract3]
      linarith
  have hz0 : (normal p00 p10 p01).z ≠ 0 := by
    intro h0
    rw [h0, zero_mul] at hnormal
    exact hnormal.2.2.false
  have hn : normal p00 p10 p01 ≠ ⟨0, 0, 0⟩ := fun h0 => hz0 (congrArg Vec4.z h0)
  refine ⟨hn, fun hx => hz0 ?_, ?_⟩
  · have hle := hx.2
    rw [hnormal.1, abs_zero] at hle
    exact abs_nonpos_iff.1 hle
  · obtain ⟨a, b, rfl⟩ := exists_planePoint (p := p11) hn (by
      simp only [Vec4.dot3, Vec4.subtract3, hnormal.1, hnormal.2.1, h11]
      ring)
    simp only [planePoint] at turnY turnZ turnW
    simp only [normal, Vec4.cross3, Vec4.subtract3] at hnormal
    obtain ⟨-, -, hpos⟩ := hnormal
    refine ⟨a, b, rfl, ?_, ?_, ?_⟩
    · refine (mul_pos_iff_of_pos_right hpos).1 ?_
      calc 0 < _ := turnW
        _ = _ := by ring
    · refine (mul_pos_iff_of_pos_right hpos).1 ?_
      calc 0 < _ := turnY
        _ = _ := by ring
    · refine sub_pos.1 ((mul_pos_iff_of_pos_right hpos).1 ?_)
      calc 0 < _ := turnZ
        _ = _ := by ring

theorem bilinear_planePoint (a b u v : ℝ) : bilinear p00 p10 (planePoint p00 p10 p01 a b) p01 u v =
    planePoint p00 p10 p01 (u * (1 + v * (a - 1))) (v * (1 + u * (b - 1))) := by
  ext <;> simp only [bilinear, planePoint, Vec4.multiply3, Vec4.add3] <;> ring

/-- The coordinates of the bilinear point at `u` and `v` are found, as the inverse finds them. -/
def BilinearCoordsRight (t : BarycentricQuadrilateral ℝ) (u v : ℝ) : Prop :=
  t.getBilinearCoordsOf (· = 0) Real.sqrt (bilinear t.p00 t.p10 t.p11 t.p01 u v) = some (u, v) ∧
    invertBilinear Real.sqrt (bilinear t.p00 t.p10 t.p11 t.p01 u v) t.p00 t.p10 t.p11 t.p01 =
      (t.getBilinearCoordsOf (· = 0) Real.sqrt (bilinear t.p00 t.p10 t.p11 t.p01 u v)).map some

/-- The quadrilateral whose fourth corner has the weights `a` and `b`. -/
noncomputable def ofWeights (p00 p10 p01 : Vec4 ℝ) (a b : ℝ) : BarycentricQuadrilateral ℝ :=
  { BarycentricTriangle.new p00 p10 p01 with p11 := planePoint p00 p10 p01 a b, w11 := ⟨1 - a - b, a, b⟩ }

theorem new_eq_ofWeights (hx : ¬LargestX (normal p00 p10 p01)) (a b : ℝ) :
    BarycentricQuadrilateral.new p00 p10 (planePoint p00 p10 p01 a b) p01 = some (ofWeights p00 p10 p01 a b) := by
  rw [BarycentricQuadrilateral.new, getBarycentricCoords_not_x hx]
  rfl

theorem found_iff (hx : ¬LargestX (normal p00 p10 p01)) {a b u v : ℝ} (ha : 0 < a) (hb : 0 < b) (hab : 1 < a + b)
    (hu0 : 0 ≤ u) (hu1 : u ≤ 1) (hv0 : 0 ≤ v) (hv1 : v ≤ 1) :
    (ofWeights p00 p10 p01 a b).getBilinearCoordsOf (· = 0) Real.sqrt
        (bilinear p00 p10 (planePoint p00 p10 p01 a b) p01 u v) = some (u, v) ↔
      a = 1 ∨ b = 1 ∨ u * (b - 1) ≤ 1 + v * (a - 1) := by
  have hcoords := getBilinearCoords_iff (ofWeights p00 p10 p01 a b) ha hb hab hu0 hu1 hv0 hv1
  rw [bilinear_planePoint, BarycentricQuadrilateral.getBilinearCoordsOf, ofWeights, getBarycentricCoords_not_x hx]
  exact hcoords

/-- They are found exactly where the linear coefficient of the equation is not positive, or there is
no quadratic equation. -/
theorem getBilinearCoords_right_iff (h : StrictlyConvex p00 p10 p11 p01 ⟨0, 0, s⟩) {u v : ℝ} (hu0 : 0 ≤ u)
    (hu1 : u ≤ 1)
    (hv0 : 0 ≤ v) (hv1 : v ≤ 1) : ∃ t, BarycentricQuadrilateral.new p00 p10 p11 p01 = some t ∧
      (BilinearCoordsRight t u v ↔
        t.w11.w1 = 1 ∨ t.w11.w2 = 1 ∨ u * (t.w11.w2 - 1) ≤ 1 + v * (t.w11.w1 - 1)) := by
  have hinverse := invertBilinear_bilinear h hu0 hu1 hv0 hv1
  obtain ⟨hn, hx, a, b, rfl, ha, hb, hab⟩ := h.weights
  have hfound := found_iff hx ha hb hab hu0 hu1 hv0 hv1
  refine ⟨ofWeights p00 p10 p01 a b, new_eq_ofWeights hx a b, ?_⟩
  constructor
  · rintro ⟨hcoords, -⟩
    exact hfound.1 hcoords
  · intro hcondition
    have hcoords := hfound.2 hcondition
    exact ⟨hcoords, hinverse.trans (congrArg (Option.map some) hcoords).symm⟩

end

/-- The middle of a kite whose fourth corner is twice as far in one direction. -/
theorem kite_middle : ∃ t, BarycentricQuadrilateral.new (⟨0, 0, 0⟩ : Vec4 ℝ) ⟨1, 0, 0⟩ ⟨2, 2, 0⟩ ⟨0, 1, 0⟩ = some t ∧
    (BilinearCoordsRight t (1 / 2) (1 / 2) ↔
      t.w11.w1 = 1 ∨ t.w11.w2 = 1 ∨ 1 / 2 * (t.w11.w2 - 1) ≤ 1 + 1 / 2 * (t.w11.w1 - 1)) := by
  have hconvex : StrictlyConvex (K := ℝ) ⟨0, 0, 0⟩ ⟨1, 0, 0⟩ ⟨2, 2, 0⟩ ⟨0, 1, 0⟩ ⟨0, 0, 1⟩ := by
    constructor <;> norm_num [turn, Vec4.cross3, Vec4.dot3, Vec4.subtract3]
  exact getBilinearCoords_right_iff hconvex (by norm_num) (by norm_num) (by norm_num) (by norm_num)

/-- The second corner of a quadrilateral whose fourth one is three times as high as the others:
its coordinates should be 1 and 0. -/
theorem secondCorner_lost : StrictlyConvex (⟨0, 0, 0⟩ : Vec4 ℝ) ⟨1, 0, 0⟩ ⟨2, 3, 0⟩ ⟨0, 1, 0⟩ ⟨0, 0, 1⟩ ∧
    ∃ t, BarycentricQuadrilateral.new (⟨0, 0, 0⟩ : Vec4 ℝ) ⟨1, 0, 0⟩ ⟨2, 3, 0⟩ ⟨0, 1, 0⟩ = some t ∧
      t.getBilinearCoordsOf (· = 0) Real.sqrt (bilinear ⟨0, 0, 0⟩ ⟨1, 0, 0⟩ ⟨2, 3, 0⟩ ⟨0, 1, 0⟩ 1 0) ≠ some (1, 0) ∧
      ¬BilinearCoordsRight t 1 0 := by
  have hconvex : StrictlyConvex (K := ℝ) ⟨0, 0, 0⟩ ⟨1, 0, 0⟩ ⟨2, 3, 0⟩ ⟨0, 1, 0⟩ ⟨0, 0, 1⟩ := by
    constructor <;> norm_num [turn, Vec4.cross3, Vec4.dot3, Vec4.subtract3]
  have hcorner : planePoint (K := ℝ) ⟨0, 0, 0⟩ ⟨1, 0, 0⟩ ⟨0, 1, 0⟩ 2 3 = ⟨2, 3, 0⟩ := by
    norm_num [planePoint]
  have hx := hconvex.weights.2.1
  have hnew := new_eq_ofWeights hx 2 3
  have hlost : ¬((ofWeights ⟨0, 0, 0⟩ ⟨1, 0, 0⟩ ⟨0, 1, 0⟩ 2 3).getBilinearCoordsOf (· = 0) Real.sqrt
      (bilinear ⟨0, 0, 0⟩ ⟨1, 0, 0⟩ (planePoint ⟨0, 0, 0⟩ ⟨1, 0, 0⟩ ⟨0, 1, 0⟩ 2 3) ⟨0, 1, 0⟩ 1 0) = some (1, 0)) := by
    rw [found_iff hx (by norm_num) (by norm_num) (by norm_num) zero_le_one le_rfl le_rfl zero_le_one]
    norm_num
  rw [hcorner] at hnew hlost
  refine ⟨hconvex, _, hnew, hlost, ?_⟩
  rintro ⟨hcoords, -⟩
  refine hlost (Eq.trans ?_ hcoords)
  rw [← hcorner]
  rfl

end WorldWind.Geom.Exact
