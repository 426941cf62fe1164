import WorldWind.Geom.Exact
/-!
# `BarycentricTriangle`

Weights of a point in the plane of a triangle. One of the three branches divides
by the wrong component of the normal, and `contains` looks at one weight only.
In exact arithmetic the weights and the test are right exactly where neither
shows (`right_iff`). A division by zero has no result.
-/

namespace WorldWind.Geom.Exact

variable {K : Type*} [Field K] [LinearOrder K]

namespace Vec4

def cross3 (v w : Vec4 K) : Vec4 K :=
  ⟨v.y * w.z - v.z * w.y, v.z * w.x - v.x * w.z, v.x * w.y - v.y * w.x⟩

def getAbs3 (v : Vec4 K) : Vec4 K := ⟨|v.x|, |v.y|, |v.z|⟩

end Vec4

/-- A quotient that is looked at. -/
def quotient (a b : K) : Option K := if b = 0 then none else some (a / b)

/-! ## The class -/

/-- The three elements of the array. -/
@[ext]
structure Weights (K : Type*) where
  w0 : K
  w1 : K
  w2 : K
  deriving DecidableEq, Repr

structure BarycentricTriangle (K : Type*) where
  p00 : Vec4 K
  p10 : Vec4 K
  p01 : Vec4 K
  q1 : Vec4 K
  q3 : Vec4 K

namespace BarycentricTriangle

def new (p00 p10 p01 : Vec4 K) : BarycentricTriangle K :=
  ⟨p00, p10, p01, p10.subtract3 p00, p01.subtract3 p00⟩

variable (t : BarycentricTriangle K)

def getBarycentricCoords (p : Vec4 K) : Option (Weights K) :=
  let n := t.q1.cross3 t.q3
  let na := n.getAbs3
  let q2 := p.subtract3 t.p00
  (if na.x ≥ na.y ∧ na.x ≥ na.z then
    (quotient (q2.y * t.q3.z - q2.z * t.q3.y) n.x).bind fun a =>
    -- divided by `n.y`, unlike the line above
    (quotient (t.q1.y * q2.z - t.q1.z * q2.y) n.y).map fun b => (a, b)
  else if na.y ≥ na.x ∧ na.y ≥ na.z then
    (quotient (q2.z * t.q3.x - q2.x * t.q3.z) n.y).bind fun a =>
    (quotient (t.q1.z * q2.x - t.q1.x * q2.z) n.y).map fun b => (a, b)
  else
    (quotient (q2.x * t.q3.y - q2.y * t.q3.x) n.z).bind fun a =>
    (quotient (t.q1.x * q2.y - t.q1.y * q2.x) n.z).map fun b => (a, b)).map
  fun ab => ⟨1 - ab.1 - ab.2, ab.1, ab.2⟩

def contains (p : Vec4 K) : Option Bool :=
  (t.getBarycentricCoords p).map fun w => decide (w.w0 ≥ 0)

def getPoint (w : Weights K) : Vec4 K :=
  let pa := t.p00.multiply3 w.w0
  let pb := t.p10.multiply3 w.w1
  let pc := t.p01.multiply3 w.w2
  (pa.add3 pb).add3 pc

end BarycentricTriangle

/-! ## Triangles -/

variable {p00 p10 p01 p : Vec4 K}

/-- The normal of the plane of three points. -/
def normal (p00 p10 p01 : Vec4 K) : Vec4 K := (p10.subtract3 p00).cross3 (p01.subtract3 p00)

/-- The point of the plane with the weights `1 - a - b`, `a` and `b`. -/
def planePoint (p00 p10 p01 : Vec4 K) (a b : K) : Vec4 K :=
  ⟨p00.x + a * (p10.x - p00.x) + b * (p01.x - p00.x), p00.y + a * (p10.y - p00.y) + b * (p01.y - p00.y),
    p00.z + a * (p10.z - p00.z) + b * (p01.z - p00.z)⟩

/-- The closed triangle. -/
def InTriangle (p00 p10 p01 p : Vec4 K) : Prop :=
  ∃ a b, 0 ≤ a ∧ 0 ≤ b ∧ a + b ≤ 1 ∧ p = planePoint p00 p10 p01 a b

/-- Beyond the line through `p10` and `p01`, seen from `p00`. -/
def Beyond (p00 p10 p01 p : Vec4 K) : Prop := ∃ a b, 1 < a + b ∧ p = planePoint p00 p10 p01 a b

/-- On the line through two points. -/
def OnLine (p q r : Vec4 K) : Prop := ∃ s, r = planePoint p q p s 0

/-- The first component of a vector is the largest in size. -/
def LargestX (n : Vec4 K) : Prop := |n.y| ≤ |n.x| ∧ |n.z| ≤ |n.x|

theorem Vec4.ne_zero {v : Vec4 K} (h : v ≠ ⟨0, 0, 0⟩) : v.x ≠ 0 ∨ v.y ≠ 0 ∨ v.z ≠ 0 := by
  by_contra hno
  rw [not_or, not_or, not_not, not_not, not_not] at hno
  exact h (Vec4.ext hno.1 hno.2.1 hno.2.2)

section

variable [IsStrictOrderedRing K]

theorem Vec4.dot3_self_pos {v : Vec4 K} (h : v ≠ ⟨0, 0, 0⟩) : 0 < v.dot3 v := by
  have hx := mul_self_nonneg v.x
  have hy := mul_self_nonneg v.y
  have hz := mul_self_nonneg v.z
  rw [dot3]
  rcases Vec4.ne_zero h with h | h | h <;> linarith [mul_self_pos.2 h]

/-- A vector that is orthogonal to the normal of two others is a combination of them. -/
theorem Vec4.expansion {u v w : Vec4 K} (h : w.dot3 (u.cross3 v) = 0) :
    w.multiply3 ((u.cross3 v).dot3 (u.cross3 v)) =
      (u.multiply3 ((w.cross3 v).dot3 (u.cross3 v))).add3 (v.multiply3 ((u.cross3 w).dot3 (u.cross3 v))) := by
  simp only [dot3, cross3] at h
  ext <;> simp only [multiply3, add3, dot3, cross3]
  · linear_combination (u.y * v.z - u.z * v.y) * h
  · linear_combination (u.z * v.x - u.x * v.z) * h
  · linear_combination (u.x * v.y - u.y * v.x) * h

/-- A point of the plane is a combination of the corners. -/
theorem exists_planePoint (hn : normal p00 p10 p01 ≠ ⟨0, 0, 0⟩)
    (hp : (p.subtract3 p00).dot3 (normal p00 p10 p01) = 0) : ∃ a b, p = planePoint p00 p10 p01 a b := by
  have hne := (Vec4.dot3_self_pos hn).ne'
  have hexpansion := Vec4.expansion hp
  rw [← normal] at hexpansion
  -- Cramer's rule, with the normal for the third vector
  generalize (normal p00 p10 p01).dot3 (normal p00 p10 p01) = d at hne hexpansion
  generalize ((p.subtract3 p00).cross3 (p01.subtract3 p00)).dot3 (normal p00 p10 p01) = a at hexpansion
  generalize ((p10.subtract3 p00).cross3 (p.subtract3 p00)).dot3 (normal p00 p10 p01) = b at hexpansion
  have hcomponent : ∀ {v u w o : K}, (v - o) * d = u * a + w * b → v = o + a / d * u + b / d * w := by
    intro v u w o h
    have hv : v - o = (u * a + w * b) / d := eq_div_of_mul_eq hne h
    rw [eq_add_of_sub_eq hv]
    ring
  exact ⟨a / d, b / d, Vec4.ext (hcomponent (congrArg Vec4.x hexpansion)) (hcomponent (congrArg Vec4.y hexpansion))
    (hcomponent (congrArg Vec4.z hexpansion))⟩

/-- The combination is unique. -/
theorem planePoint_inj (hn : normal p00 p10 p01 ≠ ⟨0, 0, 0⟩) {a b a' b' : K}
    (h : planePoint p00 p10 p01 a b = planePoint p00 p10 p01 a' b') : a = a' ∧ b = b' := by
  have hx := congrArg Vec4.x h
  have hy := congrArg Vec4.y h
  have hz := congrArg Vec4.z h
  simp only [planePoint] at hx hy hz
  have ha : ∀ n, n = (normal p00 p10 p01).x ∨ n = (normal p00 p10 p01).y ∨ n = (normal p00 p10 p01).z →
      (a - a') * n = 0 ∧ (b - b') * n = 0 := by
    simp only [normal, Vec4.cross3, Vec4.subtract3]
    rintro n (rfl | rfl | rfl)
    · exact ⟨by linear_combination (p01.z - p00.z) * hy - (p01.y - p00.y) * hz,
        by linear_combination (p10.y - p00.y) * hz - (p10.z - p00.z) * hy⟩
    · exact ⟨by linear_combination (p01.x - p00.x) * hz - (p01.z - p00.z) * hx,
        by linear_combination (p10.z - p00.z) * hx - (p10.x - p00.x) * hz⟩
    · exact ⟨by linear_combination (p01.y - p00.y) * hx - (p01.x - p00.x) * hy,
        by linear_combination (p10.x - p00.x) * hy - (p10.y - p00.y) * hx⟩
  have hcancel : ∀ {n : K}, n ≠ 0 → (a - a') * n = 0 ∧ (b - b') * n = 0 → a = a' ∧ b = b' := fun hne h =>
    ⟨sub_eq_zero.1 ((mul_eq_zero.1 h.1).resolve_right hne), sub_eq_zero.1 ((mul_eq_zero.1 h.2).resolve_right hne)⟩
  rcases Vec4.ne_zero hn with hne | hne | hne
  · exact hcancel hne (ha _ (.inl rfl))
  · exact hcancel hne (ha _ (.inr (.inl rfl)))
  · exact hcancel hne (ha _ (.inr (.inr rfl)))

/-! ## The weights of a point of the plane -/

theorem LargestX.x_ne_zero {n : Vec4 K} (hlargest : LargestX n) (hn : n ≠ ⟨0, 0, 0⟩) : n.x ≠ 0 := by
  intro hx
  rw [LargestX, hx, abs_zero] at hlargest
  exact hn (Vec4.ext hx (abs_nonpos_iff.1 hlargest.1) (abs_nonpos_iff.1 hlargest.2))

theorem y_ne_zero {n : Vec4 K} (hx : ¬LargestX n) (hy : |n.y| ≥ |n.x| ∧ |n.y| ≥ |n.z|) : n.y ≠ 0 := by
  intro h0
  rw [h0, abs_zero] at hy
  refine hx ⟨?_, ?_⟩
  · rw [h0, abs_zero]
    exact abs_nonneg _
  · exact hy.2.trans (abs_nonneg _)

theorem z_ne_zero {n : Vec4 K} (hx : ¬LargestX n) (hy : ¬(|n.y| ≥ |n.x| ∧ |n.y| ≥ |n.z|)) : n.z ≠ 0 := by
  intro h0
  rw [LargestX, h0, abs_zero] at hx
  rw [h0, abs_zero] at hy
  rcases le_total |n.x| |n.y| with h | h
  · exact hy ⟨h, abs_nonneg _⟩
  · exact hx ⟨h, abs_nonneg _⟩

omit [LinearOrder K] [IsStrictOrderedRing K] in
theorem cross3_eq_normal : (p10.subtract3 p00).cross3 (p01.subtract3 p00) = normal p00 p10 p01 := rfl

omit [LinearOrder K] [IsStrictOrderedRing K] in
theorem planePoint_cross3 (p00 p10 p01 : Vec4 K) (a b : K) :
    ((planePoint p00 p10 p01 a b).subtract3 p00).cross3 (p01.subtract3 p00) =
      (normal p00 p10 p01).multiply3 a := by
  ext <;> simp only [planePoint, Vec4.subtract3, normal, Vec4.cross3, Vec4.multiply3] <;> ring

omit [LinearOrder K] [IsStrictOrderedRing K] in
theorem cross3_planePoint (p00 p10 p01 : Vec4 K) (a b : K) :
    (p10.subtract3 p00).cross3 ((planePoint p00 p10 p01 a b).subtract3 p00) =
      (normal p00 p10 p01).multiply3 b := by
  ext <;> simp only [planePoint, Vec4.subtract3, normal, Vec4.cross3, Vec4.multiply3] <;> ring

omit [IsStrictOrderedRing K] in
theorem quotient_mul {a b : K} (hb : b ≠ 0) : quotient (b * a) b = some a := by
  rw [quotient, if_neg hb, mul_div_cancel_left₀ a hb]

/-- The branch of a normal that is longest in `x`, for the point with the weights `1 - a - b`, `a` and `b`. -/
theorem getBarycentricCoords_x (hn : normal p00 p10 p01 ≠ ⟨0, 0, 0⟩) (hx : LargestX (normal p00 p10 p01)) (a b : K) :
    (BarycentricTriangle.new p00 p10 p01).getBarycentricCoords (planePoint p00 p10 p01 a b) =
      (quotient ((normal p00 p10 p01).x * b) (normal p00 p10 p01).y).map fun b' => ⟨1 - a - b', a, b'⟩ := by
  have ha := congrArg Vec4.x (planePoint_cross3 p00 p10 p01 a b)
  have hb := congrArg Vec4.x (cross3_planePoint p00 p10 p01 a b)
  simp only [Vec4.cross3, Vec4.multiply3] at ha hb
  have hbranch : |(normal p00 p10 p01).y| ≤ |(normal p00 p10 p01).x| ∧
      |(normal p00 p10 p01).z| ≤ |(normal p00 p10 p01).x| :=
    hx
  unfold BarycentricTriangle.getBarycentricCoords
  simp only [BarycentricTriangle.new, cross3_eq_normal, Vec4.getAbs3, ge_iff_le]
  rw [if_pos hbranch, ha, hb, quotient_mul (hx.x_ne_zero hn), Option.bind_some, Option.map_map]
  rfl

theorem getBarycentricCoords_not_x (hx : ¬LargestX (normal p00 p10 p01)) (a b : K) :
    (BarycentricTriangle.new p00 p10 p01).getBarycentricCoords (planePoint p00 p10 p01 a b) =
      some ⟨1 - a - b, a, b⟩ := by
  have ha := planePoint_cross3 p00 p10 p01 a b
  have hb := cross3_planePoint p00 p10 p01 a b
  have hbranch : ¬(|(normal p00 p10 p01).y| ≤ |(normal p00 p10 p01).x| ∧
      |(normal p00 p10 p01).z| ≤ |(normal p00 p10 p01).x|) :=
    hx
  unfold BarycentricTriangle.getBarycentricCoords
  simp only [BarycentricTriangle.new, cross3_eq_normal, Vec4.getAbs3, ge_iff_le]
  rw [if_neg hbranch]
  by_cases hy : |(normal p00 p10 p01).x| ≤ |(normal p00 p10 p01).y| ∧
    |(normal p00 p10 p01).z| ≤ |(normal p00 p10 p01).y|
  · replace ha := congrArg Vec4.y ha
    replace hb := congrArg Vec4.y hb
    simp only [Vec4.cross3, Vec4.multiply3] at ha hb
    rw [if_pos hy, ha, hb, quotient_mul (y_ne_zero hx hy), quotient_mul (y_ne_zero hx hy)]
    rfl
  · replace ha := congrArg Vec4.z ha
    replace hb := congrArg Vec4.z hb
    simp only [Vec4.cross3, Vec4.multiply3] at ha hb
    rw [if_neg hy, ha, hb, quotient_mul (z_ne_zero hx hy), quotient_mul (z_ne_zero hx hy)]
    rfl

/-! ## Where the weights and the test are right -/

/-- The point is in the plane of a triangle. -/
def InPlane (p00 p10 p01 p : Vec4 K) : Prop := (p.subtract3 p00).dot3 (normal p00 p10 p01) = 0

omit [IsStrictOrderedRing K] in
instance : Decidable (InPlane p00 p10 p01 p) := inferInstanceAs (Decidable (_ = _))

/-- The weights sum to one and give the point back, and the test is true in the triangle only. -/
def WeightsRight (p00 p10 p01 p : Vec4 K) : Prop :=
  ∃ w, (BarycentricTriangle.new p00 p10 p01).getBarycentricCoords p = some w ∧ w.w0 + w.w1 + w.w2 = 1 ∧
    (BarycentricTriangle.new p00 p10 p01).getPoint w = p ∧
    ((BarycentricTriangle.new p00 p10 p01).contains p = some true ↔ InTriangle p00 p10 p01 p)

omit [LinearOrder K] [IsStrictOrderedRing K] in
theorem getPoint_eq (a b : K) :
    (BarycentricTriangle.new p00 p10 p01).getPoint ⟨1 - a - b, a, b⟩ = planePoint p00 p10 p01 a b := by
  ext <;> simp only [BarycentricTriangle.getPoint, BarycentricTriangle.new, planePoint, Vec4.multiply3,
    Vec4.add3] <;> ring

theorem inTriangle_planePoint (hn : normal p00 p10 p01 ≠ ⟨0, 0, 0⟩) {a b : K} :
    InTriangle p00 p10 p01 (planePoint p00 p10 p01 a b) ↔ 0 ≤ a ∧ 0 ≤ b ∧ a + b ≤ 1 := by
  constructor
  · rintro ⟨a', b', ha, hb, hab, h⟩
    obtain ⟨rfl, rfl⟩ := planePoint_inj hn h
    exact ⟨ha, hb, hab⟩
  · rintro ⟨ha, hb, hab⟩
    exact ⟨a, b, ha, hb, hab, rfl⟩

theorem beyond_planePoint (hn : normal p00 p10 p01 ≠ ⟨0, 0, 0⟩) {a b : K} :
    Beyond p00 p10 p01 (planePoint p00 p10 p01 a b) ↔ 1 < a + b := by
  constructor
  · rintro ⟨a', b', hab, h⟩
    obtain ⟨rfl, rfl⟩ := planePoint_inj hn h
    exact hab
  · intro hab
    exact ⟨a, b, hab, rfl⟩

theorem onLine_planePoint (hn : normal p00 p10 p01 ≠ ⟨0, 0, 0⟩) {a b : K} :
    OnLine p00 p10 (planePoint p00 p10 p01 a b) ↔ b = 0 := by
  have hline : ∀ s, planePoint p00 p10 p00 s 0 = planePoint p00 p10 p01 s 0 := by
    intro s
    ext <;> simp only [planePoint] <;> ring
  constructor
  · rintro ⟨s, h⟩
    rw [hline] at h
    exact (planePoint_inj hn h).2
  · rintro rfl
    exact ⟨a, (hline a).symm⟩

/-- The weights that the first branch computes are those of the point. -/
def FirstBranchRight (p00 p10 p01 p : Vec4 K) : Prop :=
  (normal p00 p10 p01).x = (normal p00 p10 p01).y ∨ (normal p00 p10 p01).y ≠ 0 ∧ OnLine p00 p10 p

omit [IsStrictOrderedRing K] in
/-- A quotient by the wrong component is the right weight by chance only. -/
theorem quotient_eq_iff {x y b : K} (hx : x ≠ 0) : quotient (x * b) y = some b ↔ x = y ∨ y ≠ 0 ∧ b = 0 := by
  by_cases hy : y = 0
  · rw [quotient, if_pos hy, hy]
    simp [hx]
  · rw [quotient, if_neg hy, Option.some_inj, div_eq_iff hy, mul_comm b y, mul_eq_mul_right_iff]
    simp [hy]

/-- The weights of a point are those of `planePoint`, exactly when the first branch is not taken or right. -/
theorem getBarycentricCoords_iff (hn : normal p00 p10 p01 ≠ ⟨0, 0, 0⟩) (a b : K) :
    (BarycentricTriangle.new p00 p10 p01).getBarycentricCoords (planePoint p00 p10 p01 a b) =
        some ⟨1 - a - b, a, b⟩ ↔
      (LargestX (normal p00 p10 p01) → FirstBranchRight p00 p10 p01 (planePoint p00 p10 p01 a b)) := by
  by_cases hx : LargestX (normal p00 p10 p01)
  · rw [getBarycentricCoords_x hn hx, FirstBranchRight, onLine_planePoint hn, ← quotient_eq_iff (hx.x_ne_zero hn)]
    constructor
    · intro h _
      obtain ⟨b', hb', hw⟩ := Option.map_eq_some_iff.1 h
      rw [hb', Option.some_inj]
      exact congrArg Weights.w2 hw
    · intro h
      rw [h hx]
      rfl
  · exact iff_of_true (getBarycentricCoords_not_x hx a b) fun h => absurd h hx

/-- Whatever is computed sums to one, so weights that give the point back are those of `planePoint`. -/
theorem weights_unique (hn : normal p00 p10 p01 ≠ ⟨0, 0, 0⟩) {a b : K} {w : Weights K} (hsum : w.w0 + w.w1 + w.w2 = 1)
    (h : (BarycentricTriangle.new p00 p10 p01).getPoint w = planePoint p00 p10 p01 a b) : w = ⟨1 - a - b, a, b⟩ := by
  have hw : w = ⟨1 - w.w1 - w.w2, w.w1, w.w2⟩ := by
    ext
    · linear_combination hsum
    · rfl
    · rfl
  rw [hw, getPoint_eq] at h
  obtain ⟨rfl, rfl⟩ := planePoint_inj hn h
  exact hw

/-- In a plane, the weights and the test are right exactly where the normal is not longest in `x` or the first
branch hits the right quotient, and the point is not among those outside the triangle that the first weight alone
lets pass. -/
theorem weightsRight_iff (hn : normal p00 p10 p01 ≠ ⟨0, 0, 0⟩) (hp : InPlane p00 p10 p01 p) :
    WeightsRight p00 p10 p01 p ↔
      (LargestX (normal p00 p10 p01) → FirstBranchRight p00 p10 p01 p) ∧
        (InTriangle p00 p10 p01 p ∨ Beyond p00 p10 p01 p) := by
  obtain ⟨a, b, rfl⟩ := exists_planePoint hn hp
  have hcontains : (BarycentricTriangle.new p00 p10 p01).getBarycentricCoords (planePoint p00 p10 p01 a b) =
      some ⟨1 - a - b, a, b⟩ →
      ((BarycentricTriangle.new p00 p10 p01).contains (planePoint p00 p10 p01 a b) = some true ↔ a + b ≤ 1) := by
    intro h
    rw [BarycentricTriangle.contains, h, Option.map_some, Option.some_inj, decide_eq_true_iff, ge_iff_le, sub_sub,
      sub_nonneg]
  rw [← getBarycentricCoords_iff hn, inTriangle_planePoint hn, beyond_planePoint hn]
  constructor
  · rintro ⟨w, hw, hsum, hpoint, htest⟩
    rw [weights_unique hn hsum hpoint] at hw
    rw [hcontains hw, inTriangle_planePoint hn] at htest
    refine ⟨hw, ?_⟩
    rcases le_or_gt (a + b) 1 with hab | hab
    · exact .inl (htest.1 hab)
    · exact .inr hab
  · rintro ⟨hw, hplace⟩
    refine ⟨_, hw, by ring, getPoint_eq a b, ?_⟩
    rw [hcontains hw, inTriangle_planePoint hn]
    rcases hplace with hin | hbeyond
    · exact iff_of_true hin.2.2 hin
    · exact iff_of_false (not_le.2 hbeyond) fun h => absurd h.2.2 (not_le.2 hbeyond)

end

/-- A triangle of the plane `z = 0`: the centroid. -/
theorem centroid_right : WeightsRight (K := ℚ) ⟨0, 0, 0⟩ ⟨3, 0, 0⟩ ⟨0, 3, 0⟩ ⟨1, 1, 0⟩ := by
  refine (weightsRight_iff (by decide +kernel) (by decide +kernel)).2 ⟨?_, .inl ?_⟩
  · intro h
    exact absurd h.2 (by norm_num [normal, Vec4.cross3, Vec4.subtract3])
  · exact ⟨1 / 3, 1 / 3, by norm_num, by norm_num, by norm_num, by simp [planePoint]⟩

/-- A triangle of the plane `x = 0` divides by zero; a point left of a triangle of the plane `z = 0` passes. -/
theorem firstBranch_and_left_of_triangle :
    (normal (K := ℚ) ⟨0, 0, 0⟩ ⟨0, 1, 0⟩ ⟨0, 0, 1⟩ ≠ ⟨0, 0, 0⟩ ∧
      InPlane (K := ℚ) ⟨0, 0, 0⟩ ⟨0, 1, 0⟩ ⟨0, 0, 1⟩ ⟨0, 0, 0⟩ ∧
      ¬WeightsRight (K := ℚ) ⟨0, 0, 0⟩ ⟨0, 1, 0⟩ ⟨0, 0, 1⟩ ⟨0, 0, 0⟩) ∧
    (normal (K := ℚ) ⟨0, 0, 0⟩ ⟨1, 0, 0⟩ ⟨0, 1, 0⟩ ≠ ⟨0, 0, 0⟩ ∧
      InPlane (K := ℚ) ⟨0, 0, 0⟩ ⟨1, 0, 0⟩ ⟨0, 1, 0⟩ ⟨-1, 0, 0⟩ ∧
      ¬WeightsRight (K := ℚ) ⟨0, 0, 0⟩ ⟨1, 0, 0⟩ ⟨0, 1, 0⟩ ⟨-1, 0, 0⟩) := by
  refine ⟨⟨by decide +kernel, by decide +kernel, ?_⟩, by decide +kernel, by decide +kernel, ?_⟩
  · rintro ⟨w, hw, -⟩
    have hnone : (BarycentricTriangle.new (K := ℚ) ⟨0, 0, 0⟩ ⟨0, 1, 0⟩ ⟨0, 0, 1⟩).getBarycentricCoords ⟨0, 0, 0⟩ =
        none := by
      decide +kernel
    rw [hnone] at hw
    cases hw
  · rintro ⟨-, -, -, -, htest⟩
    have hpass : (BarycentricTriangle.new (K := ℚ) ⟨0, 0, 0⟩ ⟨1, 0, 0⟩ ⟨0, 1, 0⟩).contains ⟨-1, 0, 0⟩ =
        some true := by
      decide +kernel
    obtain ⟨a, b, ha, -, -, h⟩ := htest.1 hpass
    have hx := congrArg Vec4.x h
    simp only [planePoint] at hx
    linarith

end WorldWind.Geom.Exact
