import WorldWind.GeometryBuilder.Normals
import WorldWind.Lib.Loops
import WorldWind.Lib.Grid
/-!
# The normals of the first and the last loop

Over the reals. The disk finds the cyclic neighbours of each slice. The long
disk takes a vertex for its own predecessor in the first slice, and a vertex of
the first loop for the successor of the last slice; that shows unless the faces
concerned have the same normal or none (`diskNormals_right_iff`).
-/

namespace WorldWind.GeometryBuilder

open Geom.Exact Lib.JavaArray Lib.Loops Lib.Grid

/-! ## Normalized vectors -/

/-- A result of `norm3`. -/
def UnitOrZero (v : Vec4 ℝ) : Prop := v = zero ∨ v.dot3 v = 1

theorem norm3_zero : norm3 Real.sqrt (zero : Vec4 ℝ) = zero := by
  simp [norm3, zero]

theorem norm3_of_ne {v : Vec4 ℝ} (h : v ≠ zero) :
    0 < Real.sqrt (v.dot3 v) ∧ (norm3 Real.sqrt v).multiply3 (Real.sqrt (v.dot3 v)) = v := by
  have hpos := Vec4.dot3_self_pos h
  have hsqrt := Real.sqrt_pos.2 hpos
  refine ⟨hsqrt, ?_⟩
  have hne : v.x * v.x + v.y * v.y + v.z * v.z ≠ 0 := hpos.ne'
  simp only [norm3, if_pos hne, Vec4.multiply3]
  rw [Vec4.dot3] at hsqrt ⊢
  ext <;> exact div_mul_cancel₀ _ hsqrt.ne'

theorem norm3_unitOrZero (v : Vec4 ℝ) : UnitOrZero (norm3 Real.sqrt v) := by
  by_cases h : v = zero
  · left
    rw [h, norm3_zero]
  · right
    obtain ⟨hpos, hmul⟩ := norm3_of_ne h
    have hsquare := Real.mul_self_sqrt (Vec4.dot3_self_pos h).le
    generalize Real.sqrt (v.dot3 v) = len at hpos hmul hsquare
    have hdot : v.dot3 v = (norm3 Real.sqrt v).dot3 (norm3 Real.sqrt v) * (len * len) := by
      conv_lhs => rw [← hmul]
      simp only [Vec4.dot3, Vec4.multiply3]
      ring
    have hlen : (norm3 Real.sqrt v).dot3 (norm3 Real.sqrt v) * (len * len) = 1 * (len * len) := by
      rw [one_mul, ← hdot, hsquare]
    exact mul_right_cancel₀ (mul_pos hpos hpos).ne' hlen

theorem norm3_eq_zero {v : Vec4 ℝ} (h : norm3 Real.sqrt v = zero) : v = zero := by
  by_contra hne
  have hmul := (norm3_of_ne hne).2
  rw [h] at hmul
  exact hne (hmul ▸ by simp [Vec4.multiply3, zero])

theorem norm3_unit {v : Vec4 ℝ} (h : v.dot3 v = 1) : norm3 Real.sqrt v = v := by
  have hne : v ≠ zero := by
    rintro rfl
    simp [Vec4.dot3, zero] at h
  have hmul := (norm3_of_ne hne).2
  rw [h, Real.sqrt_one] at hmul
  simpa [Vec4.multiply3] using hmul

/-- The sign does not change which sums have the same direction. -/
theorem norm3_nsign (orientation : Orientation) (v : Vec4 ℝ) :
    norm3 Real.sqrt (v.multiply3 orientation.nsign) = (norm3 Real.sqrt v).multiply3 orientation.nsign := by
  cases orientation with
  | outside => simp [Orientation.nsign, Vec4.multiply3]
  | inside =>
    have hlen : -v.x * -v.x + -v.y * -v.y + -v.z * -v.z = v.x * v.x + v.y * v.y + v.z * v.z := by ring
    simp only [Orientation.nsign, Vec4.multiply3, mul_neg_one, norm3, hlen]
    split
    · simp only [neg_div]
    · rfl

theorem multiply3_nsign_inj {orientation : Orientation} {v w : Vec4 ℝ}
    (h : v.multiply3 orientation.nsign = w.multiply3 orientation.nsign) : v = w := by
  have hne : (orientation.nsign : ℝ) ≠ 0 := by cases orientation <;> simp [Orientation.nsign]
  exact Vec4.ext (mul_right_cancel₀ hne (congrArg Vec4.x h)) (mul_right_cancel₀ hne (congrArg Vec4.y h))
    (mul_right_cancel₀ hne (congrArg Vec4.z h))

/-- Two vectors of the same direction. -/
theorem norm3_proportional {v w : Vec4 ℝ} (hv : v ≠ zero) (h : norm3 Real.sqrt v = norm3 Real.sqrt w) :
    v.multiply3 (Real.sqrt (w.dot3 w)) = w.multiply3 (Real.sqrt (v.dot3 v)) := by
  have hw : w ≠ zero := by
    rintro rfl
    exact hv (norm3_eq_zero (h.trans norm3_zero))
  have hv' := (norm3_of_ne hv).2
  have hw' := (norm3_of_ne hw).2
  generalize Real.sqrt (v.dot3 v) = a at hv' ⊢
  generalize Real.sqrt (w.dot3 w) = b at hw' ⊢
  rw [← hv', ← hw', h]
  ext <;> simp only [Vec4.multiply3] <;> ring

/-! ## Sums of two face normals -/

/-- The same direction after one of two face normals was taken for another. -/
def SameSum (x y z : Vec4 ℝ) : Prop := x = y ∨ x = zero ∧ y = z ∨ y = zero ∧ x = z

theorem add3_zero (v : Vec4 ℝ) : v.add3 zero = v := by
  simp [Vec4.add3, zero]

theorem zero_add3 (v : Vec4 ℝ) : (zero : Vec4 ℝ).add3 v = v := by
  simp [Vec4.add3, zero]

/-- A unit vector that does not change the direction of another is the same. -/
theorem eq_of_norm3_add3 {y z : Vec4 ℝ} (hy : y.dot3 y = 1) (hz : z.dot3 z = 1)
    (h : z = norm3 Real.sqrt (y.add3 z)) : y = z := by
  have hz0 : z ≠ zero := by
    rintro rfl
    simp [Vec4.dot3, zero] at hz
  have hmul := (norm3_of_ne (v := y.add3 z) fun h0 => hz0 (h.trans (h0 ▸ norm3_zero))).2
  have hpos := (norm3_of_ne (v := y.add3 z) fun h0 => hz0 (h.trans (h0 ▸ norm3_zero))).1
  rw [← h] at hmul
  generalize Real.sqrt _ = c at hmul hpos
  have hy' : y = z.multiply3 (c - 1) := by
    have hx := congrArg Vec4.x hmul
    have hy := congrArg Vec4.y hmul
    have hz := congrArg Vec4.z hmul
    simp only [Vec4.multiply3, Vec4.add3] at hx hy hz
    ext <;> simp only [Vec4.multiply3] <;> linarith
  have hc : (c - 1) * (c - 1) = 1 := by
    rw [hy'] at hy
    simp only [Vec4.dot3, Vec4.multiply3] at hy hz
    linear_combination hy - (c - 1) * (c - 1) * hz
  have htwo : c = 2 := by nlinarith
  rw [hy', htwo]
  norm_num [Vec4.multiply3]

/-- Two unit vectors that turn a third one into the same direction are the same. -/
theorem eq_of_same_direction {x y z : Vec4 ℝ} (hx : x.dot3 x = 1) (hy : y.dot3 y = 1) (hz : z.dot3 z = 1)
    (h : norm3 Real.sqrt (x.add3 z) = norm3 Real.sqrt (y.add3 z)) : x = y := by
  by_cases hx0 : x.add3 z = zero
  · have hy0 : y.add3 z = zero := norm3_eq_zero (by rw [← h, hx0, norm3_zero])
    have hxy : x.add3 z = y.add3 z := hx0.trans hy0.symm
    exact Vec4.ext (add_right_cancel (congrArg Vec4.x hxy)) (add_right_cancel (congrArg Vec4.y hxy))
      (add_right_cancel (congrArg Vec4.z hxy))
  · have hy0 : y.add3 z ≠ zero := fun h0 => hx0 (norm3_eq_zero (by rw [h, h0, norm3_zero]))
    have hprop := norm3_proportional hx0 h
    have hapos := (norm3_of_ne hx0).1
    have hbpos := (norm3_of_ne hy0).1
    have ha := Real.mul_self_sqrt (Vec4.dot3_self_pos hx0).le
    have hb := Real.mul_self_sqrt (Vec4.dot3_self_pos hy0).le
    generalize Real.sqrt ((x.add3 z).dot3 (x.add3 z)) = a at hprop hapos ha
    generalize Real.sqrt ((y.add3 z).dot3 (y.add3 z)) = b at hprop hbpos hb
    have h1 := congrArg Vec4.x hprop
    have h2 := congrArg Vec4.y hprop
    have h3 := congrArg Vec4.z hprop
    simp only [Vec4.dot3, Vec4.multiply3, Vec4.add3] at hx hy hz ha hb h1 h2 h3
    -- the two sums go equally far along the third vector
    have halong : a * b * (a - b) = 0 := by
      have hxz : b * (x.x * z.x + x.y * z.y + x.z * z.z + 1) = a * (y.x * z.x + y.y * z.y + y.z * z.z + 1) := by
        linear_combination z.x * h1 + z.y * h2 + z.z * h3 + (a - b) * hz
      have hxa : a * a = 2 * (x.x * z.x + x.y * z.y + x.z * z.z + 1) := by linear_combination ha + hx + hz
      have hyb : b * b = 2 * (y.x * z.x + y.y * z.y + y.z * z.z + 1) := by linear_combination hb + hy + hz
      linear_combination b * hxa - a * hyb + 2 * hxz
    have hab : a = b := by
      rcases mul_eq_zero.1 halong with h0 | h0
      · exact absurd h0 (mul_pos hapos hbpos).ne'
      · exact sub_eq_zero.1 h0
    rw [hab] at h1 h2 h3
    exact Vec4.ext (add_right_cancel (mul_right_cancel₀ hbpos.ne' h1))
      (add_right_cancel (mul_right_cancel₀ hbpos.ne' h2)) (add_right_cancel (mul_right_cancel₀ hbpos.ne' h3))

theorem norm3_add3_self {v : Vec4 ℝ} (h : v.dot3 v = 1) : norm3 Real.sqrt (v.add3 v) = v := by
  have hdot : (v.add3 v).dot3 (v.add3 v) = 2 * 2 := by
    simp only [Vec4.dot3, Vec4.add3] at h ⊢
    linear_combination 4 * h
  have hne : v.add3 v ≠ zero := by
    intro h0
    rw [h0] at hdot
    norm_num [Vec4.dot3, zero] at hdot
  have hmul := (norm3_of_ne hne).2
  rw [hdot, Real.sqrt_mul_self (by norm_num)] at hmul
  generalize norm3 Real.sqrt (v.add3 v) = n at hmul ⊢
  have hx := congrArg Vec4.x hmul
  have hy := congrArg Vec4.y hmul
  have hz := congrArg Vec4.z hmul
  simp only [Vec4.multiply3, Vec4.add3] at hx hy hz
  ext <;> linarith

theorem sameSum_iff {x y z : Vec4 ℝ} (hx : UnitOrZero x) (hy : UnitOrZero y) (hz : UnitOrZero z) :
    norm3 Real.sqrt (x.add3 z) = norm3 Real.sqrt (y.add3 z) ↔ SameSum x y z := by
  constructor
  · intro h
    rcases hz with rfl | hz
    · left
      have hself : ∀ {v : Vec4 ℝ}, UnitOrZero v → norm3 Real.sqrt v = v := by
        rintro v (rfl | hv)
        · exact norm3_zero
        · exact norm3_unit hv
      rw [add3_zero, add3_zero, hself hx, hself hy] at h
      exact h
    · rcases hx with rfl | hx
      · rw [zero_add3, norm3_unit hz] at h
        rcases hy with rfl | hy
        · exact .inl rfl
        · exact .inr (.inl ⟨rfl, eq_of_norm3_add3 hy hz h⟩)
      · rcases hy with rfl | hy
        · rw [zero_add3, norm3_unit hz] at h
          exact .inr (.inr ⟨rfl, eq_of_norm3_add3 hx hz h.symm⟩)
        · exact .inl (eq_of_same_direction hx hy hz h)
  · have htwice : ∀ v : Vec4 ℝ, UnitOrZero v → norm3 Real.sqrt (v.add3 v) = norm3 Real.sqrt (zero.add3 v) := by
      rintro v (rfl | hv)
      · rfl
      · rw [zero_add3, norm3_unit hv, norm3_add3_self hv]
    rintro (rfl | ⟨rfl, rfl⟩ | ⟨rfl, rfl⟩)
    · rfl
    · exact (htwice _ hy).symm
    · exact htwice _ hx

/-! ## What the methods compute -/

/-- Corner `i` of the source. -/
noncomputable def corner (srcVerts : List (Vec4 ℝ)) (i : Nat) : Vec4 ℝ := srcVerts.getD i zero

noncomputable def face (a b c : Vec4 ℝ) : Vec4 ℝ := norm3 Real.sqrt ((b.subtract3 a).cross3 (c.subtract3 a))

theorem face_unitOrZero (a b c : Vec4 ℝ) : UnitOrZero (face a b c) := norm3_unitOrZero _

/-- All corners of the faces are vertices. -/
def InRange (n : Nat) (faces : List (Nat × Nat × Nat)) : Prop := ∀ f ∈ faces, f.1 < n ∧ f.2.1 < n ∧ f.2.2 < n

theorem facenorm_eq {srcVerts : List (Vec4 ℝ)} {a b c : Nat} (ha : a < srcVerts.length) (hb : b < srcVerts.length)
    (hc : c < srcVerts.length) :
    facenorm Real.sqrt srcVerts a b c = some (face (corner srcVerts a) (corner srcVerts b) (corner srcVerts c)) := by
  simp only [facenorm, face, corner, List.getD_eq_getElem _ _ ha, List.getD_eq_getElem _ _ hb,
    List.getD_eq_getElem _ _ hc, List.getElem?_eq_getElem ha, List.getElem?_eq_getElem hb,
      List.getElem?_eq_getElem hc]
  rfl

theorem addFaces_eq {srcVerts : List (Vec4 ℝ)} {faces : List (Nat × Nat × Nat)} (h : InRange srcVerts.length faces)
    (norm : Vec4 ℝ) :
    addFaces Real.sqrt srcVerts faces norm = some (faces.foldl (fun norm f =>
      norm.add3 (face (corner srcVerts f.1) (corner srcVerts f.2.1) (corner srcVerts f.2.2))) norm) := by
  induction faces generalizing norm with
  | nil => rfl
  | cons f faces ih =>
    obtain ⟨ha, hb, hc⟩ := h f List.mem_cons_self
    have htail := ih (fun g hg => h g (List.mem_cons_of_mem _ hg))
      (norm.add3 (face (corner srcVerts f.1) (corner srcVerts f.2.1) (corner srcVerts f.2.2)))
    rw [addFaces, List.foldlM_cons, facenorm_eq ha hb hc]
    exact htail

theorem facesNormal_some {orientation : Orientation} {srcVerts : List (Vec4 ℝ)} {faces : List (Nat × Nat × Nat)}
    (h : InRange srcVerts.length faces) : ∃ norm, facesNormal Real.sqrt orientation srcVerts faces = some norm := by
  rw [facesNormal, addFaces_eq h]
  exact ⟨_, rfl⟩

/-- The signed and normalized sum of two faces. -/
noncomputable def twoFaces (orientation : Orientation) (f1 f2 : Vec4 ℝ) : Vec4 ℝ :=
  norm3 Real.sqrt ((f1.add3 f2).multiply3 orientation.nsign)

theorem twoFaces_eq_iff {orientation : Orientation} {x y z : Vec4 ℝ} (hx : UnitOrZero x) (hy : UnitOrZero y)
    (hz : UnitOrZero z) : twoFaces orientation x z = twoFaces orientation y z ↔ SameSum x y z := by
  rw [← sameSum_iff hx hy hz, twoFaces, twoFaces, norm3_nsign, norm3_nsign]
  exact ⟨multiply3_nsign_inj, fun h => h ▸ rfl⟩

/-- The first face of a boundary vertex, with the next slice. -/
noncomputable def nextFace (l : Nat) (a next adjacent : Vec4 ℝ) : Vec4 ℝ :=
    if l = 0 then face a next adjacent else face a adjacent next

/-- The second one, with the previous slice. -/
noncomputable def prevFace (l : Nat) (a prev adjacent : Vec4 ℝ) : Vec4 ℝ :=
    if l = 0 then face a adjacent prev else face a prev adjacent

theorem boundaryFaces_eq {orientation : Orientation} {srcVerts : List (Vec4 ℝ)}
    {l index prevSlice nextSlice adjacentLoop : Nat}
    (h1 : index < srcVerts.length) (h2 : prevSlice < srcVerts.length) (h3 : nextSlice < srcVerts.length)
    (h4 : adjacentLoop < srcVerts.length) :
    facesNormal Real.sqrt orientation srcVerts (boundaryFaces l index prevSlice nextSlice adjacentLoop) =
      some (twoFaces orientation
        (nextFace l (corner srcVerts index) (corner srcVerts nextSlice) (corner srcVerts adjacentLoop))
        (prevFace l (corner srcVerts index) (corner srcVerts prevSlice) (corner srcVerts adjacentLoop))) := by
  have hrange : InRange srcVerts.length (boundaryFaces l index prevSlice nextSlice adjacentLoop) := by
    intro f hf
    simp only [boundaryFaces, List.mem_cons, List.not_mem_nil, or_false] at hf
    rcases hf with rfl | rfl <;> split <;> exact ⟨by assumption, by assumption, by assumption⟩
  rw [facesNormal, addFaces_eq hrange]
  by_cases hl : l = 0
  · simp only [boundaryFaces, nextFace, prevFace, if_pos hl, List.foldl_cons, List.foldl_nil, zero_add3, twoFaces]
    rfl
  · simp only [boundaryFaces, nextFace, prevFace, if_neg hl, List.foldl_cons, List.foldl_nil, zero_add3, twoFaces]
    rfl

theorem internalFaces_some {orientation : Orientation} {srcVerts : List (Vec4 ℝ)}
    {step index prevSlice nextSlice prevLoop nextLoop : Nat} (h1 : index < srcVerts.length)
    (h2 : prevSlice + step < srcVerts.length) (h3 : nextSlice + step < srcVerts.length)
    (h4 : prevLoop < srcVerts.length) (h5 : nextLoop < srcVerts.length) :
    ∃ norm, facesNormal Real.sqrt orientation srcVerts
      (internalFaces step index prevSlice nextSlice prevLoop nextLoop) = some norm := by
  refine facesNormal_some fun f hf => ?_
  simp only [internalFaces, List.mem_cons, List.not_mem_nil, or_false] at hf
  rcases hf with rfl | rfl | rfl | rfl | rfl | rfl | rfl | rfl <;> refine ⟨?_, ?_, ?_⟩ <;> simp only [] <;> omega

/-! ## The loops -/

theorem writeNormals_spec {n : Nat} {index : Nat → Nat} {normal : Nat → Option (Vec4 ℝ)} {v : Nat → Vec4 ℝ}
    (dest : List (Vec4 ℝ)) (hnormal : ∀ s < n, normal s = some (v s)) (hlt : ∀ s < n, index s < dest.length)
    (hinj : ∀ s t, s < n → t < n → index s = index t → s = t) :
    ∃ dest', writeNormals n index normal dest = some dest' ∧ dest'.length = dest.length ∧
      (∀ s < n, dest'[index s]? = some (v s)) ∧ ∀ p, (∀ s < n, index s ≠ p) → dest'[p]? = dest[p]? := by
  have hloop := @foldlM_range _ (fun dest s => (normal s).bind (write dest (index s)))
    (fun k d => d.length = dest.length ∧ (∀ s < k, s < n → d[index s]? = some (v s)) ∧
      ∀ p, (∀ s < k, index s ≠ p) → d[p]? = dest[p]?) n dest
    ⟨rfl, fun s hs => absurd hs (Nat.not_lt_zero s), fun p _ => rfl⟩ ?_
  · obtain ⟨d, hd, hlen, hin, hout⟩ := hloop
    exact ⟨d, hd, hlen, fun s hs => hin s hs hs, hout⟩
  · rintro k d hk ⟨hlen, hin, hout⟩
    have hk' : index k < d.length := hlen ▸ hlt k hk
    refine ⟨d.set (index k) (v k), ?_, by rw [List.length_set, hlen], ?_, ?_⟩
    · rw [hnormal k hk, Option.bind_some, write, if_pos hk']
    · intro s hs hsn
      by_cases heq : s = k
      · rw [heq, List.getElem?_set_self hk']
      · rw [List.getElem?_set_ne fun h => heq (hinj s k hsn hk h.symm)]
        exact hin s (by omega) hsn
    · intro p hp
      rw [List.getElem?_set_ne (hp k (by omega))]
      exact hout p fun s hs => hp s (by omega)

/-- All loops are written, each slice once. -/
theorem loops_spec {slices loops : Nat} {index : Nat → Nat → Nat} {normal : Nat → Nat → Option (Vec4 ℝ)}
    {v : Nat → Nat → Vec4 ℝ} {dest : List (Vec4 ℝ)}
    (hnormal : ∀ l s, l < loops → s < slices → normal l s = some (v l s))
    (hlt : ∀ l s, l < loops → s < slices → index l s < dest.length)
    (hinj : ∀ l s k t, s < slices → t < slices → l < loops → k < loops → index l s = index k t → l = k ∧ s = t) :
    ∃ dest', (List.range loops).foldlM (fun dest l => writeNormals slices (index l) (normal l) dest) dest =
      some dest' ∧
      ∀ l s, l < loops → s < slices → dest'[index l s]? = some (v l s) := by
  have hloop := @foldlM_range _ (fun dest l => writeNormals slices (index l) (normal l) dest)
    (fun k d => d.length = dest.length ∧ ∀ l s, l < k → l < loops → s < slices → d[index l s]? = some (v l s))
    loops dest ⟨rfl, fun l s hl => absurd hl (Nat.not_lt_zero l)⟩ ?_
  · obtain ⟨d, hd, -, hin⟩ := hloop
    exact ⟨d, hd, fun l s hl => hin l s hl hl⟩
  · rintro k d hk ⟨hlen, hin⟩
    obtain ⟨d', hd', hlen', hin', hout'⟩ := writeNormals_spec d (hnormal k · hk) (fun s hs => hlen ▸ hlt k s hk hs)
      fun s t hs ht h => (hinj k s k t hs ht hk hk h).2
    refine ⟨d', hd', hlen'.trans hlen, ?_⟩
    intro l s hl hln hs
    by_cases heq : l = k
    · rw [heq]
      exact hin' s hs
    · rw [hout' _ fun t ht h => heq (hinj k t l s ht hs hk hln h).1.symm]
      exact hin l s (by omega) hln hs

/-! ## The cyclic neighbours -/

def pred (slices s : Nat) : Nat := (s + slices - 1) % slices

def succ (slices s : Nat) : Nat := (s + 1) % slices

theorem pred_eq {slices s : Nat} (hs : s < slices) : pred slices s = if s = 0 then slices - 1 else s - 1 := by
  rw [pred]
  split
  · rw [show s + slices - 1 = slices - 1 by omega]
    exact Nat.mod_eq_of_lt (by omega)
  · rw [show s + slices - 1 = (s - 1) + slices by omega, Nat.add_mod_right]
    exact Nat.mod_eq_of_lt (by omega)

theorem succ_eq {slices s : Nat} (hs : s < slices) : succ slices s = if s = slices - 1 then 0 else s + 1 := by
  rw [succ]
  split
  · rw [show s + 1 = slices by omega, Nat.mod_self]
  · exact Nat.mod_eq_of_lt (by omega)

theorem pred_lt {slices s : Nat} (hs : s < slices) : pred slices s < slices := Nat.mod_lt _ (by omega)

theorem succ_lt {slices s : Nat} (hs : s < slices) : succ slices s < slices := Nat.mod_lt _ (by omega)

/-- The loop next to the first or the last one. -/
def adjacent (loops l : Nat) : Nat := if l = 0 then 1 else loops - 1

variable (v : Nat → Nat → Vec4 ℝ) (slices loops l s : Nat)

/-- The face of slice `s` and its successor. -/
noncomputable def successorFace : Vec4 ℝ := nextFace l (v l s) (v l (succ slices s)) (v (adjacent loops l) s)

/-- The face of slice `s` and its predecessor. -/
noncomputable def predecessorFace : Vec4 ℝ := prevFace l (v l s) (v l (pred slices s)) (v (adjacent loops l) s)

/-- The normal of slice `s` of the first or the last loop of the vertices `v`. -/
noncomputable def cyclicNormal (orientation : Orientation) : Vec4 ℝ :=
  twoFaces orientation (successorFace v slices loops l s) (predecessorFace v slices loops l s)

/-! ## The disk -/

/-- The vertices of a disk. -/
noncomputable def diskVertex (srcVerts : List (Vec4 ℝ)) (loops l s : Nat) : Vec4 ℝ :=
  corner srcVerts (l + s * (loops + 1))

variable {slices loops l s} {orientation : Orientation} {innerRadius : ℝ} {srcVerts dest : List (Vec4 ℝ)}

theorem diskIndex_lt (hl : l ≤ loops) (hs : s < slices) : l + s * (loops + 1) < slices * (loops + 1) := by
  rw [Nat.add_comm]
  exact cell_lt hs (by omega)

theorem diskBoundaryNormal_eq (hl : l = 0 ∨ l = loops) (hloops : 1 ≤ loops) (hs : s < slices) (hslices : 3 ≤ slices)
    (hsrc : getDiskVertexCount slices loops ≤ srcVerts.length) :
    diskBoundaryNormal Real.sqrt orientation slices loops srcVerts l s =
      some (cyclicNormal (diskVertex srcVerts loops) slices loops l s orientation) := by
  have hle : l ≤ loops := by omega
  have hprev : (if s = 0 then l + (slices - 1) * (loops + 1) else l + (s - 1) * (loops + 1)) =
      l + pred slices s * (loops + 1) := by
    rw [pred_eq hs]
    split <;> rfl
  have hnext : (if s ≠ 0 ∧ s = slices - 1 then l else l + (s + 1) * (loops + 1)) =
      l + succ slices s * (loops + 1) := by
    rw [succ_eq hs]
    by_cases hlast : s = slices - 1
    · rw [if_pos ⟨by omega, hlast⟩, if_pos hlast, Nat.zero_mul, Nat.add_zero]
    · rw [if_neg fun h => hlast h.2, if_neg hlast]
  have hadjacent : (if l = 0 then l + s * (loops + 1) + 1 else l + s * (loops + 1) - 1) =
      adjacent loops l + s * (loops + 1) := by
    rw [adjacent]
    split <;> omega
  have hin : ∀ {k t : Nat}, k ≤ loops → t < slices → k + t * (loops + 1) < srcVerts.length :=
    fun hk ht => lt_of_lt_of_le (diskIndex_lt hk ht) hsrc
  have hadjacentLe : adjacent loops l ≤ loops := by
    rw [adjacent]
    split <;> omega
  simp only [diskBoundaryNormal]
  rw [hprev, hnext, hadjacent, boundaryFaces_eq (hin hle hs) (hin hle (pred_lt hs)) (hin hle (succ_lt hs))
    (hin hadjacentLe hs)]
  rfl

theorem diskInternalNormal_some (orientation : Orientation) (hl : 1 ≤ l) (hl' : l < loops) (hs : s < slices)
    (hslices : 3 ≤ slices)
    (hsrc : getDiskVertexCount slices loops ≤ srcVerts.length) :
    ∃ norm, diskInternalNormal Real.sqrt orientation slices loops srcVerts l s = some norm := by
  have hin : ∀ {k t : Nat}, k ≤ loops → t < slices → k + t * (loops + 1) < srcVerts.length :=
    fun hk ht => lt_of_lt_of_le (diskIndex_lt hk ht) hsrc
  refine internalFaces_some (hin (by omega) hs) ?_ ?_ ?_ ?_
  · split
    · exact lt_of_eq_of_lt (by omega) (hin (k := l + 1) (t := slices - 1) (by omega) (by omega))
    · exact lt_of_eq_of_lt (by omega) (hin (k := l + 1) (t := s - 1) (by omega) (by omega))
  · split
    · exact lt_of_eq_of_lt (by omega) (hin (k := l + 1) (t := 0) (by omega) (by omega))
    · exact lt_of_eq_of_lt (by omega) (hin (k := l + 1) (t := s + 1) (by omega) (by omega))
  · exact lt_of_eq_of_lt (by omega) (hin (k := l - 1) (t := s) (by omega) (by omega))
  · exact lt_of_eq_of_lt (by omega) (hin (k := l + 1) (t := s) (by omega) (by omega))

/-- Where the inner radius is not zero, all loops are written the same way. -/
theorem loops_eq {index : Nat → Nat → Nat} (center : Nat → List (Vec4 ℝ) → Option (List (Vec4 ℝ)))
    {boundary internal : Nat → Nat → Option (Vec4 ℝ)} (hradius : innerRadius ≠ 0) :
    (List.range (loops + 1)).foldlM (fun dest l =>
      if l = 0 ∨ l = loops then
        if l = 0 ∧ innerRadius = 0 then center l dest
        else writeNormals slices (index l) (boundary l) dest
      else writeNormals slices (index l) (internal l) dest) dest =
    (List.range (loops + 1)).foldlM (fun dest l => writeNormals slices (index l)
      (fun s => if l = 0 ∨ l = loops then boundary l s else internal l s) dest) dest := by
  congr 1
  funext dest l
  by_cases hl : l = 0 ∨ l = loops
  · simp only [if_pos hl, if_neg fun h : l = 0 ∧ innerRadius = 0 => hradius h.2]
  · simp only [if_neg hl]

/-- The normals of the first and the last loop are the cyclic ones. -/
def DiskNormalsRight (orientation : Orientation) (innerRadius : ℝ) (slices loops : Nat)
    (srcVerts dest : List (Vec4 ℝ)) :
    Prop :=
  ∃ dest', makeDiskVertexNormals Real.sqrt orientation innerRadius slices loops srcVerts dest = some dest' ∧
    ∀ l s, l = 0 ∨ l = loops → s < slices →
      dest'[l + s * (loops + 1)]? = some (cyclicNormal (diskVertex srcVerts loops) slices loops l s orientation)

theorem diskNormals_right (hradius : innerRadius ≠ 0) (hslices : 3 ≤ slices) (hloops : 1 ≤ loops)
    (hsrc : getDiskVertexCount slices loops ≤ srcVerts.length)
    (hdest : getDiskVertexCount slices loops ≤ dest.length) :
    DiskNormalsRight orientation innerRadius slices loops srcVerts dest := by
  have hnormal : ∀ l s, ∃ norm, l < loops + 1 → s < slices →
      (if l = 0 ∨ l = loops then diskBoundaryNormal Real.sqrt orientation slices loops srcVerts l s
        else diskInternalNormal Real.sqrt orientation slices loops srcVerts l s) = some norm := by
    intro l s
    by_cases hlt : l < loops + 1 ∧ s < slices
    · by_cases hl : l = 0 ∨ l = loops
      · exact ⟨_, fun _ _ => (if_pos hl).trans (diskBoundaryNormal_eq hl hloops hlt.2 hslices hsrc)⟩
      · obtain ⟨norm, h⟩ := diskInternalNormal_some orientation (l := l) (by omega) (by omega) hlt.2 hslices hsrc
        exact ⟨norm, fun _ _ => (if_neg hl).trans h⟩
    · exact ⟨zero, fun h1 h2 => absurd ⟨h1, h2⟩ hlt⟩
  choose norm hnorm using hnormal
  have hinj : ∀ l s k t, s < slices → t < slices → l < loops + 1 → k < loops + 1 →
      l + s * (loops + 1) = k + t * (loops + 1) → l = k ∧ s = t := by
    intro l s k t hs ht hl hk heq
    rw [Nat.add_comm l, Nat.add_comm k] at heq
    have hdiv := congrArg (· / (loops + 1)) heq
    have hmod := congrArg (· % (loops + 1)) heq
    simp only [cell_div s hl, cell_div t hk, cell_mod s hl, cell_mod t hk] at hdiv hmod
    exact ⟨hmod, hdiv⟩
  obtain ⟨dest', hrun, hdest'⟩ := loops_spec hnorm
    (fun l s hl hs => lt_of_lt_of_le (diskIndex_lt (by omega) hs) hdest) hinj
  refine ⟨dest', ?_, ?_⟩
  · rw [makeDiskVertexNormals, if_neg (not_lt.2 hdest)]
    exact (loops_eq (fun l dest => (diskCenterNormal Real.sqrt orientation slices loops srcVerts).bind fun norm =>
      writeNormals slices (fun s => l + s * (loops + 1)) (fun _ => some norm) dest) hradius).trans hrun
  · intro l s hl hs
    have heq := hnorm l s (by omega) hs
    rw [if_pos hl, diskBoundaryNormal_eq hl hloops hs hslices hsrc] at heq
    rw [hdest' l s (by omega) hs, ← heq]

/-! ## The long disk -/

/-- The vertices of a long disk. -/
noncomputable def longDiskVertex (srcVerts : List (Vec4 ℝ)) (slices l s : Nat) : Vec4 ℝ :=
  corner srcVerts (s + l * slices)

theorem longDiskIndex_lt (hl : l ≤ loops) (hs : s < slices) : s + l * slices < slices * (loops + 1) := by
  rw [Nat.add_comm, Nat.mul_comm slices]
  exact cell_lt (by omega) hs

/-- The successor that the method takes. -/
noncomputable def longDiskNext (srcVerts : List (Vec4 ℝ)) (slices l s : Nat) : Vec4 ℝ :=
  if s = slices - 1 then corner srcVerts l else longDiskVertex srcVerts slices l (s + 1)

/-- The predecessor that the method takes. -/
noncomputable def longDiskPrev (srcVerts : List (Vec4 ℝ)) (slices l s : Nat) : Vec4 ℝ :=
  longDiskVertex srcVerts slices l (s - 1)

theorem longDiskBoundaryNormal_eq (hl : l = 0 ∨ l = loops) (hloops : 1 ≤ loops) (hs : s < slices)
    (hslices : 4 ≤ slices)
    (hsrc : slices * (loops + 1) ≤ srcVerts.length) :
    longDiskBoundaryNormal Real.sqrt orientation slices srcVerts l s =
      some (twoFaces orientation
        (nextFace l (longDiskVertex srcVerts slices l s) (longDiskNext srcVerts slices l s)
          (longDiskVertex srcVerts slices (adjacent loops l) s))
        (prevFace l (longDiskVertex srcVerts slices l s) (longDiskPrev srcVerts slices l s)
          (longDiskVertex srcVerts slices (adjacent loops l) s))) := by
  have hle : l ≤ loops := by omega
  have hin : ∀ {k t : Nat}, k ≤ loops → t < slices → t + k * slices < srcVerts.length :=
    fun hk ht => lt_of_lt_of_le (longDiskIndex_lt hk ht) hsrc
  have hprev : (if s = 0 then l * slices else s + l * slices - 1) = (s - 1) + l * slices := by
    split <;> omega
  have hnext : corner srcVerts (if s ≠ 0 ∧ s = slices - 1 then l else s + l * slices + 1) =
      longDiskNext srcVerts slices l s := by
    rw [longDiskNext]
    by_cases hlast : s = slices - 1
    · rw [if_pos ⟨by omega, hlast⟩, if_pos hlast]
    · rw [if_neg fun h => hlast h.2, if_neg hlast, longDiskVertex, Nat.add_right_comm]
  have hnextIn : (if s ≠ 0 ∧ s = slices - 1 then l else s + l * slices + 1) < srcVerts.length := by
    split
    · have hmul : 1 * (loops + 1) ≤ slices * (loops + 1) := Nat.mul_le_mul_right _ (by omega)
      omega
    · exact lt_of_eq_of_lt (by omega) (hin (t := s + 1) hle (by omega))
  have hadjacent : (if l = 0 then s + l * slices + slices else s + l * slices - slices) =
      s + adjacent loops l * slices := by
    rw [adjacent]
    rcases hl with rfl | rfl
    · rw [if_pos rfl, if_pos rfl]
      omega
    · rw [if_neg (by omega), if_neg (by omega), Nat.sub_mul]
      have hmul : 1 * slices ≤ l * slices := Nat.mul_le_mul_right _ hloops
      omega
  have hadjacentLe : adjacent loops l ≤ loops := by
    rw [adjacent]
    split <;> omega
  simp only [longDiskBoundaryNormal]
  rw [hprev, hadjacent, boundaryFaces_eq (hin hle hs) (hin hle (by omega)) hnextIn (hin hadjacentLe hs), hnext]
  rfl

theorem longDiskInternalNormal_some (orientation : Orientation) (hl : 1 ≤ l) (hl' : l < loops) (hs : s < slices)
    (hslices : 4 ≤ slices)
    (hsrc : slices * (loops + 1) ≤ srcVerts.length) :
    ∃ norm, longDiskInternalNormal Real.sqrt orientation slices srcVerts l s = some norm := by
  have hin : ∀ {k t : Nat}, k ≤ loops → t < slices → t + k * slices < srcVerts.length :=
    fun hk ht => lt_of_lt_of_le (longDiskIndex_lt hk ht) hsrc
  have hup : (l + 1) * slices = l * slices + slices := Nat.succ_mul l slices
  refine internalFaces_some (hin (by omega) hs) ?_ ?_ ?_ ?_
  · split
    · exact lt_of_eq_of_lt (by omega) (hin (k := l + 1) (t := slices - 1) (by omega) (by omega))
    · exact lt_of_eq_of_lt (by omega) (hin (k := l + 1) (t := s - 1) (by omega) (by omega))
  · split
    · exact lt_of_eq_of_lt (by omega) (hin (k := l + 1) (t := 0) (by omega) (by omega))
    · exact lt_of_eq_of_lt (by omega) (hin (k := l + 1) (t := s + 1) (by omega) (by omega))
  · have hdown : s + (l - 1) * slices = s + l * slices - slices := by
      rw [Nat.sub_mul]
      have hmul : 1 * slices ≤ l * slices := Nat.mul_le_mul_right _ hl
      omega
    exact hdown ▸ hin (by omega) hs
  · exact lt_of_eq_of_lt (by omega) (hin (k := l + 1) (t := s) (by omega) (by omega))

/-- The normal that the long disk's method computes. -/
noncomputable def longDiskNormal (orientation : Orientation) (srcVerts : List (Vec4 ℝ)) (slices loops l s : Nat) :
    Vec4 ℝ :=
  twoFaces orientation
    (nextFace l (longDiskVertex srcVerts slices l s) (longDiskNext srcVerts slices l s)
      (longDiskVertex srcVerts slices (adjacent loops l) s))
    (prevFace l (longDiskVertex srcVerts slices l s) (longDiskPrev srcVerts slices l s)
      (longDiskVertex srcVerts slices (adjacent loops l) s))

theorem longDisk_written (orientation : Orientation) {arcSlices lengthSlices : Nat} (hradius : innerRadius ≠ 0)
    (harc : 1 ≤ arcSlices)
    (hloops : 1 ≤ loops) (hslices : longDiskSlices arcSlices lengthSlices = slices)
    (hsrc : getLongDiskVertexCount arcSlices lengthSlices loops ≤ srcVerts.length)
    (hdest : getLongDiskVertexCount arcSlices lengthSlices loops ≤ dest.length) :
    ∃ dest', makeLongDiskVertexNormals Real.sqrt orientation innerRadius arcSlices lengthSlices loops srcVerts dest =
        some dest' ∧
      ∀ l s, l = 0 ∨ l = loops → s < slices →
        dest'[s + l * slices]? = some (longDiskNormal orientation srcVerts slices loops l s) := by
  have hfour : 4 ≤ slices := by
    rw [← hslices, longDiskSlices]
    omega
  rw [getLongDiskVertexCount, hslices] at hsrc hdest
  have hnormal : ∀ l s, ∃ norm, l < loops + 1 → s < slices →
      (if l = 0 ∨ l = loops then longDiskBoundaryNormal Real.sqrt orientation slices srcVerts l s
        else longDiskInternalNormal Real.sqrt orientation slices srcVerts l s) = some norm := by
    intro l s
    by_cases hlt : l < loops + 1 ∧ s < slices
    · by_cases hl : l = 0 ∨ l = loops
      · exact ⟨_, fun _ _ => (if_pos hl).trans (longDiskBoundaryNormal_eq hl hloops hlt.2 hfour hsrc)⟩
      · obtain ⟨norm, h⟩ := longDiskInternalNormal_some orientation (l := l) (by omega) (by omega) hlt.2 hfour
          hsrc
        exact ⟨norm, fun _ _ => (if_neg hl).trans h⟩
    · exact ⟨zero, fun h1 h2 => absurd ⟨h1, h2⟩ hlt⟩
  choose norm hnorm using hnormal
  have hinj : ∀ l s k t, s < slices → t < slices → l < loops + 1 → k < loops + 1 →
      s + l * slices = t + k * slices → l = k ∧ s = t := by
    intro l s k t hs ht hl hk heq
    rw [Nat.add_comm s, Nat.add_comm t] at heq
    have hdiv := congrArg (· / slices) heq
    have hmod := congrArg (· % slices) heq
    simp only [cell_div l hs, cell_div k ht, cell_mod l hs, cell_mod k ht] at hdiv hmod
    exact ⟨hdiv, hmod⟩
  obtain ⟨dest', hrun, hdest'⟩ := loops_spec hnorm
    (fun l s hl hs => lt_of_lt_of_le (longDiskIndex_lt (by omega) hs) hdest) hinj
  refine ⟨dest', ?_, ?_⟩
  · rw [makeLongDiskVertexNormals, getLongDiskVertexCount, hslices, if_neg (not_lt.2 hdest)]
    exact (loops_eq (fun _ =>
      longDiskCenterNormals Real.sqrt orientation arcSlices lengthSlices srcVerts) hradius).trans hrun
  · intro l s hl hs
    have heq := hnorm l s (by omega) hs
    rw [if_pos hl, longDiskBoundaryNormal_eq hl hloops hs hfour hsrc] at heq
    rw [hdest' l s (by omega) hs, ← heq]
    rfl

/-- What a vertex taken for another does not change: in the first slice of the two loops the vertex itself for its
predecessor, in the last slice of the last loop vertex `loops` of the array for the successor. -/
def SeamsAgree (srcVerts : List (Vec4 ℝ)) (slices loops : Nat) : Prop :=
  let v := longDiskVertex srcVerts slices
  (∀ l, l = 0 ∨ l = loops → predecessorFace v slices loops l 0 = zero ∨
    predecessorFace v slices loops l 0 = successorFace v slices loops l 0) ∧
  SameSum (nextFace loops (v loops (slices - 1)) (corner srcVerts loops) (v (loops - 1) (slices - 1)))
    (successorFace v slices loops loops (slices - 1)) (predecessorFace v slices loops loops (slices - 1))

theorem twoFaces_comm (orientation : Orientation) (x y : Vec4 ℝ) :
    twoFaces orientation x y = twoFaces orientation y x := by
  rw [twoFaces, twoFaces]
  congr 2
  exact Vec4.ext (add_comm _ _) (add_comm _ _) (add_comm _ _)

theorem face_same (a b : Vec4 ℝ) : face a b a = zero ∧ face a a b = zero := by
  constructor
  · have hcross : (b.subtract3 a).cross3 (a.subtract3 a) = zero := by
      simp [Vec4.subtract3, Vec4.cross3, zero]
    rw [face, hcross, norm3_zero]
  · have hcross : (a.subtract3 a).cross3 (b.subtract3 a) = zero := by
      simp [Vec4.subtract3, Vec4.cross3, zero]
    rw [face, hcross, norm3_zero]

theorem nextFace_unitOrZero (l : Nat) (a b c : Vec4 ℝ) : UnitOrZero (nextFace l a b c) := by
  rw [nextFace]
  split <;> exact face_unitOrZero ..

theorem prevFace_unitOrZero (l : Nat) (a b c : Vec4 ℝ) : UnitOrZero (prevFace l a b c) := by
  rw [prevFace]
  split <;> exact face_unitOrZero ..

theorem successorFace_unitOrZero (v : Nat → Nat → Vec4 ℝ) (slices loops l s : Nat) :
    UnitOrZero (successorFace v slices loops l s) := nextFace_unitOrZero ..

theorem predecessorFace_unitOrZero (v : Nat → Nat → Vec4 ℝ) (slices loops l s : Nat) :
    UnitOrZero (predecessorFace v slices loops l s) := prevFace_unitOrZero ..

theorem prevFace_self (l : Nat) (a b : Vec4 ℝ) : prevFace l a a b = zero := by
  rw [prevFace]
  split
  · exact (face_same a b).1
  · exact (face_same a b).2

theorem sameSum_zero {y z : Vec4 ℝ} : SameSum zero y z ↔ y = zero ∨ y = z := by
  constructor
  · rintro (h | ⟨-, h⟩ | ⟨h, -⟩)
    · exact .inl h.symm
    · exact .inr h
    · exact .inl h
  · rintro (h | h)
    · exact .inl h.symm
    · exact .inr (.inl ⟨rfl, h⟩)

/-- The first slice. -/
theorem longDiskNormal_first (hslices : 4 ≤ slices) :
    longDiskNormal orientation srcVerts slices loops l 0 =
        cyclicNormal (longDiskVertex srcVerts slices) slices loops l 0 orientation ↔
      predecessorFace (longDiskVertex srcVerts slices) slices loops l 0 = zero ∨
        predecessorFace (longDiskVertex srcVerts slices) slices loops l 0 =
          successorFace (longDiskVertex srcVerts slices) slices loops l 0 := by
  have hnext : longDiskNext srcVerts slices l 0 = longDiskVertex srcVerts slices l (succ slices 0) := by
    rw [longDiskNext, if_neg (by omega), succ_eq (by omega), if_neg (by omega)]
  rw [longDiskNormal, hnext, longDiskPrev, Nat.zero_sub, prevFace_self, cyclicNormal, ← successorFace,
    twoFaces_comm, twoFaces_comm _ (successorFace ..), twoFaces_eq_iff (.inl rfl)
    (predecessorFace_unitOrZero ..) (successorFace_unitOrZero ..), sameSum_zero]

theorem longDiskPrev_eq (hs : s < slices) (h0 : s ≠ 0) :
    longDiskPrev srcVerts slices l s = longDiskVertex srcVerts slices l (pred slices s) := by
  rw [longDiskPrev, pred_eq hs, if_neg h0]

/-- The slices between the first and the last. -/
theorem longDiskNormal_between (hs : s < slices) (h0 : s ≠ 0) (hlast : s ≠ slices - 1) :
    longDiskNormal orientation srcVerts slices loops l s =
      cyclicNormal (longDiskVertex srcVerts slices) slices loops l s orientation := by
  have hnext : longDiskNext srcVerts slices l s = longDiskVertex srcVerts slices l (succ slices s) := by
    rw [longDiskNext, if_neg hlast, succ_eq hs, if_neg hlast]
  rw [longDiskNormal, hnext, longDiskPrev_eq hs h0]
  rfl

/-- The last slice of the first loop. -/
theorem longDiskNormal_last_zero (hslices : 4 ≤ slices) :
    longDiskNormal orientation srcVerts slices loops 0 (slices - 1) =
      cyclicNormal (longDiskVertex srcVerts slices) slices loops 0 (slices - 1) orientation := by
  have hnext : longDiskNext srcVerts slices 0 (slices - 1) =
      longDiskVertex srcVerts slices 0 (succ slices (slices - 1)) := by
    rw [longDiskNext, if_pos rfl, succ_eq (by omega), if_pos rfl, longDiskVertex, Nat.zero_mul]
  rw [longDiskNormal, hnext, longDiskPrev_eq (by omega) (by omega)]
  rfl

/-- The last slice of the last loop. -/
theorem longDiskNormal_last (hslices : 4 ≤ slices) (hloops : 1 ≤ loops) :
    longDiskNormal orientation srcVerts slices loops loops (slices - 1) =
        cyclicNormal (longDiskVertex srcVerts slices) slices loops loops (slices - 1) orientation ↔
      SameSum (nextFace loops (longDiskVertex srcVerts slices loops (slices - 1)) (corner srcVerts loops)
          (longDiskVertex srcVerts slices (loops - 1) (slices - 1)))
        (successorFace (longDiskVertex srcVerts slices) slices loops loops (slices - 1))
        (predecessorFace (longDiskVertex srcVerts slices) slices loops loops (slices - 1)) := by
  have hadjacent : adjacent loops loops = loops - 1 := if_neg (by omega)
  rw [longDiskNormal, longDiskNext, if_pos rfl, longDiskPrev_eq (by omega) (by omega), cyclicNormal,
    ← predecessorFace,
    twoFaces_eq_iff (nextFace_unitOrZero ..) (successorFace_unitOrZero ..) (predecessorFace_unitOrZero ..), hadjacent]

/-- The normals of the first and the last loop are the cyclic ones. -/
def LongDiskNormalsRight (orientation : Orientation) (innerRadius : ℝ) (arcSlices lengthSlices loops : Nat)
    (srcVerts dest : List (Vec4 ℝ)) : Prop :=
  let slices := longDiskSlices arcSlices lengthSlices
  ∃ dest', makeLongDiskVertexNormals Real.sqrt orientation innerRadius arcSlices lengthSlices loops srcVerts dest =
      some dest' ∧
    ∀ l s, l = 0 ∨ l = loops → s < slices →
      dest'[s + l * slices]? = some (cyclicNormal (longDiskVertex srcVerts slices) slices loops l s orientation)

theorem longDiskNormals_right_iff {arcSlices lengthSlices : Nat} (hradius : innerRadius ≠ 0) (harc : 1 ≤ arcSlices)
    (hloops : 1 ≤ loops) (hsrc : getLongDiskVertexCount arcSlices lengthSlices loops ≤ srcVerts.length)
    (hdest : getLongDiskVertexCount arcSlices lengthSlices loops ≤ dest.length) :
    LongDiskNormalsRight orientation innerRadius arcSlices lengthSlices loops srcVerts dest ↔
      SeamsAgree srcVerts (longDiskSlices arcSlices lengthSlices) loops := by
  obtain ⟨slices, hslices⟩ : ∃ slices, longDiskSlices arcSlices lengthSlices = slices := ⟨_, rfl⟩
  have hfour : 4 ≤ slices := by
    rw [← hslices, longDiskSlices]
    omega
  obtain ⟨dest', hrun, hdest'⟩ := longDisk_written orientation hradius harc hloops hslices hsrc hdest
  -- the right result is the computed one
  have hright : LongDiskNormalsRight orientation innerRadius arcSlices lengthSlices loops srcVerts dest ↔
      ∀ l s, l = 0 ∨ l = loops → s < slices → longDiskNormal orientation srcVerts slices loops l s =
        cyclicNormal (longDiskVertex srcVerts slices) slices loops l s orientation := by
    rw [LongDiskNormalsRight, hslices]
    constructor
    · rintro ⟨dest'', hrun', h⟩ l s hl hs
      rw [hrun, Option.some_inj] at hrun'
      have heq := h l s hl hs
      rw [← hrun', hdest' l s hl hs, Option.some_inj] at heq
      exact heq
    · intro h
      exact ⟨dest', hrun, fun l s hl hs => by rw [hdest' l s hl hs, h l s hl hs]⟩
  rw [hright, hslices]
  constructor
  · intro h
    exact ⟨fun l hl => (longDiskNormal_first hfour).1 (h l 0 hl (by omega)),
      (longDiskNormal_last hfour hloops).1 (h loops (slices - 1) (.inr rfl) (by omega))⟩
  · rintro ⟨hfirst, hlast⟩ l s hl hs
    by_cases h0 : s = 0
    · rw [h0]
      exact (longDiskNormal_first hfour).2 (hfirst l hl)
    · by_cases hs' : s = slices - 1
      · rw [hs']
        rcases hl with rfl | rfl
        · exact longDiskNormal_last_zero hfour
        · exact (longDiskNormal_last hfour hloops).2 hlast
      · exact longDiskNormal_between hs h0 hs'

/-- The normals of the two loops are the cyclic ones, the long disk's where the seams do not show. -/
theorem diskNormals_right_iff {arcSlices lengthSlices : Nat} {longVerts longDest : List (Vec4 ℝ)}
    (hradius : innerRadius ≠ 0) (hslices : 3 ≤ slices) (harc : 1 ≤ arcSlices) (_hlength : 1 ≤ lengthSlices)
    (hloops : 1 ≤ loops) (hsrc : getDiskVertexCount slices loops ≤ srcVerts.length)
    (hdest : getDiskVertexCount slices loops ≤ dest.length)
    (hlongSrc : getLongDiskVertexCount arcSlices lengthSlices loops ≤ longVerts.length)
    (hlongDest : getLongDiskVertexCount arcSlices lengthSlices loops ≤ longDest.length) :
    DiskNormalsRight orientation innerRadius slices loops srcVerts dest ∧
        LongDiskNormalsRight orientation innerRadius arcSlices lengthSlices loops longVerts longDest ↔
      SeamsAgree longVerts (longDiskSlices arcSlices lengthSlices) loops := by
  rw [longDiskNormals_right_iff hradius harc hloops hlongSrc hlongDest]
  exact and_iff_right (diskNormals_right hradius hslices hloops hsrc hdest)

/-- A ring with all vertices in one point. -/
theorem collapsed_ring :
    DiskNormalsRight .outside 1 3 1 (List.replicate 6 zero) (List.replicate 6 zero) ∧
      LongDiskNormalsRight .outside 1 1 1 1 (List.replicate 8 zero) (List.replicate 8 zero) := by
  refine (diskNormals_right_iff one_ne_zero (by decide) le_rfl le_rfl le_rfl (by simp [getDiskVertexCount])
    (by simp [getDiskVertexCount]) (by simp [getLongDiskVertexCount, longDiskSlices])
    (by simp [getLongDiskVertexCount, longDiskSlices])).2 ?_
  have hcorner : ∀ i, corner (List.replicate 8 zero) i = zero := by
    intro i
    rw [corner, List.getD_eq_getElem?_getD, List.getElem?_replicate]
    split <;> rfl
  have hpred : ∀ l s, predecessorFace (longDiskVertex (List.replicate 8 zero) 4) 4 1 l s = zero := by
    intro l s
    simp only [predecessorFace, longDiskVertex, hcorner, prevFace_self]
  refine ⟨fun l _ => .inl (hpred l 0), .inl ?_⟩
  simp only [successorFace, longDiskVertex, hcorner]

/-- The two loops of a long disk with a step at its first slice. -/
def steppedVerts : List (Vec4 ℝ) :=
  [⟨0, 0, 0⟩, ⟨1, 0, 0⟩, ⟨1, 0, 1⟩, ⟨0, 0, 1⟩, ⟨0, 1, 0⟩, ⟨1, 1, 0⟩, ⟨1, 1, 1⟩, ⟨0, 1, 1⟩]

theorem stepped_first_slice : ¬LongDiskNormalsRight .outside 1 1 1 1 steppedVerts steppedVerts := by
  rw [longDiskNormals_right_iff one_ne_zero le_rfl le_rfl (by decide) (by decide)]
  rintro ⟨hfirst, -⟩
  have hpred : predecessorFace (longDiskVertex steppedVerts 4) 4 1 0 0 = ⟨1, 0, 0⟩ := by
    have hcross : (Vec4.subtract3 (⟨0, 1, 0⟩ : Vec4 ℝ) ⟨0, 0, 0⟩).cross3 (Vec4.subtract3 ⟨0, 0, 1⟩ ⟨0, 0, 0⟩) =
        ⟨1, 0, 0⟩ := by
      simp [Vec4.subtract3, Vec4.cross3]
    exact (congrArg _ hcross).trans (norm3_unit (by simp [Vec4.dot3]))
  have hsucc : successorFace (longDiskVertex steppedVerts 4) 4 1 0 0 = ⟨0, 0, 1⟩ := by
    have hcross : (Vec4.subtract3 (⟨1, 0, 0⟩ : Vec4 ℝ) ⟨0, 0, 0⟩).cross3 (Vec4.subtract3 ⟨0, 1, 0⟩ ⟨0, 0, 0⟩) =
        ⟨0, 0, 1⟩ := by
      simp [Vec4.subtract3, Vec4.cross3]
    exact (congrArg _ hcross).trans (norm3_unit (by simp [Vec4.dot3]))
  rcases hfirst 0 (.inl rfl) with h | h
  · have hx := congrArg Vec4.x (hpred.symm.trans h)
    simp [zero] at hx
  · have hx := congrArg Vec4.x (hpred.symm.trans (h.trans hsucc))
    simp at hx

end WorldWind.GeometryBuilder
