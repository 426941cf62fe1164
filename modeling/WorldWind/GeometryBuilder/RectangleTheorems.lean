import WorldWind.GeometryBuilder.Rectangles
/-!
# Where the rounded rectangles lie

Over the reals. Three corners lie in the rectangle and move with it. The lower
left one is put at the height of its own x coordinate; it lies in the rectangle
and moves with it where it has no inner vertices, or `x` and `y` differ little
enough (`rectangles_right_iff`).
-/

namespace WorldWind.GeometryBuilder.Rectangles

open scoped Lib.Numerals

noncomputable def realMath : Trigonometry ℝ := ⟨Real.cos, Real.sin, Real.pi⟩

/-- Moved by a vector. -/
def move (dx dy : ℝ) (v : Vertex ℝ) : Vertex ℝ := (v.1 + dx, v.2 + dy)

/-- All vertices lie in the closed rectangle. -/
def Contained (x y width height : ℝ) (vertices : List (Vertex ℝ)) : Prop :=
  ∀ v ∈ vertices, x ≤ v.1 ∧ v.1 ≤ x + width ∧ y ≤ v.2 ∧ v.2 ≤ y + height

theorem contained_cons {x y width height : ℝ} {v : Vertex ℝ} {l : List (Vertex ℝ)} :
    Contained x y width height (v :: l) ↔
      (x ≤ v.1 ∧ v.1 ≤ x + width ∧ y ≤ v.2 ∧ v.2 ≤ y + height) ∧ Contained x y width height l :=
  List.forall_mem_cons

theorem contained_append {x y width height : ℝ} {k l : List (Vertex ℝ)} :
    Contained x y width height (k ++ l) ↔ Contained x y width height k ∧ Contained x y width height l :=
  List.forall_mem_append

/-! ## The loop of a corner -/

theorem addCornerVertices_eq (x y radius step : ℝ) (n : Nat) (angle : ℝ) :
    addCornerVertices realMath x y radius step n angle = (List.range n).map fun i : ℕ =>
      (x + Real.cos (angle + i * step) * radius, y + Real.sin (angle + i * step) * radius) := by
  induction n generalizing angle with
  | zero => rfl
  | succ n ih =>
    rw [addCornerVertices, ih, List.range_succ_eq_map, List.map_cons, List.map_map]
    refine congrArg₂ _ ?_ (List.map_congr_left fun i _ => ?_)
    · simp [realMath]
    · have hangle : angle + step + i * step = angle + ((i + 1 : ℕ) : ℝ) * step := by
        push_cast
        ring
      rw [Function.comp_apply, hangle]

/-- Inner vertex `i` of a corner. -/
noncomputable def cornerVertex (x y radius start : ℝ) (slices i : Nat) : Vertex ℝ :=
  (x + Real.cos (start + (i + 1) * (Real.pi / 2 / slices)) * radius,
    y + Real.sin (start + (i + 1) * (Real.pi / 2 / slices)) * radius)

theorem addRectangleRoundedCorner_eq (x y radius start : ℝ) (n : Nat) :
    addRectangleRoundedCorner realMath x y radius start (piOver2 realMath) ((n + 1 : ℕ) : Int) =
      (List.range n).map (cornerVertex x y radius start (n + 1)) := by
  have hn : (((n + 1 : ℕ) : Int) - 1).toNat = n := by omega
  rw [addRectangleRoundedCorner, if_neg (by omega), hn]
  simp only [addCornerVertices_eq, piOver2]
  refine List.map_congr_left fun i _ => ?_
  have hangle : start + realMath.pi / 2 / (((n + 1 : ℕ) : Int) : ℝ) + i *
      (realMath.pi / 2 / (((n + 1 : ℕ) : Int) : ℝ)) =
      start + (i + 1) * (Real.pi / 2 / ((n + 1 : ℕ) : ℝ)) := by
    rw [realMath, Int.cast_natCast]
    ring
  rw [hangle, cornerVertex]

/-- A corner whose square lies in the rectangle. -/
theorem contained_corner {x y width height cx cy radius : ℝ} (start : ℝ) (n slices : Nat) (hr : 0 ≤ radius)
    (hx : x ≤ cx - radius) (hx' : cx + radius ≤ x + width) (hy : y ≤ cy - radius) (hy' : cy + radius ≤ y + height) :
    Contained x y width height ((List.range n).map (cornerVertex cx cy radius start slices)) := by
  intro v hv
  obtain ⟨i, -, rfl⟩ := List.mem_map.1 hv
  simp only [cornerVertex]
  generalize start + (i + 1) * (Real.pi / 2 / slices) = angle
  have hc := mul_le_mul_of_nonneg_right (Real.cos_le_one angle) hr
  have hc' := mul_le_mul_of_nonneg_right (Real.neg_one_le_cos angle) hr
  have hs := mul_le_mul_of_nonneg_right (Real.sin_le_one angle) hr
  have hs' := mul_le_mul_of_nonneg_right (Real.neg_one_le_sin angle) hr
  refine ⟨?_, ?_, ?_, ?_⟩ <;> linarith

theorem move_cornerVertex (dx dy x y radius start : ℝ) (slices i : Nat) :
    move dx dy (cornerVertex x y radius start slices i) = cornerVertex (x + dx) (y + dy) radius start slices i := by
  simp only [move, cornerVertex]
  exact Prod.ext (by ring) (by ring)

/-! ## The lower left corner -/

/-- The angle of one slice. -/
noncomputable def sliceAngle (slices : Nat) : ℝ := Real.pi / 2 / slices

/-- The inner vertices of the lower left corner are in the rectangle: there are none, or the lowest and the highest
are not too low and not too high. -/
def InnerFit (x y height radius : ℝ) (slices : Nat) : Prop :=
  slices = 1 ∨ y ≤ x + radius * (1 - Real.cos (sliceAngle slices)) ∧
    x + radius * (1 - Real.sin (sliceAngle slices)) ≤ y + height

theorem slice_range {n i : Nat} (hi : i < n) :
    sliceAngle (n + 1) ≤ (i + 1) * sliceAngle (n + 1) ∧
      (i + 1) * sliceAngle (n + 1) ≤ Real.pi / 2 - sliceAngle (n + 1) := by
  have hpos : 0 < sliceAngle (n + 1) := by
    rw [sliceAngle]
    positivity
  have htotal : ((n : ℝ) + 1) * sliceAngle (n + 1) = Real.pi / 2 := by
    rw [sliceAngle, Nat.cast_add_one]
    field_simp
  have hi' : (i : ℝ) + 1 ≤ n := by exact_mod_cast hi
  have h0 : (0 : ℝ) ≤ i := Nat.cast_nonneg i
  constructor <;> nlinarith

theorem innerFit_iff {x y height radius : ℝ} (hr : 0 < radius) (n : Nat) :
    (∀ i < n, y ≤ x + radius + Real.sin (Real.pi + (i + 1) * sliceAngle (n + 1)) * radius ∧
      x + radius + Real.sin (Real.pi + (i + 1) * sliceAngle (n + 1)) * radius ≤ y + height) ↔
    InnerFit x y height radius (n + 1) := by
  have hturn : ∀ a, Real.sin (Real.pi + a) = -Real.sin a := by
    intro a
    rw [add_comm, Real.sin_add_pi]
  have hpos : 0 < sliceAngle (n + 1) := by
    rw [sliceAngle]
    positivity
  simp only [hturn, InnerFit]
  constructor
  · intro h
    rcases Nat.eq_zero_or_pos n with rfl | hn
    · exact .inl rfl
    · right
      have hfirst := (h 0 hn).2
      have hlast := (h (n - 1) (by omega)).1
      have hangle : ((n - 1 : ℕ) + 1 : ℝ) * sliceAngle (n + 1) = Real.pi / 2 - sliceAngle (n + 1) := by
        have hn' : ((n - 1 : ℕ) : ℝ) + 1 = n := by
          exact_mod_cast Nat.sub_add_cancel hn
        rw [hn', sliceAngle, Nat.cast_add_one]
        field_simp
        ring
      rw [hangle, Real.sin_pi_div_two_sub] at hlast
      simp only [Nat.cast_zero, zero_add, one_mul] at hfirst
      exact ⟨by linarith, by linarith⟩
  · rintro (h | ⟨hlow, hhigh⟩) i hi
    · omega
    · obtain ⟨h1, h2⟩ := slice_range hi
      have hsin := Real.sin_le_sin_of_le_of_le_pi_div_two (by linarith [Real.pi_pos]) (by linarith) h1
      have hcos := Real.sin_le_sin_of_le_of_le_pi_div_two (by linarith [Real.pi_pos]) (by linarith) h2
      rw [Real.sin_pi_div_two_sub] at hcos
      have hsin' := mul_le_mul_of_nonneg_right hsin hr.le
      have hcos' := mul_le_mul_of_nonneg_right hcos hr.le
      exact ⟨by linarith, by linarith⟩

/-- The corners with `n` inner vertices each. -/
noncomputable abbrev cornersAt (x y width height radius : ℝ) (n : Nat) : Corners ℝ :=
  corners realMath x y width height radius ((n + 1 : ℕ) : Int)

variable {x y width height radius dx dy : ℝ} {n : Nat}

theorem lowerLeft_eq (x y width height radius : ℝ) (n : Nat) :
    (cornersAt x y width height radius n).lowerLeft =
      (x, y + radius) :: (List.range n).map (cornerVertex (x + radius) (x + radius) radius Real.pi (n + 1)) ++
        [(x + radius, y)] := by
  simp only [corners, addRectangleRoundedCorner_eq]
  rfl

theorem contained_lowerLeft (hr : 0 < radius) (hw : 2 * radius ≤ width) (hh : 2 * radius ≤ height) :
    Contained x y width height (cornersAt x y width height radius n).lowerLeft ↔
      InnerFit x y height radius (n + 1) := by
  have hends : (x ≤ x ∧ x ≤ x + width ∧ y ≤ y + radius ∧ y + radius ≤ y + height) ∧
      Contained x y width height [(x + radius, y)] := by
    refine ⟨⟨le_rfl, by linarith, by linarith, by linarith⟩, ?_⟩
    intro v hv
    rw [List.mem_singleton.1 hv]
    exact ⟨by simp only []; linarith, by simp only []; linarith, le_rfl, by simp only []; linarith⟩
  rw [lowerLeft_eq, List.cons_append, contained_cons, contained_append, ← innerFit_iff hr]
  constructor
  · rintro ⟨-, hinner, -⟩ i hi
    exact (hinner _ (List.mem_map.2 ⟨i, List.mem_range.2 hi, rfl⟩)).2.2
  · intro h
    refine ⟨hends.1, ?_, hends.2⟩
    intro v hv
    obtain ⟨i, hi, rfl⟩ := List.mem_map.1 hv
    have hc := mul_le_mul_of_nonneg_right
        (Real.cos_le_one (Real.pi + (i + 1) * (Real.pi / 2 / ((n + 1 : ℕ) : ℝ)))) hr.le
    have hc' := mul_le_mul_of_nonneg_right
        (Real.neg_one_le_cos (Real.pi + (i + 1) * (Real.pi / 2 / ((n + 1 : ℕ) : ℝ)))) hr.le
    refine ⟨?_, ?_, h i (List.mem_range.1 hi)⟩ <;> simp only [cornerVertex] <;> linarith

theorem move_lowerLeft :
    (cornersAt (x + dx) (y + dy) width height radius n).lowerLeft =
        (cornersAt x y width height radius n).lowerLeft.map (move dx dy) ↔ n = 0 ∨ dx = dy := by
  rw [lowerLeft_eq, lowerLeft_eq]
  have hends : ∀ a b c : ℝ, a + b + c = a + c + b := fun a b c => add_right_comm a b c
  simp only [List.map_cons, List.map_append, List.map_map, List.map_nil, move, hends _ dx radius, hends _ dy radius,
    List.cons_append, List.cons.injEq, true_and, List.append_cancel_right_eq]
  constructor
  · intro h
    rcases Nat.eq_zero_or_pos n with hn | hn
    · exact .inl hn
    · right
      have hvertex := List.map_inj_left.1 h 0 (List.mem_range.2 hn)
      have hy := congrArg Prod.snd hvertex
      simp only [Function.comp_apply, move, cornerVertex] at hy
      linarith
  · rintro (rfl | rfl)
    · rfl
    · refine List.map_congr_left fun i _ => ?_
      rw [Function.comp_apply, move_cornerVertex]

/-! ## The other corners -/

/-- The corners other than the lower left one lie in the rectangle. -/
theorem contained_others (hr : 0 < radius) (hw : 2 * radius ≤ width) (hh : 2 * radius ≤ height) :
    Contained x y width height (cornersAt x y width height radius n).lowerRight ∧
      Contained x y width height (cornersAt x y width height radius n).upperRight ∧
      Contained x y width height (cornersAt x y width height radius n).upperLeft := by
  have hcorner : ∀ {first last : Vertex ℝ} {cx cy start : ℝ}, Contained x y width height [first, last] →
      x ≤ cx - radius → cx + radius ≤ x + width → y ≤ cy - radius → cy + radius ≤ y + height →
      Contained x y width height (first ::
        addRectangleRoundedCorner realMath cx cy radius start (piOver2 realMath) ((n + 1 : ℕ) : Int) ++ [last]) := by
    intro first last cx cy start hends h1 h2 h3 h4
    obtain ⟨hfirst, hlast⟩ := contained_cons.1 hends
    rw [addRectangleRoundedCorner_eq, List.cons_append, contained_cons, contained_append]
    exact ⟨hfirst, contained_corner start n (n + 1) hr.le h1 h2 h3 h4, hlast⟩
  have hpair : ∀ {a b c d : ℝ}, x ≤ a ∧ a ≤ x + width ∧ y ≤ b ∧ b ≤ y + height →
      x ≤ c ∧ c ≤ x + width ∧ y ≤ d ∧ d ≤ y + height → Contained x y width height [(a, b), (c, d)] := by
    intro a b c d h1 h2 v hv
    rcases List.mem_cons.1 hv with rfl | hv
    · exact h1
    · rw [List.mem_singleton.1 hv]
      exact h2
  refine ⟨hcorner (hpair ?_ ?_) ?_ ?_ ?_ ?_, hcorner (hpair ?_ ?_) ?_ ?_ ?_ ?_, hcorner (hpair ?_ ?_) ?_ ?_ ?_ ?_⟩ <;>
    (try refine ⟨?_, ?_, ?_, ?_⟩) <;> linarith

/-- The corners other than the lower left one move with the rectangle. -/
theorem move_others (x y width height radius dx dy : ℝ) (n : Nat) :
    (cornersAt (x + dx) (y + dy) width height radius n).lowerRight =
        (cornersAt x y width height radius n).lowerRight.map (move dx dy) ∧
      (cornersAt (x + dx) (y + dy) width height radius n).upperRight =
        (cornersAt x y width height radius n).upperRight.map (move dx dy) ∧
      (cornersAt (x + dx) (y + dy) width height radius n).upperLeft =
        (cornersAt x y width height radius n).upperLeft.map (move dx dy) := by
  have hcorner : ∀ {first first' last last' : Vertex ℝ} {cx cy cx' cy' start : ℝ}, first' = move dx dy first →
      last' = move dx dy last → cx' = cx + dx → cy' = cy + dy →
      first' :: addRectangleRoundedCorner realMath cx' cy' radius start (piOver2 realMath)
        ((n + 1 : ℕ) : Int) ++ [last'] =
        (first :: addRectangleRoundedCorner realMath cx cy radius start (piOver2 realMath) ((n + 1 : ℕ) : Int) ++
          [last]).map (move dx dy) := by
    rintro first _ last _ cx cy _ _ start rfl rfl rfl rfl
    rw [addRectangleRoundedCorner_eq, addRectangleRoundedCorner_eq, List.map_append, List.map_cons, List.map_map]
    refine congrArg₂ _ (congrArg _ (List.map_congr_left fun i _ => ?_)) rfl
    rw [Function.comp_apply, move_cornerVertex]
  have hmove : ∀ {a b c d : ℝ}, c = a + dx → d = b + dy → (c, d) = move dx dy (a, b) := fun h h' => Prod.ext h h'
  refine ⟨hcorner (hmove ?_ ?_) (hmove ?_ ?_) ?_ ?_, hcorner (hmove ?_ ?_) (hmove ?_ ?_) ?_ ?_,
    hcorner (hmove ?_ ?_) (hmove ?_ ?_) ?_ ?_⟩ <;> ring

/-! ## The rectangles -/

/-- Where the lower left corner is right. -/
def CornerFits (x y height radius : ℝ) (slices : Nat) (dx dy : ℝ) : Prop :=
  slices = 1 ∨ dx = dy ∧ InnerFit x y height radius slices

theorem cornerFits_iff :
    InnerFit x y height radius (n + 1) ∧ (n = 0 ∨ dx = dy) ↔ CornerFits x y height radius (n + 1) dx dy := by
  rw [CornerFits, InnerFit]
  constructor
  · rintro ⟨h | h, h' | h'⟩
    · exact .inl h
    · exact .inl h
    · exact .inl (by omega)
    · exact .inr ⟨h', .inr h⟩
  · rintro (h | ⟨h', h⟩)
    · exact ⟨.inl h, .inl (by omega)⟩
    · exact ⟨h, .inr h'⟩

/-- The vertices before and after the lower left corner do what they should. -/
theorem around_lowerLeft (before before' after after' tail tail' : List (Vertex ℝ)) (hr : 0 < radius)
    (hw : 2 * radius ≤ width) (hh : 2 * radius ≤ height) (hbefore : Contained x y width height before)
    (hafter : Contained x y width height after) (hbefore' : before' = before.map (move dx dy))
    (hafter' : after' = after.map (move dx dy)) (htail : tail' = tail.map (move dx dy)) :
    (Contained x y width height
        (before ++ (cornersAt x y width height radius n).lowerLeft ++ after) ∧
      before' ++ (cornersAt (x + dx) (y + dy) width height radius n).lowerLeft ++ after' ++ tail' =
        (before ++ (cornersAt x y width height radius n).lowerLeft ++ after ++ tail).map
          (move dx dy)) ↔
    CornerFits x y height radius (n + 1) dx dy := by
  rw [← cornerFits_iff, ← contained_lowerLeft hr hw hh, ← move_lowerLeft, contained_append, contained_append,
    hbefore', hafter', htail]
  simp only [List.map_append, List.append_cancel_right_eq, List.append_cancel_left_eq]
  constructor
  · rintro ⟨⟨⟨-, h⟩, -⟩, h'⟩
    exact ⟨h, h'⟩
  · rintro ⟨h, h'⟩
    exact ⟨⟨⟨hbefore, h⟩, hafter⟩, h'⟩

theorem length_corners (x y width height radius : ℝ) (n : Nat) :
    (cornersAt x y width height radius n).lowerLeft.length = n + 2 ∧
      (cornersAt x y width height radius n).lowerRight.length = n + 2 ∧
      (cornersAt x y width height radius n).upperRight.length = n + 2 ∧
      (cornersAt x y width height radius n).upperLeft.length = n + 2 := by
  simp only [corners, addRectangleRoundedCorner_eq, List.length_append, List.length_cons, List.length_map,
    List.length_range, List.length_nil, and_self]

/-- A buffer of the right size. -/
theorem fill_eq {k : Int} {l : List (Vertex ℝ)} (h : (l.length : Int) = k) : fill k l = some l := by
  rw [fill, if_pos h.le, ← h, Int.toNat_natCast, Nat.sub_self, List.replicate_zero, List.append_nil]

theorem limitRadius_spec (hw : 0 < width) (hh : 0 < height) (hr : 0 < radius) :
    0 < limitRadius width height radius ∧ 2 * limitRadius width height radius ≤ width ∧
      2 * limitRadius width height radius ≤ height := by
  have hpos : 0 < min width height / 2 := half_pos (lt_min hw hh)
  have h1 := min_le_left width height
  have h2 := min_le_right width height
  rw [limitRadius]
  split
  · exact ⟨hpos, by linarith, by linarith⟩
  · rename_i h
    exact ⟨hr, by linarith [not_lt.1 h], by linarith [not_lt.1 h]⟩

theorem limitRadius_idem : limitRadius width height (limitRadius width height radius) =
    limitRadius width height radius := by
  simp only [limitRadius]
  split
  · rw [if_neg (lt_irrefl _)]
  · rfl

/-- The vertices of the rounded rectangle. -/
noncomputable def rounded (x y width height radius : ℝ) (n : Nat) : List (Vertex ℝ) :=
  (cornersAt x y width height radius n).lowerLeft ++
    (cornersAt x y width height radius n).lowerRight ++
    (cornersAt x y width height radius n).upperRight ++
    (cornersAt x y width height radius n).upperLeft

theorem makeRoundedRectangle_eq (x y : ℝ) (hw : 0 < width) (hh : 0 < height) (hr : 0 < radius) :
    makeRoundedRectangle realMath x y width height radius ((n + 1 : ℕ) : Int) =
      some (rounded x y width height (limitRadius width height radius) n) := by
  obtain ⟨hpos, -, -⟩ := limitRadius_spec hw hh hr
  have hbranch : ¬(limitRadius width height radius = 0 ∨ ((n + 1 : ℕ) : Int) = 0) := by
    rintro (h | h)
    · exact hpos.ne' h
    · omega
  obtain ⟨h1, h2, h3, h4⟩ := length_corners x y width height (limitRadius width height radius) n
  simp only [makeRoundedRectangle, if_neg (not_lt.2 hw.le), if_neg (not_lt.2 hh.le), if_neg (not_lt.2 hr.le),
    if_neg (show ¬((n + 1 : ℕ) : Int) < 0 by omega), if_neg hbranch]
  refine fill_eq ?_
  rw [List.length_append, List.length_append, List.length_append, h1, h2, h3, h4]
  push_cast
  omega

/-- The rounded rectangle without a leader. -/
theorem rounded_iff (hr : 0 < radius) (hw : 2 * radius ≤ width) (hh : 2 * radius ≤ height) :
    (Contained x y width height (rounded x y width height radius n) ∧
      rounded (x + dx) (y + dy) width height radius n = (rounded x y width height radius n).map (move dx dy)) ↔
    CornerFits x y height radius (n + 1) dx dy := by
  obtain ⟨c1, c2, c3⟩ := contained_others (x := x) (y := y) (n := n) hr hw hh
  obtain ⟨m1, m2, m3⟩ := move_others x y width height radius dx dy n
  have hafter : (cornersAt (x + dx) (y + dy) width height radius n).lowerRight ++
        ((cornersAt (x + dx) (y + dy) width height radius n).upperRight ++
          (cornersAt (x + dx) (y + dy) width height radius n).upperLeft) =
      List.map (move dx dy) ((cornersAt x y width height radius n).lowerRight ++
        ((cornersAt x y width height radius n).upperRight ++
          (cornersAt x y width height radius n).upperLeft)) := by
    rw [m1, m2, m3, List.map_append, List.map_append]
  have haround := around_lowerLeft (n := n) [] [] _ _ [] [] hr hw hh
    (List.forall_mem_nil _) (contained_append.2 ⟨c1, contained_append.2 ⟨c2, c3⟩⟩) rfl hafter rfl
  simpa only [rounded, List.nil_append, List.append_nil, ← List.append_assoc] using haround

/-- The rounded rectangle with a leader: an end of the leader, the corners with the lower left one among them, the
other end and the leader point. -/
theorem leader_iff (first second first' second' : Vertex ℝ) {leader leader' : Vertex ℝ}
    {before before' after after' : List (Vertex ℝ)}
    (hr : 0 < radius) (hw : 2 * radius ≤ width) (hh : 2 * radius ≤ height)
    (hends : Contained x y width height [first, second]) (hbefore : Contained x y width height before)
    (hafter : Contained x y width height after) (hfirst : first' = move dx dy first)
    (hsecond : second' = move dx dy second)
    (hleader : leader' = move dx dy leader) (hbefore' : before' = before.map (move dx dy))
    (hafter' : after' = after.map (move dx dy)) :
    (Contained x y width height
        (first :: before ++ (cornersAt x y width height radius n).lowerLeft ++ after ++ [second, leader]).dropLast ∧
      first' :: before' ++ (cornersAt (x + dx) (y + dy) width height radius n).lowerLeft ++ after' ++
        [second', leader'] =
        (first :: before ++ (cornersAt x y width height radius n).lowerLeft ++ after ++ [second, leader]).map
        (move dx dy)) ↔
    CornerFits x y height radius (n + 1) dx dy := by
  obtain ⟨h1, h2⟩ := contained_cons.1 hends
  have haround := around_lowerLeft (n := n) (first :: before) (first' :: before') (after ++ [second])
    (after' ++ [second']) [leader] [leader'] hr hw hh
    (contained_cons.2 ⟨h1, hbefore⟩) (contained_append.2 ⟨hafter, h2⟩) (by rw [hfirst, hbefore', List.map_cons])
    (by rw [hafter', hsecond, List.map_append]; rfl) (by rw [hleader]; rfl)
  rw [← haround]
  have hlist : ∀ {f s t : Vertex ℝ} {b l a : List (Vertex ℝ)},
      f :: b ++ l ++ a ++ [s, t] = f :: b ++ l ++ (a ++ [s]) ++ [t] := by
    intro f s t b l a
    simp
  rw [hlist, hlist, List.dropLast_concat]

/-! ## The sides of the leader -/

theorem leaderCode_spec (x1 y1 x2 y2 leaderX leaderY : ℝ) :
    (computeLeaderLocationCode x1 y1 x2 y2 leaderX leaderY = LEADER_LOCATION_INSIDE ↔
        (x1 ≤ leaderX ∧ leaderX ≤ x2) ∧ y1 ≤ leaderY ∧ leaderY ≤ y2) ∧
      (computeLeaderLocationCode x1 y1 x2 y2 leaderX leaderY &&& LEADER_LOCATION_BOTTOM ≠ 0 ↔ leaderY < y1) ∧
      (computeLeaderLocationCode x1 y1 x2 y2 leaderX leaderY &&& LEADER_LOCATION_TOP ≠ 0 ↔ leaderY > y2) ∧
      (computeLeaderLocationCode x1 y1 x2 y2 leaderX leaderY &&& LEADER_LOCATION_LEFT ≠ 0 ↔ leaderX < x1) ∧
      (computeLeaderLocationCode x1 y1 x2 y2 leaderX leaderY &&& LEADER_LOCATION_RIGHT ≠ 0 ↔ leaderX > x2) := by
  rw [← not_lt (a := leaderX), ← not_lt (a := x2), ← not_lt (a := leaderY), ← not_lt (a := y2),
    computeLeaderLocationCode]
  by_cases h1 : leaderY > y2 <;> by_cases h2 : leaderY < y1 <;> by_cases h3 : leaderX > x2 <;>
    by_cases h4 : leaderX < x1 <;>
    simp [h1, h2, h3, h4, LEADER_LOCATION_INSIDE, LEADER_LOCATION_TOP, LEADER_LOCATION_BOTTOM, LEADER_LOCATION_RIGHT,
      LEADER_LOCATION_LEFT]

/-- The leader's width, limited. -/
noncomputable def limitWidth (maxLeaderWidth leaderWidth : ℝ) : ℝ :=
  if leaderWidth > maxLeaderWidth then maxLeaderWidth else leaderWidth

theorem limitWidth_spec {maxLeaderWidth leaderWidth : ℝ} (h : 0 ≤ maxLeaderWidth) (h' : 0 ≤ leaderWidth) :
    0 ≤ limitWidth maxLeaderWidth leaderWidth ∧ limitWidth maxLeaderWidth leaderWidth ≤ maxLeaderWidth := by
  rw [limitWidth]
  split
  · exact ⟨h, le_rfl⟩
  · rename_i hle
    exact ⟨h', not_lt.1 hle⟩

variable {leaderX leaderY leaderWidth : ℝ}

/-- The vertices of the rounded rectangle with a leader at its side. -/
noncomputable def withLeader (x y width height radius : ℝ) (n : Nat) (leaderX leaderY leaderWidth : ℝ) :
    List (Vertex ℝ) :=
  let c := cornersAt x y width height radius n
  let halfWidth := limitWidth (width - 2 * radius) leaderWidth / 2
  let halfHeight := limitWidth (height - 2 * radius) leaderWidth / 2
  if leaderY < y then
    (x + width / 2 + halfWidth, y) :: c.lowerRight ++ c.upperRight ++ c.upperLeft ++ c.lowerLeft ++
      [(x + width / 2 - halfWidth, y), (leaderX, leaderY)]
  else if leaderY > y + height then
    (x + width / 2 - halfWidth, y + height) :: c.upperLeft ++ c.lowerLeft ++ c.lowerRight ++ c.upperRight ++
      [(x + width / 2 + halfWidth, y + height), (leaderX, leaderY)]
  else if leaderX < x then
    (x, y + height / 2 - halfHeight) :: c.lowerLeft ++ c.lowerRight ++ c.upperRight ++ c.upperLeft ++
      [(x, y + height / 2 + halfHeight), (leaderX, leaderY)]
  else
    (x + width, y + height / 2 + halfHeight) :: c.upperRight ++ c.upperLeft ++ c.lowerLeft ++ c.lowerRight ++
      [(x + width, y + height / 2 - halfHeight), (leaderX, leaderY)]

/-- The leader is drawn: it has a width, and its point is outside of the rectangle. -/
def LeaderDrawn (x y width height leaderX leaderY leaderWidth : ℝ) : Prop :=
  leaderWidth ≠ 0 ∧ ¬((x ≤ leaderX ∧ leaderX ≤ x + width) ∧ y ≤ leaderY ∧ leaderY ≤ y + height)

theorem makeRoundedRectangleWithLeader_none (hw : 0 < width) (hh : 0 < height) (hr : 0 < radius)
    (hl : 0 ≤ leaderWidth)
    (hdrawn : ¬LeaderDrawn x y width height leaderX leaderY leaderWidth) :
    makeRoundedRectangleWithLeader realMath x y width height radius ((n + 1 : ℕ) : Int) leaderX leaderY leaderWidth =
      some (rounded x y width height (limitRadius width height radius) n) := by
  obtain ⟨hpos, -, -⟩ := limitRadius_spec hw hh hr
  have hbranch : ¬(limitRadius width height radius = 0 ∨ ((n + 1 : ℕ) : Int) = 0) := by
    rintro (h | h)
    · exact hpos.ne' h
    · omega
  have hrounded := makeRoundedRectangle_eq (n := n) x y hw hh hpos
  rw [limitRadius_idem] at hrounded
  simp only [makeRoundedRectangleWithLeader, if_neg (not_lt.2 hw.le), if_neg (not_lt.2 hh.le),
    if_neg (not_lt.2 hr.le), if_neg (show ¬((n + 1 : ℕ) : Int) < 0 by omega), if_neg hbranch, if_neg (not_lt.2 hl)]
  by_cases h0 : leaderWidth = 0
  · rw [if_pos h0, hrounded]
  · have hinside := (leaderCode_spec x y (x + width) (y + height) leaderX leaderY).1.2 (by
      by_contra hout
      exact hdrawn ⟨h0, hout⟩)
    rw [if_neg h0, if_pos hinside, hrounded]

theorem makeRoundedRectangleWithLeader_drawn (hw : 0 < width) (hh : 0 < height) (hr : 0 < radius)
    (hl : 0 ≤ leaderWidth)
    (hdrawn : LeaderDrawn x y width height leaderX leaderY leaderWidth) :
    makeRoundedRectangleWithLeader realMath x y width height radius ((n + 1 : ℕ) : Int) leaderX leaderY leaderWidth =
      some (withLeader x y width height (limitRadius width height radius) n leaderX leaderY leaderWidth) := by
  obtain ⟨hpos, -, -⟩ := limitRadius_spec hw hh hr
  have hbranch : ¬(limitRadius width height radius = 0 ∨ ((n + 1 : ℕ) : Int) = 0) := by
    rintro (h | h)
    · exact hpos.ne' h
    · omega
  obtain ⟨hinside, hbottom, htop, hleft, hright⟩ := leaderCode_spec x y (x + width) (y + height) leaderX leaderY
  obtain ⟨c1, c2, c3, c4⟩ := length_corners x y width height (limitRadius width height radius) n
  simp only [makeRoundedRectangleWithLeader, if_neg (not_lt.2 hw.le), if_neg (not_lt.2 hh.le),
    if_neg (not_lt.2 hr.le),
    if_neg (show ¬((n + 1 : ℕ) : Int) < 0 by omega), if_neg hbranch, if_neg (not_lt.2 hl), if_neg hdrawn.1,
    if_neg fun h => hdrawn.2 (hinside.1 h), withLeader]
  have hfill : ∀ {first second leader : Vertex ℝ} {k l m o : List (Vertex ℝ)}, k.length = n + 2 → l.length = n + 2 →
      m.length = n + 2 → o.length = n + 2 →
      fill (11 + 4 * (((n + 1 : ℕ) : Int) - 1)) (first :: k ++ l ++ m ++ o ++ [second, leader]) =
        some (first :: k ++ l ++ m ++ o ++ [second, leader]) := by
    intro first second leader k l m o hk hl hm ho
    refine fill_eq ?_
    simp only [List.length_append, List.length_cons, List.length_nil, hk, hl, hm, ho]
    push_cast
    omega
  by_cases h1 : leaderY < y
  · rw [if_pos (hbottom.2 h1), if_pos h1]
    exact hfill c2 c3 c4 c1
  · rw [if_neg fun h => h1 (hbottom.1 h), if_neg h1]
    by_cases h2 : leaderY > y + height
    · rw [if_pos (htop.2 h2), if_pos h2]
      exact hfill c4 c1 c2 c3
    · rw [if_neg fun h => h2 (htop.1 h), if_neg h2]
      by_cases h3 : leaderX < x
      · rw [if_pos (hleft.2 h3), if_pos h3]
        exact hfill c1 c2 c3 c4
      · have h4 : leaderX > x + width := by
          by_contra h4
          exact hdrawn.2 ⟨⟨not_lt.1 h3, not_lt.1 h4⟩, not_lt.1 h1, not_lt.1 h2⟩
        rw [if_neg fun h => h3 (hleft.1 h), if_neg h3, if_pos (hright.2 h4)]
        exact hfill c3 c4 c1 c2

theorem append_move {k k' l l' : List (Vertex ℝ)} (hk : k' = k.map (move dx dy)) (hl : l' = l.map (move dx dy)) :
    k' ++ l' = (k ++ l).map (move dx dy) := by
  rw [hk, hl, List.map_append]

theorem contained_nil : Contained x y width height [] := List.forall_mem_nil _

/-- The rounded rectangle with a leader at any side. -/
theorem withLeader_iff (leaderX leaderY : ℝ) (hr : 0 < radius) (hw : 2 * radius ≤ width) (hh : 2 * radius ≤ height)
    (hl : 0 ≤ leaderWidth) :
    (Contained x y width height (withLeader x y width height radius n leaderX leaderY leaderWidth).dropLast ∧
      withLeader (x + dx) (y + dy) width height radius n (leaderX + dx) (leaderY + dy) leaderWidth =
        (withLeader x y width height radius n leaderX leaderY leaderWidth).map (move dx dy)) ↔
    CornerFits x y height radius (n + 1) dx dy := by
  obtain ⟨c1, c2, c3⟩ := contained_others (x := x) (y := y) (n := n) hr hw hh
  obtain ⟨m1, m2, m3⟩ := move_others x y width height radius dx dy n
  obtain ⟨hw0, hw1⟩ := limitWidth_spec (sub_nonneg.2 hw) hl
  obtain ⟨hh0, hh1⟩ := limitWidth_spec (sub_nonneg.2 hh) hl
  have hb : leaderY + dy < y + dy ↔ leaderY < y := add_lt_add_iff_right dy
  have ht : leaderY + dy > y + dy + height ↔ leaderY > y + height := by
    rw [gt_iff_lt, gt_iff_lt, add_right_comm, add_lt_add_iff_right]
  have hx : leaderX + dx < x + dx ↔ leaderX < x := add_lt_add_iff_right dx
  have hpair : ∀ {a b c d : ℝ}, x ≤ a → a ≤ x + width → y ≤ b → b ≤ y + height → x ≤ c → c ≤ x + width → y ≤ d →
      d ≤ y + height → Contained x y width height [(a, b), (c, d)] := by
    intro a b c d h1 h2 h3 h4 h5 h6 h7 h8
    exact contained_cons.2 ⟨⟨h1, h2, h3, h4⟩, contained_cons.2 ⟨⟨h5, h6, h7, h8⟩, List.forall_mem_nil _⟩⟩
  have hmove : ∀ {a b c d : ℝ}, c = a + dx → d = b + dy → (c, d) = move dx dy (a, b) := fun h h' => Prod.ext h h'
  obtain ⟨halfWidth, hwidth⟩ : ∃ t, t = limitWidth (width - 2 * radius) leaderWidth / 2 := ⟨_, rfl⟩
  obtain ⟨halfHeight, hheight⟩ : ∃ t, t = limitWidth (height - 2 * radius) leaderWidth / 2 := ⟨_, rfl⟩
  simp only [withLeader, hb, ht, hx, ← hwidth, ← hheight]
  by_cases h1 : leaderY < y
  · have hside := leader_iff (n := n) (x + width / 2 + halfWidth, y) (x + width / 2 - halfWidth, y)
      (x + dx + width / 2 + halfWidth, y + dy) (x + dx + width / 2 - halfWidth, y + dy) hr hw hh
      (hpair (by linarith) (by linarith) le_rfl (by linarith) (by linarith) (by linarith) le_rfl (by linarith))
      (contained_append.2 ⟨c1, contained_append.2 ⟨c2, c3⟩⟩) contained_nil (hmove (by ring) rfl) (hmove (by ring) rfl)
      (hmove (a := leaderX) (b := leaderY) rfl rfl) (append_move m1 (append_move m2 m3)) List.map_nil.symm
    simpa only [if_pos h1, List.cons_append, List.append_assoc, List.nil_append, List.append_nil] using hside
  · simp only [if_neg h1]
    by_cases h2 : leaderY > y + height
    · have hside := leader_iff (n := n) (x + width / 2 - halfWidth, y + height)
        (x + width / 2 + halfWidth, y + height) (x + dx + width / 2 - halfWidth, y + dy + height)
        (x + dx + width / 2 + halfWidth, y + dy + height) hr hw hh
        (hpair (by linarith) (by linarith) (by linarith) le_rfl (by linarith) (by linarith) (by linarith) le_rfl) c3
        (contained_append.2 ⟨c1, c2⟩) (hmove (by ring) (by ring)) (hmove (by ring) (by ring))
        (hmove (a := leaderX) (b := leaderY) rfl rfl) m3 (append_move m1 m2)
      simpa only [if_pos h2, List.cons_append, List.append_assoc, List.nil_append] using hside
    · simp only [if_neg h2]
      by_cases h3 : leaderX < x
      · have hside := leader_iff (n := n) (x, y + height / 2 - halfHeight) (x, y + height / 2 + halfHeight)
          (x + dx, y + dy + height / 2 - halfHeight) (x + dx, y + dy + height / 2 + halfHeight) hr hw hh
          (hpair le_rfl (by linarith) (by linarith) (by linarith) le_rfl (by linarith) (by linarith) (by linarith))
          contained_nil (contained_append.2 ⟨c1, contained_append.2 ⟨c2, c3⟩⟩) (hmove rfl (by ring))
            (hmove rfl (by ring))
          (hmove (a := leaderX) (b := leaderY) rfl rfl) List.map_nil.symm (append_move m1 (append_move m2 m3))
        simpa only [if_pos h3, List.cons_append, List.append_assoc, List.nil_append] using hside
      · have hside := leader_iff (n := n) (x + width, y + height / 2 + halfHeight)
          (x + width, y + height / 2 - halfHeight) (x + dx + width, y + dy + height / 2 + halfHeight)
          (x + dx + width, y + dy + height / 2 - halfHeight) hr hw hh
          (hpair (by linarith) le_rfl (by linarith) (by linarith) (by linarith) le_rfl (by linarith) (by linarith))
          (contained_append.2 ⟨c2, c3⟩) c1 (hmove (by ring) (by ring)) (hmove (by ring) (by ring))
          (hmove (a := leaderX) (b := leaderY) rfl rfl) (append_move m2 m3) m1
        simpa only [if_neg h3, List.cons_append, List.append_assoc, List.nil_append] using hside

/-! ## The rectangles and their leaders -/

/-- The vertices lie in the rectangle and move with it. -/
def RectangleRight (x y width height radius : ℝ) (slices : Int) (dx dy : ℝ) : Prop :=
  ∃ vertices, makeRoundedRectangle realMath x y width height radius slices = some vertices ∧
    Contained x y width height vertices ∧
    makeRoundedRectangle realMath (x + dx) (y + dy) width height radius slices = some (vertices.map (move dx dy))

/-- The vertices other than the leader point lie in the rectangle, and all move with it and the leader point. -/
def LeaderRight (x y width height radius : ℝ) (slices : Int) (leaderX leaderY leaderWidth dx dy : ℝ) : Prop :=
  ∃ vertices, makeRoundedRectangleWithLeader realMath x y width height radius slices leaderX leaderY leaderWidth =
      some vertices ∧
    Contained x y width height vertices.dropLast ∧
    (¬LeaderDrawn x y width height leaderX leaderY leaderWidth → Contained x y width height vertices) ∧
    makeRoundedRectangleWithLeader realMath (x + dx) (y + dy) width height radius slices (leaderX + dx) (leaderY + dy)
      leaderWidth = some (vertices.map (move dx dy))

theorem rectangleRight_iff (hw : 0 < width) (hh : 0 < height) (hr : 0 < radius) :
    RectangleRight x y width height radius ((n + 1 : ℕ) : Int) dx dy ↔
      CornerFits x y height (limitRadius width height radius) (n + 1) dx dy := by
  obtain ⟨hpos, hw', hh'⟩ := limitRadius_spec hw hh hr
  rw [RectangleRight, makeRoundedRectangle_eq x y hw hh hr, makeRoundedRectangle_eq (x + dx) (y + dy) hw hh hr,
    ← rounded_iff hpos hw' hh']
  constructor
  · rintro ⟨vertices, hrun, hin, hmoved⟩
    obtain rfl := Option.some.inj hrun
    exact ⟨hin, Option.some.inj hmoved⟩
  · rintro ⟨hin, hmoved⟩
    exact ⟨_, rfl, hin, congrArg some hmoved⟩

theorem leaderDrawn_move :
    LeaderDrawn (x + dx) (y + dy) width height (leaderX + dx) (leaderY + dy) leaderWidth ↔
      LeaderDrawn x y width height leaderX leaderY leaderWidth := by
  simp only [LeaderDrawn, add_right_comm x dx width, add_right_comm y dy height, add_le_add_iff_right]

theorem leaderRight_iff (hw : 0 < width) (hh : 0 < height) (hr : 0 < radius) (hl : 0 ≤ leaderWidth) :
    LeaderRight x y width height radius ((n + 1 : ℕ) : Int) leaderX leaderY leaderWidth dx dy ↔
      CornerFits x y height (limitRadius width height radius) (n + 1) dx dy := by
  obtain ⟨hpos, hw', hh'⟩ := limitRadius_spec hw hh hr
  rw [LeaderRight]
  by_cases hdrawn : LeaderDrawn x y width height leaderX leaderY leaderWidth
  · rw [makeRoundedRectangleWithLeader_drawn hw hh hr hl hdrawn,
      makeRoundedRectangleWithLeader_drawn hw hh hr hl (leaderDrawn_move.2 hdrawn),
      ← withLeader_iff leaderX leaderY hpos hw' hh' hl]
    constructor
    · rintro ⟨vertices, hrun, hin, -, hmoved⟩
      obtain rfl := Option.some.inj hrun
      exact ⟨hin, Option.some.inj hmoved⟩
    · rintro ⟨hin, hmoved⟩
      exact ⟨_, rfl, hin, fun h => absurd hdrawn h, congrArg some hmoved⟩
  · rw [makeRoundedRectangleWithLeader_none hw hh hr hl hdrawn,
      makeRoundedRectangleWithLeader_none hw hh hr hl fun h => hdrawn (leaderDrawn_move.1 h),
        ← rounded_iff hpos hw' hh']
    constructor
    · rintro ⟨vertices, hrun, -, hin, hmoved⟩
      obtain rfl := Option.some.inj hrun
      exact ⟨hin hdrawn, Option.some.inj hmoved⟩
    · rintro ⟨hin, hmoved⟩
      exact ⟨_, rfl, fun v hv => hin v (List.dropLast_subset _ hv), fun _ => hin, congrArg some hmoved⟩

/-- Both rectangles are right exactly where the lower left corner is. -/
theorem rectangles_right_iff {slices : Int} (hw : 0 < width) (hh : 0 < height) (hr : 0 < radius)
    (hslices : 1 ≤ slices)
    (hl : 0 ≤ leaderWidth) :
    (RectangleRight x y width height radius slices dx dy ↔
        CornerFits x y height (limitRadius width height radius) slices.toNat dx dy) ∧
      (LeaderRight x y width height radius slices leaderX leaderY leaderWidth dx dy ↔
        CornerFits x y height (limitRadius width height radius) slices.toNat dx dy) := by
  obtain ⟨n, rfl⟩ : ∃ n : ℕ, slices = ((n + 1 : ℕ) : Int) := ⟨slices.toNat - 1, by omega⟩
  rw [Int.toNat_natCast]
  exact ⟨rectangleRight_iff hw hh hr, leaderRight_iff hw hh hr hl⟩

/-- A square at the origin, moved along the diagonal. -/
theorem square_at_origin :
    RectangleRight 0 0 4 4 1 2 1 1 ∧ LeaderRight 0 0 4 4 1 2 2 9 1 1 1 := by
  have hfits : CornerFits 0 0 4 (limitRadius 4 4 1) (2 : Int).toNat 1 1 := by
    have hradius : limitRadius (4 : ℝ) 4 1 = 1 := by norm_num [limitRadius]
    have hc := Real.cos_le_one (sliceAngle (2 : Int).toNat)
    have hs := Real.neg_one_le_sin (sliceAngle (2 : Int).toNat)
    rw [hradius]
    exact .inr ⟨rfl, .inr ⟨by linarith, by linarith⟩⟩
  obtain ⟨h1, h2⟩ := @rectangles_right_iff 0 0 4 4 1 1 1 2 9 1 2 (by norm_num) (by norm_num) (by norm_num)
      (by norm_num)
    (by norm_num)
  exact ⟨h1.2 hfits, h2.2 hfits⟩

/-- A square right of the diagonal leaves its rectangle; one at the origin does not move along with `x`. -/
theorem squares_off_diagonal : ¬RectangleRight 10 0 4 4 1 2 0 0 ∧ ¬RectangleRight 0 0 4 4 1 2 1 0 := by
  have hradius : limitRadius (4 : ℝ) 4 1 = 1 := by norm_num [limitRadius]
  constructor
  · intro h
    rcases (rectangleRight_iff (n := 1) (by norm_num) (by norm_num) (by norm_num)).1 h with h1 | ⟨-, h1 | ⟨-, h1⟩⟩
    · omega
    · omega
    · rw [hradius] at h1
      linarith [Real.sin_le_one (sliceAngle (1 + 1))]
  · intro h
    rcases (rectangleRight_iff (n := 1) (by norm_num) (by norm_num) (by norm_num)).1 h with h1 | ⟨h1, -⟩
    · omega
    · norm_num at h1

end WorldWind.GeometryBuilder.Rectangles
