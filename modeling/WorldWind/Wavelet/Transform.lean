import WorldWind.Lib.Haar
import WorldWind.Wavelet.Model
/-!
# What `encode` computes

A round of the loop of `encode` turns the corner of the image data into the
averages and the differences of its quads, each in a quarter of the corner
(`encodeLoop_round`). After the last round every level's differences stand
beside the corner of that level's size (`Transformed`), and `rearrange` lists
them level by level (`rearrange_spec`).

The first round finds an empty workspace. It must therefore write all of it,
which it does for every image but the one of a single pixel.
-/

namespace WorldWind.Wavelet

open Lib.Grid Lib.Haar Lib.JavaArray Lib.Nio

/-! ## A round of the loop -/

section Round

/-- What the pass along the rows makes of `g`, in a workspace `w`. -/
def rowHalves (half : Nat) (g w : Nat → Nat → ℚ) (j i : Nat) : ℚ :=
  if j < 2 * half ∧ i < half then (g j (2 * i) + g j (2 * i + 1)) / 2
  else if j < 2 * half ∧ i < 2 * half then
    g j (2 * (i - half)) - (g j (2 * (i - half)) + g j (2 * (i - half) + 1)) / 2
  else w j i

/-- What the pass along the columns makes of `g`. -/
def columnHalves (half : Nat) (g : Nat → Nat → ℚ) (j i : Nat) : ℚ :=
  if i < 2 * half ∧ j < half then (g (2 * j) i + g (2 * j + 1) i) / 2
  else if i < 2 * half ∧ j < 2 * half then
    g (2 * (j - half)) i - (g (2 * (j - half)) i + g (2 * (j - half) + 1) i) / 2
  else g j i

/-- The round. -/
def quarters (half : Nat) (g w : Nat → Nat → ℚ) : Nat → Nat → ℚ := columnHalves half (rowHalves half g w)

variable {half j i : Nat} {g w : Nat → Nat → ℚ}

theorem quarters_average (hj : j < half) (hi : i < half) : quarters half g w j i = average g j i := by
  rw [quarters, columnHalves, if_pos ⟨by omega, hj⟩, rowHalves, rowHalves, if_pos ⟨by omega, hi⟩,
    if_pos ⟨by omega, hi⟩, average]
  ring

theorem quarters_horizontal (hj : j < half) (hi : i < half) :
    quarters half g w j (half + i) = horizontal g j i := by
  rw [quarters, columnHalves, if_pos ⟨by omega, hj⟩, rowHalves, rowHalves, if_neg (by omega), if_pos (by omega),
    if_neg (by omega), if_pos (by omega), Nat.add_sub_cancel_left, horizontal]
  ring

theorem quarters_vertical (hj : j < half) (hi : i < half) :
    quarters half g w (half + j) i = vertical g j i := by
  rw [quarters, columnHalves, if_neg (by omega), if_pos (by omega), Nat.add_sub_cancel_left, rowHalves, rowHalves,
    if_pos (by omega), if_pos (by omega), vertical]
  ring

theorem quarters_diagonal (hj : j < half) (hi : i < half) :
    quarters half g w (half + j) (half + i) = diagonal g j i := by
  rw [quarters, columnHalves, if_neg (by omega), if_pos (by omega), Nat.add_sub_cancel_left, rowHalves, rowHalves,
    if_neg (by omega), if_pos (by omega), if_neg (by omega), if_pos (by omega), Nat.add_sub_cancel_left, diagonal]
  ring

theorem quarters_outside (h : ¬ (j < 2 * half ∧ i < 2 * half)) : quarters half g w j i = w j i := by
  rw [quarters, columnHalves, if_neg (by omega), if_neg (by omega), rowHalves, if_neg (by omega), if_neg (by omega)]

variable {side : Nat}

theorem rowPass_spec (hhalf : 2 * half ≤ side) :
    rowPass side (2 * half) (2 * half) (grid (side * side) side g) (grid (side * side) side w) =
      some (grid (side * side) side (rowHalves half g w)) := by
  have hcell : ∀ j < side, ∀ i < side, j * side + i < side * side := fun j hj i hi => cell_lt hj hi
  have hread : ∀ j < 2 * half, ∀ i < 2 * half, (grid (side * side) side g).getD (j * side + i) 0 = g j i :=
    fun j hj i hi => getD_grid _ (by omega) (hcell j (by omega) i (by omega)) 0
  rcases Nat.eq_zero_or_pos side with rfl | hside
  · obtain rfl : half = 0 := by omega
    rfl
  unfold rowPass
  rw [Nat.mul_div_cancel_left half two_pos]
  simp only
  rw [if_pos]
  · refine writes_grid hside (fun c hc => ?_) fun j i hi hlt hout => ?_
    · simp only [List.mem_flatMap, mem_cells, Prod.exists] at hc
      obtain ⟨j, i, ⟨hj, hi⟩, hc⟩ := hc
      rw [hread j hj _ (by omega), Nat.add_assoc, hread j hj _ (by omega), Nat.mul_comm i 2] at hc
      simp only [List.mem_cons, List.not_mem_nil, or_false] at hc
      rcases hc with rfl | rfl
      · refine ⟨j, i, by omega, hcell _ (by omega) _ (by omega), ?_⟩
        rw [rowHalves, if_pos ⟨hj, hi⟩]
      · refine ⟨j, i + half, by omega, hcell _ (by omega) _ (by omega), ?_⟩
        rw [rowHalves, if_neg (by omega), if_pos (by omega), Nat.add_sub_cancel]
    · have hnot : ¬ (j < 2 * half ∧ i < 2 * half) := by
        rintro ⟨hj, hi'⟩
        by_cases hlow : i < half
        · exact hout _ (List.mem_flatMap.2 ⟨(j, i), mem_cells.2 ⟨hj, hlow⟩, List.mem_cons_self⟩) rfl
        · refine hout _ (List.mem_flatMap.2 ⟨(j, i - half), mem_cells.2 ⟨hj, by omega⟩,
            List.mem_cons_of_mem _ List.mem_cons_self⟩) ?_
          show j * side + (i - half) + half = j * side + i
          omega
      rw [rowHalves, if_neg (by omega), if_neg hnot]
  · intro c hc
    rw [mem_cells] at hc
    rw [length_grid, Nat.add_assoc]
    exact hcell _ (by omega) _ (by omega)

theorem columnPass_spec (hhalf : 2 * half ≤ side) :
    columnPass side (2 * half) (2 * half) (grid (side * side) side g) (grid (side * side) side g) =
      some (grid (side * side) side (columnHalves half g)) := by
  have hcell : ∀ j < side, ∀ i < side, j * side + i < side * side := fun j hj i hi => cell_lt hj hi
  have hread : ∀ j < 2 * half, ∀ i < 2 * half, (grid (side * side) side g).getD (i + j * side) 0 = g j i := by
    intro j hj i hi
    rw [Nat.add_comm, getD_grid _ (by omega) (hcell j (by omega) i (by omega)) 0]
  rcases Nat.eq_zero_or_pos side with rfl | hside
  · obtain rfl : half = 0 := by omega
    rfl
  unfold columnPass
  rw [Nat.mul_div_cancel_left half two_pos]
  simp only
  rw [if_pos]
  · refine writes_grid hside (fun c hc => ?_) fun j i hi hlt hout => ?_
    · simp only [List.mem_flatMap, mem_cells, Prod.exists] at hc
      obtain ⟨i, j, ⟨hi, hj⟩, hc⟩ := hc
      rw [hread _ (by omega) i hi, hread _ (by omega) i hi, Nat.mul_comm j 2] at hc
      simp only [List.mem_cons, List.not_mem_nil, or_false] at hc
      rcases hc with rfl | rfl
      · refine ⟨j, i, by omega, hcell _ (by omega) _ (by omega), ?_⟩
        rw [columnHalves, if_pos ⟨hi, hj⟩, Nat.add_comm i]
      · refine ⟨j + half, i, by omega, hcell _ (by omega) _ (by omega), ?_⟩
        rw [columnHalves, if_neg (by omega), if_pos (by omega), Nat.add_sub_cancel, Nat.add_comm i]
    · have hnot : ¬ (i < 2 * half ∧ j < 2 * half) := by
        rintro ⟨hi', hj⟩
        by_cases hlow : j < half
        · exact hout _ (List.mem_flatMap.2 ⟨(i, j), mem_cells.2 ⟨hi', hlow⟩, List.mem_cons_self⟩) (Nat.add_comm _ _)
        · refine hout _ (List.mem_flatMap.2 ⟨(i, j - half), mem_cells.2 ⟨hi', by omega⟩,
            List.mem_cons_of_mem _ List.mem_cons_self⟩) ?_
          show i + (j - half + half) * side = j * side + i
          rw [Nat.sub_add_cancel (by omega), Nat.add_comm]
      rw [columnHalves, if_neg (by omega), if_neg hnot]
  · intro c hc
    rw [mem_cells] at hc
    rw [length_grid, Nat.add_comm]
    exact hcell _ (by omega) _ (by omega)

/-- A round of the loop. -/
theorem encodeLoop_round (hhalf : 2 * half ≤ side) (hpos : 0 < half) (rounds : Nat) :
    encodeLoop side (rounds + 1) (2 * half) (2 * half) (grid (side * side) side g) (grid (side * side) side w) =
      encodeLoop side rounds half half (grid (side * side) side (quarters half g w))
        (grid (side * side) side (quarters half g w)) := by
  rw [encodeLoop, if_neg (by omega), rowPass_spec hhalf, Option.bind_some, columnPass_spec hhalf, Option.bind_some,
    Nat.mul_div_cancel_left half two_pos, ← quarters]

/-- The last round finds a single cell and writes nothing. -/
theorem encodeLoop_last (rounds : Nat) (l : List ℚ) :
    encodeLoop side (rounds + 2) 1 1 l (grid (side * side) side w) = some (grid (side * side) side w) := by
  rfl

end Round

/-! ## The whole loop -/

section Loop

/-- The levels of `y` in the corner of side `2 ^ n` of `g`. -/
structure Transformed (n : Nat) (y g : Nat → Nat → ℚ) : Prop where
  average : g 0 0 = coarse y n 0 0
  horizontal : ∀ m k, m + k + 1 = n → ∀ j < 2 ^ m, ∀ i < 2 ^ m, g j (2 ^ m + i) = horizontal (coarse y k) j i
  vertical : ∀ m k, m + k + 1 = n → ∀ j < 2 ^ m, ∀ i < 2 ^ m, g (2 ^ m + j) i = vertical (coarse y k) j i
  diagonal : ∀ m k, m + k + 1 = n → ∀ j < 2 ^ m, ∀ i < 2 ^ m, g (2 ^ m + j) (2 ^ m + i) = diagonal (coarse y k) j i

variable {n m side : Nat} {y g w : Nat → Nat → ℚ}

theorem transformed_zero (y : Nat → Nat → ℚ) : Transformed 0 y y := by
  refine ⟨rfl, ?_, ?_, ?_⟩
  all_goals
    intro m k h
    omega

/-- A round in front of the others. -/
theorem Transformed.succ (h : Transformed m (quarters (2 ^ m) y w) g)
    (hout : ∀ j < 2 * 2 ^ m, ∀ i < 2 * 2 ^ m, ¬ (j < 2 ^ m ∧ i < 2 ^ m) → g j i = quarters (2 ^ m) y w j i) :
    Transformed (m + 1) y g := by
  have hcoarse : ∀ l k, l + k = m → ∀ j < 2 ^ l, ∀ i < 2 ^ l,
      coarse (quarters (2 ^ m) y w) k j i = coarse y (k + 1) j i := by
    rintro l k rfl j hj i hi
    rw [← coarse_average]
    exact coarse_congr k (fun j hj i hi => quarters_average hj hi) j hj i hi
  have hdifferences : ∀ l k, l + k + 1 = m → ∀ j < 2 ^ l, ∀ i < 2 ^ l, _ := fun l k hlk j hj i hi =>
    differences_congr (s := 2 ^ l) (fun j hj i hi => hcoarse (l + 1) k (by omega) j (by rwa [pow_succ']) i
      (by rwa [pow_succ'])) hj hi
  refine ⟨?_, fun l k hlk j hj i hi => ?_, fun l k hlk j hj i hi => ?_, fun l k hlk j hj i hi => ?_⟩
  · rw [h.average, hcoarse 0 m (by omega) 0 (by decide) 0 (by decide)]
  all_goals rcases k with _ | k
  · obtain rfl : l = m := by omega
    rw [hout _ (by omega) _ (by omega) (by omega), quarters_horizontal hj hi, coarse]
  · rw [h.horizontal l k (by omega) j hj i hi, (hdifferences l k (by omega) j hj i hi).1]
  · obtain rfl : l = m := by omega
    rw [hout _ (by omega) _ (by omega) (by omega), quarters_vertical hj hi, coarse]
  · rw [h.vertical l k (by omega) j hj i hi, (hdifferences l k (by omega) j hj i hi).2.1]
  · obtain rfl : l = m := by omega
    rw [hout _ (by omega) _ (by omega) (by omega), quarters_diagonal hj hi, coarse]
  · rw [h.diagonal l k (by omega) j hj i hi, (hdifferences l k (by omega) j hj i hi).2.2]

/-- The loop when the workspace is the image data. -/
theorem encodeLoop_run (hside : 2 ^ m ≤ side) (rounds : Nat) (hrounds : m + 2 ≤ rounds) :
    ∃ g', encodeLoop side rounds (2 ^ m) (2 ^ m) (grid (side * side) side g) (grid (side * side) side g) =
        some (grid (side * side) side g') ∧ Transformed m g g' ∧
      ∀ j i, ¬ (j < 2 ^ m ∧ i < 2 ^ m) → g' j i = g j i := by
  induction m generalizing g rounds with
  | zero =>
    obtain ⟨r, rfl⟩ := Nat.exists_eq_add_of_le' hrounds
    exact ⟨g, encodeLoop_last r _, transformed_zero g, fun _ _ _ => rfl⟩
  | succ m ih =>
    obtain ⟨r, rfl⟩ := Nat.exists_eq_add_of_le' hrounds
    rw [pow_succ'] at hside
    obtain ⟨g', hloop, htrans, hout⟩ := ih (g := quarters (2 ^ m) g g) (by omega) (r + m + 2) (by omega)
    refine ⟨g', ?_, htrans.succ fun j _ i _ h => hout j i h, fun j i h => ?_⟩
    · rw [pow_succ', ← hloop]
      exact encodeLoop_round hside (by positivity) _
    · rw [pow_succ'] at h
      rw [hout j i (by omega), quarters_outside h]

/-- The loop of an image of more than one pixel. -/
theorem encodeLoop_spec (hn : 1 ≤ n) (y : Nat → Nat → ℚ) :
    ∃ g, encodeLoop (2 ^ n) (2 ^ n + 2 ^ n) (2 ^ n) (2 ^ n) (grid (2 ^ n * 2 ^ n) (2 ^ n) y)
        (List.replicate (2 ^ n * 2 ^ n) 0) = some (grid (2 ^ n * 2 ^ n) (2 ^ n) g) ∧ Transformed n y g := by
  obtain ⟨m, rfl⟩ := Nat.exists_eq_add_of_le' hn
  have hlt := m.lt_two_pow_self
  have hzero : List.replicate (2 ^ (m + 1) * 2 ^ (m + 1)) (0 : ℚ) =
      grid (2 ^ (m + 1) * 2 ^ (m + 1)) (2 ^ (m + 1)) fun _ _ => 0 := by
    simp [grid, List.map_const']
  have hrounds : 2 ^ (m + 1) + 2 ^ (m + 1) = (2 ^ m + 2 ^ m + 2 ^ m + (2 ^ m - 1)) + 1 := by
    rw [pow_succ']
    omega
  obtain ⟨g, hloop, htrans, hout⟩ := encodeLoop_run (m := m)
    (g := quarters (2 ^ m) y fun _ _ => 0)
    (show 2 ^ m ≤ 2 ^ (m + 1) from Nat.pow_le_pow_right two_pos (by omega)) (2 ^ m + 2 ^ m + 2 ^ m + (2 ^ m - 1))
    (by omega)
  refine ⟨g, ?_, htrans.succ fun j _ i _ h => hout j i h⟩
  have hround := encodeLoop_round (g := y) (w := fun _ _ => 0)
    (show 2 * 2 ^ m ≤ 2 ^ (m + 1) by rw [pow_succ']) (by positivity) (2 ^ m + 2 ^ m + 2 ^ m + (2 ^ m - 1))
  rw [← pow_succ'] at hround
  rw [hzero, hrounds, hround, hloop]

end Loop

/-! ## The order of the file -/

section Layout

variable {n m : Nat}

theorem levelLayout_eq (xRes scale : Nat) : levelLayout xRes scale =
    ((cells scale scale).map fun c => c.1 * xRes + (scale + c.2)) ++
      (((cells scale scale).map fun c => (scale + c.1) * xRes + c.2) ++
        ((cells scale scale).map fun c => (scale + c.1) * xRes + (scale + c.2))) := by
  have hrange : List.range 3 = [0, 1, 2] := rfl
  rw [levelLayout, hrange]
  simp only [List.flatMap_cons, List.flatMap_nil, List.append_nil]
  refine congrArg₂ _ (List.map_congr_left fun c _ => ?_) (congrArg₂ _ (List.map_congr_left fun c _ => ?_)
    (List.map_congr_left fun c _ => ?_))
  · simp
    omega
  · simp
    ring
  · simp
    ring

@[simp] theorem length_levelLayout (xRes scale : Nat) : (levelLayout xRes scale).length = 3 * (scale * scale) := by
  rw [levelLayout_eq]
  simp only [List.length_append, List.length_map, length_cells]
  omega

/-- A level stands in the layout behind as many cells as it has itself in a block. -/
theorem getElem?_layout {rounds l : Nat} (hrounds : n - l ≤ rounds) (hl : l ≤ m) (hm : m < n) {p q : Nat}
    (hp : p + 2 ^ l * 2 ^ l = 2 ^ m * 2 ^ m + q) (hq : q < 3 * (2 ^ m * 2 ^ m)) :
    (layout (2 ^ n) rounds (2 ^ l))[p]? = (levelLayout (2 ^ n) (2 ^ m))[q]? := by
  induction rounds generalizing l p with
  | zero => omega
  | succ rounds ih =>
    have hlt : 2 ^ l < 2 ^ n := Nat.pow_lt_pow_right one_lt_two (by omega)
    rw [layout, if_pos hlt]
    rcases Nat.eq_or_lt_of_le hl with rfl | hlm
    · obtain rfl : p = q := by omega
      rw [List.getElem?_append_left (by rwa [length_levelLayout])]
    · have hpow : 2 ^ (l + 1) * 2 ^ (l + 1) ≤ 2 ^ m * 2 ^ m :=
        Nat.mul_le_mul (Nat.pow_le_pow_right two_pos hlm) (Nat.pow_le_pow_right two_pos hlm)
      have hfour : 2 ^ (l + 1) * 2 ^ (l + 1) = 4 * (2 ^ l * 2 ^ l) := by ring
      rw [List.getElem?_append_right (by rw [length_levelLayout]; omega), length_levelLayout, ← pow_succ']
      exact ih (l := l + 1) (by omega) hlm (by omega)

theorem length_layout {rounds l : Nat} (hrounds : n - l ≤ rounds) (hl : l ≤ n) :
    (layout (2 ^ n) rounds (2 ^ l)).length + 2 ^ l * 2 ^ l = 2 ^ n * 2 ^ n := by
  induction rounds generalizing l with
  | zero =>
    obtain rfl : l = n := by omega
    simp [layout]
  | succ rounds ih =>
    have hfour : 2 ^ (l + 1) * 2 ^ (l + 1) = 4 * (2 ^ l * 2 ^ l) := by ring
    rw [layout]
    rcases Nat.eq_or_lt_of_le hl with rfl | hlt
    · rw [if_neg (lt_irrefl _), List.length_nil, Nat.zero_add]
    · rw [if_pos (Nat.pow_lt_pow_right one_lt_two hlt), List.length_append, length_levelLayout, ← pow_succ']
      have := ih (l := l + 1) (by omega) hlt
      omega

theorem mem_layout {rounds l p : Nat} (hp : p ∈ layout (2 ^ n) rounds (2 ^ l)) :
    ∃ j i, j < 2 ^ n ∧ i < 2 ^ n ∧ p = j * 2 ^ n + i := by
  induction rounds generalizing l with
  | zero => simp [layout] at hp
  | succ rounds ih =>
    rw [layout] at hp
    split at hp
    · rename_i hlt
      rcases List.mem_append.1 hp with hp | hp
      · have hl : 2 * 2 ^ l ≤ 2 ^ n := by
          rw [← pow_succ']
          exact Nat.pow_le_pow_right two_pos ((Nat.pow_lt_pow_iff_right one_lt_two).1 hlt)
        rw [levelLayout_eq] at hp
        simp only [List.mem_append, List.mem_map, mem_cells, Prod.exists] at hp
        rcases hp with ⟨j, i, ⟨hj, hi⟩, rfl⟩ | ⟨j, i, ⟨hj, hi⟩, rfl⟩ | ⟨j, i, ⟨hj, hi⟩, rfl⟩
        all_goals exact ⟨_, _, by omega, by omega, rfl⟩
      · rw [← pow_succ'] at hp
        exact ih hp
    · simp at hp

/-- The coefficients of the file: the average, then the levels' blocks. -/
structure Rearranged (n : Nat) (g : Nat → Nat → ℚ) (xform : List Int8) : Prop where
  length : xform.length = 2 ^ n * 2 ^ n
  average : xform.getD 0 0 = quantizeAverage (g 0 0)
  blocks : ∀ m < n, ∀ j < 2 ^ m, ∀ i < 2 ^ m,
    xform.getD (2 ^ m * 2 ^ m + (j * 2 ^ m + i)) 0 = quantize (g j (2 ^ m + i)) ∧
    xform.getD (2 ^ m * 2 ^ m + 2 ^ m * 2 ^ m + (j * 2 ^ m + i)) 0 = quantize (g (2 ^ m + j) i) ∧
    xform.getD (2 ^ m * 2 ^ m + 2 * (2 ^ m * 2 ^ m) + (j * 2 ^ m + i)) 0 = quantize (g (2 ^ m + j) (2 ^ m + i))

theorem rearrange_spec (g : Nat → Nat → ℚ) :
    ∃ xform, rearrange (2 ^ n) (2 ^ n * 2 ^ n) (grid (2 ^ n * 2 ^ n) (2 ^ n) g) = some xform ∧
      Rearranged n g xform := by
  have hcell : ∀ j < 2 ^ n, ∀ i < 2 ^ n, j * 2 ^ n + i < 2 ^ n * 2 ^ n := fun j hj i hi => cell_lt hj hi
  have hread : ∀ j < 2 ^ n, ∀ i < 2 ^ n, (grid (2 ^ n * 2 ^ n) (2 ^ n) g).getD (j * 2 ^ n + i) 0 = g j i :=
    fun j hj i hi => getD_grid _ hi (hcell j hj i hi) 0
  have hpos : 0 < 2 ^ n := by positivity
  have hlen := length_layout (show n - 0 ≤ 2 ^ n by have := n.lt_two_pow_self; omega) (Nat.zero_le n)
  rw [pow_zero, Nat.mul_one] at hlen
  have hzero : (grid (2 ^ n * 2 ^ n) (2 ^ n) g).getD 0 0 = g 0 0 := by
    have := hread 0 hpos 0 hpos
    rwa [Nat.zero_mul] at this
  refine ⟨quantizeAverage (g 0 0) :: (layout (2 ^ n) (2 ^ n) 1).map fun p =>
    quantize ((grid (2 ^ n * 2 ^ n) (2 ^ n) g).getD p 0), ?_, ?_, rfl, ?_⟩
  · have hwrites := writes_zipIdx (a := List.replicate (2 ^ n * 2 ^ n) (0 : Int8))
      (b := quantizeAverage (g 0 0) :: (layout (2 ^ n) (2 ^ n) 1).map fun p =>
        quantize ((grid (2 ^ n * 2 ^ n) (2 ^ n) g).getD p 0)) (by simpa using hlen.symm)
    rw [← hwrites, rearrange, if_pos, hzero]
    · rw [List.zipIdx_cons, List.map_cons, List.zipIdx_map, List.map_map]
      rfl
    · refine ⟨by rw [length_grid]; positivity, fun p hp => ?_⟩
      obtain ⟨j, i, hj, hi, rfl⟩ := mem_layout (l := 0) hp
      rw [length_grid]
      exact hcell j hj i hi
  · rw [List.length_cons, List.length_map, hlen]
  · intro m hm j hj i hi
    have hle : 2 * 2 ^ m ≤ 2 ^ n := by
      rw [← pow_succ']
      exact Nat.pow_le_pow_right two_pos hm
    have hin := cell_lt hj hi
    have hone : 0 < 2 ^ m * 2 ^ m := by positivity
    have hget : ∀ q j' i', q < 3 * (2 ^ m * 2 ^ m) → j' < 2 ^ n → i' < 2 ^ n →
        (levelLayout (2 ^ n) (2 ^ m))[q]? = some (j' * 2 ^ n + i') →
        (quantizeAverage (g 0 0) :: (layout (2 ^ n) (2 ^ n) 1).map fun p =>
          quantize ((grid (2 ^ n * 2 ^ n) (2 ^ n) g).getD p 0)).getD (2 ^ m * 2 ^ m + q) 0 = quantize (g j' i') := by
      intro q j' i' hq hj' hi' hlevel
      have hlayout := getElem?_layout
        (show n - 0 ≤ 2 ^ n by have := n.lt_two_pow_self; omega) (Nat.zero_le m) hm (p := 2 ^ m * 2 ^ m + q - 1)
        (q := q)
        (by rw [pow_zero, Nat.mul_one]; omega) hq
      rw [pow_zero, hlevel] at hlayout
      rw [show 2 ^ m * 2 ^ m + q = 2 ^ m * 2 ^ m + q - 1 + 1 by omega, List.getD_cons_succ,
        List.getD_eq_getElem?_getD, List.getElem?_map, hlayout, Option.map_some, Option.getD_some,
        hread j' hj' i' hi']
    have hcells := getElem?_cells hj hi
    rw [levelLayout_eq] at hget
    refine ⟨hget _ j (2 ^ m + i) (by omega) (by omega) (by omega) ?_, ?_, ?_⟩
    · rw [List.getElem?_append_left (by simpa using hin), List.getElem?_map, hcells]
      rfl
    · rw [Nat.add_assoc]
      refine hget _ (2 ^ m + j) i (by omega) (by omega) (by omega) ?_
      rw [List.getElem?_append_right (by simp), List.length_map, length_cells, Nat.add_sub_cancel_left,
        List.getElem?_append_left (by simpa using hin), List.getElem?_map, hcells]
      rfl
    · rw [Nat.add_assoc]
      refine hget _ (2 ^ m + j) (2 ^ m + i) (by omega) (by omega) (by omega) ?_
      rw [List.getElem?_append_right (by simp; omega), List.length_map, length_cells,
        List.getElem?_append_right (by simp; omega), List.length_map, length_cells, List.getElem?_map,
        show 2 * (2 ^ m * 2 ^ m) + (j * 2 ^ m + i) - 2 ^ m * 2 ^ m - 2 ^ m * 2 ^ m = j * 2 ^ m + i by omega, hcells]
      rfl

end Layout

end WorldWind.Wavelet
