import WorldWind.GeometryBuilder.GridStrips
/-!
# The eight grids

The lines of cylinders and disks are one behind the other in the array, the rows
of walls, long shapes and bilinear surfaces are. Each of the eight methods writes
a strip over the grid that its vertices lay out (`makeIndices_right`).
-/

namespace WorldWind.GeometryBuilder.GridIndices

open Lib.GrowingArray Lib.Grid Lib.JavaArray Lib.TriangleStrip Layout

/-! ## Vertices -/

section

variable {P : Type} {slices rows : Nat}

theorem verticesBySlice_laysOut {closed : Bool} (h : 0 < slices) (hclosed : closed = true → 2 ≤ slices)
    (point : Nat → Nat → P) {make : List P → Option (List P)}
    (hmake : ∀ dest, columns slices closed * (rows + 1) ≤ dest.length →
      make dest = verticesBySlice (columns slices closed) rows point dest) :
    (sliceLayout slices rows closed).LaysOut (columns slices closed * (rows + 1)) point make := by
  refine (sliceLayout_numbered rows h hclosed).laysOut (cells (columns slices closed) (rows + 1)) ?_ ?_
  · intro c
    rw [mem_cells, Nat.lt_succ_iff]
    rfl
  · intro dest hdest
    rw [hmake dest ((Nat.zero_add _).ge.trans hdest)]
    rfl

theorem verticesByRow_laysOut (first : Nat) {closed : Bool} (h : 0 < slices) (hclosed : closed = true → 2 ≤ slices)
    (point : Nat → Nat → P) {make : List P → Option (List P)}
    (hmake : ∀ dest, first + columns slices closed * (rows + 1) ≤ dest.length →
      make dest = verticesByRow first (columns slices closed) rows point dest) :
    (rowLayout first slices rows closed).LaysOut (columns slices closed * (rows + 1)) point make := by
  refine (rowLayout_numbered first rows h hclosed).laysOut
    ((cells (rows + 1) (columns slices closed)).map Prod.swap) ?_ ?_
  · intro c
    rw [List.mem_map_swap, mem_cells, Nat.lt_succ_iff, and_comm]
    rfl
  · intro dest hdest
    rw [hmake dest hdest, verticesByRow, List.map_map]
    rfl

end

/-! ## The perimeter of a long shape -/

/-- The points along the perimeter: the top arc, the right side back, the bottom arc and the left side. -/
def longPoint {P : Type} (arcSlices lengthSlices : Nat) (points : LongPoints P) (i j : Nat) : P :=
  if i ≤ arcSlices then points.topArc i j
  else if i < arcSlices + lengthSlices then points.rightSide (arcSlices + lengthSlices - i) j
  else if i ≤ 2 * arcSlices + lengthSlices then points.bottomArc (i - (arcSlices + lengthSlices)) j
  else points.leftSide (i - (2 * arcSlices + lengthSlices)) j

section

variable {P : Type} {arcSlices lengthSlices : Nat}

theorem length_longRow (points : LongPoints P) (j : Nat) :
    (longRow arcSlices lengthSlices points j).length = longSlices arcSlices lengthSlices := by
  simp only [longRow, longSlices, List.length_append, List.length_map, List.length_range, List.length_reverse,
    List.length_range']
  omega

theorem getElem?_longRow (hlength : 1 ≤ lengthSlices) (points : LongPoints P) {i : Nat} (j : Nat)
    (hi : i < longSlices arcSlices lengthSlices) :
    (longRow arcSlices lengthSlices points j)[i]? = some (longPoint arcSlices lengthSlices points i j) := by
  rw [longSlices] at hi
  simp only [longRow, List.getElem?_append, List.length_append, List.length_map, List.length_range,
    List.length_reverse, List.length_range', List.getElem?_map]
  rw [longPoint]
  by_cases h1 : i ≤ arcSlices
  · rw [if_pos (by omega), if_pos (by omega), if_pos (by omega), if_pos h1, List.getElem?_range (by omega),
      Option.map_some]
  · by_cases h2 : i < arcSlices + lengthSlices
    · rw [if_pos (by omega), if_pos (by omega), if_neg (by omega), if_neg h1, if_pos h2,
        List.getElem?_reverse (by rw [List.length_range']; omega), List.length_range',
        List.getElem?_range' (by omega), Option.map_some]
      congr 2
      omega
    · by_cases h3 : i ≤ 2 * arcSlices + lengthSlices
      · rw [if_pos (by omega), if_neg (by omega), if_neg h1, if_neg h2, if_pos h3, List.getElem?_range (by omega),
          Option.map_some]
        congr 2
        omega
      · rw [if_neg (by omega), if_neg h1, if_neg h2, if_neg h3, List.getElem?_range' (by omega), Option.map_some]
        congr 2
        omega

theorem longVertices_laysOut {rows : Nat} (hlength : 1 ≤ lengthSlices) (points : LongPoints P)
    {make : List P → Option (List P)}
    (hmake : ∀ dest, longSlices arcSlices lengthSlices * (rows + 1) ≤ dest.length →
      make dest = longVertices arcSlices lengthSlices rows points dest) :
    (rowLayout 0 (longSlices arcSlices lengthSlices) rows true).LaysOut
      (longSlices arcSlices lengthSlices * (rows + 1)) (longPoint arcSlices lengthSlices points) make := by
  refine ⟨rfl, fun dest hdest => ?_⟩
  have hdest : longSlices arcSlices lengthSlices * (rows + 1) ≤ dest.length :=
    (Nat.zero_add _).ge.trans hdest
  have hwritten : ((List.range (rows + 1)).flatMap (longRow arcSlices lengthSlices points)).length =
      longSlices arcSlices lengthSlices * (rows + 1) := by
    rw [List.length_flatMap, List.map_congr_left fun j _ => length_longRow points j, List.map_const',
      List.sum_replicate, List.length_range, smul_eq_mul, Nat.mul_comm]
  have hroom : 0 + ((List.range (rows + 1)).flatMap (longRow arcSlices lengthSlices points)).length ≤
      dest.length := by
    rw [hwritten, Nat.zero_add]
    exact hdest
  refine ⟨_, ?_, length_blit hroom, fun i hi j hj => ?_⟩
  · rw [hmake dest hdest, longVertices, appendAll_eq hroom]
    rfl
  · have hi : i < longSlices arcSlices lengthSlices := hi
    have hj : j < rows + 1 := Nat.lt_succ_of_le hj
    have hcell : j * longSlices arcSlices lengthSlices + i < (rows + 1) * longSlices arcSlices lengthSlices :=
      cell_lt hj hi
    have hvertex : (rowLayout 0 (longSlices arcSlices lengthSlices) rows true).vertex i j =
        j * longSlices arcSlices lengthSlices + i := by
      change 0 + (i + j * longSlices arcSlices lengthSlices) = _
      omega
    rw [Nat.mul_comm (rows + 1)] at hcell
    rw [hvertex, getElem?_blit hroom, hwritten, if_pos ⟨Nat.zero_le _, by omega⟩, Nat.sub_zero,
      getElem?_rows (length_longRow points) hj hi, getElem?_longRow hlength points j hi]

end

/-! ## Indices -/

section

variable {slices rows : Nat}

theorem sliceLayout_closed (i j : Nat) :
    (if i = slices then j else j + i * (rows + 1)) = (sliceLayout slices rows true).at' i j := by
  change _ = j + (if true = true ∧ i = slices then 0 else i) * (rows + 1)
  by_cases hlast : i = slices
  · rw [if_pos hlast, if_pos ⟨rfl, hlast⟩, Nat.zero_mul, Nat.add_zero]
  · rw [if_neg hlast, if_neg fun hc => hlast hc.2]

theorem sliceLayout_succ {closed : Bool} (i j : Nat) :
    (sliceLayout slices rows closed).at' i j + 1 = (sliceLayout slices rows closed).at' i (j + 1) :=
  Nat.add_right_comm _ _ _

theorem sliceLayout_zero (k : Nat) : k = (sliceLayout slices rows true).at' 0 k := by
  rw [← sliceLayout_closed, Nat.zero_mul, Nat.add_zero, ite_self]

theorem rowLayout_closed (i j : Nat) :
    (if i = slices then j * slices else i + j * slices) = (rowLayout 0 slices rows true).at' i j := by
  change _ = 0 + ((if true = true ∧ i = slices then 0 else i) + j * slices)
  by_cases hlast : i = slices
  · rw [if_pos hlast, if_pos ⟨rfl, hlast⟩, Nat.zero_add, Nat.zero_add]
  · rw [if_neg hlast, if_neg fun hc => hlast hc.2, Nat.zero_add]

theorem rowLayout_succ (first : Nat) {closed : Bool} (i j : Nat) :
    (rowLayout first slices rows closed).at' i j + columns slices closed =
      (rowLayout first slices rows closed).at' i (j + 1) := by
  change first + (_ + j * _) + _ = first + (_ + (j + 1) * _)
  rw [Nat.succ_mul, Nat.add_assoc, Nat.add_assoc]

theorem rowLayout_zero (k : Nat) : k * slices = (rowLayout 0 slices rows true).at' 0 k := by
  rw [← rowLayout_closed, Nat.zero_add, ite_self]

/-- Where the first index of each pair is of the row above, a strip goes counterclockwise. -/
def highFirst (which orientation : Orientation) : Bool :=
  match which, orientation with
  | .inside, .inside => true
  | .outside, .outside => true
  | _, _ => false

theorem makeCylinderIndices_strips (hslices : 2 ≤ slices) (hrows : 1 ≤ rows) :
    (sliceLayout slices rows true).Strips (getCylinderIndexCount slices rows) 0
      fun orientation => makeCylinderIndices orientation slices rows := by
  refine (sliceLayout_numbered rows (by omega) fun _ => hslices).strips hrows
    (fun orientation dest h => if_neg (Nat.not_lt.2 h)) (highFirst .inside) (by decide) ?_ ?_
  · intro orientation j hj i hi
    have hlow : _ = (sliceLayout slices rows true).at' i j := sliceLayout_closed i j
    cases orientation with
    | inside => exact linePair_high hlow (by rw [hlow, sliceLayout_succ])
    | outside => exact linePair_low hlow (by rw [hlow, sliceLayout_succ])
  · intro orientation
    refine Links.of_closed rfl fun j hj => ?_
    cases orientation with
    | inside => exact ⟨j + 1 + 1, hj, j + 1 + 1, hj, congrArg₂ _ (sliceLayout_zero _) (sliceLayout_zero _)⟩
    | outside => exact ⟨j + 1, hj.le, j + 1, hj.le, congrArg₂ _ (sliceLayout_zero _) (sliceLayout_zero _)⟩

theorem makeDiskIndices_strips (hslices : 2 ≤ slices) (hrows : 1 ≤ rows) :
    (sliceLayout slices rows true).Strips (getDiskIndexCount slices rows) 0
      fun orientation => makeDiskIndices orientation slices rows := by
  refine (sliceLayout_numbered rows (by omega) fun _ => hslices).strips hrows
    (fun orientation dest h => if_neg (Nat.not_lt.2 h)) (highFirst .outside) (by decide) ?_ ?_
  · intro orientation j hj i hi
    have hlow : _ = (sliceLayout slices rows true).at' i j := sliceLayout_closed i j
    cases orientation with
    | inside => exact linePair_low hlow (by rw [hlow, sliceLayout_succ])
    | outside => exact linePair_high hlow (by rw [hlow, sliceLayout_succ])
  · intro orientation
    refine Links.of_closed rfl fun j hj => ?_
    cases orientation with
    | inside => exact ⟨j + 1, hj.le, j + 1, hj.le, congrArg₂ _ (sliceLayout_zero _) (sliceLayout_zero _)⟩
    | outside =>
      exact ⟨j, (Nat.le_succ j).trans hj.le, j + 1 + 1, hj, congrArg₂ _ (sliceLayout_zero _) (sliceLayout_zero _)⟩

theorem makePartialCylinderIndices_strips (hslices : 1 ≤ slices) (hrows : 1 ≤ rows) :
    (sliceLayout slices rows false).Strips (getPartialCylinderIndexCount slices rows) 0
      fun orientation => makePartialCylinderIndices orientation slices rows := by
  refine (sliceLayout_numbered rows hslices (nofun : false = true → 2 ≤ slices)).strips hrows
    (fun orientation dest h => if_neg (Nat.not_lt.2 h)) (highFirst .inside) (by decide) ?_ ?_
  · intro orientation j hj i hi
    have hhigh : (sliceLayout slices rows false).at' i j + 1 = _ := sliceLayout_succ i j
    cases orientation with
    | inside => exact linePair_high rfl hhigh
    | outside => exact linePair_low rfl hhigh
  · intro orientation
    refine Links.of_equal fun j hj => ?_
    cases orientation with
    | inside =>
      change (j + 1 + slices * (rows + 1) - 1, j + 1 + 1) = (j + slices * (rows + 1), j + 1 + 1 + 0 * (rows + 1))
      rw [Nat.add_right_comm, Nat.add_sub_cancel, Nat.zero_mul, Nat.add_zero]
    | outside =>
      change (j + 1 + slices * (rows + 1), j + 1) = (j + 1 + slices * (rows + 1), j + 1 + 0 * (rows + 1))
      rw [Nat.zero_mul, Nat.add_zero]

theorem makePartialDiskIndices_strips (hslices : 1 ≤ slices) (hrows : 1 ≤ rows) :
    (sliceLayout slices rows false).Strips (getPartialDiskIndexCount slices rows) 0
      fun orientation => makePartialDiskIndices orientation slices rows := by
  refine (sliceLayout_numbered rows hslices (nofun : false = true → 2 ≤ slices)).strips hrows
    (fun orientation dest h => if_neg (Nat.not_lt.2 h)) (highFirst .outside) (by decide) ?_ ?_
  · intro orientation j hj i hi
    have hhigh : (sliceLayout slices rows false).at' i j + 1 = _ := sliceLayout_succ i j
    cases orientation with
    | inside => exact linePair_low rfl hhigh
    | outside => exact linePair_high rfl hhigh
  · intro orientation
    refine Links.of_equal fun j hj => ?_
    cases orientation with
    | inside =>
      change (j + 1 + slices * (rows + 1), j + 1) = (j + 1 + slices * (rows + 1), j + 1 + 0 * (rows + 1))
      rw [Nat.zero_mul, Nat.add_zero]
    | outside =>
      change (j + 1 - 1 + slices * (rows + 1), j + 1 + 1) = (j + slices * (rows + 1), j + 1 + 1 + 0 * (rows + 1))
      rw [Nat.add_sub_cancel, Nat.zero_mul, Nat.add_zero]

theorem makeRadialWallIndices_strips (hslices : 1 ≤ slices) (hrows : 1 ≤ rows) :
    (rowLayout 0 slices rows false).Strips (getRadialWallIndexCount slices rows) 0
      fun orientation => makeRadialWallIndices orientation slices rows := by
  refine (rowLayout_numbered 0 rows hslices (nofun : false = true → 2 ≤ slices)).strips hrows
    (fun orientation dest h => if_neg (Nat.not_lt.2 h)) (highFirst .outside) (by decide) ?_ ?_
  · intro orientation j hj i hi
    have hlow : i + j * (slices + 1) = (rowLayout 0 slices rows false).at' i j := (Nat.zero_add _).symm
    have hhigh : i + j * (slices + 1) + (slices + 1) = (rowLayout 0 slices rows false).at' i (j + 1) := by
      rw [hlow]
      exact rowLayout_succ 0 i j
    cases orientation with
    | inside => exact linePair_low hlow hhigh
    | outside => exact linePair_high hlow hhigh
  · intro orientation
    refine Links.of_equal fun j hj => ?_
    cases orientation with
    | inside =>
      change (slices + (j + 1) * (slices + 1), (j + 1) * (slices + 1)) =
        (0 + (slices + (j + 1) * (slices + 1)), 0 + (0 + (j + 1) * (slices + 1)))
      rw [Nat.zero_add, Nat.zero_add, Nat.zero_add]
    | outside =>
      change (slices + (j + 1 - 1) * (slices + 1), (j + 1 + 1) * (slices + 1)) =
        (0 + (slices + j * (slices + 1)), 0 + (0 + (j + 1 + 1) * (slices + 1)))
      rw [Nat.add_sub_cancel, Nat.zero_add, Nat.zero_add, Nat.zero_add]

theorem makeBilinearSurfaceFillIndices_strips (vertexPos destPos : Nat) (hslices : 1 ≤ slices) (hrows : 1 ≤ rows) :
    (rowLayout vertexPos slices rows false).Strips (getBilinearSurfaceFillIndexCount slices rows) destPos
      fun orientation => makeBilinearSurfaceFillIndices orientation vertexPos slices rows destPos := by
  refine (rowLayout_numbered vertexPos rows hslices (nofun : false = true → 2 ≤ slices)).strips hrows
    (fun orientation dest h => if_neg (Nat.not_lt.2 h)) (highFirst .outside) (by decide) ?_ ?_
  · intro orientation j hj i hi
    have hhigh : (rowLayout vertexPos slices rows false).at' i j + (slices + 1) = _ := rowLayout_succ vertexPos i j
    cases orientation with
    | inside => exact linePair_low rfl hhigh
    | outside => exact linePair_high rfl hhigh
  · intro orientation
    refine Links.of_equal fun j hj => ?_
    cases orientation with
    | inside =>
      change (vertexPos + (slices + (j + 1) * (slices + 1)), vertexPos + (j + 1) * (slices + 1)) =
        (vertexPos + (slices + (j + 1) * (slices + 1)), vertexPos + (0 + (j + 1) * (slices + 1)))
      rw [Nat.zero_add]
    | outside =>
      change (vertexPos + (slices + (j + 1 - 1) * (slices + 1)),
        vertexPos + ((j + 1) * (slices + 1) + (slices + 1))) =
        (vertexPos + (slices + j * (slices + 1)), vertexPos + (0 + (j + 1 + 1) * (slices + 1)))
      rw [Nat.add_sub_cancel, Nat.zero_add, Nat.succ_mul (j + 1)]

theorem two_le_longSlices (arcSlices lengthSlices : Nat) : 2 ≤ longSlices arcSlices lengthSlices := by
  rw [longSlices]
  omega

theorem makeLongCylinderIndices_strips (arcSlices lengthSlices : Nat) (hrows : 1 ≤ rows) :
    (rowLayout 0 (longSlices arcSlices lengthSlices) rows true).Strips
      (getLongCylinderIndexCount arcSlices lengthSlices rows) 0
      fun orientation => makeLongCylinderIndices orientation arcSlices lengthSlices rows := by
  have htwo := two_le_longSlices arcSlices lengthSlices
  refine (rowLayout_numbered 0 rows (by omega) fun _ => htwo).strips hrows
    (fun orientation dest h => if_neg (Nat.not_lt.2 h)) (highFirst .inside) (by decide) ?_ ?_
  · intro orientation j hj i hi
    have hlow : _ = (rowLayout 0 (longSlices arcSlices lengthSlices) rows true).at' i j := rowLayout_closed i j
    have hhigh : (rowLayout 0 (longSlices arcSlices lengthSlices) rows true).at' i j +
        longSlices arcSlices lengthSlices =
        _ := rowLayout_succ 0 i j
    rw [← hlow] at hhigh
    cases orientation with
    | inside => exact linePair_high hlow hhigh
    | outside => exact linePair_low hlow hhigh
  · intro orientation
    refine Links.of_closed rfl fun j hj => ?_
    cases orientation with
    | inside => exact ⟨j, (Nat.le_succ j).trans hj.le, j + 1, hj.le, congrArg₂ _ (rowLayout_zero _)
        (rowLayout_zero _)⟩
    | outside =>
      refine ⟨j + 1, hj.le, j, (Nat.le_succ j).trans hj.le, congrArg₂ _ ?_ (rowLayout_zero _)⟩
      exact (Nat.succ_mul j _).symm.trans (rowLayout_zero (j + 1))

theorem makeLongDiskIndices_strips (arcSlices lengthSlices : Nat) (hrows : 1 ≤ rows) :
    (rowLayout 0 (longSlices arcSlices lengthSlices) rows true).Strips
      (getLongDiskIndexCount arcSlices lengthSlices rows) 0
      fun orientation => makeLongDiskIndices orientation arcSlices lengthSlices rows := by
  have htwo := two_le_longSlices arcSlices lengthSlices
  refine (rowLayout_numbered 0 rows (by omega) fun _ => htwo).strips hrows
    (fun orientation dest h => if_neg (Nat.not_lt.2 h)) (highFirst .outside) (by decide) ?_ ?_
  · intro orientation j hj i hi
    have hlow : _ = (rowLayout 0 (longSlices arcSlices lengthSlices) rows true).at' i j := rowLayout_closed i j
    have hhigh : (rowLayout 0 (longSlices arcSlices lengthSlices) rows true).at' i j +
        longSlices arcSlices lengthSlices =
        _ := rowLayout_succ 0 i j
    rw [← hlow] at hhigh
    cases orientation with
    | inside => exact linePair_low hlow hhigh
    | outside => exact linePair_high hlow hhigh
  · intro orientation
    refine Links.of_closed rfl fun j hj => ?_
    cases orientation with
    | inside =>
      refine ⟨j + 1, hj.le, j, (Nat.le_succ j).trans hj.le, congrArg₂ _ ?_ (rowLayout_zero _)⟩
      exact (Nat.succ_mul j _).symm.trans (rowLayout_zero (j + 1))
    | outside => exact ⟨j, (Nat.le_succ j).trans hj.le, j + 1, hj.le, congrArg₂ _ (rowLayout_zero _)
        (rowLayout_zero _)⟩

end

/-! ## The eight methods -/

/-- What two methods for one shape have to do: vertices laid out on a grid, and a strip over it. -/
def GridRight {P : Type} (L : Layout) (vertexCount indexCount pos : Nat) (point : Nat → Nat → P)
    (makeVertices : List P → Option (List P)) (makeIndices : Orientation → List Nat → Option (List Nat)) : Prop :=
  L.LaysOut vertexCount point makeVertices ∧ L.Strips indexCount pos makeIndices

example : makeCylinderIndices .outside 3 2 (List.replicate 18 9) =
    some [0, 1, 3, 4, 6, 7, 0, 1, 1, 1, 1, 2, 4, 5, 7, 8, 1, 2] := by decide

end WorldWind.GeometryBuilder.GridIndices
