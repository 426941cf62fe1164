import WorldWind.Lib.Loops
import WorldWind.Tessellator.StripTheorems
/-!
# The cells that `intersect` looks at

The two `intersect` methods of `RectangularTessellator` go along the strip by
two indices at a time and take each four in a row as the corners of a cell. A
start, an end and a counter leave out the skirt and the turns. What remains are
the cells of the tile, once each (`intersect_cells`).
-/

namespace WorldWind.Tessellator

open Lib.JavaInt Lib.Grid Lib.TriangleStrip

/-! ## The loop -/

/-- The positions that the loop does not skip, in its next `n` rounds. -/
def cellStarts (density : Int) : Nat → Int → Int → List Int
  | 0, _, _ => []
  | n + 1, i, k =>
    let k := if k = density - 1 then -4 else k + 1
    if k < 0 then cellStarts density n (i + 2) k else i :: cellStarts density n (i + 2) k

/-- The four vertices `v0` to `v3` of a cell. -/
abbrev Corners := Int × Int × Int × Int

/-- The indices at a position and behind it, none past their end. -/
def cornersAt (indices : List Int) (i : Int) : Option Corners :=
  if 0 ≤ i then
    indices[i.toNat]?.bind fun v0 => indices[i.toNat + 1]?.bind fun v1 => indices[i.toNat + 2]?.bind fun v2 =>
      indices[i.toNat + 3]?.map fun v3 => (v0, v1, v2, v3)
  else none

/-- The corners of the cells that both loops test, none where an index is out of bounds. What is not written to the
buffer is zero. -/
def intersectCells (density : Int) (b : IntBuffer) : Option (List Corners) :=
  let indices := b.contents ++ List.replicate (b.capacity - b.contents.length) 0
  let trianglesNum := int (b.capacity - 2)
  let startIndex := int ((density + 2) * 2 + 6)
  let endIndex := int (trianglesNum - startIndex)
  let rounds := ((endIndex - startIndex + 1) / 2).toNat
  (cellStarts density rounds startIndex (-1)).mapM (cornersAt indices)

/-! ## The counter -/

theorem cellStarts_cell {d k : Int} (hk : -1 ≤ k) (hd : k < d - 1) (n : Nat) (i : Int) :
    cellStarts d (n + 1) i k = i :: cellStarts d n (i + 2) (k + 1) := by
  simp only [cellStarts]
  rw [if_neg (show ¬ k = d - 1 by omega), if_neg (show ¬ k + 1 < 0 by omega)]

theorem cellStarts_skip {d k : Int} (hk : k < -1) (hd : 1 ≤ d) (n : Nat) (i : Int) :
    cellStarts d (n + 1) i k = cellStarts d n (i + 2) (k + 1) := by
  simp only [cellStarts]
  rw [if_neg (show ¬ k = d - 1 by omega), if_pos (show k + 1 < 0 by omega)]

theorem cellStarts_end (d : Int) (n : Nat) (i : Int) : cellStarts d (n + 1) i (d - 1) = cellStarts d n (i + 2)
    (-4) := by
  simp only [cellStarts]
  rw [if_pos trivial, if_pos (by decide)]

/-- Rounds that do not come to the end of a column. -/
theorem cellStarts_column {d : Int} (n : Nat) : ∀ (t : Nat) (i k : Int), -1 ≤ k → k + t ≤ d - 1 →
    cellStarts d (t + n) i k = ((List.range t).map fun j : Nat => i + 2 * j) ++ cellStarts d n (i + 2 * t)
      (k + t) := by
  intro t
  induction t with
  | zero => intro i k _ _; simp
  | succ t ih =>
    intro i k hk ht
    push_cast at ht
    rw [Nat.add_right_comm, cellStarts_cell hk (by omega), ih (i + 2) (k + 1) (by omega) (by omega),
      List.range_succ_eq_map, List.map_cons, List.map_map, List.cons_append]
    have hi (j : Nat) : i + 2 * ((j + 1 : Nat) : Int) = i + 2 + 2 * j := by
      push_cast
      ring
    rw [hi t, show k + 1 + (t : Int) = k + ((t + 1 : Nat) : Int) by push_cast; ring]
    simp only [Function.comp_def, Nat.succ_eq_add_one, hi, Nat.cast_zero, mul_zero, add_zero]

/-- The four rounds between two columns. -/
theorem cellStarts_turn {d : Int} (hd : 1 ≤ d) (n : Nat) (i : Int) :
    cellStarts d (4 + n) i (d - 1) = cellStarts d n (i + 8) (-1) := by
  rw [show 4 + n = n + 1 + 1 + 1 + 1 by omega, cellStarts_end, cellStarts_skip (by decide) hd,
    cellStarts_skip (by decide) hd, cellStarts_skip (by decide) hd]
  congr 1
  ring

/-- The positions of `c + 1` columns of `d` cells. -/
theorem cellStarts_columns {d : Nat} (hd : 1 ≤ d) : ∀ (c : Nat) (i : Int),
    cellStarts d (c * (d + 4) + d) i (-1) =
      (List.range (c + 1)).flatMap fun q : Nat => (List.range d).map fun j : Nat => i + q * (2 * d + 8) + 2 * j := by
  intro c
  induction c with
  | zero =>
    intro i
    have := cellStarts_column (d := d) 0 d i (-1) le_rfl (by omega)
    simp only [Nat.add_zero, cellStarts, List.append_nil] at this
    rw [Nat.zero_mul, Nat.zero_add, this]
    simp
  | succ c ih =>
    intro i
    have hcolumn := cellStarts_column (d := d) (4 + (c * (d + 4) + d)) d i (-1) le_rfl (by omega)
    rw [show d + (4 + (c * (d + 4) + d)) = (c + 1) * (d + 4) + d by ring, show (-1 : Int) + d = d - 1 by ring,
      cellStarts_turn (by omega), ih] at hcolumn
    rw [hcolumn, List.range_succ_eq_map (n := c + 1), List.flatMap_cons, List.flatMap_map]
    congr 1
    · simp
    · congr 1
      funext q
      refine List.map_congr_left fun j _ => ?_
      push_cast
      ring

/-! ## The cells -/

/-- The corners of a cell in the order in which the strip comes to them, upwards in even columns and downwards in odd
ones. -/
def cellCorners (s r c : Nat) : Corners :=
  if c % 2 = 0 then (vertex s r c, vertex s r (c + 1), vertex s (r + 1) c, vertex s (r + 1) (c + 1))
  else (vertex s (r + 1) (c + 1), vertex s (r + 1) c, vertex s r (c + 1), vertex s r c)

/-- The two triangles `v0 v1 v2` and `v1 v2 v3` are those of the strip, the second one turned. -/
theorem cellCorners_triangles (s r c : Nat) :
    let v := cellCorners s r c
    ([(v.1, v.2.1, v.2.2.1), (v.2.2.1, v.2.1, v.2.2.2)].map Triangle.cycle).Perm
      ((cellTriangles s r c).map Triangle.cycle) := by
  intro v
  by_cases hc : c % 2 = 0
  · have hv : v = (vertex s r c, vertex s r (c + 1), vertex s (r + 1) c, vertex s (r + 1) (c + 1)) := if_pos hc
    rw [hv]
    exact List.Perm.refl _
  · have hv : v = (vertex s (r + 1) (c + 1), vertex s (r + 1) c, vertex s r (c + 1), vertex s r c) := if_neg hc
    rw [hv]
    simp only [List.map_cons, List.map_nil, cellTriangles]
    rw [← Triangle.cycle_rotate (vertex s (r + 1) (c + 1)), ← Triangle.cycle_rotate (vertex s r (c + 1)),
      ← Triangle.cycle_rotate (vertex s (r + 1) c) (vertex s r c)]
    exact List.Perm.swap _ _ _

variable {s : Nat}

theorem cornersAt_strip {i k : Nat} (hi : i < s) (hk : k < s) :
    cornersAt (strip s) (i * (2 * s + 4) + 2 * k : Nat) = some (cellCorners s (cellRow s i k) i) := by
  have hlast : (i + 1) * (2 * s + 4) ≤ s * (2 * s + 4) := Nat.mul_le_mul_right _ hi
  rw [Nat.succ_mul] at hlast
  have hget {m : Nat} (hm : m < 2 * s + 2) : (strip s)[i * (2 * s + 4) + m]? = some (columnVertex s i m) := by
    rw [strip, getElem?_grid _ (by omega) (by omega), entry, if_pos hm]
  rw [cornersAt, if_pos (by omega), Int.toNat_natCast]
  simp only [Nat.add_assoc]
  rw [hget (by omega), hget (by omega), hget (by omega), hget (by omega)]
  exact congrArg some (columnVertex_corners hk)

theorem cellCorners_perm (d : Nat) (i : Nat) :
    ((List.range d).map fun j => cellCorners (d + 2) (cellRow (d + 2) i (j + 1)) i).Perm
      ((List.range d).map fun j => cellCorners (d + 2) (j + 1) i) := by
  have hrows : ((List.range d).map fun j => cellRow (d + 2) i (j + 1)).Perm ((List.range d).map (· + 1)) := by
    by_cases hi : i % 2 = 0
    · simp only [cellRow, if_pos hi]
      exact List.Perm.refl _
    · have hrev : ((List.range d).map fun j => cellRow (d + 2) i (j + 1)) = ((List.range d).map (· + 1)).reverse := by
        rw [← List.map_reverse, List.range_eq_range', List.reverse_range', List.range_eq_range', List.map_map]
        refine List.map_congr_left fun j hj => ?_
        have := (List.mem_range'_1.1 hj).2
        simp only [cellRow, if_neg hi, Function.comp_apply]
        omega
      rw [hrev]
      exact List.reverse_perm _
  have := hrows.map fun r => cellCorners (d + 2) r i
  simpa [Function.comp_def] using this

variable {newIntBuffer : Int → Option IntBuffer}

/-- Both loops test the cells within the skirt, once each. The tile's row and column 0 are the vertices of row and
column 1. -/
theorem intersect_cells {indexLists : IndexLists} (hcreated : Created newIntBuffer indexLists) {d : Nat} (h1 : 1 ≤ d)
    (hd : d ≤ 32765) (hnew : newIntBuffer (indexCount d) = some ⟨indexCount d, []⟩) {b : IntBuffer}
    (hb : indexLists d = some b) :
    ∃ l, intersectCells d b = some l ∧ l.Perm ((cells d d).map fun c => cellCorners (d + 2) (c.2 + 1) (c.1 + 1)) := by
  obtain rfl := Option.some.inj ((hcreated.eq_newIndices _ _ hb).symm.trans (newIndices_strip hd hnew))
  have hsq : (d : Int) ^ 2 ≤ 32765 ^ 2 := by exact_mod_cast Nat.pow_le_pow_left hd 2
  have hpos : (0 : Int) ≤ (d : Int) ^ 2 := sq_nonneg _
  have hcount : (indexCount d : Int) = 2 * d ^ 2 + 12 * d + 14 := by
    rw [indexCount, Nat.cast_sub (by omega)]
    push_cast
    ring
  have hnum : int (indexCount d - 2) = indexCount d - 2 := int_eq (by omega) (by omega)
  have hstart : int ((d + 2) * 2 + 6) = 2 * d + 10 := by
    rw [int_eq (by omega) (by omega)]
    ring
  have hend : int (indexCount d - 2 - (2 * d + 10)) = indexCount d - 2 - (2 * d + 10) := int_eq (by omega) (by omega)
  obtain ⟨c, rfl⟩ : ∃ c, d = c + 1 := ⟨d - 1, by omega⟩
  have hrounds : (((indexCount (c + 1) : Int) - 2 - (2 * (c + 1 : Nat) + 10) - (2 * (c + 1 : Nat) + 10) +
      1) / 2).toNat =
      c * (c + 1 + 4) + (c + 1) := by
    have hodd : (indexCount (c + 1) : Int) - 2 - (2 * (c + 1 : Nat) + 10) - (2 * (c + 1 : Nat) + 10) + 1 =
        1 + 2 * (c * (c + 1 + 4) + (c + 1) : Nat) := by
      rw [hcount]
      push_cast
      ring
    rw [hodd, Int.add_mul_ediv_left _ _ (by decide)]
    omega
  have hcells : ((List.range (c + 1)).flatMap fun q : Nat => (List.range (c + 1)).map fun j : Nat =>
        (2 * (c + 1 : Nat) + 10 : Int) + q * (2 * (c + 1 : Nat) + 8) + 2 * j) =
      (cells (c + 1) (c + 1)).map fun p => (((p.1 + 1) * (2 * (c + 3) + 4) + 2 * (p.2 + 1) : Nat) : Int) := by
    rw [cells, List.map_flatMap]
    refine congrArg₂ _ (funext fun q => ?_) rfl
    rw [List.map_map]
    refine List.map_congr_left fun j _ => ?_
    rw [Function.comp_apply]
    push_cast
    ring
  refine ⟨(cells (c + 1) (c + 1)).map fun p => cellCorners (c + 3) (cellRow (c + 3) (p.1 + 1) (p.2 + 1)) (p.1 + 1),
    ?_, ?_⟩
  · simp only [intersectCells]
    rw [strip_length, Nat.sub_self, List.replicate_zero, List.append_nil, hnum, hstart, hend, hrounds,
      cellStarts_columns (by omega), hcells]
    have hall := Lib.Loops.mapM_eq_map (f := fun p : Nat × Nat => cornersAt (strip (c + 3))
        (((p.1 + 1) * (2 * (c + 3) + 4) + 2 * (p.2 + 1) : Nat) : Int))
      (k := fun p => cellCorners (c + 3) (cellRow (c + 3) (p.1 + 1) (p.2 + 1)) (p.1 + 1)) (l := cells (c + 1) (c + 1))
      fun p hp => cornersAt_strip (by have := (mem_cells.1 hp).1; omega) (by have := (mem_cells.1 hp).2; omega)
    rw [← hall, List.mapM_map]
    rfl
  · rw [cells, List.map_flatMap, List.map_flatMap]
    refine List.Perm.flatMap_left _ fun q _ => ?_
    rw [List.map_map, List.map_map]
    exact cellCorners_perm (c + 1) (q + 1)

theorem density_two_cells : ∃ l, intersectCells 2 ⟨indexCount 2, strip 4⟩ = some l ∧
    l.Perm ((cells 2 2).map fun c => cellCorners 4 (c.2 + 1) (c.1 + 1)) := by
  have hcreate : createIndices allocate (fun _ => none) 2 =
      some (Function.update (fun _ => none) 2 (some ⟨indexCount 2, strip 4⟩)) := by
    have hmade : newIndices allocate 2 = some ⟨indexCount 2, strip 4⟩ := by decide +kernel
    rw [createIndices, if_neg (by decide), hmade]
    rfl
  exact intersect_cells (.createIndices .none hcreate) (by decide) (by decide) rfl (Function.update_self ..)

/-- At the greatest density the sums of `createIndices` overflow to a buffer of four indices, and no cell is
tested. -/
theorem greatest_density_no_cells :
    ∃ b, newIndices allocate 2147483647 = some b ∧ ¬ ∃ l, intersectCells 2147483647 b = some l ∧
      l.Perm ((cells 2147483647 2147483647).map fun c => cellCorners (2147483647 + 2) (c.2 + 1) (c.1 + 1)) := by
  have hside : int (2147483647 + 2) = -2147483647 := by decide +kernel
  have hcount : int (2 * (-2147483647) * (-2147483647) + 4 * (-2147483647) - 2) = 4 := by decide +kernel
  refine ⟨⟨4, []⟩, ?_, ?_⟩
  · rw [newIndices, hside, hcount]
    rfl
  · have hnone : intersectCells 2147483647 ⟨4, []⟩ = some [] := by
      have hstart : int ((2147483647 + 2) * 2 + 6) = 8 := by decide +kernel
      have hend : int (int ((4 : Nat) - 2) - 8) = -6 := by decide +kernel
      simp only [intersectCells]
      rw [hstart, hend]
      rfl
    rintro ⟨l, hl, hperm⟩
    rw [hnone] at hl
    obtain rfl := Option.some.inj hl
    have hlen := hperm.length_eq
    rw [List.length_map, length_cells] at hlen
    simp at hlen

end WorldWind.Tessellator
