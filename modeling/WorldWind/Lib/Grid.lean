import WorldWind.Lib.JavaArray
/-!
# Two-dimensional data in a flat array

Row `j` and column `i` of a grid of width `w` are cell `j * w + i` of an array.
A loop over rows and columns is the list of its cells in order (`cells`).
Assignments to cells turn one grid into another (`writes_grid`), so a pass over
an image can be reasoned about as a change of a function of row and column.
-/

namespace WorldWind.Lib.Grid

open JavaArray

variable {α : Type*}

/-- The cells of `for j < h, for i < w`, as pairs of row and column. -/
def cells (h w : Nat) : List (Nat × Nat) := (List.range h).flatMap fun j => (List.range w).map fun i => (j, i)

@[simp] theorem mem_cells {h w : Nat} {c : Nat × Nat} : c ∈ cells h w ↔ c.1 < h ∧ c.2 < w := by
  obtain ⟨j, i⟩ := c
  simp [cells]

theorem cell_lt {h w j i : Nat} (hj : j < h) (hi : i < w) : j * w + i < h * w := by
  have := Nat.mul_le_mul_right w (Nat.succ_le_of_lt hj)
  rw [Nat.succ_mul] at this
  omega

theorem cell_div {w i : Nat} (j : Nat) (hi : i < w) : (j * w + i) / w = j := by
  rw [Nat.mul_comm, Nat.mul_add_div (by omega), Nat.div_eq_of_lt hi, Nat.add_zero]

theorem cell_mod {w i : Nat} (j : Nat) (hi : i < w) : (j * w + i) % w = i := by
  rw [Nat.mul_comm, Nat.mul_add_mod, Nat.mod_eq_of_lt hi]

/-- The cells in the order of the array. -/
theorem cells_eq (h w : Nat) : cells h w = (List.range (h * w)).map fun p => (p / w, p % w) := by
  induction h with
  | zero => simp [cells]
  | succ h ih =>
    have hrow : cells (h + 1) w = cells h w ++ (List.range w).map fun i => (h, i) := by
      simp [cells, List.range_succ]
    rw [hrow, ih, Nat.succ_mul, List.range_add, List.map_append, List.map_map]
    refine congrArg _ (List.map_congr_left fun i hi => ?_)
    rw [List.mem_range] at hi
    rw [Function.comp_apply, cell_div h hi, cell_mod h hi]

@[simp] theorem length_cells (h w : Nat) : (cells h w).length = h * w := by
  rw [cells_eq, List.length_map, List.length_range]

theorem getElem?_cells {h w j i : Nat} (hj : j < h) (hi : i < w) : (cells h w)[j * w + i]? = some (j, i) := by
  rw [cells_eq, List.getElem?_map, List.getElem?_range (cell_lt hj hi), Option.map_some, cell_div j hi, cell_mod j hi]

/-- Rows of one length, one behind the other. -/
theorem getElem?_rows {w : Nat} {row : Nat → List α} (hrow : ∀ j, (row j).length = w) {h j i : Nat} (hj : j < h)
    (hi : i < w) : ((List.range h).flatMap row)[j * w + i]? = (row j)[i]? := by
  induction h with
  | zero => omega
  | succ h ih =>
    have hlength : ((List.range h).flatMap row).length = h * w := by
      rw [List.length_flatMap, List.map_congr_left fun j _ => hrow j, List.map_const', List.sum_replicate,
        List.length_range, smul_eq_mul]
    rw [List.range_succ, List.flatMap_append, List.flatMap_singleton, List.getElem?_append, hlength]
    by_cases hlast : j < h
    · rw [if_pos (cell_lt hlast hi), ih hlast]
    · obtain rfl : j = h := by omega
      rw [if_neg (by omega), Nat.add_sub_cancel_left]

/-- An array of `n` cells read as rows of width `w`. -/
def grid (n w : Nat) (g : Nat → Nat → α) : List α := (List.range n).map fun p => g (p / w) (p % w)

@[simp] theorem length_grid (n w : Nat) (g : Nat → Nat → α) : (grid n w g).length = n := by
  simp [grid]

theorem getElem?_grid {n w : Nat} (g : Nat → Nat → α) {j i : Nat} (hi : i < w) (h : j * w + i < n) :
    (grid n w g)[j * w + i]? = some (g j i) := by
  rw [grid, List.getElem?_map, List.getElem?_range h, Option.map_some, cell_div j hi, cell_mod j hi]

theorem getD_grid {n w : Nat} (g : Nat → Nat → α) {j i : Nat} (hi : i < w) (h : j * w + i < n) (d : α) :
    (grid n w g).getD (j * w + i) d = g j i := by
  rw [List.getD_eq_getElem?_getD, getElem?_grid g hi h, Option.getD_some]

theorem map_grid {β : Type*} (f : α → β) (n w : Nat) (g : Nat → Nat → α) :
    (grid n w g).map f = grid n w fun j i => f (g j i) := by
  rw [grid, List.map_map]
  rfl

/-- Every array is a grid. -/
theorem eq_grid {n : Nat} (w : Nat) (l : List α) (h : l.length = n) (d : α) :
    l = grid n w fun j i => l.getD (j * w + i) d := by
  refine List.ext_getElem (by simp [h]) fun p hp _ => ?_
  simp only [grid, List.getElem_map, List.getElem_range, Nat.div_add_mod', List.getD_eq_getElem?_getD,
    List.getElem?_eq_getElem hp, Option.getD_some]

/-- Cells with the same values are the same grid. -/
theorem grid_congr {n w : Nat} (hw : 0 < w) {g g' : Nat → Nat → α}
    (h : ∀ j i, i < w → j * w + i < n → g j i = g' j i) : grid n w g = grid n w g' := by
  refine List.map_congr_left fun p hp => h _ _ (Nat.mod_lt p hw) ?_
  rw [Nat.div_add_mod']
  exact List.mem_range.1 hp

/-- Assignments that agree with `g'` where they write turn a grid of `g` into
one of `g'`, if the two agree elsewhere. -/
theorem writes_grid {n w : Nat} (hw : 0 < w) {g g' : Nat → Nat → α} {l : List (Nat × α)}
    (hin : ∀ c ∈ l, ∃ j i, i < w ∧ j * w + i < n ∧ c = (j * w + i, g' j i))
    (hout : ∀ j i, i < w → j * w + i < n → (∀ c ∈ l, c.1 ≠ j * w + i) → g j i = g' j i) :
    writes (grid n w g) l = some (grid n w g') := by
  refine writes_eq (by simp) (fun c hc => ?_) fun p hp => ?_
  · obtain ⟨j, i, hi, hlt, rfl⟩ := hin c hc
    exact getElem?_grid g' hi hlt
  · by_cases hlt : p < n
    · have hcell := Nat.div_add_mod' p w
      have hi := Nat.mod_lt p hw
      rw [← hcell] at hp hlt ⊢
      rw [getElem?_grid g hi hlt, getElem?_grid g' hi hlt, hout _ _ hi hlt hp]
    · rw [List.getElem?_eq_none (by simpa using hlt), List.getElem?_eq_none (by simpa using hlt)]

end WorldWind.Lib.Grid
