import WorldWind.Tessellator.Strip
/-!
# The cells of the strip

Between two turns the strip goes along a column, where each two triangles are
one cell; the four triangles of a turn have no area. So every cell of the grid,
those of the skirt included, is split in two by the diagonal from its lower
right to its upper left corner (`createIndices_strip`).
-/

namespace WorldWind.Tessellator

open Lib.JavaInt Lib.Grid Lib.TriangleStrip

variable {s : Nat}

/-! ## The triangles of a cell -/

theorem vertex_right (s r c : Nat) : vertex s r (c + 1) = vertex s r c + 1 := by
  simp only [vertex]
  push_cast
  ring

theorem vertex_up (s r c : Nat) : vertex s (r + 1) c = vertex s r c + (s + 1) := by
  simp only [vertex]
  push_cast
  ring

/-- The lower and the upper triangle of the cell above row `r` and to the right of column `c`, with the diagonal from
the lower right to the upper left corner, both counterclockwise. -/
def cellTriangles (s r c : Nat) : List (Triangle Int) :=
  [(vertex s r c, vertex s r (c + 1), vertex s (r + 1) c),
    (vertex s (r + 1) c, vertex s r (c + 1), vertex s (r + 1) (c + 1))]

/-- Twice the area of a triangle of vertices in the plane of columns and rows, positive where it is
counterclockwise. -/
def signedArea (s : Nat) (t : Triangle Int) : Int :=
  let x (v : Int) := v % (s + 1)
  let y (v : Int) := v / (s + 1)
  (x t.2.1 - x t.1) * (y t.2.2 - y t.1) - (x t.2.2 - x t.1) * (y t.2.1 - y t.1)

theorem vertex_mod {r c : Nat} (hc : c ≤ s) : vertex s r c % (s + 1) = c := by
  rw [vertex, add_comm, Int.add_mul_emod_self_right, Int.emod_eq_of_lt (by omega) (by omega)]

theorem vertex_div {r c : Nat} (hc : c ≤ s) : vertex s r c / (s + 1) = r := by
  rw [vertex, add_comm, Int.add_mul_ediv_right _ _ (by omega), Int.ediv_eq_zero_of_lt (by omega) (by omega), zero_add]

theorem cellTriangles_counterclockwise {r c : Nat} (hc : c < s) : ∀ t ∈ cellTriangles s r c, signedArea s t = 1 := by
  intro t ht
  have hcells : t = (vertex s r c, vertex s r (c + 1), vertex s (r + 1) c) ∨
      t = (vertex s (r + 1) c, vertex s r (c + 1), vertex s (r + 1) (c + 1)) := by
    simpa [cellTriangles] using ht
  rcases hcells with rfl | rfl <;>
    simp only [signedArea, vertex_mod hc.le, vertex_mod (Nat.succ_le_of_lt hc), vertex_div hc.le,
      vertex_div (Nat.succ_le_of_lt hc)] <;>
    push_cast <;> ring

/-! ## The triangles of a column -/

/-- The column goes on where it turns. -/
theorem entry_turn (s i : Nat) : entry s i (2 * s + 1) = entry s i (2 * s + 2) := by
  rw [entry, entry, if_pos (by omega), if_neg (by omega), Nat.sub_self, columnVertex, turnVertex,
    show (2 * s + 1) / 2 = s by omega, show (2 * s + 1) % 2 = 1 by omega]
  by_cases hi : i % 2 = 0
  · rw [if_pos hi, if_neg (by omega), Nat.add_zero]
  · rw [if_neg hi, if_pos (by omega), Nat.sub_self, Nat.add_sub_cancel, Nat.add_zero]

theorem entry_next (s i : Nat) : entry s i (2 * s + 3) = entry s (i + 1) 0 := by
  rw [entry, entry, if_neg (by omega), if_pos (by omega), columnVertex, turnVertex,
    show 2 * s + 3 - (2 * s + 2) = 1 by omega, Nat.zero_div, Nat.zero_mod]
  by_cases hi : (i + 1) % 2 = 0
  · rw [if_pos hi, if_pos hi, show i + 1 - 1 + 1 = i + 1 + 0 by omega]
  · rw [if_neg hi, if_neg hi, Nat.sub_zero, Nat.sub_zero]

/-- The row of the cell that the strip comes to as number `k` of column `i`. -/
def cellRow (s i k : Nat) : Nat := if i % 2 = 0 then k else s - 1 - k

/-- The triangle at position `m` of column `i`. -/
abbrev columnTriangle (s i m : Nat) : Triangle Int := rowTriangle (2 * s + 4) (entry s) i m

theorem along_entry {i m : Nat} (hm : m < 2 * s + 2) : along (2 * s + 4) (entry s) i m = columnVertex s i m := by
  rw [along, if_pos (by omega), entry, if_pos hm]

theorem columnTriangle_eq {i m : Nat} (hm : m < 2 * s) : columnTriangle s i m =
    triangle (m % 2 == 1) (columnVertex s i m) (columnVertex s i (m + 1)) (columnVertex s i (m + 2)) := by
  rw [columnTriangle, rowTriangle, along_entry (by omega), along_entry (by omega), entry, if_pos (by omega)]

theorem columnVertex_even {i : Nat} (hi : i % 2 = 0) (j : Nat) :
    columnVertex s i (2 * j) = vertex s j i ∧ columnVertex s i (2 * j + 1) = vertex s j (i + 1) := by
  rw [columnVertex, columnVertex, if_pos hi, if_pos hi, show 2 * j / 2 = j by omega, show (2 * j + 1) / 2 =
    j by omega, show 2 * j % 2 = 0 by omega, show (2 * j + 1) % 2 = 1 by omega, Nat.add_zero]
  exact ⟨rfl, rfl⟩

theorem columnVertex_odd {i : Nat} (hi : i % 2 = 1) (j : Nat) :
    columnVertex s i (2 * j) = vertex s (s - j) (i + 1) ∧ columnVertex s i (2 * j + 1) = vertex s (s - j) i := by
  rw [columnVertex, columnVertex, if_neg (by omega), if_neg (by omega), show 2 * j / 2 = j by omega,
    show (2 * j + 1) / 2 = j by omega, show 2 * j % 2 = 0 by omega, show (2 * j + 1) % 2 = 1 by omega, Nat.sub_zero,
    Nat.add_sub_cancel]
  exact ⟨rfl, rfl⟩

/-- The corners at positions `2 * k` to `2 * k + 3` of a column. -/
theorem columnVertex_corners {i k : Nat} (hk : k < s) :
    (columnVertex s i (2 * k), columnVertex s i (2 * k + 1), columnVertex s i (2 * k + 2),
      columnVertex s i (2 * k + 3)) =
      if i % 2 = 0 then
        (vertex s (cellRow s i k) i, vertex s (cellRow s i k) (i + 1), vertex s (cellRow s i k + 1) i,
          vertex s (cellRow s i k + 1) (i + 1))
      else
        (vertex s (cellRow s i k + 1) (i + 1), vertex s (cellRow s i k + 1) i, vertex s (cellRow s i k) (i + 1),
          vertex s (cellRow s i k) i) := by
  have htwo : 2 * k + 2 = 2 * (k + 1) := by omega
  have hthree : 2 * k + 3 = 2 * (k + 1) + 1 := by omega
  by_cases hi : i % 2 = 0
  · rw [if_pos hi, htwo, hthree, (columnVertex_even hi k).1, (columnVertex_even hi k).2,
      (columnVertex_even hi (k + 1)).1, (columnVertex_even hi (k + 1)).2, cellRow, if_pos hi]
  · have hodd : i % 2 = 1 := by omega
    rw [if_neg hi, htwo, hthree, (columnVertex_odd hodd k).1, (columnVertex_odd hodd k).2,
      (columnVertex_odd hodd (k + 1)).1,
      (columnVertex_odd hodd (k + 1)).2, cellRow, if_neg hi, show s - 1 - k + 1 = s - k by omega,
      show s - (k + 1) = s - 1 - k by omega]

theorem columnTriangle_cells {i k : Nat} (hk : k < s) :
    [(columnTriangle s i (2 * k)).cycle, (columnTriangle s i (2 * k + 1)).cycle].Perm
      ((cellTriangles s (cellRow s i k) i).map Triangle.cycle) := by
  have hcorners := columnVertex_corners (i := i) hk
  rw [columnTriangle_eq (by omega), columnTriangle_eq (by omega), show (2 * k % 2 == 1) = false by simp,
    show ((2 * k + 1) % 2 == 1) = true by simp]
  by_cases hi : i % 2 = 0
  · rw [if_pos hi] at hcorners
    simp only [Prod.mk.injEq] at hcorners
    obtain ⟨h0, h1, h2, h3⟩ := hcorners
    rw [show 2 * k + 1 + 1 = 2 * k + 2 by omega, show 2 * k + 1 + 2 = 2 * k + 3 by omega, h0, h1, h2, h3]
    exact List.Perm.refl _
  · rw [if_neg hi] at hcorners
    simp only [Prod.mk.injEq] at hcorners
    obtain ⟨h0, h1, h2, h3⟩ := hcorners
    rw [show 2 * k + 1 + 1 = 2 * k + 2 by omega, show 2 * k + 1 + 2 = 2 * k + 3 by omega, h0, h1, h2, h3]
    -- the strip is turned by half a circle, and comes to the upper triangle first
    have hupper : Triangle.cycle (triangle false (vertex s (cellRow s i k + 1) (i + 1))
        (vertex s (cellRow s i k + 1) i)
        (vertex s (cellRow s i k) (i + 1))) =
        Triangle.cycle (vertex s (cellRow s i k + 1) i, vertex s (cellRow s i k) (i + 1),
          vertex s (cellRow s i k + 1) (i + 1)) := (Triangle.cycle_rotate _ _ _).symm
    have hlower : Triangle.cycle (triangle true (vertex s (cellRow s i k + 1) i) (vertex s (cellRow s i k) (i + 1))
        (vertex s (cellRow s i k) i)) =
        Triangle.cycle (vertex s (cellRow s i k) i, vertex s (cellRow s i k) (i + 1),
          vertex s (cellRow s i k + 1) i) := by
      rw [triangle, if_pos rfl, ← Triangle.cycle_rotate, ← Triangle.cycle_rotate]
    rw [hupper, hlower]
    exact List.Perm.swap _ _ _

theorem columnTriangle_nondegenerate {i m : Nat} (hm : m < 2 * s) : ¬ (columnTriangle s i m).Degenerate := by
  obtain ⟨k, hk⟩ : ∃ k, m = 2 * k ∨ m = 2 * k + 1 := ⟨m / 2, by omega⟩
  have hcorners := columnVertex_corners (s := s) (i := i) (k := k) (by omega)
  rw [columnTriangle_eq hm]
  simp only [vertex_right, vertex_up] at hcorners
  -- the corners are `x`, `x + 1`, `x + s + 1` and `x + s + 2`
  rcases hk with rfl | rfl
  · rw [show (2 * k % 2 == 1) = false by simp]
    split at hcorners <;>
    · simp only [Prod.mk.injEq] at hcorners
      obtain ⟨h0, h1, h2, -⟩ := hcorners
      simp only [triangle, Triangle.Degenerate, h0, h1, h2, Bool.false_eq_true, if_false]
      omega
  · rw [show ((2 * k + 1) % 2 == 1) = true by simp, show 2 * k + 1 + 1 = 2 * k + 2 by omega,
      show 2 * k + 1 + 2 = 2 * k + 3 by omega]
    split at hcorners <;>
    · simp only [Prod.mk.injEq] at hcorners
      obtain ⟨-, h1, h2, h3⟩ := hcorners
      simp only [triangle, Triangle.Degenerate, h1, h2, h3, if_true]
      omega

theorem columnTriangle_turn {i m : Nat} (h1 : 2 * s ≤ m) (h2 : m < 2 * s + 4) :
    (columnTriangle s i m).Degenerate := by
  have h : m = 2 * s ∨ m = 2 * s + 1 ∨ m = 2 * s + 2 ∨ m = 2 * s + 3 := by omega
  have hone := entry_turn s i
  have hnext := entry_next s i
  rw [columnTriangle, rowTriangle, along, along]
  rcases h with rfl | rfl | rfl | rfl
  · rw [show (2 * s % 2 == 1) = false by simp, if_pos (by omega), if_pos (by omega), hone]
    exact Or.inr (Or.inr rfl)
  · rw [show ((2 * s + 1) % 2 == 1) = true by simp, if_pos (by omega), if_pos (by omega), hone]
    exact Or.inl rfl
  · rw [show ((2 * s + 2) % 2 == 1) = false by simp, if_pos (by omega), if_neg (by omega),
      show 2 * s + 2 + 2 - (2 * s + 4) = 0 by omega, hnext]
    exact Or.inr (Or.inr rfl)
  · rw [show ((2 * s + 3) % 2 == 1) = true by simp, if_neg (by omega), if_neg (by omega),
      show 2 * s + 3 + 1 - (2 * s + 4) = 0 by omega, hnext]
    exact Or.inl rfl

/-! ## The cells of the strip -/

/-- Of the triangles of a column those before its turn have an area. -/
theorem column_filter (i : Nat) :
    (((List.range (2 * s + 4)).map (columnTriangle s i)).filter fun t => ¬ t.Degenerate) =
      (List.range s).flatMap fun k => [columnTriangle s i (2 * k), columnTriangle s i (2 * k + 1)] := by
  have hdrop : ∀ t ∈ ((List.range (2 * s + 4)).map (columnTriangle s i)).drop (2 * s),
      (decide ¬ t.Degenerate) = false := by
    intro t ht
    rw [← List.map_drop, List.mem_map] at ht
    obtain ⟨m, hm, rfl⟩ := ht
    rw [List.range_eq_range', List.drop_range', List.mem_range'_1] at hm
    rw [decide_eq_false_iff_not, not_not]
    exact columnTriangle_turn (by omega) (by omega)
  rw [← filter_take hdrop, ← List.map_take, List.take_range, Nat.min_eq_left (by omega), List.filter_eq_self.2,
    range_pairs]
  intro t ht
  obtain ⟨m, hm, rfl⟩ := List.mem_map.1 ht
  rw [decide_eq_true_iff]
  exact columnTriangle_nondegenerate (List.mem_range.1 hm)

theorem cellRow_perm (i : Nat) : ((List.range s).map (cellRow s i)).Perm (List.range s) := by
  by_cases hi : i % 2 = 0
  · have : cellRow s i = id := by
      funext k
      rw [cellRow, if_pos hi, id]
    rw [this, List.map_id]
  · have : (List.range s).map (cellRow s i) = (List.range s).reverse := by
      rw [List.range_eq_range', List.reverse_range', List.range_eq_range']
      refine List.map_congr_left fun k _ => ?_
      rw [cellRow, if_neg hi, Nat.zero_add]
    rw [this]
    exact List.reverse_perm _

/-- The triangles of the strip that have an area are those of the cells, once each. -/
theorem strip_cells (hs : 0 < s) :
    (((triangles false (strip s)).filter fun t => ¬ t.Degenerate).map Triangle.cycle).Perm
      ((cells s s).flatMap fun c => (cellTriangles s c.2 c.1).map Triangle.cycle) := by
  have hlen : 2 * s + 4 ≤ s * (2 * s + 4) := Nat.le_mul_of_pos_left _ hs
  have htriangles : triangles false (strip s) =
      ((cells s (2 * s + 4)).map fun c => columnTriangle s c.1 c.2).take (s * (2 * s + 4) - 4) := by
    rw [← triangles_grid (by omega) (by omega), ← triangles_take, grid, ← List.map_take, List.take_range,
      Nat.min_eq_left (by omega), strip, grid, show s * (2 * s + 4) - 4 + 2 = s * (2 * s + 4) - 2 by omega]
  -- the strip ends before the turn behind the last column
  have hdrop : ∀ t ∈ ((cells s (2 * s + 4)).map fun c => columnTriangle s c.1 c.2).drop (s * (2 * s + 4) - 4),
      (decide ¬ t.Degenerate) = false := by
    intro t ht
    rw [cells_eq, List.map_map, ← List.map_drop, List.mem_map] at ht
    obtain ⟨p, hp, rfl⟩ := ht
    rw [List.range_eq_range', List.drop_range', List.mem_range'_1] at hp
    have hlast : s * (2 * s + 4) = (s - 1) * (2 * s + 4) + (2 * s + 4) := by
      rw [← Nat.succ_mul]
      congr 1
      omega
    obtain ⟨m, rfl⟩ : ∃ m, p = (s - 1) * (2 * s + 4) + m := ⟨p - (s - 1) * (2 * s + 4), by omega⟩
    rw [Function.comp_apply, cell_div _ (by omega), cell_mod _ (by omega), decide_eq_false_iff_not, not_not]
    exact columnTriangle_turn (by omega) (by omega)
  rw [htriangles, filter_take hdrop, cells, List.map_flatMap, List.filter_flatMap, List.map_flatMap, cells,
    List.flatMap_assoc]
  refine List.Perm.flatMap_left _ fun i _ => ?_
  rw [List.map_map, List.flatMap_map]
  have hcolumn := column_filter (s := s) i
  simp only [Function.comp_def]
  rw [hcolumn, List.map_flatMap]
  refine (List.Perm.flatMap_left _ fun k hk => columnTriangle_cells (List.mem_range.1 hk)).trans ?_
  have hrows := (cellRow_perm (s := s) i).flatMap_right fun r => (cellTriangles s r i).map Triangle.cycle
  rwa [List.flatMap_map] at hrows

/-! ## `createIndices` makes the strip -/

/-- The strip of a tile: its buffer is full, its indices are those of the vertices, and its triangles are two for each
cell. -/
structure Strips (d : Nat) (b : IntBuffer) : Prop where
  full : b.contents.length = b.capacity
  indices : ∀ x ∈ b.contents, 0 ≤ x ∧ x < (d + 3) ^ 2
  cells : (((triangles false b.contents).filter fun t => ¬ t.Degenerate).map Triangle.cycle).Perm
    ((cells (d + 2) (d + 2)).flatMap fun c => (cellTriangles (d + 2) c.2 c.1).map Triangle.cycle)

theorem strip_indices (hs : 0 < s) : ∀ x ∈ strip s, 0 ≤ x ∧ x < (s + 1) ^ 2 := by
  intro x hx
  rw [strip, grid, List.mem_map] at hx
  obtain ⟨p, hp, rfl⟩ := hx
  rw [List.mem_range] at hp
  have hm := Nat.mod_lt p (show 2 * s + 4 > 0 by omega)
  have hsplit := Nat.div_add_mod' p (2 * s + 4)
  have hi : p / (2 * s + 4) < s := by
    rw [Nat.div_lt_iff_lt_mul (by omega)]
    omega
  generalize p / (2 * s + 4) = i at *
  generalize p % (2 * s + 4) = m at *
  have hin {r c : Nat} (hr : r ≤ s) (hc : c ≤ s) : 0 ≤ vertex s r c ∧ vertex s r c < (s + 1) ^ 2 :=
    ⟨vertex_nonneg s r c, vertex_lt hr hc⟩
  rw [entry]
  split
  · rw [columnVertex]
    split
    · exact hin (by omega) (by omega)
    · exact hin (Nat.sub_le _ _) (by omega)
  · -- there is a next column
    have hnext : i + 1 < s := by
      by_contra hlast
      have hlast : s = i + 1 := by omega
      rw [hlast, Nat.succ_mul] at hp
      rw [hlast] at hsplit
      omega
    rw [turnVertex]
    split
    · exact hin (Nat.zero_le _) (by omega)
    · exact hin le_rfl (by omega)

def indexCount (d : Nat) : Nat := 2 * (d + 2) * (d + 2) + 4 * (d + 2) - 2

theorem strip_length (d : Nat) : (strip (d + 2)).length = indexCount d := by
  rw [strip, length_grid, indexCount]
  congr 1
  ring

theorem strips_strip (d : Nat) : Strips d ⟨indexCount d, strip (d + 2)⟩ :=
  ⟨strip_length d, fun x hx => by
    have := strip_indices (s := d + 2) (by omega) x hx
    push_cast at this
    rwa [show (d : Int) + 2 + 1 = d + 3 by ring] at this, strip_cells (by omega)⟩

variable {newIntBuffer : Int → Option IntBuffer}

theorem newIndices_strip {d : Nat} (hd : d ≤ 32765) (hnew : newIntBuffer (indexCount d) = some ⟨indexCount d, []⟩) :
    newIndices newIntBuffer d = some ⟨indexCount d, strip (d + 2)⟩ := by
  obtain ⟨s, hs⟩ : ∃ s, s = d + 2 := ⟨_, rfl⟩
  have hside : int ((d : Int) + 2) = s := by
    rw [int_eq (by omega) (by omega), hs]
    push_cast
    rfl
  have hsq : (s + 1) ^ 2 ≤ 32768 ^ 2 := Nat.pow_le_pow_left (by omega) 2
  have hcount : int (2 * (s : Int) * s + 4 * s - 2) = indexCount d := by
    have hexact : 2 * (s : Int) * s + 4 * s - 2 = indexCount d := by
      rw [indexCount, ← hs, Nat.cast_sub (by omega)]
      push_cast
      ring
    have hnat : indexCount d + 4 = 2 * (s + 1) ^ 2 := by
      rw [indexCount, ← hs]
      have : 2 * (s + 1) ^ 2 = 2 * s * s + 4 * s + 2 := by ring
      omega
    rw [hexact, int_eq (by omega) (by omega)]
  rw [newIndices, hside, hcount, hnew, Option.bind_some, Int.toNat_natCast]
  have hwrites := putColumns_writes (s := s) (by omega) s 0 (by omega)
  simp only [Nat.zero_add] at hwrites
  rw [columns_eq_strip (by omega)] at hwrites
  have hlen : (strip s).length = indexCount d := by rw [hs, strip_length]
  have := hwrites ⟨indexCount d, []⟩ (by simp [hlen])
  rw [startVertex, if_pos rfl] at this
  rw [this, Option.map_some, hs]
  rfl

/-- The map holds indices as they are made. -/
theorem Created.eq_newIndices {indexLists : IndexLists} (h : Created newIntBuffer indexLists) :
    ∀ density buffer, indexLists density = some buffer → newIndices newIntBuffer density = some buffer := by
  induction h with
  | none => exact fun _ _ h => by cases h
  | @createIndices indexLists indexLists' density h hcreate ih =>
    rw [Tessellator.createIndices] at hcreate
    generalize (if density < 1 then 1 else density) = density at hcreate
    split at hcreate
    · obtain rfl := Option.some.inj hcreate
      exact ih
    · obtain ⟨made, hmade, rfl⟩ := Option.map_eq_some_iff.1 hcreate
      intro other buffer hother
      by_cases hsame : other = density
      · subst hsame
        rw [Function.update_self] at hother
        rw [hmade, hother]
      · rw [Function.update_of_ne hsame] at hother
        exact ih other buffer hother

/-- The indices of a density are its strip, whatever densities had theirs made before. -/
theorem createIndices_strip {indexLists : IndexLists} (hcreated : Created newIntBuffer indexLists) {d : Nat}
    (h1 : 1 ≤ d)
    (hd : d ≤ 32765) (hnew : newIntBuffer (indexCount d) = some ⟨indexCount d, []⟩) :
    ∃ indexLists' b, createIndices newIntBuffer indexLists d = some indexLists' ∧ indexLists' d = some b ∧
      Strips d b := by
  have hmade := newIndices_strip hd hnew
  rw [createIndices, if_neg (by omega)]
  rcases hlist : indexLists d with _ | b
  · refine ⟨_, _, by rw [hmade, Option.map_some], Function.update_self .., strips_strip d⟩
  · obtain rfl := Option.some.inj ((hcreated.eq_newIndices _ _ hlist).symm.trans hmade)
    exact ⟨indexLists, _, rfl, hlist, strips_strip d⟩

/-- A `newIntBuffer` that never runs out of memory. -/
def allocate (numElements : Int) : Option IntBuffer :=
  if numElements < 0 then none else some ⟨numElements.toNat, []⟩

theorem density_two_strips :
    ∃ indexLists' b, createIndices allocate (fun _ => none) 2 = some indexLists' ∧ indexLists' 2 = some b ∧
      Strips 2 b :=
  createIndices_strip .none (by decide) (by decide) rfl

/-- The strip of density 1: up the first column, down the second and up the third. -/
example : newIndices allocate 1 = some ⟨28,
    [0, 1, 4, 5, 8, 9, 12, 13, 13, 14, 14, 13, 10, 9, 6, 5, 2, 1, 1, 2, 2, 3, 6, 7, 10, 11, 14, 15]⟩ := by
  decide +kernel

/-- The number of indices does not fit an `int`. -/
theorem large_density_throws : ¬ ∃ indexLists', createIndices allocate (fun _ => none) 32766 = some indexLists' := by
  have hcount : allocate (int (2 * int (32766 + 2) * int (32766 + 2) + 4 * int (32766 + 2) - 2)) = none := by
    decide +kernel
  rintro ⟨indexLists', h⟩
  rw [createIndices, if_neg (by decide), newIndices, hcount] at h
  cases h

end WorldWind.Tessellator
