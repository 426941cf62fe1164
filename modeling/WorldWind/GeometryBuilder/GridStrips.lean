import WorldWind.GeometryBuilder.GridIndices
import WorldWind.Lib.TriangleStrip
/-!
# Strips over a grid

A grid has lines of vertices from its first to its last row; the lines of a
closed grid go round. A strip of two indices for each line between two rows has
two triangles for each cell, all of one winding. Where the two indices between
rows repeat vertices of the strip, or all are on one line, the other triangles
are flat (`Numbered.gridStrip`).
-/

namespace WorldWind.GeometryBuilder.GridIndices

open Lib.GrowingArray Lib.Grid Lib.JavaArray Lib.TriangleStrip

/-! ## The loops -/

section

variable {rows slices pos : Nat} {link : Nat → Nat × Nat} {pair : Nat → Nat → Nat × Nat} {dest : List Nat}

/-- The indices that the loops write, for `k + 1` rows. -/
def stripOf (slices : Nat) (link : Nat → Nat × Nat) (pair : Nat → Nat → Nat × Nat) (k : Nat) : List Nat :=
  rowsStrip (fun j i => (pair j i).1) (fun j i => (pair j i).2) link slices k

/-- The inner loop writes the pairs of a row. -/
theorem writePairs (j : Nat) (x : List Nat) {k : Nat}
    (h : pos + (x ++ pairs (fun i => (pair j i).1) (fun i => (pair j i).2) k).length ≤ dest.length) :
    (List.range k).foldlM (fun (w : List Nat × Nat) i => appendAll w.1 w.2 [(pair j i).1, (pair j i).2])
      (blit dest pos x, pos + x.length) =
      some (blit dest pos (x ++ pairs (fun i => (pair j i).1) (fun i => (pair j i).2) k),
        pos + (x ++ pairs (fun i => (pair j i).1) (fun i => (pair j i).2) k).length) := by
  induction k with
  | zero => simp [pairs]
  | succ k ih =>
    rw [pairs_succ, ← List.append_assoc, List.length_append] at h ⊢
    rw [List.range_succ, List.foldlM_append, ih (by omega), Option.bind_eq_bind, Option.bind_some, List.foldlM_cons,
      appendAll_append _ (by rw [List.length_append]; exact h), List.length_append]
    rfl

theorem writeRow_zero (w : List Nat × Nat) : writeRow slices link pair w 0 =
    (List.range (slices + 1)).foldlM (fun w i => appendAll w.1 w.2 [(pair 0 i).1, (pair 0 i).2]) w := rfl

theorem writeRow_succ (w : List Nat × Nat) (j : Nat) : writeRow slices link pair w (j + 1) =
    (appendAll w.1 w.2 [(link (j + 1)).1, (link (j + 1)).2]).bind fun w =>
      (List.range (slices + 1)).foldlM (fun w i => appendAll w.1 w.2 [(pair (j + 1) i).1, (pair (j + 1) i).2]) w :=
      rfl

theorem writeRows {k : Nat} (h : pos + (stripOf slices link pair k).length ≤ dest.length) :
    (List.range (k + 1)).foldlM (writeRow slices link pair) (dest, pos) =
      some (blit dest pos (stripOf slices link pair k), pos + (stripOf slices link pair k).length) := by
  induction k with
  | zero =>
    have hrow := writePairs 0 [] h
    rw [blit_nil, List.length_nil, Nat.add_zero] at hrow
    rw [List.range_one, List.foldlM_cons, writeRow_zero, hrow]
    rfl
  | succ k ih =>
    have hstrip : stripOf slices link pair (k + 1) = stripOf slices link pair k ++
        [(link (k + 1)).1, (link (k + 1)).2] ++
        pairs (fun i => (pair (k + 1) i).1) (fun i => (pair (k + 1) i).2) (slices + 1) := by
      rw [stripOf, rowsStrip, List.append_assoc]
      rfl
    rw [hstrip] at h ⊢
    have hlink : pos + (stripOf slices link pair k ++ [(link (k + 1)).1, (link (k + 1)).2]).length ≤ dest.length := by
      rw [List.length_append] at h
      omega
    have hbefore : pos + (stripOf slices link pair k).length ≤ dest.length := by
      rw [List.length_append] at hlink
      omega
    rw [List.range_succ, List.foldlM_append, ih hbefore, Option.bind_eq_bind, Option.bind_some, List.foldlM_cons,
      writeRow_succ, appendAll_append _ hlink, Option.bind_some, writePairs (k + 1) _ h]
    rfl

theorem writeStrip_eq (hrows : 0 < rows) (h : pos + (stripOf slices link pair (rows - 1)).length ≤ dest.length) :
    writeStrip rows slices link pair dest pos = some (blit dest pos (stripOf slices link pair (rows - 1))) := by
  obtain ⟨k, rfl⟩ : ∃ k, rows = k + 1 := ⟨rows - 1, by omega⟩
  rw [Nat.add_sub_cancel] at h ⊢
  rw [writeStrip, writeRows h]
  rfl

theorem length_stripOf (hrows : 0 < rows) :
    (stripOf slices link pair (rows - 1)).length = gridIndexCount slices rows := by
  rw [stripOf, length_rowsStrip, gridIndexCount, Nat.sub_add_cancel hrows]

end

/-! ## Grids -/

/-- The two triangles of a cell by their lines and rows: counterclockwise where lines go right
and rows go up, with the diagonal that goes up, or clockwise with the one that goes down. -/
def cellCorners (counterclockwise : Bool) (c : Nat × Nat) : List (Triangle (Nat × Nat)) :=
  if counterclockwise then
    [((c.2, c.1 + 1), (c.2, c.1), (c.2 + 1, c.1 + 1)), ((c.2 + 1, c.1 + 1), (c.2, c.1), (c.2 + 1, c.1))]
  else
    [((c.2, c.1), (c.2, c.1 + 1), (c.2 + 1, c.1)), ((c.2 + 1, c.1), (c.2, c.1 + 1), (c.2 + 1, c.1 + 1))]

/-- Twice the area, with a sign for the winding. -/
def signedArea (t : Triangle (Nat × Nat)) : Int :=
  ((t.2.1.1 : Int) - t.1.1) * ((t.2.2.2 : Int) - t.1.2) - ((t.2.1.2 : Int) - t.1.2) * ((t.2.2.1 : Int) - t.1.1)

theorem signedArea_cellCorners (counterclockwise : Bool) (c : Nat × Nat) :
    ∀ t ∈ cellCorners counterclockwise c, signedArea t = if counterclockwise then 1 else -1 := by
  intro t ht
  cases counterclockwise with
  | true =>
    simp only [cellCorners, if_true, List.mem_cons, List.not_mem_nil, or_false] at ht ⊢
    rcases ht with rfl | rfl <;> simp [signedArea]
  | false =>
    simp only [cellCorners, Bool.false_eq_true, if_false, List.mem_cons, List.not_mem_nil, or_false] at ht ⊢
    rcases ht with rfl | rfl <;> simp [signedArea]

/-- The last line of a closed grid is its first. -/
def columns (slices : Nat) (closed : Bool) : Nat := if closed then slices else slices + 1

/-- The grid that a method lays out: cells between `slices + 1` lines and from row `0` to row
`rows`, where the last line of a closed grid is its first; the vertex of each column and row
has a number from `first` on. -/
structure Layout where
  slices : Nat
  rows : Nat
  closed : Bool
  first : Nat
  vertex : Nat → Nat → Nat

namespace Layout

variable (L : Layout)

def columns : Nat := GridIndices.columns L.slices L.closed

/-- The column of a line. -/
def column (i : Nat) : Nat := if L.closed = true ∧ i = L.slices then 0 else i

/-- The vertex of a line and a row. -/
def at' (i j : Nat) : Nat := L.vertex (L.column i) j

/-- The corners of a triangle of a method's strip, for lines and rows. -/
def corner (t : Triangle (Nat × Nat)) : Triangle Nat :=
  (L.at' t.1.1 t.1.2, L.at' t.2.1.1 t.2.1.2, L.at' t.2.2.1 t.2.2.2)

def cellTriangles (counterclockwise : Bool) (c : Nat × Nat) : List (Triangle Nat) :=
  (cellCorners counterclockwise c).map L.corner

/-- A triangle that repeats a vertex, or has all three on one line. -/
def Flat (t : Triangle Nat) : Prop :=
  t.Degenerate ∨ ∃ i ≤ L.slices, ∃ j1 ≤ L.rows, ∃ j2 ≤ L.rows, ∃ j3 ≤ L.rows, t = (L.at' i j1, L.at' i j2, L.at' i j3)

instance : DecidablePred L.Flat := fun t => inferInstanceAs (Decidable (t.Degenerate ∨
  ∃ i ≤ L.slices, ∃ j1 ≤ L.rows, ∃ j2 ≤ L.rows, ∃ j3 ≤ L.rows, t = (L.at' i j1, L.at' i j2, L.at' i j3)))

/-- The vertices are numbered, each once, from `first` on. -/
structure Numbered (L : Layout) : Prop where
  slices : 0 < L.slices
  closed : L.closed = true → 2 ≤ L.slices
  bound : ∀ i < L.columns, ∀ j ≤ L.rows, L.first ≤ L.vertex i j ∧ L.vertex i j < L.first + L.columns * (L.rows + 1)
  inj : ∀ i < L.columns, ∀ i' < L.columns, ∀ j ≤ L.rows, ∀ j' ≤ L.rows, L.vertex i j = L.vertex i' j' → i = i' ∧
    j = j'

variable {L}

theorem Numbered.column_lt (h : L.Numbered) {i : Nat} (hi : i ≤ L.slices) : L.column i < L.columns := by
  have hpos := h.slices
  rw [column, columns, GridIndices.columns]
  cases hclosed : L.closed with
  | true =>
    by_cases hlast : i = L.slices
    · rw [if_pos ⟨rfl, hlast⟩, if_pos rfl]
      exact hpos
    · rw [if_neg fun hc => hlast hc.2, if_pos rfl]
      omega
  | false =>
    rw [if_neg (fun hc => absurd hc.1 Bool.false_ne_true), if_neg Bool.false_ne_true]
    omega

theorem Numbered.column_succ (h : L.Numbered) {i : Nat} (hi : i < L.slices) : L.column i ≠ L.column (i + 1) := by
  have htwo := h.closed
  rw [column, column, if_neg fun hc => by omega]
  split
  · rename_i hc
    have := htwo hc.1
    omega
  · omega

theorem Numbered.at_bound (h : L.Numbered) {i j : Nat} (hi : i ≤ L.slices) (hj : j ≤ L.rows) :
    L.first ≤ L.at' i j ∧ L.at' i j < L.first + L.columns * (L.rows + 1) :=
  h.bound _ (h.column_lt hi) j hj

theorem Numbered.at_inj (h : L.Numbered) {i i' j j' : Nat} (hi : i ≤ L.slices) (hi' : i' ≤ L.slices) (hj : j ≤ L.rows)
    (hj' : j' ≤ L.rows) (heq : L.at' i j = L.at' i' j') : L.column i = L.column i' ∧ j = j' :=
  h.inj _ (h.column_lt hi) _ (h.column_lt hi') j hj j' hj' heq

/-- The triangles of a cell have three vertices, not all on one line. -/
theorem Numbered.not_flat (h : L.Numbered) (counterclockwise : Bool) {i j : Nat} (hi : i < L.slices) (hj : j < L.rows)
    {t : Triangle Nat} (ht : t ∈ L.cellTriangles counterclockwise (j, i)) : ¬L.Flat t := by
  have hcolumn := h.column_succ hi
  -- two vertices of the cell on different columns or rows
  have hne : ∀ i1 j1 i2 j2, i1 ≤ L.slices → i2 ≤ L.slices → j1 ≤ L.rows → j2 ≤ L.rows →
      (L.column i1 ≠ L.column i2 ∨ j1 ≠ j2) → L.at' i1 j1 ≠ L.at' i2 j2 := by
    intro i1 j1 i2 j2 hi1 hi2 hj1 hj2 hdiff heq
    obtain ⟨h1, h2⟩ := h.at_inj hi1 hi2 hj1 hj2 heq
    exact hdiff.elim (fun hc => hc h1) fun hc => hc h2
  have hline : ∀ k ≤ L.slices, ∀ j1 ≤ L.rows, ∀ j2 ≤ L.rows, ∀ j3 ≤ L.rows, ∀ j4 ≤ L.rows,
      L.at' i j1 = L.at' k j3 → L.at' (i + 1) j2 = L.at' k j4 → False := by
    intro k hk j1 hj1 j2 hj2 j3 hj3 j4 hj4 h1 h2
    exact hcolumn ((h.at_inj hi.le hk hj1 hj3 h1).1.trans (h.at_inj hi hk hj2 hj4 h2).1.symm)
  have hab := hne i j (i + 1) j hi.le hi hj.le hj.le (.inl hcolumn)
  have hac := hne i j (i + 1) (j + 1) hi.le hi hj.le hj (.inl hcolumn)
  have had := hne i j i (j + 1) hi.le hi.le hj.le hj (.inr (by omega))
  have hbc := hne (i + 1) j (i + 1) (j + 1) hi hi hj.le hj (.inr (by omega))
  have hbd := hne (i + 1) j i (j + 1) hi hi.le hj.le hj (.inl hcolumn.symm)
  have hcd := hne (i + 1) (j + 1) i (j + 1) hi hi.le hj hj (.inl hcolumn.symm)
  rw [cellTriangles, cellCorners] at ht
  rintro (hdegenerate | ⟨k, hk, j1, hj1, j2, hj2, j3, hj3, rfl⟩)
  · cases counterclockwise with
    | true =>
      simp only [if_true, List.map_cons, List.map_nil, corner, List.mem_cons, List.not_mem_nil, or_false] at ht
      rcases ht with rfl | rfl
      · rcases hdegenerate with heq | heq | heq
        · exact had heq.symm
        · exact hcd heq.symm
        · exact hac heq
      · rcases hdegenerate with heq | heq | heq
        · exact hac heq.symm
        · exact hbc heq.symm
        · exact hab heq
    | false =>
      simp only [Bool.false_eq_true, if_false, List.map_cons, List.map_nil, corner, List.mem_cons, List.not_mem_nil,
        or_false] at ht
      rcases ht with rfl | rfl
      · rcases hdegenerate with heq | heq | heq
        · exact had heq
        · exact hab heq
        · exact hbd heq.symm
      · rcases hdegenerate with heq | heq | heq
        · exact hbd heq
        · exact hbc heq
        · exact hcd heq.symm
  · cases counterclockwise with
    | true =>
      simp only [if_true, List.map_cons, List.map_nil, corner, List.mem_cons, List.not_mem_nil, or_false,
        Prod.mk.injEq] at ht
      rcases ht with ⟨h1, h2, h3⟩ | ⟨h1, h2, h3⟩
      · exact hline k hk _ hj.le _ hj _ hj2 _ hj3 h2.symm h3.symm
      · exact hline k hk _ hj.le _ hj _ hj2 _ hj1 h2.symm h1.symm
    | false =>
      simp only [Bool.false_eq_true, if_false, List.map_cons, List.map_nil, corner, List.mem_cons, List.not_mem_nil,
        or_false, Prod.mk.injEq] at ht
      rcases ht with ⟨h1, h2, h3⟩ | ⟨h1, h2, h3⟩
      · exact hline k hk _ hj.le _ hj.le _ hj1 _ hj3 h1.symm h3.symm
      · exact hline k hk _ hj _ hj.le _ hj2 _ hj1 h2.symm h1.symm

/-! ## Strips over a grid -/

/-- What a strip over the grid has to be: its indices number vertices, and the triangles that
are not flat are the two of each cell, in order, all of one winding. -/
structure GridStrip (L : Layout) (counterclockwise : Bool) (indices : List Nat) : Prop where
  bound : ∀ v ∈ indices, L.first ≤ v ∧ v < L.first + L.columns * (L.rows + 1)
  cells : (triangles false indices).filter (fun t => ¬L.Flat t) =
    (cells L.rows L.slices).flatMap (L.cellTriangles counterclockwise)

/-- The two indices of a line between rows `j` and `j + 1`. -/
def linePair (L : Layout) (counterclockwise : Bool) (j i : Nat) : Nat × Nat :=
  if counterclockwise then (L.at' i (j + 1), L.at' i j) else (L.at' i j, L.at' i (j + 1))

theorem linePair_high {i j low high : Nat} (hlow : low = L.at' i j) (hhigh : high = L.at' i (j + 1)) :
    (high, low) = L.linePair true j i := by
  rw [hlow, hhigh]
  rfl

theorem linePair_low {i j low high : Nat} (hlow : low = L.at' i j) (hhigh : high = L.at' i (j + 1)) :
    (low, high) = L.linePair false j i := by
  rw [hlow, hhigh]
  rfl

theorem pairTriangles_linePair (counterclockwise : Bool) (j i : Nat) :
    pairTriangles (fun i => (L.linePair counterclockwise j i).1) (fun i => (L.linePair counterclockwise j i).2) i =
      L.cellTriangles counterclockwise (j, i) := by
  cases counterclockwise <;> rfl

/-- What the two indices between rows have to be: vertices, and all triangles around them flat. -/
structure Links (L : Layout) (counterclockwise : Bool) (link : Nat → Nat × Nat) : Prop where
  vertices : ∀ j, j + 1 < L.rows → ∃ i ≤ L.slices, ∃ i' ≤ L.slices, ∃ k ≤ L.rows, ∃ k' ≤ L.rows,
    link (j + 1) = (L.at' i k, L.at' i' k')
  flat : ∀ j, j + 1 < L.rows → ∀ t ∈ linkTriangles (fun j i => (L.linePair counterclockwise j i).1)
    (fun j i => (L.linePair counterclockwise j i).2) link L.slices j, L.Flat t

theorem Links.of_equal {counterclockwise : Bool} {link : Nat → Nat × Nat} (h : ∀ j, j + 1 < L.rows → link (j + 1) =
    ((L.linePair counterclockwise j L.slices).2, (L.linePair counterclockwise (j + 1) 0).1)) :
    L.Links counterclockwise link := by
  constructor
  · intro j hj
    rw [h j hj]
    cases counterclockwise with
    | true => exact ⟨L.slices, Nat.le_refl _, 0, Nat.zero_le _, j, by omega, j + 1 + 1, hj, rfl⟩
    | false => exact ⟨L.slices, Nat.le_refl _, 0, Nat.zero_le _, j + 1, by omega, j + 1, by omega, rfl⟩
  · intro j hj t ht
    rw [linkTriangles, h j hj] at ht
    simp only [List.mem_cons, List.not_mem_nil, or_false] at ht
    rcases ht with rfl | rfl | rfl | rfl
    · exact .inl (.inr (.inr rfl))
    · exact .inl (.inl rfl)
    · exact .inl (.inr (.inr rfl))
    · exact .inl (.inl rfl)

theorem at_last (hclosed : L.closed = true) (j : Nat) : L.at' L.slices j = L.at' 0 j := by
  rw [at', at', column, column, if_pos ⟨hclosed, rfl⟩, ite_self]

/-- In a closed grid all vertices around the indices between two rows are on one line. -/
theorem Links.of_closed (hclosed : L.closed = true) {counterclockwise : Bool} {link : Nat → Nat × Nat}
    (h : ∀ j, j + 1 < L.rows → ∃ k ≤ L.rows, ∃ k' ≤ L.rows, link (j + 1) = (L.at' 0 k, L.at' 0 k')) :
    L.Links counterclockwise link := by
  constructor
  · intro j hj
    obtain ⟨k, hk, k', hk', heq⟩ := h j hj
    exact ⟨0, Nat.zero_le _, 0, Nat.zero_le _, k, hk, k', hk', heq⟩
  · intro j hj t ht
    obtain ⟨k, hk, k', hk', heq⟩ := h j hj
    have hline : ∀ j1 ≤ L.rows, ∀ j2 ≤ L.rows, ∀ j3 ≤ L.rows, L.Flat (L.at' 0 j1, L.at' 0 j2, L.at' 0 j3) :=
      fun j1 h1 j2 h2 j3 h3 => .inr ⟨0, Nat.zero_le _, j1, h1, j2, h2, j3, h3, rfl⟩
    rw [linkTriangles, heq] at ht
    cases counterclockwise with
    | true =>
      simp only [linePair, if_true, at_last hclosed, List.mem_cons, List.not_mem_nil, or_false] at ht
      rcases ht with rfl | rfl | rfl | rfl
      · exact hline _ (by omega) _ (by omega) _ hk
      · exact hline _ hk _ (by omega) _ hk'
      · exact hline _ hk _ hk' _ hj
      · exact hline _ hj _ hk' _ (by omega)
    | false =>
      simp only [linePair, Bool.false_eq_true, if_false, at_last hclosed, List.mem_cons, List.not_mem_nil,
        or_false] at ht
      rcases ht with rfl | rfl | rfl | rfl
      · exact hline _ (by omega) _ (by omega) _ hk
      · exact hline _ hk _ (by omega) _ hk'
      · exact hline _ hk _ hk' _ (by omega)
      · exact hline _ (by omega) _ hk' _ hj

/-- A strip of two lines for each row with flat triangles between is one over the grid. -/
theorem Numbered.gridStrip (h : L.Numbered) (hrows : 0 < L.rows) {counterclockwise : Bool} {link : Nat → Nat × Nat}
    {pair : Nat → Nat → Nat × Nat}
    (hpair : ∀ j < L.rows, ∀ i ≤ L.slices, pair j i = L.linePair counterclockwise j i)
    (hlink : L.Links counterclockwise link) :
    L.GridStrip counterclockwise (stripOf L.slices link pair (L.rows - 1)) := by
  have hstrip : stripOf L.slices link pair (L.rows - 1) =
      rowsStrip (fun j i => (L.linePair counterclockwise j i).1) (fun j i => (L.linePair counterclockwise j i).2) link
        L.slices (L.rows - 1) :=
    rowsStrip_congr link fun j hj i hi => by
      rw [hpair j (by omega) i hi]
      exact ⟨rfl, rfl⟩
  refine ⟨?_, ?_⟩
  · rw [hstrip]
    apply forall_rowsStrip
    · intro j hj i hi
      have hlow := h.at_bound hi (show j ≤ L.rows by omega)
      have hhigh := h.at_bound hi (show j + 1 ≤ L.rows by omega)
      cases counterclockwise with
      | true => exact ⟨hhigh, hlow⟩
      | false => exact ⟨hlow, hhigh⟩
    · intro j hj
      obtain ⟨i, hi, i', hi', k, hk, k', hk', heq⟩ := hlink.vertices j (by omega)
      rw [heq]
      exact ⟨h.at_bound hi hk, h.at_bound hi' hk'⟩
  · have hrow : ∀ j < L.rows, ((List.range L.slices).flatMap (pairTriangles
        (fun i => (L.linePair counterclockwise j i).1) (fun i => (L.linePair counterclockwise j i).2))).filter
          (fun t => ¬L.Flat t) = (List.range L.slices).flatMap fun i => L.cellTriangles counterclockwise (j, i) := by
      intro j hj
      have hcells : (List.range L.slices).flatMap (pairTriangles (fun i => (L.linePair counterclockwise j i).1)
          (fun i => (L.linePair counterclockwise j i).2)) =
          (List.range L.slices).flatMap fun i => L.cellTriangles counterclockwise (j, i) :=
        List.flatMap_congr fun i _ => pairTriangles_linePair counterclockwise j i
      rw [hcells, List.filter_eq_self]
      intro t ht
      obtain ⟨i, hi, ht⟩ := List.mem_flatMap.1 ht
      exact decide_eq_true (h.not_flat counterclockwise (List.mem_range.1 hi) hj ht)
    have hflat : ∀ j, j + 1 < L.rows → (linkTriangles (fun j i => (L.linePair counterclockwise j i).1)
        (fun j i => (L.linePair counterclockwise j i).2) link L.slices j).filter (fun t => ¬L.Flat t) = [] := by
      intro j hj
      rw [List.filter_eq_nil_iff]
      intro t ht
      simp [hlink.flat j hj t ht]
    obtain ⟨k, hk⟩ : ∃ k, L.rows = k + 1 := ⟨L.rows - 1, by omega⟩
    rw [hstrip, triangles_rowsStrip, List.filter_append, hrow 0 hrows, List.filter_flatMap, cells,
      List.flatMap_assoc, hk, Nat.add_sub_cancel, List.range_succ_eq_map, List.flatMap_cons, List.flatMap_map,
        List.flatMap_map]
    refine congrArg _ (List.flatMap_congr fun j hj => ?_)
    rw [List.mem_range] at hj
    rw [List.filter_append, hflat j (by omega), hrow (j + 1) (by omega), List.nil_append, List.flatMap_map]

/-- What a method that writes a strip from `pos` on has to do: with room for its number of
indices it writes one over the grid, and the winding is another for the other orientation. -/
def Strips (L : Layout) (count pos : Nat) (make : Orientation → List Nat → Option (List Nat)) : Prop :=
  ∃ counterclockwise : Orientation → Bool, counterclockwise .inside ≠ counterclockwise .outside ∧
    ∀ orientation, ∃ indices, indices.length = count ∧ L.GridStrip (counterclockwise orientation) indices ∧
      ∀ dest, count + pos ≤ dest.length → make orientation dest = some (blit dest pos indices)

theorem Numbered.strips (h : L.Numbered) (hrows : 0 < L.rows) {pos : Nat}
    {make : Orientation → List Nat → Option (List Nat)} {link : Orientation → Nat → Nat × Nat}
    {pair : Orientation → Nat → Nat → Nat × Nat}
    (hmake : ∀ orientation dest, gridIndexCount L.slices L.rows + pos ≤ dest.length →
      make orientation dest = writeStrip L.rows L.slices (link orientation) (pair orientation) dest pos)
    (counterclockwise : Orientation → Bool) (hturn : counterclockwise .inside ≠ counterclockwise .outside)
    (hpair : ∀ orientation, ∀ j < L.rows, ∀ i ≤ L.slices,
      pair orientation j i = L.linePair (counterclockwise orientation) j i)
    (hlink : ∀ orientation, L.Links (counterclockwise orientation) (link orientation)) :
    L.Strips (gridIndexCount L.slices L.rows) pos make := by
  refine ⟨counterclockwise, hturn, fun orientation => ⟨_, length_stripOf hrows,
    h.gridStrip hrows (hpair orientation) (hlink orientation), fun dest hdest => ?_⟩⟩
  rw [hmake orientation dest hdest, writeStrip_eq hrows]
  rw [length_stripOf hrows]
  omega

/-- What a method that lays vertices out has to do: the vertex of each column and row is at its
number. -/
def LaysOut {P : Type} (L : Layout) (count : Nat) (point : Nat → Nat → P) (make : List P → Option (List P)) : Prop :=
  L.columns * (L.rows + 1) = count ∧ ∀ dest, L.first + count ≤ dest.length →
    ∃ vertices, make dest = some vertices ∧ vertices.length = dest.length ∧
      ∀ i < L.columns, ∀ j ≤ L.rows, vertices[L.vertex i j]? = some (point i j)

theorem Numbered.laysOut {P : Type} (h : L.Numbered) {point : Nat → Nat → P} {make : List P → Option (List P)}
    (order : List (Nat × Nat)) (horder : ∀ c, c ∈ order ↔ c.1 < L.columns ∧ c.2 ≤ L.rows)
    (hmake : ∀ dest, L.first + L.columns * (L.rows + 1) ≤ dest.length →
      make dest = writes dest (order.map fun c => (L.vertex c.1 c.2, point c.1 c.2))) :
    L.LaysOut (L.columns * (L.rows + 1)) point make := by
  refine ⟨rfl, fun dest hdest => ?_⟩
  obtain ⟨vertices, hv, hlen, hvalues, -⟩ := writes_consistent (a := dest)
    (l := order.map fun c => (L.vertex c.1 c.2, point c.1 c.2))
    (fun c hc => by
      obtain ⟨⟨i, j⟩, hij, rfl⟩ := List.mem_map.1 hc
      obtain ⟨hi, hj⟩ := (horder _).1 hij
      exact (h.bound i hi j hj).2.trans_le hdest)
    (fun c hc d hd heq => by
      obtain ⟨⟨i, j⟩, hij, rfl⟩ := List.mem_map.1 hc
      obtain ⟨⟨i', j'⟩, hij', rfl⟩ := List.mem_map.1 hd
      obtain ⟨hi, hj⟩ := (horder _).1 hij
      obtain ⟨hi', hj'⟩ := (horder _).1 hij'
      obtain ⟨h1, h2⟩ := h.inj i hi i' hi' j hj j' hj' heq
      rw [h1, h2])
  refine ⟨vertices, (hmake dest hdest).trans hv, hlen, fun i hi j hj => ?_⟩
  exact hvalues _ (List.mem_map.2 ⟨(i, j), (horder _).2 ⟨hi, hj⟩, rfl⟩)

end Layout

/-! ## The two numberings -/

/-- The vertices of one line are one behind the other. -/
def sliceLayout (slices rows : Nat) (closed : Bool) : Layout where
  slices := slices
  rows := rows
  closed := closed
  first := 0
  vertex i j := j + i * (rows + 1)

/-- The vertices of one row are one behind the other, `columns` of them. -/
def rowLayout (first slices rows : Nat) (closed : Bool) : Layout where
  slices := slices
  rows := rows
  closed := closed
  first := first
  vertex i j := first + (i + j * columns slices closed)

theorem sliceLayout_numbered {slices : Nat} (rows : Nat) {closed : Bool} (h : 0 < slices)
    (hclosed : closed = true → 2 ≤ slices) : (sliceLayout slices rows closed).Numbered where
  slices := h
  closed := hclosed
  bound i hi j hj := by
    have hcell : i * (rows + 1) + j < (sliceLayout slices rows closed).columns * (rows + 1) :=
      cell_lt hi (Nat.lt_succ_of_le hj)
    change 0 ≤ j + i * (rows + 1) ∧ j + i * (rows + 1) < 0 + (sliceLayout slices rows closed).columns * (rows + 1)
    omega
  inj i hi i' hi' j hj j' hj' heq := by
    simp only [sliceLayout] at hj hj' heq
    have hdiv := congrArg (· / (rows + 1)) heq
    have hmod := congrArg (· % (rows + 1)) heq
    simp only [Nat.add_mul_div_right _ _ (Nat.succ_pos rows), Nat.add_mul_mod_self_right,
      Nat.div_eq_of_lt (Nat.lt_succ_of_le hj), Nat.div_eq_of_lt (Nat.lt_succ_of_le hj'),
      Nat.mod_eq_of_lt (Nat.lt_succ_of_le hj), Nat.mod_eq_of_lt (Nat.lt_succ_of_le hj')] at hdiv hmod
    exact ⟨by omega, hmod⟩

theorem rowLayout_numbered (first : Nat) {slices : Nat} (rows : Nat) {closed : Bool} (h : 0 < slices)
    (hclosed : closed = true → 2 ≤ slices) : (rowLayout first slices rows closed).Numbered where
  slices := h
  closed := hclosed
  bound i hi j hj := by
    have hcell : j * columns slices closed + i < (rows + 1) * columns slices closed :=
        cell_lt (Nat.lt_succ_of_le hj) hi
    rw [Nat.mul_comm (rows + 1)] at hcell
    change first ≤ first + (i + j * columns slices closed) ∧
      first + (i + j * columns slices closed) < first + columns slices closed * (rows + 1)
    omega
  inj i hi i' hi' j hj j' hj' heq := by
    have hi : i < columns slices closed := hi
    have hi' : i' < columns slices closed := hi'
    have hpos : 0 < columns slices closed := by omega
    have hsame : i + j * columns slices closed = i' + j' * columns slices closed := Nat.add_left_cancel heq
    have hdiv := congrArg (· / columns slices closed) hsame
    have hmod := congrArg (· % columns slices closed) hsame
    simp only [Nat.add_mul_div_right _ _ hpos, Nat.add_mul_mod_self_right, Nat.div_eq_of_lt hi, Nat.div_eq_of_lt hi',
      Nat.mod_eq_of_lt hi, Nat.mod_eq_of_lt hi'] at hdiv hmod
    exact ⟨hmod, by omega⟩

end WorldWind.GeometryBuilder.GridIndices
