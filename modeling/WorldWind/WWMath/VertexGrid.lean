import WorldWind.GeometryBuilder.GridStrips
import WorldWind.Lib.ClosedPath
import WorldWind.Lib.JavaInt
/-!
# Indices of a grid of vertices

`WWMath` puts the indices of a grid of `width` times `height` vertices into new buffers: the
cells as a triangle strip, row by row, and the border as a line strip. The sizes of the
buffers are formulas of their own. The strip of the cells is right from two rows on as long
as its size can be allocated (`gridInterior_iff`). The line of the border goes round, but it
is documented as a strip, and the strip does not come back to where it starts
(`gridOutline_loop`, `gridOutline_strip`).
-/

namespace WorldWind.WWMath

open GeometryBuilder.GridIndices Lib.ClosedPath Lib.Grid Lib.JavaArray Lib.JavaInt Lib.TriangleStrip

/-! ## Buffers -/

/-- An `IntBuffer` whose limit is its capacity. -/
structure IntBuffer where
  ints : List Int
  position : Nat
deriving DecidableEq

namespace IntBuffer

def put (b : IntBuffer) (v : Int) : Option IntBuffer := (write b.ints b.position v).map fun ints =>
    ⟨ints, b.position + 1⟩

def rewind (b : IntBuffer) : IntBuffer := { b with position := 0 }

/-- One `put` after the other. -/
def putAll (b : IntBuffer) (vs : List Int) : Option IntBuffer := vs.foldlM put b

theorem putAll_append (b : IntBuffer) (vs us : List Int) :
    b.putAll (vs ++ us) = (b.putAll vs).bind fun b => b.putAll us := List.foldlM_append

theorem foldlM_putAll {α : Type*} {f : IntBuffer → α → Option IntBuffer} {g : α → List Int}
    (h : ∀ b a, f b a = b.putAll (g a)) (l : List α) (b : IntBuffer) : l.foldlM f b = b.putAll (l.flatMap g) := by
  induction l generalizing b with
  | nil => rfl
  | cons a l ih =>
    rw [List.foldlM_cons, List.flatMap_cons, putAll_append, h]
    exact congrArg _ (funext ih)

/-- Puts succeed as long as there is room. -/
theorem putAll_room (done : List Int) {vs rest : List Int} (h : vs.length ≤ rest.length) :
    (⟨done ++ rest, done.length⟩ : IntBuffer).putAll vs =
      some ⟨done ++ vs ++ rest.drop vs.length, (done ++ vs).length⟩ := by
  induction vs generalizing done rest with
  | nil => simp [putAll]
  | cons v vs ih =>
    match rest with
    | [] => simp at h
    | r :: rest =>
      have hput : (⟨done ++ r :: rest, done.length⟩ : IntBuffer).put v =
          some ⟨done ++ [v] ++ rest, (done ++ [v]).length⟩ := by
        rw [put, write, if_pos (by simp)]
        simp
      have hrest := ih (done ++ [v]) (show vs.length ≤ rest.length by simpa using h)
      rw [putAll, List.foldlM_cons, hput]
      simpa [putAll] using hrest

theorem putAll_full (done : List Int) {vs rest : List Int} (h : rest.length < vs.length) :
    (⟨done ++ rest, done.length⟩ : IntBuffer).putAll vs = none := by
  have hsplit : vs = vs.take rest.length ++ vs.drop rest.length := (List.take_append_drop _ _).symm
  have hlength : (vs.take rest.length).length = rest.length := by
    rw [List.length_take]
    omega
  obtain ⟨v, us, hv⟩ : ∃ v us, vs.drop rest.length = v :: us :=
    List.exists_cons_of_length_pos (by rw [List.length_drop]; omega)
  have hput : ∀ l : List Int, (⟨l, l.length⟩ : IntBuffer).put v = none := by
    intro l
    rw [put, write, if_neg (Nat.lt_irrefl _)]
    rfl
  rw [hsplit, putAll_append, putAll_room done (by omega), Option.bind_some, hlength, List.drop_length,
    List.append_nil, hv, putAll, List.foldlM_cons, hput]
  rfl

end IntBuffer

/-- What `BufferUtil.newIntBuffer` promises: a buffer of the size asked for, where this is not
negative and not above `most`. Elsewhere it throws, or the number of bytes wraps and the
buffer is too small. -/
structure Allocates (newIntBuffer : Int → Option (List Int)) (most : Int) : Prop where
  most_lt : most < 2 ^ 31
  allocated : ∀ n, 0 ≤ n → n ≤ most → ∃ ints, newIntBuffer n = some ints ∧ ints.length = n
  small : ∀ n, n < 0 ∨ most < n → ∀ ints, newIntBuffer n = some ints → (ints.length : Int) < n

section

variable {newIntBuffer : Int → Option (List Int)} {most : Int}

theorem Allocates.length_le (h : Allocates newIntBuffer most) {n : Int} {ints : List Int}
    (hnew : newIntBuffer n = some ints) : (ints.length : Int) ≤ n := by
  by_cases hn : 0 ≤ n ∧ n ≤ most
  · obtain ⟨ints', hnew', hlength⟩ := h.allocated n hn.1 hn.2
    rw [hnew] at hnew'
    cases hnew'
    exact hlength.le
  · exact (h.small n (by omega) ints hnew).le

/-- A buffer for as many ints as are put is full afterwards. -/
theorem Allocates.putAll_some (h : Allocates newIntBuffer most) {vs : List Int} (hvs : (vs.length : Int) ≤ most) :
    ((newIntBuffer vs.length).bind fun ints => (⟨ints, 0⟩ : IntBuffer).putAll vs) = some ⟨vs, vs.length⟩ := by
  obtain ⟨ints, hnew, hlength⟩ := h.allocated vs.length (Int.natCast_nonneg _) hvs
  have hlength : ints.length = vs.length := Int.ofNat.inj hlength
  have hput := IntBuffer.putAll_room [] hlength.ge
  rw [← hlength, List.drop_length] at hput
  rw [hnew, Option.bind_some]
  simpa [hlength] using hput

/-- More ints than the size asked for do not fit, nor do more than can be allocated. -/
theorem Allocates.putAll_none (h : Allocates newIntBuffer most) {size : Int} (vs : List Int)
    (hsize : -2 ^ 31 ≤ size) (hvs : size ≤ vs.length) (hlarge : size < vs.length ∨ most < size) :
    ((newIntBuffer (int size)).bind fun ints => (⟨ints, 0⟩ : IntBuffer).putAll vs) = none := by
  cases hnew : newIntBuffer (int size) with
  | none => rfl
  | some ints =>
    have hle := h.length_le hnew
    have hlength : ints.length < vs.length := by
      by_cases hfits : size < 2 ^ 31
      · rw [int_eq hsize hfits] at hle hnew
        by_cases hmore : most < size
        · have := h.small size (.inr hmore) ints hnew
          omega
        · omega
      · have := int_lt size
        omega
    exact IntBuffer.putAll_full [] hlength

end

/-! ## The two methods -/

section

variable (newIntBuffer : Int → Option (List Int)) (width height : Int)

/-- The loops of `computeIndicesForGridInterior`. -/
def putGridInterior (b : IntBuffer) : Option IntBuffer :=
  (List.range (height - 1).toNat).foldlM (fun b (y : Nat) => do
    let b ← if y ≠ 0 then b.putAll [int (width - 1 + ((y : Int) - 1) * width), int (width + y * width)] else some b
    (List.range width.toNat).foldlM (fun b (x : Nat) =>
      let pos := int (x + y * width)
      b.putAll [int (pos + width), pos]) b) b

/-- The buffer of `computeIndicesForGridInterior` before it is rewound. -/
def gridInterior : Option IntBuffer :=
  if width ≤ 0 ∨ height ≤ 0 then none
  else
    let numIndices := int ((height - 1) * (2 * width) + 2 * (height - 2))
    (newIntBuffer numIndices).bind fun ints => putGridInterior width height ⟨ints, 0⟩

def computeIndicesForGridInterior : Option IntBuffer := (gridInterior newIntBuffer width height).map IntBuffer.rewind

/-- The loops of `computeIndicesForGridOutline`. -/
def putGridOutline (b : IntBuffer) : Option IntBuffer := do
  let b ← (List.range width.toNat).foldlM (fun b (x : Nat) => b.put x) b
  let b ← (List.range' 1 (height - 2).toNat).foldlM (fun b (y : Nat) => b.put (int (width - 1 + y * width))) b
  let b ← (List.range width.toNat).reverse.foldlM (fun b (x : Nat) => b.put (int (x + (height - 1) * width))) b
  (List.range' 1 (height - 2).toNat).reverse.foldlM (fun b (y : Nat) => b.put (int (y * width))) b

/-- The buffer of `computeIndicesForGridOutline` before it is rewound. -/
def gridOutline : Option IntBuffer :=
  if width ≤ 0 ∨ height ≤ 0 then none
  else
    let numIndices := int (2 * (width + height - 2))
    (newIntBuffer numIndices).bind fun ints => putGridOutline width height ⟨ints, 0⟩

def computeIndicesForGridOutline : Option IntBuffer := (gridOutline newIntBuffer width height).map IntBuffer.rewind

end

/-! ## The grid -/

/-- The number of the vertex in column `x` and row `y`. -/
def vertex (width x y : Nat) : Int := x + y * width

/-- The corners of a triangle by their columns and rows. -/
def corner (width : Nat) (t : Triangle (Nat × Nat)) : Triangle Int :=
  (vertex width t.1.1 t.1.2, vertex width t.2.1.1 t.2.1.2, vertex width t.2.2.1 t.2.2.2)

/-- The triangles of a strip without a repeated vertex are two of one winding for each cell. -/
def InteriorStrip (width height : Nat) (indices : List Int) : Prop :=
  ∃ counterclockwise, (triangles false indices).filter (fun t => ¬t.Degenerate) =
    (cells (height - 1) (width - 1)).flatMap fun c => (cellCorners counterclockwise c).map (corner width)

/-- The edges on the first and last row and on the first and last column. -/
def BoundaryEdge (width height : Nat) (e : Sym2 Int) : Prop :=
  (∃ x y, x + 1 < width ∧ (y = 0 ∨ y + 1 = height) ∧ e = s(vertex width x y, vertex width (x + 1) y)) ∨
    ∃ x y, y + 1 < height ∧ (x = 0 ∨ x + 1 = width) ∧ e = s(vertex width x y, vertex width x (y + 1))

/-- What the two methods have to do: fill their buffers with strips over the grid. -/
structure GridBuffers (newIntBuffer : Int → Option (List Int)) (width height : Int) : Prop where
  interior : ∃ b, gridInterior newIntBuffer width height = some b ∧ b.position = b.ints.length ∧
    computeIndicesForGridInterior newIntBuffer width height = some ⟨b.ints, 0⟩ ∧
    InteriorStrip width.toNat height.toNat b.ints
  outline : ∃ b, gridOutline newIntBuffer width height = some b ∧ b.position = b.ints.length ∧
    computeIndicesForGridOutline newIntBuffer width height = some ⟨b.ints, 0⟩ ∧
    (2 ≤ width → 2 ≤ height → ∀ e, BoundaryEdge width.toNat height.toNat e → (edges b.ints).count e = 1)

theorem vertex_lt {w h x y : Nat} (hx : x < w) (hy : y < h) : 0 ≤ vertex w x y ∧ vertex w x y < w * h := by
  have hcell := cell_lt hy hx
  rw [vertex]
  constructor
  · positivity
  · rw [Nat.mul_comm h] at hcell
    have : ((y * w + x : Nat) : Int) < (w * h : Nat) := Int.ofNat_lt.2 hcell
    push_cast at this
    omega

/-! ## The interior -/

section

/-- What the loops put for a row. -/
def rowPuts (width y : Nat) : List Int :=
  (if y ≠ 0 then [int ((width : Int) - 1 + ((y : Int) - 1) * width), int ((width : Int) + y * width)] else []) ++
    (List.range width).flatMap fun x : Nat => [int (int (x + y * width) + width), int (x + y * width)]

theorem putGridInterior_eq (w h : Nat) (b : IntBuffer) :
    putGridInterior w (h + 1 : Nat) b = b.putAll ((List.range h).flatMap (rowPuts w)) := by
  have hh : ((h + 1 : Nat) - 1 : Int).toNat = h := by omega
  rw [putGridInterior, hh]
  refine IntBuffer.foldlM_putAll (fun b y => ?_) _ b
  rw [rowPuts, IntBuffer.putAll_append]
  have hrow : ∀ b : IntBuffer, (List.range (w : Int).toNat).foldlM (fun b (x : Nat) =>
      let pos := int (x + y * w)
      b.putAll [int (pos + w), pos]) b =
      b.putAll ((List.range w).flatMap fun x : Nat => [int (int (x + y * w) + w), int (x + y * w)]) :=
    fun b => IntBuffer.foldlM_putAll (fun _ _ => rfl) _ b
  simp only [hrow]
  by_cases hy : y = 0
  · simp [hy, IntBuffer.putAll]
  · simp only [hy, ne_eq, not_false_eq_true, if_true]
    rfl

/-- The indices of the interior of `k + 2` rows of `n + 1` vertices. -/
def interiorIndices (n k : Nat) : List Int :=
  rowsStrip (fun j i => vertex (n + 1) i (j + 1)) (fun j i => vertex (n + 1) i j)
    (fun j => (vertex (n + 1) n (j - 1), vertex (n + 1) 0 (j + 1))) n k

theorem rowPairs_eq (n y : Nat) :
    ((List.range (n + 1)).flatMap fun x : Nat =>
      [int (int (x + y * (n + 1 : Nat)) + (n + 1 : Nat)), int (x + y * (n + 1 : Nat))]) =
      (pairs (fun i => vertex (n + 1) i (y + 1)) (fun i => vertex (n + 1) i y) (n + 1)).map int := by
  rw [pairs, List.map_flatMap]
  refine List.flatMap_congr fun x _ => ?_
  have hpos : (x : Int) + y * (n + 1 : Nat) + (n + 1 : Nat) = vertex (n + 1) x (y + 1) := by
    rw [vertex]
    push_cast
    ring
  rw [int_int_add, hpos]
  rfl

theorem rowPuts_eq (n k : Nat) : (List.range (k + 1)).flatMap (rowPuts (n + 1)) = (interiorIndices n k).map int := by
  induction k with
  | zero =>
    rw [List.range_one, List.flatMap_singleton, rowPuts, rowPairs_eq]
    rfl
  | succ k ih =>
    have hlink : (((n + 1 : Nat) : Int) - 1 + (((k + 1 : Nat) : Int) - 1) * (n + 1 : Nat) = vertex (n + 1) n k) ∧
        ((n + 1 : Nat) : Int) + (k + 1 : Nat) * (n + 1 : Nat) = vertex (n + 1) 0 (k + 1 + 1) := by
      constructor
      · rw [vertex]
        push_cast
        ring
      · rw [vertex]
        push_cast
        ring
    rw [List.range_succ, List.flatMap_append, List.flatMap_singleton, ih, rowPuts, rowPairs_eq, hlink.1, hlink.2,
      if_pos (Nat.succ_ne_zero k), interiorIndices, interiorIndices, rowsStrip, List.map_append]
    rfl

theorem length_interiorIndices (n k : Nat) : (interiorIndices n k).length = (k + 1) * 2 * (n + 1) + 2 * k :=
  length_rowsStrip _ _ _ _ _

theorem map_int_eq {l : List Int} (h : ∀ v ∈ l, 0 ≤ v ∧ v < 2 ^ 31) : l.map int = l := by
  refine (List.map_congr_left fun v hv => ?_).trans (List.map_id l)
  exact int_eq (by have := h v hv; omega) (h v hv).2

/-- All vertices of a grid have `int` numbers where the size of the strip is one. -/
theorem interiorIndices_int {n k : Nat} (h : (((k + 1) * 2 * (n + 1) + 2 * k : Nat) : Int) < 2 ^ 31) :
    (interiorIndices n k).map int = interiorIndices n k := by
  have hcount : ((n + 1 : Nat) : Int) * (k + 2 : Nat) < 2 ^ 31 := by
    refine lt_of_le_of_lt ?_ h
    push_cast
    nlinarith
  have hvertex : ∀ x ≤ n, ∀ y ≤ k + 1, 0 ≤ vertex (n + 1) x y ∧ vertex (n + 1) x y < 2 ^ 31 := by
    intro x hx y hy
    have := vertex_lt (show x < n + 1 by omega) (show y < k + 2 by omega)
    exact ⟨this.1, this.2.trans hcount⟩
  apply map_int_eq
  apply forall_rowsStrip
  · intro j hj i hi
    exact ⟨hvertex i hi (j + 1) (by omega), hvertex i hi j (by omega)⟩
  · intro j hj
    exact ⟨hvertex n (Nat.le_refl n) j (by omega), hvertex 0 (Nat.zero_le n) (j + 1 + 1) (by omega)⟩

/-- The triangles between two rows repeat a vertex, those of a row do not. -/
theorem interiorIndices_strip (n k : Nat) : InteriorStrip (n + 1) (k + 2) (interiorIndices n k) := by
  refine ⟨true, ?_⟩
  have hrow : ∀ y, ((List.range n).flatMap (pairTriangles (fun i => vertex (n + 1) i (y + 1))
      fun i => vertex (n + 1) i y)).filter (fun t => ¬t.Degenerate) =
      (List.range n).flatMap fun x => (cellCorners true (y, x)).map (corner (n + 1)) := by
    intro y
    have hcells : (List.range n).flatMap (pairTriangles (fun i => vertex (n + 1) i (y + 1))
        fun i => vertex (n + 1) i y) = (List.range n).flatMap fun x =>
          (cellCorners true (y, x)).map (corner (n + 1)) :=
      rfl
    rw [hcells, List.filter_eq_self]
    intro t ht
    obtain ⟨x, -, ht⟩ := List.mem_flatMap.1 ht
    have hup : ((y + 1 : Nat) : Int) * (n + 1 : Nat) = y * (n + 1 : Nat) + (n + 1 : Nat) := by
      push_cast
      ring
    simp only [cellCorners, if_true, List.map_cons, List.map_nil, corner, vertex, List.mem_cons, List.not_mem_nil,
      or_false, hup] at ht
    rcases ht with rfl | rfl
    · simp [Triangle.Degenerate]
      omega
    · simp [Triangle.Degenerate]
      omega
  have hlink : ∀ j, (linkTriangles (fun j i => vertex (n + 1) i (j + 1)) (fun j i => vertex (n + 1) i j)
      (fun j => (vertex (n + 1) n (j - 1), vertex (n + 1) 0 (j + 1))) n j).filter (fun t => ¬t.Degenerate) = [] := by
    intro j
    rw [List.filter_eq_nil_iff]
    intro t ht
    simp only [linkTriangles, Nat.add_sub_cancel, List.mem_cons, List.not_mem_nil, or_false] at ht
    rcases ht with rfl | rfl | rfl | rfl <;> simp [Triangle.Degenerate]
  rw [interiorIndices, triangles_rowsStrip, List.filter_append, hrow 0, List.filter_flatMap, cells,
    List.flatMap_assoc,
    Nat.add_sub_cancel, Nat.add_sub_assoc (by omega), List.range_succ_eq_map, List.flatMap_cons, List.flatMap_map,
    List.flatMap_map]
  refine congrArg _ (List.flatMap_congr fun j hj => ?_)
  rw [List.filter_append, hlink j, hrow (j + 1), List.nil_append, List.flatMap_map]

variable {newIntBuffer : Int → Option (List Int)} {most : Int}

theorem gridInterior_one (h : Allocates newIntBuffer most) (w : Nat) : gridInterior newIntBuffer w 1 = none := by
  rw [gridInterior]
  split
  · rfl
  · have hsize : ((1 : Int) - 1) * (2 * w) + 2 * (1 - 2) = -2 := by ring
    simp only [hsize]
    exact h.putAll_none [] (by decide) (by decide) (.inl (by decide))

theorem gridInterior_eq (n k : Nat) : gridInterior newIntBuffer (n + 1 : Nat) (k + 2 : Nat) =
    (newIntBuffer (int ((interiorIndices n k).length : Nat))).bind fun ints =>
      (⟨ints, 0⟩ : IntBuffer).putAll ((interiorIndices n k).map int) := by
  have hsize : (((k + 2 : Nat) : Int) - 1) * (2 * (n + 1 : Nat)) + 2 * ((k + 2 : Nat) - 2) =
      ((interiorIndices n k).length : Nat) := by
    rw [length_interiorIndices]
    push_cast
    ring
  have hput : ∀ ints, putGridInterior (n + 1 : Nat) (k + 2 : Nat) ⟨ints, 0⟩ =
      (⟨ints, 0⟩ : IntBuffer).putAll ((interiorIndices n k).map int) := by
    intro ints
    rw [putGridInterior_eq (n + 1) (k + 1), rowPuts_eq]
  rw [gridInterior, if_neg (by omega)]
  simp only [hsize, hput]

/-- The buffer of the interior is filled where its size can be allocated. -/
theorem gridInterior_some (h : Allocates newIntBuffer most) {n k : Nat}
    (hsize : ((interiorIndices n k).length : Int) ≤ most) :
    gridInterior newIntBuffer (n + 1 : Nat) (k + 2 : Nat) =
      some ⟨interiorIndices n k, (interiorIndices n k).length⟩ := by
  have hfits : ((interiorIndices n k).length : Int) < 2 ^ 31 := hsize.trans_lt h.most_lt
  rw [gridInterior_eq, int_eq (by omega) hfits, interiorIndices_int (by rwa [length_interiorIndices] at hfits)]
  exact h.putAll_some hsize

theorem gridInterior_none (h : Allocates newIntBuffer most) {n k : Nat}
    (hsize : most < ((interiorIndices n k).length : Int)) :
    gridInterior newIntBuffer (n + 1 : Nat) (k + 2 : Nat) = none := by
  rw [gridInterior_eq]
  exact h.putAll_none _ (by omega) (by rw [List.length_map]) (.inr hsize)

/-- The interior is right from two rows on, as long as its size can be allocated. -/
theorem gridInterior_iff (h : Allocates newIntBuffer most) {w n : Nat} (hw : 0 < w) (hn : 0 < n) :
    (∃ b, gridInterior newIntBuffer w n = some b ∧ b.position = b.ints.length ∧ InteriorStrip w n b.ints) ↔
      2 ≤ n ∧ ((n : Int) - 1) * (2 * w) + 2 * (n - 2) ≤ most := by
  obtain ⟨m, rfl⟩ : ∃ m, w = m + 1 := ⟨w - 1, by omega⟩
  by_cases hrows : n = 1
  · subst hrows
    refine ⟨fun ⟨b, hb, _⟩ => ?_, fun ⟨hn, _⟩ => by omega⟩
    have hnone := gridInterior_one h (m + 1)
    rw [Nat.cast_one, hnone] at hb
    cases hb
  · obtain ⟨k, rfl⟩ : ∃ k, n = k + 2 := ⟨n - 2, by omega⟩
    have hsize : (((k + 2 : Nat) : Int) - 1) * (2 * (m + 1 : Nat)) + 2 * ((k + 2 : Nat) - 2) =
        ((interiorIndices m k).length : Nat) := by
      rw [length_interiorIndices]
      push_cast
      ring
    rw [hsize]
    constructor
    · rintro ⟨b, hb, -⟩
      refine ⟨by omega, not_lt.1 fun hlarge => ?_⟩
      rw [gridInterior_none h hlarge] at hb
      cases hb
    · rintro ⟨-, hfits⟩
      exact ⟨_, gridInterior_some h hfits, rfl, interiorIndices_strip m k⟩

end

/-! ## The outline -/

section

/-- What the loops put. -/
def outlinePuts (width height : Nat) : List Int :=
  (List.range width).map (fun x : Nat => (x : Int)) ++
    ((List.range' 1 (height - 2)).map (fun y : Nat => int ((width : Int) - 1 + y * width)) ++
      ((List.range width).reverse.map (fun x : Nat => int (x + ((height : Int) - 1) * width)) ++
        (List.range' 1 (height - 2)).reverse.map fun y : Nat => int (y * width)))

theorem putGridOutline_eq (w h : Nat) (b : IntBuffer) : putGridOutline w h b = b.putAll (outlinePuts w h) := by
  have hloop : ∀ (l : List Nat) (f : Nat → Int) (b : IntBuffer),
      l.foldlM (fun b x => b.put (f x)) b = b.putAll (l.map f) := by
    intro l f b
    rw [IntBuffer.putAll, List.foldlM_map]
  have hh : ((h : Int) - 2).toNat = h - 2 := by omega
  rw [putGridOutline, outlinePuts, IntBuffer.putAll_append, Int.toNat_natCast, hh]
  simp only [hloop, IntBuffer.putAll_append]
  rfl

/-- The border in the order of the loops, by columns and rows. -/
def border (n k : Nat) : List (Nat × Nat) :=
  (List.range n).map (fun i => (i, 0)) ++ ((List.range (k + 1)).map (fun i => (n, i)) ++
    ((List.range n).map (fun i => (n - i, k + 1)) ++ (List.range (k + 1)).map fun i => (0, k + 1 - i)))

def outlineIndices (n k : Nat) : List Int := (border n k).map fun p => vertex (n + 1) p.1 p.2

theorem outlinePuts_eq (n k : Nat) (h : ((n + 1 : Nat) : Int) * (k + 2 : Nat) < 2 ^ 31) :
    outlinePuts (n + 1) (k + 2) = outlineIndices n k := by
  have hint : ∀ x ≤ n, ∀ y ≤ k + 1, int (vertex (n + 1) x y) = vertex (n + 1) x y := by
    intro x hx y hy
    have := vertex_lt (show x < n + 1 by omega) (show y < k + 2 by omega)
    exact int_eq (by omega) (by omega)
  have hright : (List.range' 1 k).map (fun y : Nat => int (((n + 1 : Nat) : Int) - 1 + y * (n + 1 : Nat))) =
      (List.range k).map fun i => vertex (n + 1) n (i + 1) := by
    rw [List.range'_eq_map_range, List.map_map]
    refine List.map_congr_left fun i hi => ?_
    rw [List.mem_range] at hi
    rw [← hint n (Nat.le_refl n) (i + 1) (by omega), Function.comp_apply, vertex, Nat.add_comm 1 i]
    congr 1
    push_cast
    ring
  have hbottom : (List.range (n + 1)).reverse.map (fun x : Nat =>
      int (x + (((k + 2 : Nat) : Int) - 1) * (n + 1 : Nat))) =
      (List.range (n + 1)).map fun i => vertex (n + 1) (n - i) (k + 1) := by
    have hreverse : (List.range (n + 1)).reverse = (List.range (n + 1)).map (n - ·) := by
      rw [List.range_eq_range', List.reverse_range', ← List.range_eq_range', Nat.zero_add, Nat.add_sub_cancel]
    rw [hreverse, List.map_map]
    refine List.map_congr_left fun i _ => ?_
    rw [← hint (n - i) (by omega) (k + 1) (Nat.le_refl _), Function.comp_apply, vertex]
    congr 1
    push_cast
    ring
  have hleft : (List.range' 1 k).reverse.map (fun y : Nat => int (y * (n + 1 : Nat))) =
      (List.range k).map fun i => vertex (n + 1) 0 (k - i) := by
    rw [List.reverse_range', List.map_map, Nat.add_sub_cancel_left]
    refine List.map_congr_left fun i _ => ?_
    rw [← hint 0 (Nat.zero_le n) (k - i) (by omega), Function.comp_apply, vertex, Nat.cast_zero, zero_add]
  have htop : (List.range (n + 1)).map (fun x : Nat => (x : Int)) =
      (List.range n).map (fun i => vertex (n + 1) i 0) ++ [vertex (n + 1) n 0] := by
    rw [List.range_succ, List.map_append]
    simp [vertex]
  have hcolumn : ∀ g : Nat → Int, (List.range (k + 1)).map g = g 0 :: (List.range k).map fun i => g (i + 1) := by
    intro g
    rw [List.range_succ_eq_map, List.map_cons, List.map_map]
    rfl
  have hindices : outlineIndices n k = (List.range n).map (fun i => vertex (n + 1) i 0) ++
      ((List.range (k + 1)).map (fun i => vertex (n + 1) n i) ++
        ((List.range n).map (fun i => vertex (n + 1) (n - i) (k + 1)) ++
          (List.range (k + 1)).map fun i => vertex (n + 1) 0 (k + 1 - i))) := by
    rw [outlineIndices, border]
    simp only [List.map_append, List.map_map]
    rfl
  rw [outlinePuts, Nat.add_sub_cancel, hright, hbottom, hleft, htop, hindices, hcolumn, hcolumn, List.range_succ,
    List.map_append]
  simp

theorem edges_border (m k : Nat) : edges (close (border (m + 1) k)) =
    (List.range (m + 1)).map (fun i => s((i, 0), (i + 1, 0))) ++
      ((List.range (k + 1)).map (fun i => s((m + 1, i), (m + 1, i + 1))) ++
        ((List.range (m + 1)).map (fun i => s((m + 1 - i, k + 1), (m + 1 - (i + 1), k + 1))) ++
          (List.range (k + 1)).map fun i => s((0, k + 1 - i), (0, k + 1 - (i + 1))))) := by
  have hclose : close (border (m + 1) k) = border (m + 1) k ++ [(0, 0)] := by
    rw [border, List.range_succ_eq_map]
    rfl
  rw [edges, hclose, border, List.append_assoc, List.append_assoc, List.append_assoc,
    steps_line (fun i => ((i, 0) : Nat × Nat)) (m + 1) (by simp [List.range_succ_eq_map]),
    steps_line (fun i => ((m + 1, i) : Nat × Nat)) (k + 1) (by simp [List.range_succ_eq_map]),
    steps_line (fun i => ((m + 1 - i, k + 1) : Nat × Nat)) (m + 1) (by simp [List.range_succ_eq_map]),
    steps_line (fun i => ((0, k + 1 - i) : Nat × Nat)) (k + 1) (by simp), steps_singleton, List.append_nil]
  simp only [List.map_append, List.map_map]
  rfl

theorem side_nodup {β : Type*} {f : Nat → β} {n : Nat} (h : ∀ i < n, ∀ j < n, f i = f j → i = j) :
    ((List.range n).map f).Nodup :=
  List.Nodup.map_on (fun i hi j hj => h i (List.mem_range.1 hi) j (List.mem_range.1 hj)) List.nodup_range

theorem sides_disjoint {β : Type*} {f g : Nat → β} {n n' : Nat} (h : ∀ i < n, ∀ j < n', f i ≠ g j) :
    ((List.range n).map f).Disjoint ((List.range n').map g) := by
  intro e he he'
  obtain ⟨i, hi, rfl⟩ := List.mem_map.1 he
  obtain ⟨j, hj, heq⟩ := List.mem_map.1 he'
  exact h i (List.mem_range.1 hi) j (List.mem_range.1 hj) heq.symm

theorem edge_eq {a b c d a' b' c' d' : Nat} : s((a, b), (c, d)) = s((a', b'), (c', d')) ↔
    (a = a' ∧ b = b' ∧ c = c' ∧ d = d') ∨ (a = c' ∧ b = d' ∧ c = a' ∧ d = b') := by
  simp only [Sym2.eq_iff, Prod.mk.injEq, and_assoc]

theorem edges_border_nodup (m k : Nat) : (edges (close (border (m + 1) k))).Nodup := by
  rw [edges_border, List.nodup_append', List.nodup_append', List.nodup_append', List.disjoint_append_right,
    List.disjoint_append_right, List.disjoint_append_right]
  refine ⟨side_nodup ?_, ⟨side_nodup ?_, ⟨side_nodup ?_, side_nodup ?_, sides_disjoint ?_⟩, sides_disjoint ?_,
    sides_disjoint ?_⟩, sides_disjoint ?_, sides_disjoint ?_, sides_disjoint ?_⟩ <;>
  · intro i hi j hj
    simp only [ne_eq, edge_eq]
    omega

theorem mem_edges_border {m k : Nat} {e : Sym2 (Nat × Nat)} : e ∈ edges (close (border (m + 1) k)) ↔
    (∃ x y, x + 1 < m + 2 ∧ (y = 0 ∨ y + 1 = k + 2) ∧ e = s((x, y), (x + 1, y))) ∨
      ∃ x y, y + 1 < k + 2 ∧ (x = 0 ∨ x + 1 = m + 2) ∧ e = s((x, y), (x, y + 1)) := by
  rw [edges_border]
  simp only [List.mem_append, List.mem_map, List.mem_range]
  constructor
  · rintro (⟨i, hi, rfl⟩ | ⟨i, hi, rfl⟩ | ⟨i, hi, rfl⟩ | ⟨i, hi, rfl⟩)
    · exact .inl ⟨i, 0, by omega, .inl rfl, rfl⟩
    · exact .inr ⟨m + 1, i, by omega, .inr rfl, rfl⟩
    · exact .inl ⟨m - i, k + 1, by omega, .inr rfl, edge_eq.2 (by omega)⟩
    · exact .inr ⟨0, k - i, by omega, .inl rfl, edge_eq.2 (by omega)⟩
  · rintro (⟨x, y, hx, hy, rfl⟩ | ⟨x, y, hy, hx, rfl⟩)
    · rcases hy with rfl | hy
      · exact .inl ⟨x, by omega, rfl⟩
      · exact .inr (.inr (.inl ⟨m - x, by omega, edge_eq.2 (by omega)⟩))
    · rcases hx with rfl | hx
      · exact .inr (.inr (.inr ⟨k - y, by omega, edge_eq.2 (by omega)⟩))
      · exact .inr (.inl ⟨y, by omega, edge_eq.2 (by omega)⟩)

theorem boundaryEdge_iff {w h : Nat} {e : Sym2 Int} : BoundaryEdge w h e ↔
    ∃ e', ((∃ x y, x + 1 < w ∧ (y = 0 ∨ y + 1 = h) ∧ e' = s((x, y), (x + 1, y))) ∨
      ∃ x y, y + 1 < h ∧ (x = 0 ∨ x + 1 = w) ∧ e' = s((x, y), (x, y + 1))) ∧
      e = e'.map fun p => vertex w p.1 p.2 := by
  constructor
  · rintro (⟨x, y, hx, hy, rfl⟩ | ⟨x, y, hy, hx, rfl⟩)
    · exact ⟨_, .inl ⟨x, y, hx, hy, rfl⟩, rfl⟩
    · exact ⟨_, .inr ⟨x, y, hy, hx, rfl⟩, rfl⟩
  · rintro ⟨_, ⟨x, y, hx, hy, rfl⟩ | ⟨x, y, hy, hx, rfl⟩, rfl⟩
    · exact .inl ⟨x, y, hx, hy, rfl⟩
    · exact .inr ⟨x, y, hy, hx, rfl⟩

theorem mem_border_lt {n k : Nat} {p : Nat × Nat} (h : p ∈ border n k) : p.1 < n + 1 := by
  simp only [border, List.mem_append, List.mem_map, List.mem_range] at h
  rcases h with ⟨i, hi, rfl⟩ | ⟨i, hi, rfl⟩ | ⟨i, hi, rfl⟩ | ⟨i, hi, rfl⟩
  · exact Nat.lt_succ_of_lt hi
  · exact Nat.lt_succ_self n
  · exact Nat.lt_succ_of_le (Nat.sub_le n i)
  · exact Nat.succ_pos n

/-- Read as a line that comes back to its start, the outline has every edge of the border once. -/
theorem outline_loop (m k : Nat) : (edges (close (outlineIndices (m + 1) k))).Nodup ∧
    ∀ e, e ∈ edges (close (outlineIndices (m + 1) k)) ↔ BoundaryEdge (m + 2) (k + 2) e := by
  have hedges : edges (close (outlineIndices (m + 1) k)) =
      (edges (close (border (m + 1) k))).map (Sym2.map fun p => vertex (m + 2) p.1 p.2) := by
    rw [outlineIndices, close_map, edges_map]
  have hback : (outlineIndices (m + 1) k).map (fun v : Int =>
      ((v % (m + 2 : Nat)).toNat, (v / (m + 2 : Nat)).toNat)) =
      border (m + 1) k := by
    rw [outlineIndices, List.map_map]
    refine (List.map_congr_left fun p hp => ?_).trans (List.map_id _)
    have hx := mem_border_lt hp
    have hpos : ((m + 2 : Nat) : Int) ≠ 0 := by omega
    rw [Function.comp_apply, vertex, Int.add_mul_emod_self_right, Int.add_mul_ediv_right _ _ hpos,
      Int.emod_eq_of_lt (Int.natCast_nonneg _) (by omega), Int.ediv_eq_zero_of_lt (Int.natCast_nonneg _) (by omega),
      Int.zero_add, Int.toNat_natCast, Int.toNat_natCast]
    rfl
  constructor
  · refine List.Nodup.of_map (Sym2.map fun v : Int => ((v % (m + 2 : Nat)).toNat, (v / (m + 2 : Nat)).toNat)) ?_
    rw [← edges_map, ← close_map, hback]
    exact edges_border_nodup m k
  · intro e
    rw [hedges, List.mem_map, boundaryEdge_iff]
    constructor
    · rintro ⟨e', he', rfl⟩
      exact ⟨e', mem_edges_border.1 he', rfl⟩
    · rintro ⟨e', he', rfl⟩
      exact ⟨e', mem_edges_border.2 he', rfl⟩

/-- As a line strip it does not have the last one. -/
theorem outline_strip (m k : Nat) : edges (close (outlineIndices (m + 1) k)) =
    edges (outlineIndices (m + 1) k) ++ [s(vertex (m + 2) 0 1, vertex (m + 2) 0 0)] := by
  apply edges_close
  · rw [outlineIndices, border, List.range_succ_eq_map]
    rfl
  · have hlast : (border (m + 1) k).getLast? = some (0, 1) := by
      rw [border, List.getLast?_append, List.getLast?_append, List.getLast?_append, List.getLast?_map,
        List.getLast?_range]
      simp
    rw [outlineIndices, List.getLast?_map, hlast]
    rfl

variable {newIntBuffer : Int → Option (List Int)} {most : Int}

theorem length_outlinePuts (w h : Nat) : (outlinePuts w h).length = 2 * w + 2 * (h - 2) := by
  simp only [outlinePuts, List.length_append, List.length_map, List.length_reverse, List.length_range,
    List.length_range']
  omega

/-- One row alone is put twice, and does not fit. -/
theorem gridOutline_one (h : Allocates newIntBuffer most) {w : Nat} (hw : 0 < w) :
    gridOutline newIntBuffer w (1 : Nat) = none := by
  rw [gridOutline, if_neg (by omega)]
  simp only [putGridOutline_eq]
  apply h.putAll_none
  · omega
  · rw [length_outlinePuts]
    omega
  · left
    rw [length_outlinePuts]
    omega

theorem gridOutline_some (h : Allocates newIntBuffer most) {n k : Nat}
    (hcount : ((n + 1 : Nat) : Int) * (k + 2 : Nat) < 2 ^ 31)
    (hsize : 2 * (((n + 1 : Nat) : Int) + (k + 2 : Nat) - 2) ≤ most) :
    gridOutline newIntBuffer (n + 1 : Nat) (k + 2 : Nat) =
      some ⟨outlineIndices n k, (outlineIndices n k).length⟩ := by
  have hlength : 2 * (((n + 1 : Nat) : Int) + (k + 2 : Nat) - 2) = ((outlineIndices n k).length : Nat) := by
    rw [← outlinePuts_eq n k hcount, length_outlinePuts]
    omega
  have hfits := hsize.trans_lt h.most_lt
  rw [gridOutline, if_neg (by omega)]
  simp only [putGridOutline_eq, outlinePuts_eq n k hcount]
  rw [int_eq (by omega) hfits, hlength]
  rw [hlength] at hsize
  exact h.putAll_some hsize

end

/-! ## Both -/

/-- The filled buffer of the outline, closed, has every edge of the border once, and no other; as
the line strip that it is documented to be it lacks the last one. -/
theorem gridOutline_loop {newIntBuffer : Int → Option (List Int)} {most : Int} (h : Allocates newIntBuffer most)
    {w n : Nat} (hw : 2 ≤ w) (hn : 2 ≤ n) (hcount : (w : Int) * n < 2 ^ 31) (hsize : 2 * ((w : Int) + n - 2) ≤ most) :
    ∃ b, gridOutline newIntBuffer w n = some b ∧ b.position = b.ints.length ∧
      (edges (close b.ints)).Nodup ∧ (∀ e, e ∈ edges (close b.ints) ↔ BoundaryEdge w n e) ∧
      edges (close b.ints) = edges b.ints ++ [s(vertex w 0 1, vertex w 0 0)] := by
  obtain ⟨m, rfl⟩ : ∃ m, w = m + 2 := ⟨w - 2, by omega⟩
  obtain ⟨k, rfl⟩ : ∃ k, n = k + 2 := ⟨n - 2, by omega⟩
  obtain ⟨hnodup, hmem⟩ := outline_loop m k
  exact ⟨_, gridOutline_some h hcount hsize, rfl, hnodup, hmem, outline_strip m k⟩

/-- The strip of the outline never has the edge from the second row back to the first. -/
theorem outline_count (m k : Nat) :
    (edges (outlineIndices (m + 1) k)).count s(vertex (m + 2) 0 1, vertex (m + 2) 0 0) = 0 := by
  have hnodup := (outline_loop m k).1
  rw [outline_strip] at hnodup
  rw [List.count_eq_zero]
  exact fun hmem => (List.nodup_append.1 hnodup).2.2 _ hmem _ List.mem_cons_self rfl

/-- Where the size of the interior is an `int`, so are the numbers of the vertices and the size of
the outline. -/
theorem outline_fits {w n : Nat} {most : Int} (hn : 2 ≤ n) (hsize : ((n : Int) - 1) * (2 * w) + 2 * (n - 2) ≤ most) :
    (w : Int) * n ≤ most ∧ 2 * ((w : Int) + n - 2) ≤ most := by
  have hrows : (2 : Int) ≤ n := by omega
  have hcells : 0 ≤ (w : Int) * (n - 2) := mul_nonneg (Int.natCast_nonneg w) (by omega)
  have hexpand : ((n : Int) - 1) * (2 * w) = 2 * (w * (n - 2)) + 2 * w := by ring
  have hcount : (w : Int) * n = w * (n - 2) + 2 * w := by ring
  omega

/-- The two buffers are right exactly for a single column of two or more rows whose strip can be
allocated. -/
theorem gridBuffers_iff {newIntBuffer : Int → Option (List Int)} {most : Int} (h : Allocates newIntBuffer most)
    {width height : Int} (hw : 1 ≤ width) (hh : 1 ≤ height) :
    GridBuffers newIntBuffer width height ↔ width = 1 ∧ 2 ≤ height ∧ 4 * height - 6 ≤ most := by
  obtain ⟨w, rfl⟩ : ∃ w : Nat, width = w := ⟨width.toNat, by omega⟩
  obtain ⟨n, rfl⟩ : ∃ n : Nat, height = n := ⟨height.toNat, by omega⟩
  have hinterior := gridInterior_iff h (w := w) (n := n) (by omega) (by omega)
  have hmost := h.most_lt
  constructor
  · rintro ⟨⟨b, hb, hfull, -, hstrip⟩, ⟨b', hb', -, -, hedges⟩⟩
    obtain ⟨hrows, hsize⟩ := hinterior.1 ⟨b, hb, hfull, hstrip⟩
    obtain ⟨hcount, hfits⟩ := outline_fits hrows hsize
    by_cases hcolumns : 2 ≤ w
    · exfalso
      obtain ⟨m, rfl⟩ : ∃ m, w = m + 2 := ⟨w - 2, by omega⟩
      obtain ⟨k, rfl⟩ : ∃ k, n = k + 2 := ⟨n - 2, by omega⟩
      rw [gridOutline_some h (n := m + 1) (hcount.trans_lt hmost) hfits, Option.some.injEq] at hb'
      subst hb'
      have hedge : BoundaryEdge (m + 2) (k + 2) s(vertex (m + 2) 0 1, vertex (m + 2) 0 0) :=
        .inr ⟨0, 0, by omega, .inl rfl, Sym2.eq_swap⟩
      have hone := hedges (by omega) (by omega) _ hedge
      rw [outline_count] at hone
      exact absurd hone (by decide)
    · obtain rfl : w = 1 := by omega
      refine ⟨rfl, by omega, ?_⟩
      push_cast at hsize
      omega
  · rintro ⟨hone, hrows, hsize⟩
    obtain rfl : w = 1 := by omega
    have hsize' : ((n : Int) - 1) * (2 * (1 : Nat)) + 2 * (n - 2) ≤ most := by
      push_cast
      omega
    obtain ⟨b, hb, hfull, hstrip⟩ := hinterior.2 ⟨by omega, hsize'⟩
    obtain ⟨hcount, hfits⟩ := outline_fits (by omega) hsize'
    obtain ⟨k, rfl⟩ : ∃ k, n = k + 2 := ⟨n - 2, by omega⟩
    have houtline := gridOutline_some h (n := 0) (hcount.trans_lt hmost) hfits
    refine ⟨⟨b, hb, hfull, ?_, hstrip⟩, ⟨_, houtline, rfl, ?_, fun hcolumns => by omega⟩⟩
    · rw [computeIndicesForGridInterior, hb]
      rfl
    · rw [computeIndicesForGridOutline]
      exact congrArg _ houtline

/-- Buffers of zeros, of up to `2 ^ 31` bytes. -/
def plainBuffers (n : Int) : Option (List Int) :=
  if 0 ≤ n ∧ n ≤ 2 ^ 29 - 1 then some (List.replicate n.toNat 0) else none

theorem plainBuffers_allocates : Allocates plainBuffers (2 ^ 29 - 1) := by
  refine ⟨by decide, fun n h0 h1 => ⟨List.replicate n.toNat 0, if_pos ⟨h0, h1⟩, ?_⟩, fun n hn ints hints => ?_⟩
  · rw [List.length_replicate, Int.toNat_of_nonneg h0]
  · rw [plainBuffers, if_neg (by omega)] at hints
    cases hints

/-- A column of three vertices. -/
theorem gridBuffers_column : (1 : Int) ≤ 1 ∧ (1 : Int) ≤ 3 ∧ Allocates plainBuffers (2 ^ 29 - 1) ∧
    (GridBuffers plainBuffers 1 3 ↔ (1 : Int) = 1 ∧ (2 : Int) ≤ 3 ∧ (4 : Int) * 3 - 6 ≤ 2 ^ 29 - 1) :=
  ⟨by decide, by decide, plainBuffers_allocates, gridBuffers_iff plainBuffers_allocates (by decide) (by decide)⟩

/-- The outline of two by two vertices does not have the edge between the first and the third. -/
theorem squareOutline_open : ¬GridBuffers plainBuffers 2 2 := by
  rintro ⟨-, ⟨b, hb, -, -, hedges⟩⟩
  have hb' : gridOutline plainBuffers 2 2 = some ⟨[0, 1, 3, 2], 4⟩ := by decide +kernel
  rw [hb', Option.some.injEq] at hb
  subst hb
  have hone := hedges (by decide) (by decide) s(0, 2) (.inr ⟨0, 0, by decide, .inl rfl, rfl⟩)
  exact absurd hone (by decide +kernel)

end WorldWind.WWMath
