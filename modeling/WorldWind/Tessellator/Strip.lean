import WorldWind.Lib.JavaInt
import WorldWind.Lib.TriangleStrip
/-!
# The triangle strip of `RectangularTessellator`

`createIndices` writes one running counter into a buffer, up and down the
columns of a tile's cells. The vertices are a grid of `density + 3` in each row,
with a skirt around the tile. The buffer is filled exactly, and the strip is two
triangles for each cell (`createIndices_strip`), as long as the number of its
indices is an `int`.
-/

namespace WorldWind.Tessellator

open Lib.JavaInt Lib.Grid Lib.TriangleStrip

/-! ## `createIndices` -/

/-- A `java.nio.IntBuffer` that is only written to. -/
structure IntBuffer where
  capacity : Nat
  contents : List Int
  deriving DecidableEq, Repr

/-- Throws where nothing remains. -/
def IntBuffer.put (b : IntBuffer) (x : Int) : Option IntBuffer :=
  if b.contents.length < b.capacity then some { b with contents := b.contents ++ [x] } else none

/-- The counter and the buffer. -/
structure Writer where
  k : Int
  buffer : IntBuffer

namespace Writer

/-- `buffer.put(k)`. -/
def put (w : Writer) : Option Writer := (w.buffer.put w.k).map fun buffer => { w with buffer }

/-- `k += x`. -/
def add (x : Int) (w : Writer) : Writer := { w with k := int (w.k + x) }

end Writer

/-- The inner loops. -/
def putRows (rowStep columnStep : Int) : Nat → Writer → Option Writer
  | 0, w => some w
  | n + 1, w => (w.add rowStep).put.bind fun w => (w.add columnStep).put.bind (putRows rowStep columnStep n)

/-- The body of the outer loop. -/
def putColumn (sideSize : Int) (i : Nat) (w : Writer) : Option Writer :=
  w.put.bind fun w =>
  (if i > 0 then (w.add 1).put.bind fun w => w.put else some w).bind fun w =>
  if i % 2 = 0 then (w.add 1).put.bind (putRows sideSize 1 sideSize.toNat)
  else (w.add (-1)).put.bind (putRows (-sideSize) (-1) sideSize.toNat)

def putColumns (sideSize : Int) : Nat → Nat → Writer → Option Writer
  | 0, _, w => some w
  | n + 1, i, w => (putColumn sideSize i w).bind (putColumns sideSize n (i + 1))

section

-- `BufferUtil.newIntBuffer`, none where it throws
variable (newIntBuffer : Int → Option IntBuffer)

/-- The indices that `createIndices` makes for a density that it has no indices for. -/
def newIndices (density : Int) : Option IntBuffer :=
  let sideSize := int (density + 2)
  let indexCount := int (2 * sideSize * sideSize + 4 * sideSize - 2)
  (newIntBuffer indexCount).bind fun buffer => (putColumns sideSize sideSize.toNat 0 ⟨0, buffer⟩).map (·.buffer)

/-- The map from densities to indices. -/
abbrev IndexLists := Int → Option IntBuffer

def createIndices (indexLists : IndexLists) (density : Int) : Option IndexLists :=
  let density := if density < 1 then 1 else density
  match indexLists density with
  | some _ => some indexLists
  | none => (newIndices newIntBuffer density).map fun buffer => Function.update indexLists density (some buffer)

/-- The maps that calls of `createIndices` make. -/
inductive Created : IndexLists → Prop
  | none : Created fun _ => none
  | createIndices {indexLists indexLists' : IndexLists} {density : Int} (h : Created indexLists)
      (hcreate : createIndices newIntBuffer indexLists density = some indexLists') : Created indexLists'

end

/-! ## What is written -/

/-- What `f` does from `k` is to put `l` and to end at `k'`. -/
def Writes (f : Writer → Option Writer) (k : Int) (l : List Int) (k' : Int) : Prop :=
  ∀ b : IntBuffer, b.contents.length + l.length ≤ b.capacity →
    f ⟨k, b⟩ = some ⟨k', { b with contents := b.contents ++ l }⟩

theorem writes_nil (k : Int) : Writes some k [] k := by
  intro b _
  rw [List.append_nil]

theorem writes_put (k : Int) : Writes Writer.put k [k] k := by
  intro b h
  rw [Writer.put, IntBuffer.put, if_pos (by simpa using h)]
  rfl

/-- A sum that fits an `int`, and a put. -/
theorem writes_add_put {k x k' : Int} (hk : k' = k + x) (h0 : 0 ≤ k') (hlt : k' < 2 ^ 31) :
    Writes (fun w => (w.add x).put) k [k'] k' := by
  intro b h
  have hadd : Writer.add x ⟨k, b⟩ = ⟨k', b⟩ := by
    simp only [Writer.add]
    rw [← hk, int_eq (by omega) hlt]
  show (Writer.add x ⟨k, b⟩).put = _
  rw [hadd]
  exact writes_put k' b h

theorem Writes.bind {f g : Writer → Option Writer} {k k' k'' : Int} {l l' : List Int} (hf : Writes f k l k')
    (hg : Writes g k' l' k'') : Writes (fun w => (f w).bind g) k (l ++ l') k'' := by
  intro b h
  rw [List.length_append] at h
  show (f ⟨k, b⟩).bind g = _
  rw [hf b (by omega), Option.bind_some, hg _ (by simp only [List.length_append]; omega)]
  simp only [List.append_assoc]

/-- A vertex of the grid, with `s + 1` in a row. -/
def vertex (s r c : Nat) : Int := r * (s + 1) + c

theorem vertex_lt {s r c : Nat} (hr : r ≤ s) (hc : c ≤ s) : vertex s r c < (s + 1) ^ 2 := by
  have hrow : (r : Int) * (s + 1) ≤ s * (s + 1) := by
    refine mul_le_mul_of_nonneg_right ?_ (by omega)
    exact_mod_cast hr
  rw [vertex, sq, add_mul]
  omega

theorem vertex_nonneg (s r c : Nat) : 0 ≤ vertex s r c := by
  have : (0 : Int) ≤ r * (s + 1) := by positivity
  rw [vertex]
  omega

/-- The vertices along column `i`, upwards in even columns and downwards in odd ones. -/
def columnVertex (s i m : Nat) : Int :=
  if i % 2 = 0 then vertex s (m / 2) (i + m % 2) else vertex s (s - m / 2) (i + 1 - m % 2)

def columnList (s i : Nat) : List Int := (List.range (2 * s + 2)).map (columnVertex s i)

/-- What is written on the way to column `i`. -/
def turnVertex (s i m : Nat) : Int := if i % 2 = 0 then vertex s 0 (i - 1 + m) else vertex s s (i + m)

def turnList (s i : Nat) : List Int := if i = 0 then [] else [turnVertex s i 0, turnVertex s i 1]

/-- The counter before column `i`. -/
def startVertex (s i : Nat) : Int := if i = 0 then 0 else turnVertex s i 0

variable {s : Nat}

theorem columnList_even {i : Nat} (hi : i % 2 = 0) : columnList s i =
    [vertex s 0 i] ++ ([vertex s 0 (i + 1)] ++
      (List.range s).flatMap fun j => [vertex s (0 + (j + 1)) i, vertex s (0 + (j + 1)) (i + 1)]) := by
  have hpair (j : Nat) : [columnVertex s i (2 * j), columnVertex s i (2 * j + 1)] =
      [vertex s j i, vertex s j (i + 1)] := by
    rw [columnVertex, columnVertex, if_pos hi, if_pos hi, show 2 * j / 2 = j by omega, show (2 * j + 1) / 2 =
      j by omega, show 2 * j % 2 = 0 by omega, show (2 * j + 1) % 2 = 1 by omega, Nat.add_zero]
  rw [columnList, show 2 * s + 2 = 2 * (s + 1) by omega, range_pairs]
  simp only [hpair]
  rw [List.range_succ_eq_map, List.flatMap_cons, List.flatMap_map]
  simp only [Nat.succ_eq_add_one, Nat.zero_add, List.cons_append, List.nil_append]

theorem columnList_odd {i : Nat} (hi : i % 2 = 1) : columnList s i =
    [vertex s s (i + 1)] ++ ([vertex s s i] ++
      (List.range s).flatMap fun j => [vertex s (s - (j + 1)) (i + 1), vertex s (s - (j + 1)) i]) := by
  have hpair (j : Nat) : [columnVertex s i (2 * j), columnVertex s i (2 * j + 1)] =
      [vertex s (s - j) (i + 1), vertex s (s - j) i] := by
    rw [columnVertex, columnVertex, if_neg (by omega), if_neg (by omega), show 2 * j / 2 = j by omega,
      show (2 * j + 1) / 2 = j by omega, show 2 * j % 2 = 0 by omega, show (2 * j + 1) % 2 = 1 by omega, Nat.sub_zero,
      Nat.add_sub_cancel]
  rw [columnList, show 2 * s + 2 = 2 * (s + 1) by omega, range_pairs]
  simp only [hpair]
  rw [List.range_succ_eq_map, List.flatMap_cons, List.flatMap_map]
  simp only [Nat.succ_eq_add_one, Nat.sub_zero, List.cons_append, List.nil_append]

section

-- the vertices can be counted with an `int`
variable (hs : (s + 1) ^ 2 < 2 ^ 31)

include hs

theorem vertex_int {r c : Nat} (hr : r ≤ s) (hc : c ≤ s) : 0 ≤ vertex s r c ∧ vertex s r c < 2 ^ 31 := by
  refine ⟨vertex_nonneg s r c, (vertex_lt hr hc).trans ?_⟩
  exact_mod_cast hs

theorem putRows_up (i : Nat) (hi : i < s) : ∀ (n r : Nat), r + n ≤ s →
    Writes (putRows s 1 n) (vertex s r (i + 1))
      ((List.range n).flatMap fun j => [vertex s (r + (j + 1)) i, vertex s (r + (j + 1)) (i + 1)])
      (vertex s (r + n) (i + 1)) := by
  intro n
  induction n with
  | zero => exact fun r _ => writes_nil _
  | succ n ih =>
    intro r hr
    have h1 := vertex_int hs (r := r + 1) (c := i) (by omega) (by omega)
    have h2 := vertex_int hs (r := r + 1) (c := i + 1) (by omega) (by omega)
    have hfirst : vertex s (r + 1) i = vertex s r (i + 1) + s := by
      simp only [vertex]
      push_cast
      ring
    have hsecond : vertex s (r + 1) (i + 1) = vertex s (r + 1) i + 1 := by
      simp only [vertex]
      push_cast
      ring
    have hrest := ih (r + 1) (by omega)
    have hlist : (List.range (n + 1)).flatMap (fun j => [vertex s (r + (j + 1)) i, vertex s (r + (j + 1)) (i + 1)]) =
        [vertex s (r + 1) i] ++ ([vertex s (r + 1) (i + 1)] ++
          (List.range n).flatMap fun j => [vertex s (r + 1 + (j + 1)) i, vertex s (r + 1 + (j + 1)) (i + 1)]) := by
      rw [List.range_succ_eq_map, List.flatMap_cons, List.flatMap_map]
      simp only [Nat.succ_eq_add_one, Nat.zero_add, List.cons_append, List.nil_append, Nat.add_comm,
        Nat.add_left_comm]
    rw [hlist, show r + (n + 1) = r + 1 + n by omega]
    exact (writes_add_put hfirst h1.1 h1.2).bind ((writes_add_put hsecond h2.1 h2.2).bind hrest)

theorem putRows_down (i : Nat) (hi : i < s) : ∀ (n r : Nat), n ≤ r → r ≤ s →
    Writes (putRows (-s) (-1) n) (vertex s r i)
      ((List.range n).flatMap fun j => [vertex s (r - (j + 1)) (i + 1), vertex s (r - (j + 1)) i])
      (vertex s (r - n) i) := by
  intro n
  induction n with
  | zero => exact fun r _ _ => writes_nil _
  | succ n ih =>
    intro r hn hr
    have h1 := vertex_int hs (r := r - 1) (c := i + 1) (by omega) (by omega)
    have h2 := vertex_int hs (r := r - 1) (c := i) (by omega) (by omega)
    obtain ⟨r, rfl⟩ : ∃ r', r = r' + 1 := ⟨r - 1, by omega⟩
    rw [Nat.add_sub_cancel] at h1 h2
    have hfirst : vertex s r (i + 1) = vertex s (r + 1) i + -s := by
      simp only [vertex]
      push_cast
      ring
    have hsecond : vertex s r i = vertex s r (i + 1) + -1 := by
      simp only [vertex]
      push_cast
      ring
    have hrest := ih r (by omega) (by omega)
    have hlist : (List.range (n + 1)).flatMap
          (fun j => [vertex s (r + 1 - (j + 1)) (i + 1), vertex s (r + 1 - (j + 1)) i]) =
        [vertex s r (i + 1)] ++ ([vertex s r i] ++
          (List.range n).flatMap fun j => [vertex s (r - (j + 1)) (i + 1), vertex s (r - (j + 1)) i]) := by
      rw [List.range_succ_eq_map, List.flatMap_cons, List.flatMap_map]
      simp only [Nat.succ_eq_add_one, Nat.add_sub_add_right, Nat.sub_zero, List.cons_append, List.nil_append]
    rw [hlist, show r + 1 - (n + 1) = r - n by omega]
    exact (writes_add_put hfirst h1.1 h1.2).bind ((writes_add_put hsecond h2.1 h2.2).bind hrest)

theorem putColumn_writes {i : Nat} (hi : i < s) :
    Writes (putColumn s i) (startVertex s i) (turnList s i ++ columnList s i) (startVertex s (i + 1)) := by
  by_cases heven : i % 2 = 0
  · have hrows := putRows_up hs i hi s 0 (by omega)
    have hnext : startVertex s (i + 1) = vertex s (0 + s) (i + 1) := by
      rw [startVertex, if_neg (by omega), turnVertex, if_neg (by omega), Nat.zero_add, Nat.add_zero]
    have h1 := vertex_int hs (r := 0) (c := i) (by omega) (by omega)
    have h2 := vertex_int hs (r := 0) (c := i + 1) (by omega) (by omega)
    have hright : vertex s 0 (i + 1) = vertex s 0 i + 1 := by simp [vertex]
    rw [hnext, columnList_even heven]
    have hrest := (writes_add_put hright h2.1 h2.2).bind hrows
    by_cases h0 : i = 0
    · subst h0
      have hcode : putColumn s 0 =
          fun w => w.put.bind fun w => (some w).bind fun w => (w.add 1).put.bind (putRows s 1 s) := rfl
      rw [turnList, if_pos rfl, startVertex, if_pos rfl, List.nil_append, hcode]
      have := (writes_put (vertex s 0 0)).bind ((writes_nil (vertex s 0 0)).bind hrest)
      simpa [vertex] using this
    · have hleft : vertex s 0 i = vertex s 0 (i - 1) + 1 := by
        simp only [vertex]
        omega
      have hcode : putColumn s i = fun w => w.put.bind fun w => ((w.add 1).put.bind Writer.put).bind fun w =>
          (w.add 1).put.bind (putRows s 1 s) := by
        funext w
        simp [putColumn, heven, Nat.pos_of_ne_zero h0]
      rw [turnList, if_neg h0, startVertex, if_neg h0, turnVertex, turnVertex, if_pos heven, if_pos heven,
        Nat.add_zero, show i - 1 + 1 = i by omega, hcode]
      exact (writes_put (vertex s 0 (i - 1))).bind
        (((writes_add_put hleft h1.1 h1.2).bind (writes_put _)).bind hrest)
  · have hodd : i % 2 = 1 := by omega
    have hrows := putRows_down hs i hi s s le_rfl le_rfl
    have hnext : startVertex s (i + 1) = vertex s (s - s) i := by
      rw [startVertex, if_neg (by omega), turnVertex, if_pos (by omega), Nat.sub_self, Nat.add_sub_cancel,
        Nat.add_zero]
    have h1 := vertex_int hs (r := s) (c := i) (by omega) (by omega)
    have h2 := vertex_int hs (r := s) (c := i + 1) (by omega) (by omega)
    have hright : vertex s s (i + 1) = vertex s s i + 1 := by
      simp only [vertex]
      push_cast
      ring
    have hleft : vertex s s i = vertex s s (i + 1) + -1 := by
      rw [hright]
      ring
    have hcode : putColumn s i = fun w => w.put.bind fun w => ((w.add 1).put.bind Writer.put).bind fun w =>
        (w.add (-1)).put.bind (putRows (-s) (-1) s) := by
      funext w
      simp [putColumn, hodd, show 0 < i by omega]
    rw [hnext, columnList_odd hodd, turnList, if_neg (by omega), startVertex, if_neg (by omega), turnVertex,
      turnVertex, if_neg heven, if_neg heven, Nat.add_zero, hcode]
    exact (writes_put (vertex s s i)).bind
      (((writes_add_put hright h2.1 h2.2).bind (writes_put _)).bind ((writes_add_put hleft h1.1 h1.2).bind hrows))

theorem putColumns_writes : ∀ (n i : Nat), i + n ≤ s →
    Writes (putColumns s n i) (startVertex s i)
      ((List.range n).flatMap fun j => turnList s (i + j) ++ columnList s (i + j))
      (startVertex s (i + n)) := by
  intro n
  induction n with
  | zero => exact fun i _ => writes_nil _
  | succ n ih =>
    intro i hi
    have hlist : (List.range (n + 1)).flatMap (fun j => turnList s (i + j) ++ columnList s (i + j)) =
        turnList s i ++ columnList s i ++
          (List.range n).flatMap fun j => turnList s (i + 1 + j) ++ columnList s (i + 1 + j) := by
      rw [List.range_succ_eq_map, List.flatMap_cons, List.flatMap_map]
      simp only [Nat.succ_eq_add_one, Nat.add_zero, Nat.add_comm, Nat.add_left_comm]
    rw [hlist, show i + (n + 1) = i + 1 + n by omega]
    exact (putColumn_writes hs (by omega)).bind (ih (i + 1) (by omega))

end

/-! ## The strip as a grid -/

/-- The index at position `m` from the start of column `i`, with those on the way to the next column behind it. -/
def entry (s i m : Nat) : Int := if m < 2 * s + 2 then columnVertex s i m else turnVertex s (i + 1) (m - (2 * s + 2))

/-- All that is written. -/
def strip (s : Nat) : List Int := grid (s * (2 * s + 4) - 2) (2 * s + 4) (entry s)

theorem columnList_turnList (i : Nat) : columnList s i ++ turnList s (i + 1) =
    (List.range (2 * s + 4)).map (entry s i) := by
  rw [show 2 * s + 4 = 2 * s + 2 + 1 + 1 by omega, List.range_succ, List.range_succ, List.map_append, List.map_append,
    List.append_assoc, turnList, if_neg (by omega), columnList]
  refine congrArg₂ _ (List.map_congr_left fun m hm => ?_) ?_
  · rw [entry, if_pos (List.mem_range.1 hm)]
  · simp [entry]

theorem columns_eq_strip (hs : 0 < s) : ((List.range s).flatMap fun i => turnList s i ++ columnList s i) =
    strip s := by
  have hshift (n : Nat) : ((List.range n).flatMap fun i => turnList s i ++ columnList s i) ++ turnList s n =
      (List.range n).flatMap fun i => columnList s i ++ turnList s (i + 1) := by
    induction n with
    | zero => rfl
    | succ n ih =>
      rw [List.range_succ, List.flatMap_append, List.flatMap_append, ← ih]
      simp
  have hgrid : ((List.range s).flatMap fun i => columnList s i ++ turnList s (i + 1)) =
      grid (s * (2 * s + 4)) (2 * s + 4) (entry s) := by
    simp only [columnList_turnList]
    have := congrArg (List.map fun c : Nat × Nat => entry s c.1 c.2) (cells_eq s (2 * s + 4))
    rw [List.map_map, cells, List.map_flatMap] at this
    simpa [grid, Function.comp_def] using this
  have hlen : (turnList s s).length = 2 := by
    rw [turnList, if_neg (by omega)]
    rfl
  have hall := (hshift s).trans hgrid
  have hcount := congrArg List.length hall
  rw [List.length_append, length_grid, hlen] at hcount
  have hfirst := congrArg (List.take (s * (2 * s + 4) - 2)) hall
  rw [List.take_left' (by omega), grid, ← List.map_take, List.take_range, Nat.min_eq_left (Nat.sub_le _ _)] at hfirst
  exact hfirst

end WorldWind.Tessellator
