import WorldWind.Lib.Grid
/-!
# Triangle strips

Every three indices in a row are a triangle of the strip. Each second one is
turned, so that all triangles of a flat strip have the same winding. Two
triangles of the same winding are the same where their corners are the same up
to rotation (`cycle`). A strip whose indices are a grid of even width has the
triangles of its rows one after the other (`triangles_grid`).
-/

namespace WorldWind.Lib.TriangleStrip

open Grid

variable {α : Type*}

/-- The corners in their order. -/
abbrev Triangle (α : Type*) := α × α × α

def triangle (turned : Bool) (a b c : α) : Triangle α := if turned then (b, a, c) else (a, b, c)

def triangles : Bool → List α → List (Triangle α)
  | turned, a :: b :: c :: l => triangle turned a b c :: triangles (!turned) (b :: c :: l)
  | _, _ => []

namespace Triangle

/-- Two corners are the same. -/
def Degenerate (t : Triangle α) : Prop := t.1 = t.2.1 ∨ t.1 = t.2.2 ∨ t.2.1 = t.2.2

instance [DecidableEq α] : DecidablePred (Degenerate (α := α)) :=
  fun t => inferInstanceAs (Decidable (t.1 = t.2.1 ∨ t.1 = t.2.2 ∨ t.2.1 = t.2.2))

/-- The corners up to rotation, which keeps the winding. -/
def cycle (t : Triangle α) : Cycle α := ([t.1, t.2.1, t.2.2] : List α)

theorem cycle_rotate (a b c : α) : cycle (b, c, a) = cycle (a, b, c) :=
  Cycle.coe_eq_coe.2 ⟨2, rfl⟩

end Triangle

/-- The strip of the values of a function. -/
theorem triangles_range (f : Nat → α) (n : Nat) (turned : Bool) :
    triangles turned ((List.range (n + 2)).map f) =
      (List.range n).map fun p => triangle (turned ^^ p % 2 == 1) (f p) (f (p + 1)) (f (p + 2)) := by
  induction n generalizing f turned with
  | zero => rfl
  | succ n ih =>
    rw [List.range_succ_eq_map, List.map_cons, List.map_map]
    have htail := ih (f ∘ Nat.succ) (!turned)
    rw [List.range_succ_eq_map, List.map_cons, List.map_map, List.range_succ_eq_map, List.map_cons,
      List.map_map] at htail ⊢
    rw [triangles, htail, List.map_cons, List.map_map]
    refine congrArg₂ _ (by simp) (List.map_congr_left fun p _ => ?_)
    have hparity : (!turned ^^ p % 2 == 1) = (turned ^^ (p + 1) % 2 == 1) := by
      rcases Nat.mod_two_eq_zero_or_one p with h | h <;> simp [h, Nat.add_mod]
    rw [hparity]
    rfl

/-- Row `i` of the grid goes on in row `i + 1`. -/
def along (w : Nat) (g : Nat → Nat → α) (i m : Nat) : α := if m < w then g i m else g (i + 1) (m - w)

theorem along_eq {w i m : Nat} (g : Nat → Nat → α) (h : m < 2 * w) :
    along w g i m = g ((i * w + m) / w) ((i * w + m) % w) := by
  rw [along]
  split
  · rename_i hm
    rw [cell_div i hm, cell_mod i hm]
  · rename_i hm
    have hsplit : i * w + m = (i + 1) * w + (m - w) := by
      rw [Nat.succ_mul]
      omega
    rw [hsplit, cell_div (i + 1) (by omega), cell_mod (i + 1) (by omega)]

/-- The triangle that starts at cell `m` of row `i`. -/
def rowTriangle (w : Nat) (g : Nat → Nat → α) (i m : Nat) : Triangle α :=
  triangle (m % 2 == 1) (g i m) (along w g i (m + 1)) (along w g i (m + 2))

theorem triangles_grid {h w : Nat} (hw : 2 ≤ w) (heven : w % 2 = 0) (g : Nat → Nat → α) :
    triangles false (grid (h * w + 2) w g) = (cells h w).map fun c => rowTriangle w g c.1 c.2 := by
  rw [grid, triangles_range, cells_eq, List.map_map]
  refine List.map_congr_left fun p _ => ?_
  have hm := Nat.mod_lt p (show w > 0 by omega)
  have hp := Nat.div_add_mod' p w
  have hparity : p % w % 2 = p % 2 := Nat.mod_mod_of_dvd p (Nat.dvd_of_mod_eq_zero heven)
  rw [Function.comp_apply, rowTriangle, along_eq g (by omega), along_eq g (by omega), ← Nat.add_assoc,
    ← Nat.add_assoc, hp, hparity, Bool.false_xor]

/-- A strip that ends earlier has the first triangles. -/
theorem triangles_take (turned : Bool) (l : List α) (n : Nat) :
    triangles turned (l.take (n + 2)) = (triangles turned l).take n := by
  induction n generalizing l turned with
  | zero =>
    match l with
    | [] | [_] | _ :: _ :: _ => rfl
  | succ n ih =>
    match l with
    | [] | [_] | [_, _] => simp [triangles]
    | a :: b :: c :: l =>
      have := ih (!turned) (b :: c :: l)
      simp only [List.take_succ_cons, triangles] at this ⊢
      rw [this]

/-! ## Strips of rows -/

/-- Behind an even number of indices a strip begins anew with the next two. -/
theorem triangles_join {l : List α} (h : l.length % 2 = 0) (a b : α) (r : List α) :
    triangles false (l ++ a :: b :: r) = triangles false (l ++ [a, b]) ++ triangles false (a :: b :: r) := by
  induction l using List.twoStepInduction with
  | nil => rfl
  | singleton x => simp at h
  | cons_cons x y l ih _ =>
    have hl : l.length % 2 = 0 := by
      simp only [List.length_cons] at h
      omega
    have hih := ih hl
    match l with
    | [] => simp [triangles]
    | [_] => simp at hl
    | z :: w :: l =>
      simp only [List.cons_append, triangles, Bool.not_false, Bool.not_true] at hih ⊢
      rw [hih]

/-- The strip between two lines of points, two triangles for each of its pairs but the first. -/
def pairTriangles (a b : Nat → α) (i : Nat) : List (Triangle α) :=
  [(a i, b i, a (i + 1)), (a (i + 1), b i, b (i + 1))]

/-- The points of two lines in turns. -/
def pairs (a b : Nat → α) (n : Nat) : List α := (List.range n).flatMap fun i => [a i, b i]

theorem pairs_succ (a b : Nat → α) (n : Nat) : pairs a b (n + 1) = pairs a b n ++ [a n, b n] := by
  rw [pairs, List.range_succ, List.flatMap_append, List.flatMap_singleton, pairs]

@[simp] theorem length_pairs (a b : Nat → α) (n : Nat) : (pairs a b n).length = 2 * n := by
  induction n with
  | zero => rfl
  | succ n ih =>
    rw [pairs_succ, List.length_append, ih]
    rfl

theorem triangles_pairs (a b : Nat → α) (n : Nat) :
    triangles false (pairs a b (n + 1)) = (List.range n).flatMap (pairTriangles a b) := by
  induction n with
  | zero => rfl
  | succ n ih =>
    rw [pairs_succ, pairs_succ, List.append_assoc, List.cons_append, List.cons_append, List.nil_append,
      triangles_join (by simp), ← pairs_succ, ih, List.range_succ, List.flatMap_append, List.flatMap_singleton]
    rfl

/-- Two lines for each row, and two indices between a row and the next. -/
def rowsStrip (a b : Nat → Nat → α) (link : Nat → α × α) (n : Nat) : Nat → List α
  | 0 => pairs (a 0) (b 0) (n + 1)
  | j + 1 => rowsStrip a b link n j ++ (link (j + 1)).1 :: (link (j + 1)).2 :: pairs (a (j + 1)) (b (j + 1)) (n + 1)

/-- The triangles between the end of row `j` and the next row. -/
def linkTriangles (a b : Nat → Nat → α) (link : Nat → α × α) (n j : Nat) : List (Triangle α) :=
  [(a j n, b j n, (link (j + 1)).1), ((link (j + 1)).1, b j n, (link (j + 1)).2),
    ((link (j + 1)).1, (link (j + 1)).2, a (j + 1) 0), (a (j + 1) 0, (link (j + 1)).2, b (j + 1) 0)]

theorem length_rowsStrip (a b : Nat → Nat → α) (link : Nat → α × α) (n j : Nat) :
    (rowsStrip a b link n j).length = (j + 1) * 2 * (n + 1) + 2 * j := by
  induction j with
  | zero =>
    rw [rowsStrip, length_pairs]
    ring
  | succ j ih =>
    rw [rowsStrip, List.length_append, ih, List.length_cons, List.length_cons, length_pairs]
    ring

theorem pairs_head (a b : Nat → α) (n : Nat) : ∃ r, pairs a b (n + 1) = a 0 :: b 0 :: r := by
  rw [pairs, List.range_succ_eq_map, List.flatMap_cons]
  exact ⟨_, rfl⟩

theorem rowsStrip_last (a b : Nat → Nat → α) (link : Nat → α × α) (n j : Nat) :
    ∃ l, l.length % 2 = 0 ∧ rowsStrip a b link n j = l ++ [a j n, b j n] := by
  cases j with
  | zero => exact ⟨_, by simp, pairs_succ _ _ _⟩
  | succ j =>
    refine ⟨rowsStrip a b link n j ++ (link (j + 1)).1 :: (link (j + 1)).2 :: pairs (a (j + 1)) (b (j + 1)) n, ?_, ?_⟩
    · rw [List.length_append, length_rowsStrip, List.length_cons, List.length_cons, length_pairs, Nat.mul_right_comm]
      omega
    · rw [rowsStrip, pairs_succ, List.append_assoc]
      rfl

/-- The triangles of the rows and those between them. -/
theorem triangles_rowsStrip (a b : Nat → Nat → α) (link : Nat → α × α) (n j : Nat) :
    triangles false (rowsStrip a b link n j) = (List.range n).flatMap (pairTriangles (a 0) (b 0)) ++
      (List.range j).flatMap fun j =>
        linkTriangles a b link n j ++ (List.range n).flatMap (pairTriangles (a (j + 1)) (b (j + 1))) := by
  induction j with
  | zero => rw [rowsStrip, triangles_pairs, List.range_zero, List.flatMap_nil, List.append_nil]
  | succ j ih =>
    obtain ⟨l, hl, hrows⟩ := rowsStrip_last a b link n j
    obtain ⟨r, hr⟩ := pairs_head (a (j + 1)) (b (j + 1)) n
    have hjoin : triangles false (rowsStrip a b link n (j + 1)) = triangles false (rowsStrip a b link n j) ++
        triangles false (a j n :: b j n :: (link (j + 1)).1 :: (link (j + 1)).2 :: a (j + 1) 0 :: b (j + 1) 0 ::
          r) := by
      rw [rowsStrip, hr, hrows, List.append_assoc]
      exact triangles_join hl _ _ _
    rw [hjoin, ih, List.range_succ, List.flatMap_append, List.flatMap_singleton, ← triangles_pairs, ← triangles_pairs,
      hr, List.append_assoc]
    refine congrArg _ (congrArg _ ?_)
    exact triangles_join (l := [a j n, b j n, (link (j + 1)).1, (link (j + 1)).2]) (by simp) _ _ _

theorem pairs_congr {a b a' b' : Nat → α} {n : Nat} (h : ∀ i < n, a i = a' i ∧ b i = b' i) :
    pairs a b n = pairs a' b' n := by
  refine List.flatMap_congr fun i hi => ?_
  obtain ⟨ha, hb⟩ := h i (List.mem_range.1 hi)
  rw [ha, hb]

theorem rowsStrip_congr {a b a' b' : Nat → Nat → α} (link : Nat → α × α) {n k : Nat}
    (h : ∀ j ≤ k, ∀ i ≤ n, a j i = a' j i ∧ b j i = b' j i) :
    rowsStrip a b link n k = rowsStrip a' b' link n k := by
  induction k with
  | zero => exact pairs_congr fun i hi => h 0 (Nat.le_refl 0) i (by omega)
  | succ k ih =>
    rw [rowsStrip, rowsStrip, ih fun j hj => h j (by omega)]
    rw [pairs_congr fun i hi => h (k + 1) (Nat.le_refl _) i (by omega)]

theorem mem_pairs {a b : Nat → α} {n : Nat} {x : α} (h : x ∈ pairs a b n) : ∃ i < n, x = a i ∨ x = b i := by
  obtain ⟨i, hi, hx⟩ := List.mem_flatMap.1 h
  exact ⟨i, List.mem_range.1 hi, by simpa using hx⟩

/-- What holds of the lines and of the indices between them holds of the strip. -/
theorem forall_rowsStrip {p : α → Prop} {a b : Nat → Nat → α} {link : Nat → α × α} {n k : Nat}
    (hline : ∀ j ≤ k, ∀ i ≤ n, p (a j i) ∧ p (b j i)) (hlink : ∀ j < k, p (link (j + 1)).1 ∧ p (link (j + 1)).2) :
    ∀ x ∈ rowsStrip a b link n k, p x := by
  have hpairs : ∀ j ≤ k, ∀ x ∈ pairs (a j) (b j) (n + 1), p x := by
    intro j hj x hx
    obtain ⟨i, hi, rfl | rfl⟩ := mem_pairs hx
    · exact (hline j hj i (by omega)).1
    · exact (hline j hj i (by omega)).2
  induction k with
  | zero => exact hpairs 0 (Nat.le_refl 0)
  | succ k ih =>
    intro x hx
    rw [rowsStrip, List.mem_append, List.mem_cons, List.mem_cons] at hx
    obtain ⟨h1, h2⟩ := hlink k (Nat.lt_succ_self k)
    rcases hx with hx | rfl | rfl | hx
    · exact ih (fun j hj => hline j (by omega)) (fun j hj => hlink j (by omega))
        (fun j hj => hpairs j (by omega)) x hx
    · exact h1
    · exact h2
    · exact hpairs (k + 1) (Nat.le_refl _) x hx

/-! ## Lists in pieces -/

theorem range_pairs {β : Type*} (f : Nat → β) (n : Nat) :
    (List.range (2 * n)).map f = (List.range n).flatMap fun j => [f (2 * j), f (2 * j + 1)] := by
  induction n with
  | zero => rfl
  | succ n ih =>
    rw [show 2 * (n + 1) = 2 * n + 1 + 1 by omega, List.range_succ, List.range_succ, List.range_succ, List.map_append,
      List.map_append, ih, List.flatMap_append]
    simp

/-- An end that does not meet `p` does not matter to a filter. -/
theorem filter_take {β : Type*} {p : β → Bool} {l : List β} {n : Nat} (h : ∀ x ∈ l.drop n, p x = false) :
    (l.take n).filter p = l.filter p := by
  have hdrop : (l.drop n).filter p = [] := List.filter_eq_nil_iff.2 fun x hx => by simp [h x hx]
  conv_rhs => rw [← List.take_append_drop n l, List.filter_append, hdrop, List.append_nil]

end WorldWind.Lib.TriangleStrip
