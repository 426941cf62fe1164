import Mathlib
/-!
# Counting the cells of a descent

Halving an axis again and again gives cells, two under each. A descent enters
a cell if a test holds there, and a test that holds in a cell holds in the
cells over it. The number of cells of a level that are entered from one cell
(`descent`) is then the number of all cells under it that pass the test.

In two dimensions a cell has four children. If the test is one of the row and
one of the column, the number of cells entered on a level is the product of
the numbers of rows and columns (`visits_eq`).
-/

namespace WorldWind.Lib.Descent

/-! ## One axis -/

/-- The cells entered `k` levels under cell `i` of level `l`. The first cell is
entered without a test. -/
def descent (p : Nat → Nat → Bool) : Nat → Nat → Nat → Nat
  | 0, _, _ => 1
  | k + 1, l, i =>
    (if p (l + 1) (2 * i) then descent p k (l + 1) (2 * i) else 0)
      + (if p (l + 1) (2 * i + 1) then descent p k (l + 1) (2 * i + 1) else 0)

/-- What holds in a cell holds in the cell over it. -/
def Nested (p : Nat → Nat → Bool) : Prop :=
  ∀ l i, p (l + 1) i = true → p l (i / 2) = true

variable {p q : Nat → Nat → Bool}

theorem Nested.above (hp : Nested p) {l k i : Nat} (h : p (l + k) i = true) : p l (i / 2 ^ k) = true := by
  induction k generalizing i with
  | zero => simpa using h
  | succ k ih =>
    have hhalf := ih (hp (l + k) i h)
    rwa [Nat.div_div_eq_div_mul, Nat.mul_comm, ← pow_succ] at hhalf

/-- The cells of a level under some cells of another that pass the test. -/
def passing (p : Nat → Nat → Bool) (l k first n : Nat) : Finset Nat :=
  (Finset.Ico (2 ^ k * first) (2 ^ k * (first + n))).filter fun i => p (l + k) i = true

theorem card_passing_append (l k first n m : Nat) :
    (passing p l k first (n + m)).card = (passing p l k first n).card + (passing p l k (first + n) m).card := by
  have hunion : Finset.Ico (2 ^ k * first) (2 ^ k * (first + (n + m)))
      = Finset.Ico (2 ^ k * first) (2 ^ k * (first + n)) ∪ Finset.Ico (2 ^ k * (first + n))
        (2 ^ k * (first + n + m)) := by
    rw [Finset.Ico_union_Ico_eq_Ico (Nat.mul_le_mul_left _ (by omega)) (Nat.mul_le_mul_left _ (by omega)),
      Nat.add_assoc]
  rw [passing, hunion, Finset.filter_union, Finset.card_union_of_disjoint]
  · rfl
  · exact Finset.disjoint_filter_filter (Finset.Ico_disjoint_Ico_consecutive _ _ _)

/-- Under a cell that fails the test no cell passes it. -/
theorem card_passing_of_not (hp : Nested p) {l k i : Nat} (h : p l i ≠ true) : (passing p l k i 1).card = 0 := by
  rw [Finset.card_eq_zero, passing, Finset.filter_eq_empty_iff]
  intro m hm hpass
  rw [Finset.mem_Ico] at hm
  have hdiv : m / 2 ^ k = i := by
    rw [Nat.div_eq_iff (Nat.two_pow_pos k)]
    constructor
    · linarith [hm.1]
    · have := hm.2
      rw [Nat.mul_add, Nat.mul_one] at this
      rw [Nat.mul_comm]
      omega
  exact h (hdiv ▸ hp.above hpass)

theorem card_passing_double (l k i : Nat) :
    (passing p l (k + 1) i 1).card = (passing p (l + 1) k (2 * i) 1).card +
    (passing p (l + 1) k (2 * i + 1) 1).card := by
  rw [← card_passing_append (p := p) (l + 1) k (2 * i) 1 1]
  rw [passing, passing, Nat.add_right_comm l 1 k, Nat.add_assoc l k 1, pow_succ, Nat.mul_assoc, Nat.mul_assoc]
  congr 3

/-- A descent that starts with a test. -/
theorem ite_descent (hp : Nested p) (k l i : Nat) :
    (if p l i then descent p k l i else 0) = (passing p l k i 1).card := by
  induction k generalizing l i with
  | zero =>
    rw [passing, pow_zero, Nat.one_mul, Nat.one_mul, Nat.Ico_succ_singleton, Finset.filter_singleton, descent]
    simp only [Nat.add_zero]
    split_ifs <;> rfl
  | succ k ih =>
    by_cases h : p l i = true
    · rw [if_pos h, descent, ih, ih, card_passing_double]
    · rw [if_neg h, card_passing_of_not hp h]

theorem descent_succ (hp : Nested p) (k l i : Nat) : descent p (k + 1) l i = (passing p l (k + 1) i 1).card := by
  rw [descent, ite_descent hp, ite_descent hp, card_passing_double]

/-- The cells entered `k` levels under the `n` cells of level 0 from `first` on. -/
def entered (p : Nat → Nat → Bool) (first n k : Nat) : Nat :=
  if k = 0 then n else (passing p 0 k first n).card

theorem sum_descent (hp : Nested p) (first n k : Nat) :
    ((List.range' first n).map fun i => descent p k 0 i).sum = entered p first n k := by
  induction n generalizing first with
  | zero =>
    cases k with
    | zero => rfl
    | succ k => simp [entered, passing]
  | succ n ih =>
    rw [List.range'_succ, List.map_cons, List.sum_cons, ih]
    cases k with
    | zero =>
      simp only [descent, entered, if_pos]
      omega
    | succ k =>
      rw [entered, entered, if_neg (Nat.succ_ne_zero k), if_neg (Nat.succ_ne_zero k), descent_succ hp,
        Nat.add_comm n 1, card_passing_append]

/-! ## Two axes -/

/-- The cells entered from a cell, itself included, `n` levels deep. -/
def visits (p q : Nat → Nat → Bool) : Nat → Nat → Nat → Nat → Nat
  | 0, _, _, _ => 1
  | n + 1, l, i, j =>
    1 + ((if p (l + 1) (2 * i) ∧ q (l + 1) (2 * j) then visits p q n (l + 1) (2 * i) (2 * j) else 0)
      + (if p (l + 1) (2 * i) ∧ q (l + 1) (2 * j + 1) then visits p q n (l + 1) (2 * i) (2 * j + 1) else 0)
      + (if p (l + 1) (2 * i + 1) ∧ q (l + 1) (2 * j + 1) then visits p q n (l + 1) (2 * i + 1) (2 * j + 1) else 0)
      + (if p (l + 1) (2 * i + 1) ∧ q (l + 1) (2 * j) then visits p q n (l + 1) (2 * i + 1) (2 * j) else 0))

/-- The cells of a level are all pairs of a row and a column. -/
theorem visits_eq (p q : Nat → Nat → Bool) (n l i j : Nat) :
    visits p q n l i j = ∑ k ∈ Finset.range (n + 1), descent p k l i * descent q k l j := by
  induction n generalizing l i j with
  | zero => simp [visits, descent]
  | succ n ih =>
    have hite : ∀ i' j' : Nat, (if p (l + 1) i' ∧ q (l + 1) j' then visits p q n (l + 1) i' j' else 0)
        = ∑ k ∈ Finset.range (n + 1), (if p (l + 1) i' then descent p k (l + 1) i' else 0)
          * (if q (l + 1) j' then descent q k (l + 1) j' else 0) := by
      intro i' j'
      by_cases hi : p (l + 1) i' = true <;> by_cases hj : q (l + 1) j' = true <;> simp [hi, hj, ih]
    rw [Finset.sum_range_succ', visits, hite, hite, hite, hite]
    simp only [← Finset.sum_add_distrib, descent]
    rw [Nat.add_comm, Nat.mul_one]
    congr 1
    refine Finset.sum_congr rfl fun k _ => ?_
    ring

/-- The cells entered from all cells of some rows and columns of level 0. -/
theorem sum_visits (hp : Nested p) (hq : Nested q) (n firstRow rows firstColumn columns : Nat) :
    ((List.range' firstRow rows).map fun i =>
        ((List.range' firstColumn columns).map fun j => visits p q n 0 i j).sum).sum
      = ∑ k ∈ Finset.range (n + 1), entered p firstRow rows k * entered q firstColumn columns k := by
  have hsum : ∀ (l : List Nat) (f : Nat → Nat → Nat), (l.map fun i => ∑ k ∈ Finset.range (n + 1), f k i).sum
      = ∑ k ∈ Finset.range (n + 1), (l.map (f k)).sum := by
    intro l f
    induction l with
    | nil => simp
    | cons i l ih => simp only [List.map_cons, List.sum_cons, ih, Finset.sum_add_distrib]
  simp only [visits_eq, hsum, List.sum_map_mul_left, List.sum_map_mul_right]
  refine Finset.sum_congr rfl fun k _ => ?_
  rw [sum_descent hq, sum_descent hp]

end WorldWind.Lib.Descent
