import Mathlib
import WorldWind.Lib.Numerals
/-!
# The Haar transform in two dimensions

Four neighbours of a table are their average and their horizontal, vertical and
diagonal differences; `quad` puts them together again (`quad_analysis`). What
it makes of approximations is off by no more than these are, added up
(`abs_quad_sub_le`).
-/

namespace WorldWind.Lib.Haar

open scoped Lib.Numerals

/-- Even positions add a difference, odd ones subtract it. -/
def sign {R : Type*} [One R] [Neg R] (i : Nat) : R := if i % 2 = 0 then 1 else -1

/-- The value at row `j` and column `i` from the average and the differences
of its quad. -/
def quad {R : Type*} [Ring R] (A H V D : R) (j i : Nat) : R :=
  A + sign i * H + sign j * V + sign j * sign i * D

section Ring
variable {R S : Type*} [Ring R] [Ring S]

theorem sign_two_mul (i : Nat) : sign (R := R) (2 * i) = 1 := if_pos (Nat.mul_mod_right 2 i)

theorem sign_two_mul_add_one (i : Nat) : sign (R := R) (2 * i + 1) = -1 := if_neg (by omega)

theorem quad_even_even (A H V D : R) (j i : Nat) : quad A H V D (2 * j) (2 * i) = A + H + V + D := by
  simp [quad, sign_two_mul]

theorem quad_even_odd (A H V D : R) (j i : Nat) : quad A H V D (2 * j) (2 * i + 1) = A - H + V - D := by
  simp [quad, sign_two_mul, sign_two_mul_add_one, sub_eq_add_neg]

theorem quad_odd_even (A H V D : R) (j i : Nat) : quad A H V D (2 * j + 1) (2 * i) = A + H - V - D := by
  simp [quad, sign_two_mul, sign_two_mul_add_one, sub_eq_add_neg]

theorem quad_odd_odd (A H V D : R) (j i : Nat) : quad A H V D (2 * j + 1) (2 * i + 1) = A - H - V + D := by
  simp [quad, sign_two_mul_add_one, sub_eq_add_neg]

theorem map_quad (f : R →+* S) (A H V D : R) (j i : Nat) :
    f (quad A H V D j i) = quad (f A) (f H) (f V) (f D) j i := by
  have hs : ∀ k, f (sign k) = sign k := by
    intro k
    unfold sign
    split <;> simp
  simp [quad, hs]

end Ring

section Field
variable {K : Type*} [Field K]

/-- The average of four neighbours. -/
def average (x : Nat → Nat → K) (j i : Nat) : K :=
  (x (2 * j) (2 * i) + x (2 * j) (2 * i + 1) + x (2 * j + 1) (2 * i) + x (2 * j + 1) (2 * i + 1)) / 4

def horizontal (x : Nat → Nat → K) (j i : Nat) : K :=
  (x (2 * j) (2 * i) - x (2 * j) (2 * i + 1) + x (2 * j + 1) (2 * i) - x (2 * j + 1) (2 * i + 1)) / 4

def vertical (x : Nat → Nat → K) (j i : Nat) : K :=
  (x (2 * j) (2 * i) + x (2 * j) (2 * i + 1) - x (2 * j + 1) (2 * i) - x (2 * j + 1) (2 * i + 1)) / 4

def diagonal (x : Nat → Nat → K) (j i : Nat) : K :=
  (x (2 * j) (2 * i) - x (2 * j) (2 * i + 1) - x (2 * j + 1) (2 * i) + x (2 * j + 1) (2 * i + 1)) / 4

/-- The table after `k` rounds of averaging. -/
def coarse (x : Nat → Nat → K) : Nat → Nat → Nat → K
  | 0 => x
  | k + 1 => average (coarse x k)

theorem coarse_average (x : Nat → Nat → K) (k : Nat) : coarse (average x) k = coarse x (k + 1) := by
  induction k with
  | zero => rfl
  | succ k ih => rw [coarse, ih, ← coarse]

/-- A round of averaging sees a corner of twice the side. -/
theorem coarse_congr {x y : Nat → Nat → K} (k : Nat) {n : Nat}
    (h : ∀ j < 2 ^ (n + k), ∀ i < 2 ^ (n + k), x j i = y j i) :
    ∀ j < 2 ^ n, ∀ i < 2 ^ n, coarse x k j i = coarse y k j i := by
  induction k generalizing n with
  | zero => exact h
  | succ k ih =>
    intro j hj i hi
    have hquad := ih (n := n + 1) (by rwa [Nat.add_right_comm])
    rw [pow_succ] at hquad
    simp only [coarse, average]
    rw [hquad _ (by omega) _ (by omega), hquad _ (by omega) _ (by omega), hquad _ (by omega) _ (by omega),
      hquad _ (by omega) _ (by omega)]

theorem differences_congr {x y : Nat → Nat → K} {s j i : Nat} (h : ∀ j < 2 * s, ∀ i < 2 * s, x j i = y j i)
    (hj : j < s) (hi : i < s) :
    horizontal x j i = horizontal y j i ∧ vertical x j i = vertical y j i ∧ diagonal x j i = diagonal y j i := by
  simp only [horizontal, vertical, diagonal]
  rw [h _ (by omega) _ (by omega), h _ (by omega) _ (by omega), h _ (by omega) _ (by omega),
    h _ (by omega) _ (by omega)]
  exact ⟨rfl, rfl, rfl⟩

variable [LinearOrder K] [IsStrictOrderedRing K]

/-- The analysis of a table is undone by `quad`. -/
theorem quad_analysis (x : Nat → Nat → K) (j i : Nat) :
    quad (average x (j / 2) (i / 2)) (horizontal x (j / 2) (i / 2)) (vertical x (j / 2) (i / 2))
      (diagonal x (j / 2) (i / 2)) j i = x j i := by
  simp only [average, horizontal, vertical, diagonal]
  rcases Nat.even_or_odd' j with ⟨j', rfl | rfl⟩ <;> rcases Nat.even_or_odd' i with ⟨i', rfl | rfl⟩
  · rw [quad_even_even, Nat.mul_div_cancel_left j' two_pos, Nat.mul_div_cancel_left i' two_pos]
    ring
  · rw [quad_even_odd, Nat.mul_div_cancel_left j' two_pos, show (2 * i' + 1) / 2 = i' by omega]
    ring
  · rw [quad_odd_even, Nat.mul_div_cancel_left i' two_pos, show (2 * j' + 1) / 2 = j' by omega]
    ring
  · rw [quad_odd_odd, show (2 * i' + 1) / 2 = i' by omega, show (2 * j' + 1) / 2 = j' by omega]
    ring

theorem abs_sign (i : Nat) : |sign (R := K) i| = 1 := by
  unfold sign
  split <;> simp

/-- The errors of the parts add up. -/
theorem abs_quad_sub_le (A H V D A' H' V' D' : K) (j i : Nat) :
    |quad A' H' V' D' j i - quad A H V D j i| ≤ |A' - A| + |H' - H| + |V' - V| + |D' - D| := by
  have hsplit : quad A' H' V' D' j i - quad A H V D j i =
      (A' - A) + sign i * (H' - H) + sign j * (V' - V) + sign j * sign i * (D' - D) := by
    simp only [quad]
    ring
  rw [hsplit]
  refine (abs_add_le _ _).trans (add_le_add ((abs_add_le _ _).trans (add_le_add ((abs_add_le _ _).trans
    (add_le_add le_rfl ?_)) ?_)) ?_)
  · rw [abs_mul, abs_sign, one_mul]
  · rw [abs_mul, abs_sign, one_mul]
  · rw [abs_mul, abs_mul, abs_sign, abs_sign, one_mul, one_mul]

/-- Averages of values in an interval stay in it. -/
theorem coarse_mem {x : Nat → Nat → K} {lo hi : K} (k : Nat) (h : ∀ j i, lo ≤ x j i ∧ x j i ≤ hi) :
    ∀ j i, lo ≤ coarse x k j i ∧ coarse x k j i ≤ hi := by
  induction k with
  | zero => exact h
  | succ k ih =>
    intro j i
    have h1 := ih (2 * j) (2 * i)
    have h2 := ih (2 * j) (2 * i + 1)
    have h3 := ih (2 * j + 1) (2 * i)
    have h4 := ih (2 * j + 1) (2 * i + 1)
    simp only [coarse, average]
    constructor <;> linarith

/-- Differences of values in an interval are at most half its length. -/
theorem abs_differences_le {x : Nat → Nat → K} {lo hi : K} (h : ∀ j i, lo ≤ x j i ∧ x j i ≤ hi) (j i : Nat) :
    |horizontal x j i| ≤ (hi - lo) / 2 ∧ |vertical x j i| ≤ (hi - lo) / 2 ∧ |diagonal x j i| ≤ (hi - lo) / 2 := by
  have h1 := h (2 * j) (2 * i)
  have h2 := h (2 * j) (2 * i + 1)
  have h3 := h (2 * j + 1) (2 * i)
  have h4 := h (2 * j + 1) (2 * i + 1)
  simp only [horizontal, vertical, diagonal, abs_le]
  refine ⟨⟨?_, ?_⟩, ⟨?_, ?_⟩, ?_, ?_⟩ <;> linarith

end Field

end WorldWind.Lib.Haar
