import Mathlib
/-!
# A segment and a box

A segment meets a box around the origin where three tests of separating axes
hold (`meets_box_iff`): two for the sides of the box and one for the direction
across the segment. Along the segment each side of the box leaves an interval,
and intervals that meet in pairs have a common point.
-/

namespace WorldWind.Lib.SeparatingAxis

variable {K : Type*} [Field K] [LinearOrder K] [IsStrictOrderedRing K]

/-- Intervals, given by their centres and radii, that meet in pairs. -/
theorem exists_common {ι : Type*} [Fintype ι] [Nonempty ι] {p r : ι → K} (h : ∀ i j, |p i - p j| ≤ r i + r j) :
    ∃ t, ∀ i, |t - p i| ≤ r i := by
  refine ⟨Finset.univ.sup' Finset.univ_nonempty fun i => p i - r i, fun i => abs_le.2 ⟨?_, ?_⟩⟩
  · have := Finset.le_sup' (fun i => p i - r i) (Finset.mem_univ i)
    linarith
  · have : (Finset.univ.sup' Finset.univ_nonempty fun i => p i - r i) ≤ p i + r i := by
      refine Finset.sup'_le _ _ fun j _ => ?_
      have := (abs_le.1 (h i j)).1
      linarith
    linarith

theorem abs_sub_le_add {s p q x y : K} (hp : |s - p| ≤ x) (hq : |s - q| ≤ y) : |p - q| ≤ x + y := by
  have h1 := abs_le.1 hp
  have h2 := abs_le.1 hq
  exact abs_le.2 ⟨by linarith, by linarith⟩

variable {a b c d cx cy dx dy : K}

/-- The points of a line in a strip are an interval. -/
theorem in_strip_iff (hd : d ≠ 0) (t : K) : |c + t * d| ≤ a ↔ |t - -(c / d)| ≤ a / |d| := by
  rw [le_div_iff₀ (abs_pos.2 hd), ← abs_mul, sub_neg_eq_add, add_mul, div_mul_cancel₀ _ hd, add_comm]

/-- The intervals of two strips meet where the direction across the line does not separate the box from it. -/
theorem strips_meet_iff (hx : dx ≠ 0) (hy : dy ≠ 0) :
    |-(cx / dx) - -(cy / dy)| ≤ a / |dx| + b / |dy| ↔ |dy * cx - dx * cy| ≤ a * |dy| + b * |dx| := by
  have hpos : 0 < |dx * dy| := abs_pos.2 (mul_ne_zero hx hy)
  have hx' := abs_pos.2 hx
  have hy' := abs_pos.2 hy
  rw [← mul_le_mul_iff_left₀ hpos, ← abs_mul, abs_mul dx dy]
  have hleft : (-(cx / dx) - -(cy / dy)) * (dx * dy) = -(dy * cx - dx * cy) := by
    field_simp
    ring
  have hright : (a / |dx| + b / |dy|) * (|dx| * |dy|) = a * |dy| + b * |dx| := by
    field_simp
  rw [hleft, hright, abs_neg]

theorem meets_strip_iff (ha : 0 ≤ a) : (∃ t, |t| ≤ 1 ∧ |c + t * d| ≤ a) ↔ |c| ≤ a + |d| := by
  constructor
  · rintro ⟨t, ht, hin⟩
    have hmul : |t * d| ≤ |d| := by
      rw [abs_mul]
      exact mul_le_of_le_one_left (abs_nonneg d) ht
    have := abs_sub_abs_le_abs_add c (t * d)
    linarith
  · intro h
    by_cases hd : d = 0
    · subst hd
      rw [abs_zero, add_zero] at h
      exact ⟨0, by simp, by simpa using h⟩
    · have hc : |c / d| ≤ 1 + a / |d| := by
        rw [abs_div, div_le_iff₀ (abs_pos.2 hd), add_mul, div_mul_cancel₀ _ (abs_ne_zero.2 hd), one_mul, add_comm]
        exact h
      have hnonneg : 0 ≤ a / |d| := div_nonneg ha (abs_nonneg d)
      obtain ⟨t, ht⟩ := exists_common (p := ![0, -(c / d)]) (r := ![1, a / |d|]) (by
        intro i j
        fin_cases i <;> fin_cases j <;> simp <;> linarith)
      have h0 := ht 0
      have h1 := ht 1
      simp only [Matrix.cons_val_zero, Matrix.cons_val_one, sub_zero] at h0 h1
      exact ⟨t, h0, (in_strip_iff hd t).2 h1⟩

theorem meets_box_iff (ha : 0 ≤ a) (hb : 0 ≤ b) :
    (∃ t, |t| ≤ 1 ∧ |cx + t * dx| ≤ a ∧ |cy + t * dy| ≤ b) ↔
      |cx| ≤ a + |dx| ∧ |cy| ≤ b + |dy| ∧ |dy * cx - dx * cy| ≤ a * |dy| + b * |dx| := by
  by_cases hx : dx = 0
  · subst hx
    have hcross : |cx| ≤ a → |dy * cx - 0 * cy| ≤ a * |dy| + b * |(0 : K)| := by
      intro h
      rw [zero_mul, sub_zero, abs_zero, mul_zero, add_zero, abs_mul, mul_comm]
      exact mul_le_mul_of_nonneg_right h (abs_nonneg dy)
    simp only [mul_zero, add_zero, abs_zero]
    constructor
    · rintro ⟨t, ht, h1, h2⟩
      exact ⟨h1, (meets_strip_iff hb).1 ⟨t, ht, h2⟩, by simpa using hcross h1⟩
    · rintro ⟨h1, h2, -⟩
      obtain ⟨t, ht, h⟩ := (meets_strip_iff hb).2 h2
      exact ⟨t, ht, h1, h⟩
  by_cases hy : dy = 0
  · subst hy
    have hcross : |cy| ≤ b → |0 * cx - dx * cy| ≤ a * |(0 : K)| + b * |dx| := by
      intro h
      rw [zero_mul, zero_sub, abs_neg, abs_zero, mul_zero, zero_add, abs_mul, mul_comm]
      exact mul_le_mul_of_nonneg_right h (abs_nonneg dx)
    simp only [mul_zero, add_zero, abs_zero]
    constructor
    · rintro ⟨t, ht, h1, h2⟩
      exact ⟨(meets_strip_iff ha).1 ⟨t, ht, h1⟩, h2, by simpa using hcross h2⟩
    · rintro ⟨h1, h2, -⟩
      obtain ⟨t, ht, h⟩ := (meets_strip_iff ha).2 h1
      exact ⟨t, ht, h, h2⟩
  rw [← strips_meet_iff hx hy]
  constructor
  · rintro ⟨t, ht, h1, h2⟩
    exact ⟨(meets_strip_iff ha).1 ⟨t, ht, h1⟩, (meets_strip_iff hb).1 ⟨t, ht, h2⟩,
      abs_sub_le_add ((in_strip_iff hx t).1 h1) ((in_strip_iff hy t).1 h2)⟩
  · rintro ⟨h1, h2, h3⟩
    obtain ⟨t1, ht1, hin1⟩ := (meets_strip_iff ha).2 h1
    obtain ⟨t2, ht2, hin2⟩ := (meets_strip_iff hb).2 h2
    have h01 := abs_sub_le_add (q := -(cx / dx)) (s := t1) (p := 0) (by simpa using ht1) ((in_strip_iff hx t1).1 hin1)
    have h02 := abs_sub_le_add (q := -(cy / dy)) (s := t2) (p := 0) (by simpa using ht2) ((in_strip_iff hy t2).1 hin2)
    have hra : 0 ≤ a / |dx| := div_nonneg ha (abs_nonneg dx)
    have hrb : 0 ≤ b / |dy| := div_nonneg hb (abs_nonneg dy)
    have h10 := (abs_sub_comm _ _).trans_le h01
    have h20 := (abs_sub_comm _ _).trans_le h02
    have h30 := (abs_sub_comm _ _).trans_le h3
    obtain ⟨t, ht⟩ := exists_common (p := ![0, -(cx / dx), -(cy / dy)]) (r := ![1, a / |dx|, b / |dy|]) (by
      intro i j
      fin_cases i <;> fin_cases j <;>
        simp only [Matrix.cons_val_zero, Matrix.cons_val_one, Matrix.cons_val, Fin.zero_eta, Fin.mk_one,
          Fin.reduceFinMk, sub_self, abs_zero] <;> linarith)
    exact ⟨t, by simpa using ht 0, (in_strip_iff hx t).2 (ht 1), (in_strip_iff hy t).2 (ht 2)⟩

end WorldWind.Lib.SeparatingAxis
