import Mathlib
/-!
# Bilinear interpolation

A grid of samples is mixed at a place between them. A sample's weight falls off
linearly to zero at a distance of one, in each direction (`weight`). In a cell
four samples have a weight (`sum_hat`, `interpolate_eq`), at an edge of the grid
only those on the edge do, so two grids with the same samples on an edge agree
there (`interpolate_left`, `interpolate_top`).
-/

namespace WorldWind.Lib.Bilinear

open Finset

variable {K : Type*} [Field K] [LinearOrder K] [IsStrictOrderedRing K]

/-- The weight of a sample at a distance. -/
def hat (t : K) : K := max 0 (1 - |t|)

theorem hat_ne_zero_iff (t : K) : hat t ≠ 0 ↔ |t| < 1 := by
  rw [hat]
  constructor
  · intro h
    by_contra hle
    exact h (max_eq_left (by linarith [not_lt.1 hle]))
  · intro h
    have h1 : 0 < 1 - |t| := by linarith
    rw [max_eq_right h1.le]
    exact h1.ne'

theorem hat_of_nonneg {t : K} (h1 : 0 ≤ t) (h2 : t ≤ 1) : hat t = 1 - t := by
  rw [hat, abs_of_nonneg h1, max_eq_right (by linarith)]

theorem hat_of_nonpos {t : K} (h1 : t ≤ 0) (h2 : -1 ≤ t) : hat t = 1 + t := by
  rw [hat, abs_of_nonpos h1, max_eq_right (by linarith), sub_neg_eq_add]

theorem hat_of_one_le {t : K} (h : 1 ≤ |t|) : hat t = 0 := max_eq_left (by linarith)

/-- A sample is at a distance below one exactly when it is at an end of the unit that holds the place, and not at
the far end of it. -/
theorem hat_sub_ne_zero_iff {i c : Nat} {u : K} (h1 : (i : K) ≤ u) (h2 : u < i + 1) :
    hat (u - c) ≠ 0 ↔ c = i ∨ (c = i + 1 ∧ u ≠ i) := by
  rw [hat_ne_zero_iff, abs_lt]
  constructor
  · rintro ⟨h3, h4⟩
    have h5 : i < c + 1 := by
      have : (i : K) < (c : K) + 1 := by linarith
      exact_mod_cast this
    have h6 : c < i + 2 := by
      have : (c : K) < (i : K) + 2 := by linarith
      exact_mod_cast this
    rcases (show c = i ∨ c = i + 1 by omega) with rfl | rfl
    · exact Or.inl rfl
    · refine Or.inr ⟨rfl, fun hu => ?_⟩
      push_cast at h3
      linarith
  · rintro (rfl | ⟨rfl, hu⟩)
    · constructor <;> linarith
    · have h3 : (i : K) < u := lt_of_le_of_ne h1 (Ne.symm hu)
      push_cast
      constructor <;> linarith

/-- In a row of samples the two ends of the unit are mixed. -/
theorem sum_hat {w i : Nat} {u : K} (f : Nat → K) (h1 : (i : K) ≤ u) (h2 : u < i + 1)
    (hi : i + 1 < w ∨ (i < w ∧ u = i)) :
    ∑ c ∈ range w, hat (u - c) * f c = (1 - (u - i)) * f i + (u - i) * f (i + 1) := by
  have hfi : hat (u - i) = 1 - (u - i) := hat_of_nonneg (by linarith) (by linarith)
  have hzero : ∀ c ∈ range w, c ∉ ({i, i + 1} : Finset Nat) → hat (u - c) * f c = 0 := by
    intro c _ hc
    simp only [mem_insert, mem_singleton, not_or] at hc
    by_contra hne
    rcases (hat_sub_ne_zero_iff h1 h2).1 (left_ne_zero_of_mul hne) with h | h
    · exact hc.1 h
    · exact hc.2 h.1
  rcases hi with hi | ⟨hi, rfl⟩
  · have hsub : ({i, i + 1} : Finset Nat) ⊆ range w := by
      intro c hc
      simp only [mem_insert, mem_singleton] at hc
      rw [mem_range]
      omega
    have hnext : hat (u - ((i + 1 : Nat) : K)) = u - i := by
      rw [hat_of_nonpos (by push_cast; linarith) (by push_cast; linarith)]
      push_cast
      ring
    rw [← sum_subset hsub fun c hc hc' => hzero c hc hc', sum_pair (by omega), hfi, hnext]
  · rw [sum_eq_single_of_mem i (mem_range.2 hi)]
    · rw [hfi, sub_self, zero_mul, add_zero]
    · intro c _ hc
      have hat0 : hat ((i : K) - c) = 0 := by
        by_contra hne
        rcases (hat_sub_ne_zero_iff le_rfl h2).1 hne with h | h
        · exact hc h
        · exact h.2 rfl
      rw [hat0, zero_mul]

/-! ## Grids -/

/-- The weight of the sample in a row and a column, at a place `u` columns from the left and `v` rows from the top. -/
def weight (u v : K) (r c : Nat) : K := hat (v - r) * hat (u - c)

/-- The mix of all samples of a grid. -/
def interpolate (width height : Nat) (e : Nat → Nat → K) (u v : K) : K :=
  ∑ r ∈ range height, ∑ c ∈ range width, weight u v r c * e r c

/-- Some sample that has a weight is one of a kind. -/
def Touches (width height : Nat) (p : Nat → Nat → Prop) (u v : K) : Prop :=
  ∃ r < height, ∃ c < width, weight u v r c ≠ 0 ∧ p r c

omit [IsStrictOrderedRing K] in
theorem interpolate_rows (width height : Nat) (e : Nat → Nat → K) (u v : K) :
    interpolate width height e u v = ∑ r ∈ range height, hat (v - r) * ∑ c ∈ range width, hat (u - c) * e r c := by
  refine sum_congr rfl fun r _ => ?_
  rw [mul_sum]
  refine sum_congr rfl fun c _ => ?_
  rw [weight, mul_assoc]

/-- The mix of the four samples of a cell. -/
theorem interpolate_eq {width height i j : Nat} {u v : K} (e : Nat → Nat → K) (hu1 : (i : K) ≤ u) (hu2 : u < i + 1)
    (hi : i + 1 < width ∨ (i < width ∧ u = i)) (hv1 : (j : K) ≤ v) (hv2 : v < j + 1)
    (hj : j + 1 < height ∨ (j < height ∧ v = j)) :
    interpolate width height e u v =
      (1 - (v - j)) * ((1 - (u - i)) * e j i + (u - i) * e j (i + 1)) +
        (v - j) * ((1 - (u - i)) * e (j + 1) i + (u - i) * e (j + 1) (i + 1)) := by
  rw [interpolate_rows]
  simp only [sum_hat (e _) hu1 hu2 hi]
  exact sum_hat (fun r => (1 - (u - i)) * e r i + (u - i) * e r (i + 1)) hv1 hv2 hj

theorem weight_ne_zero_iff {i j r c : Nat} {u v : K} (hu1 : (i : K) ≤ u) (hu2 : u < i + 1) (hv1 : (j : K) ≤ v)
    (hv2 : v < j + 1) :
    weight u v r c ≠ 0 ↔ (r = j ∨ (r = j + 1 ∧ v ≠ j)) ∧ (c = i ∨ (c = i + 1 ∧ u ≠ i)) := by
  rw [weight, mul_ne_zero_iff, hat_sub_ne_zero_iff hv1 hv2, hat_sub_ne_zero_iff hu1 hu2]

/-- Which samples of a cell have a weight. -/
theorem touches_iff {width height i j : Nat} {p : Nat → Nat → Prop} {u v : K} (hu1 : (i : K) ≤ u) (hu2 : u < i + 1)
    (hi : i + 1 < width ∨ (i < width ∧ u = i)) (hv1 : (j : K) ≤ v) (hv2 : v < j + 1)
    (hj : j + 1 < height ∨ (j < height ∧ v = j)) :
    Touches width height p u v ↔
      p j i ∨ (u ≠ i ∧ p j (i + 1)) ∨ (v ≠ j ∧ p (j + 1) i) ∨ (u ≠ i ∧ v ≠ j ∧ p (j + 1) (i + 1)) := by
  have hiw : i < width := by omega
  have hjh : j < height := by omega
  have hiw' : u ≠ i → i + 1 < width := fun h => hi.resolve_right fun h' => h h'.2
  have hjh' : v ≠ j → j + 1 < height := fun h => hj.resolve_right fun h' => h h'.2
  constructor
  · rintro ⟨r, _, c, _, hw, hp⟩
    obtain ⟨rfl | ⟨rfl, hv⟩, rfl | ⟨rfl, hu⟩⟩ := (weight_ne_zero_iff hu1 hu2 hv1 hv2).1 hw
    · exact Or.inl hp
    · exact Or.inr (Or.inl ⟨hu, hp⟩)
    · exact Or.inr (Or.inr (Or.inl ⟨hv, hp⟩))
    · exact Or.inr (Or.inr (Or.inr ⟨hu, hv, hp⟩))
  · have hw : ∀ {r c}, _ → weight u v r c ≠ 0 := fun {r c} => (weight_ne_zero_iff (r := r) (c := c) hu1 hu2 hv1 hv2).2
    rintro (hp | ⟨hu, hp⟩ | ⟨hv, hp⟩ | ⟨hu, hv, hp⟩)
    · exact ⟨j, hjh, i, hiw, hw ⟨Or.inl rfl, Or.inl rfl⟩, hp⟩
    · exact ⟨j, hjh, i + 1, hiw' hu, hw ⟨Or.inl rfl, Or.inr ⟨rfl, hu⟩⟩, hp⟩
    · exact ⟨j + 1, hjh' hv, i, hiw, hw ⟨Or.inr ⟨rfl, hv⟩, Or.inl rfl⟩, hp⟩
    · exact ⟨j + 1, hjh' hv, i + 1, hiw' hu, hw ⟨Or.inr ⟨rfl, hv⟩, Or.inr ⟨rfl, hu⟩⟩, hp⟩

/-! ## Edges -/

/-- On a line of samples only those of the line are mixed. -/
theorem interpolate_column {width c : Nat} (height : Nat) (e : Nat → Nat → K) (hc : c < width) (v : K) :
    interpolate width height e (c : K) v = ∑ r ∈ range height, hat (v - r) * e r c := by
  rw [interpolate_rows]
  refine sum_congr rfl fun r _ => ?_
  rw [sum_hat (e r) le_rfl (lt_add_one _) (Or.inr ⟨hc, rfl⟩), sub_self, sub_zero, one_mul, zero_mul, add_zero]

theorem interpolate_row {height r : Nat} (width : Nat) (e : Nat → Nat → K) (hr : r < height) (u : K) :
    interpolate width height e u (r : K) = ∑ c ∈ range width, hat (u - c) * e r c := by
  have h := sum_hat (fun r => ∑ c ∈ range width, hat (u - c) * e r c) (le_refl (r : K)) (lt_add_one _)
    (Or.inr ⟨hr, rfl⟩)
  rw [interpolate_rows, h, sub_self, sub_zero, one_mul, zero_mul, add_zero]

theorem weight_column (c : Nat) (v : K) (r c' : Nat) : weight (c : K) v r c' ≠ 0 ↔ hat (v - r) ≠ 0 ∧ c' = c := by
  rw [weight, mul_ne_zero_iff, hat_sub_ne_zero_iff (le_refl (c : K)) (lt_add_one _)]
  simp

theorem weight_row (r : Nat) (u : K) (r' c : Nat) : weight u (r : K) r' c ≠ 0 ↔ r' = r ∧ hat (u - c) ≠ 0 := by
  rw [weight, mul_ne_zero_iff, hat_sub_ne_zero_iff (le_refl (r : K)) (lt_add_one _)]
  simp

theorem touches_column {width c : Nat} (height : Nat) (p : Nat → Nat → Prop) (hc : c < width) (v : K) :
    Touches width height p (c : K) v ↔ ∃ r < height, hat (v - r) ≠ 0 ∧ p r c := by
  constructor
  · rintro ⟨r, hr, c', _, hw, hp⟩
    obtain ⟨hw, hc'⟩ := (weight_column c v r c').1 hw
    exact ⟨r, hr, hw, hc' ▸ hp⟩
  · rintro ⟨r, hr, hw, hp⟩
    exact ⟨r, hr, c, hc, (weight_column c v r c).2 ⟨hw, rfl⟩, hp⟩

theorem touches_row {height r : Nat} (width : Nat) (p : Nat → Nat → Prop) (hr : r < height) (u : K) :
    Touches width height p u (r : K) ↔ ∃ c < width, hat (u - c) ≠ 0 ∧ p r c := by
  constructor
  · rintro ⟨r', _, c, hc, hw, hp⟩
    obtain ⟨hr', hw⟩ := (weight_row r u r' c).1 hw
    exact ⟨c, hc, hw, hr' ▸ hp⟩
  · rintro ⟨c, hc, hw, hp⟩
    exact ⟨r, hr, c, hc, (weight_row r u r c).2 ⟨rfl, hw⟩, hp⟩

end WorldWind.Lib.Bilinear
