import Mathlib
/-!
# Bands and row-major numbers

A line is cut into bands of equal width, numbered by integers, and the cells of a
grid are numbered row by row.
-/

namespace WorldWind.Lib.Bands

/-! ## Bands -/

section

variable {K : Type*} [Field K] [LinearOrder K] [IsStrictOrderedRing K] {width : K}

/-- A number inside a band is in no other band. -/
theorem band_unique {x : K} {i j : Int} (hwidth : 0 < width) (h1 : width * i < x) (h2 : x < width * (i + 1))
    (h3 : width * j < x) (h4 : x < width * (j + 1)) : i = j := by
  have h5 : (i : K) < j + 1 := lt_of_mul_lt_mul_left (h1.trans h4) hwidth.le
  have h6 : (j : K) < i + 1 := lt_of_mul_lt_mul_left (h3.trans h2) hwidth.le
  have h5 : i < j + 1 := by exact_mod_cast h5
  have h6 : j < i + 1 := by exact_mod_cast h6
  omega

variable [FloorRing K]

/-- A number between two edges is in a band between them. -/
theorem exists_band {x : K} {lo hi : Int} (hwidth : 0 < width) (hlt : lo < hi) (h1 : width * lo ≤ x)
    (h2 : x ≤ width * hi) : ∃ i, lo ≤ i ∧ i < hi ∧ width * i ≤ x ∧ x ≤ width * (i + 1) := by
  by_cases hend : x = width * hi
  · -- the last edge belongs to the last band
    refine ⟨hi - 1, by omega, by omega, ?_, ?_⟩
    · rw [hend]
      exact mul_le_mul_of_nonneg_left (by push_cast; linarith) hwidth.le
    · rw [hend]
      exact mul_le_mul_of_nonneg_left (by push_cast; linarith) hwidth.le
  · have hlow : (lo : K) ≤ x / width := (le_div_iff₀' hwidth).2 h1
    have hhigh : x / width < hi := (div_lt_iff₀' hwidth).2 (lt_of_le_of_ne h2 hend)
    refine ⟨⌊x / width⌋, Int.le_floor.2 hlow, Int.floor_lt.2 hhigh, ?_, ?_⟩
    · exact (le_div_iff₀' hwidth).1 (Int.floor_le _)
    · exact ((div_lt_iff₀' hwidth).1 (Int.lt_floor_add_one _)).le

end

/-! ## Row-major numbers -/

/-- The cells of a grid. -/
def cells (rows columns : Int) : Set (Int × Int) := {p | (0 ≤ p.1 ∧ p.1 < rows) ∧ 0 ≤ p.2 ∧ p.2 < columns}

variable {rows columns : Int}

theorem number_mem {p : Int × Int} (hp : p ∈ cells rows columns) :
    0 ≤ p.2 + p.1 * columns ∧ p.2 + p.1 * columns < rows * columns := by
  obtain ⟨⟨h1, h2⟩, h3, h4⟩ := hp
  have h5 : 0 ≤ p.1 * columns := mul_nonneg h1 (by omega)
  have h6 : (p.1 + 1) * columns ≤ rows * columns := Int.mul_le_mul_of_nonneg_right (by omega) (by omega)
  rw [add_mul] at h6
  omega

theorem row_of_number {row column : Int} (h1 : 0 ≤ column) (h2 : column < columns) :
    (column + row * columns) / columns = row := by
  rw [Int.add_mul_ediv_right _ _ (by omega), Int.ediv_eq_zero_of_lt h1 h2, zero_add]

theorem cell_mem {n : Int} (hcolumns : 0 < columns) (h1 : 0 ≤ n) (h2 : n < rows * columns) :
    (n / columns, n - n / columns * columns) ∈ cells rows columns := by
  have h3 := Int.emod_add_mul_ediv n columns
  have h4 := Int.emod_nonneg n hcolumns.ne'
  have h5 := Int.emod_lt_of_pos n hcolumns
  have h6 : n / columns * columns = columns * (n / columns) := mul_comm _ _
  refine ⟨⟨Int.ediv_nonneg h1 hcolumns.le, Int.ediv_lt_of_lt_mul hcolumns h2⟩, ?_, ?_⟩
  · show 0 ≤ n - n / columns * columns
    omega
  · show n - n / columns * columns < columns
    omega

/-- No more cells can be numbered than there are numbers. -/
theorem card_le_of_injOn {f : Int × Int → Int} {n : Int} (hrows : 0 ≤ rows) (hcolumns : 0 ≤ columns) (hn : 0 ≤ n)
    (hmaps : ∀ p ∈ cells rows columns, 0 ≤ f p ∧ f p < n) (hinj : Set.InjOn f (cells rows columns)) :
    rows * columns ≤ n := by
  have hcells : ((Finset.Ico 0 rows ×ˢ Finset.Ico 0 columns : Finset (Int × Int)) : Set (Int × Int)) =
      cells rows columns := by
    ext p
    simp [cells]
  have hcard := Finset.card_le_card_of_injOn (t := Finset.Ico 0 n) f
    (fun p hp => Finset.mem_Ico.2 (hmaps p (hcells ▸ hp))) (hcells ▸ hinj)
  rw [Finset.card_product, Int.card_Ico, Int.card_Ico, Int.card_Ico] at hcard
  have : ((rows - 0).toNat * (columns - 0).toNat : Int) ≤ (n - 0).toNat := by exact_mod_cast hcard
  rwa [Int.sub_zero, Int.sub_zero, Int.sub_zero, Int.toNat_of_nonneg hrows, Int.toNat_of_nonneg hcolumns,
    Int.toNat_of_nonneg hn] at this

end WorldWind.Lib.Bands
