import Mathlib
/-!
# Digital lines

A line goes up by `d` over `D` columns, in whole numbers: its height over column `k` is
`k * d / D`, rounded, with halves down. The line is never more than a half off
(`height_near`) and ends at `d` (`height_last`). Where it is not steeper than one the next
column is as high or one higher, and what the rounding left over tells which
(`height_succ`, `error_succ`).
-/

namespace WorldWind.Lib.DigitalLine

/-- `k * d / D`, rounded. -/
def height (D d k : Nat) : Nat := (k * d + (D - 1 - D / 2)) / D

/-- How far the line may still sink before it has to go up. -/
def error (D d k : Nat) : Int := (D / 2 : Nat) + D * height D d k - k * d

variable {D d k : Nat}

theorem height_bounds (hD : 0 < D) :
    D * height D d k ≤ k * d + (D - 1 - D / 2) ∧ k * d + (D - 1 - D / 2) < D * height D d k + D := by
  have hdiv := Nat.div_add_mod (k * d + (D - 1 - D / 2)) D
  have hmod := Nat.mod_lt (k * d + (D - 1 - D / 2)) hD
  rw [height]
  omega

theorem error_bounds (hD : 0 < D) : 0 ≤ error D d k ∧ error D d k < D := by
  obtain ⟨h1, h2⟩ := height_bounds (d := d) (k := k) hD
  have h1 : (D : Int) * height D d k ≤ k * d + (D - 1 - D / 2 : Nat) := by exact_mod_cast h1
  have h2 : (k : Int) * d + (D - 1 - D / 2 : Nat) < D * height D d k + D := by exact_mod_cast h2
  rw [error]
  omega

@[simp] theorem height_zero : height D d 0 = 0 := by
  rw [height, Nat.zero_mul, Nat.zero_add]
  rcases Nat.eq_zero_or_pos D with rfl | hD
  · rfl
  · exact Nat.div_eq_of_lt (by omega)

@[simp] theorem error_zero : error D d 0 = (D / 2 : Nat) := by
  simp [error]

theorem height_last (hD : 0 < D) : height D d D = d := by
  rw [height, Nat.mul_add_div hD, Nat.div_eq_of_lt (by omega), Nat.add_zero]

theorem height_le (hD : 0 < D) (hk : k ≤ D) : height D d k ≤ d := by
  have hmono : height D d k ≤ height D d D :=
    Nat.div_le_div_right (Nat.add_le_add_right (Nat.mul_le_mul_right d hk) _)
  rwa [height_last hD] at hmono

/-- A height whose remainder is one is the height. -/
theorem height_eq {m : Nat} (h1 : 0 ≤ ((D / 2 : Nat) : Int) + D * m - k * d)
    (h2 : ((D / 2 : Nat) : Int) + D * m - k * d < D) : height D d k = m := by
  have hD : (0 : Int) < D := by omega
  apply Nat.div_eq_of_lt_le
  · have hlow : (D : Int) * m ≤ k * d + (D - 1 - D / 2 : Nat) := by omega
    rw [Nat.mul_comm]
    exact_mod_cast hlow
  · have hhigh : (k : Int) * d + (D - 1 - D / 2 : Nat) < D * m + D := by omega
    rw [Nat.succ_mul, Nat.mul_comm m D]
    exact_mod_cast hhigh

theorem height_succ (hD : 0 < D) (hd : d ≤ D) :
    height D d (k + 1) = if error D d k < d then height D d k + 1 else height D d k := by
  obtain ⟨h0, hlt⟩ := error_bounds (d := d) (k := k) hD
  rw [error] at h0 hlt
  split
  · rename_i hup
    rw [error] at hup
    apply height_eq <;> push_cast [mul_add, add_mul] <;> omega
  · rename_i hflat
    rw [error] at hflat
    apply height_eq <;> push_cast [add_mul] <;> omega

theorem error_succ (hD : 0 < D) (hd : d ≤ D) :
    error D d (k + 1) = if error D d k < d then error D d k - d + D else error D d k - d := by
  rw [error, height_succ hD hd]
  split
  · rw [error]
    push_cast
    ring
  · rw [error]
    push_cast
    ring

/-- No column is more than half a step off. -/
theorem height_near (hD : 0 < D) : 2 * |(D : Int) * height D d k - k * d| ≤ D := by
  obtain ⟨h0, hlt⟩ := error_bounds (d := d) (k := k) hD
  rw [error] at h0 hlt
  rcases abs_cases ((D : Int) * height D d k - k * d) with ⟨habs, -⟩ | ⟨habs, -⟩ <;> rw [habs] <;> omega

end WorldWind.Lib.DigitalLine
