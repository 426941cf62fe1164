import WorldWind.Lib.JavaInt
/-!
# Casts of a double in Java

A cast to `int` cuts the decimals off and stops at the ends of the range, and
`Math.round` stops at the ends of a `long`.
-/

namespace WorldWind.Lib.Casts

open JavaInt

/-- The cast of a `double` to an `int`. -/
def intCast (x : ℚ) : Int := max (-2 ^ 31) (min (2 ^ 31 - 1) (if 0 ≤ x then ⌊x⌋ else ⌈x⌉))

/-- `Math.round`. -/
def roundLong (x : ℚ) : Int := max (-2 ^ 63) (min (2 ^ 63 - 1) ⌊x + 1 / 2⌋)

theorem intCast_eq_floor {x : ℚ} (h1 : 0 ≤ x) (h2 : x < 2 ^ 31) : intCast x = ⌊x⌋ := by
  have h3 : 0 ≤ ⌊x⌋ := Int.floor_nonneg.2 h1
  have h4 : ⌊x⌋ < 2 ^ 31 := Int.floor_lt.2 (by exact_mod_cast h2)
  rw [intCast, if_pos h1]
  omega

/-- A cast to `int` of a rounded value that is not large. -/
theorem int_roundLong {x : ℚ} (h1 : -2 ^ 31 ≤ ⌊x + 1 / 2⌋) (h2 : ⌊x + 1 / 2⌋ < 2 ^ 31) :
    int (roundLong x) = ⌊x + 1 / 2⌋ := by
  rw [roundLong, int_eq] <;> omega

end WorldWind.Lib.Casts
