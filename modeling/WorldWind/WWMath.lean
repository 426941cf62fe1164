import Mathlib
/-!
# `util/WWMath.java`: powers of two

The code computes these through logarithms in `double`. For powers of two up to
`2 ^ 28` these come out exact.
-/

namespace WorldWind.WWMath

/-- The least power of two not below the argument. -/
def powerOfTwoCeiling (reference : Nat) : Nat := 2 ^ Nat.clog 2 reference

def isPowerOfTwo (value : Nat) : Bool := value = powerOfTwoCeiling value

/-- `(int) logBase2(value)`. -/
def logBase2 (value : Nat) : Nat := Nat.log 2 value

theorem isPowerOfTwo_two_pow (n : Nat) : isPowerOfTwo (2 ^ n) = true := by
  rw [isPowerOfTwo, powerOfTwoCeiling, Nat.clog_pow 2 n Nat.one_lt_two]
  exact decide_eq_true rfl

theorem logBase2_two_pow (n : Nat) : logBase2 (2 ^ n) = n := Nat.log_pow Nat.one_lt_two n

end WorldWind.WWMath
