import Mathlib
/-!
# `int` and `long` arithmetic that does not overflow

Java's `int` and `long` are `Int32` and `Int64`: their sums, differences and
products wrap. Where the exact result fits, the wrapped one is the exact one.
Where a program computes with lengths that are never negative, the model keeps
them as numbers and says where a result wraps (`int`).
-/

namespace WorldWind.Lib.JavaInt

/-- The `int` an exact result wraps to. -/
@[irreducible] def int (x : Int) : Int := x.bmod (2 ^ 32)

/-- The `short` an exact result wraps to. -/
@[irreducible] def short (x : Int) : Int := x.bmod (2 ^ 16)

theorem int_eq {x : Int} (h1 : -2 ^ 31 ≤ x) (h2 : x < 2 ^ 31) : int x = x := by
  rw [int]
  exact Int.bmod_eq_of_le (by omega) (by omega)

theorem int_lt (x : Int) : int x < 2 ^ 31 := by
  have := Int.bmod_lt (x := x) (m := 2 ^ 32) (by decide)
  simpa [int] using this

theorem int_emod (x : Int) : int (x % 2 ^ 32) = int x := by
  have := Int.emod_bmod x (2 ^ 32)
  rw [int, int]
  exact_mod_cast this

theorem int_int_add (x y : Int) : int (int x + y) = int (x + y) := by
  rw [int, int, int, Int.bmod_add_bmod]

theorem int_add_int (x y : Int) : int (x + int y) = int (x + y) := by
  rw [int, int, int, Int.add_bmod_bmod]

theorem int_sub_int (x y : Int) : int (x - int y) = int (x - y) := by
  rw [int, int, int, Int.sub_bmod_bmod]

theorem int_sub_add_int (x y z : Int) : int (x - (y + int z)) = int (x - (y + z)) := by
  rw [← Int.sub_sub, int_sub_int, Int.sub_sub]

theorem int_mul_int (x y : Int) : int (x * int y) = int (x * y) := by
  rw [int, int, int, Int.mul_bmod_bmod]

theorem int_int_mul (x y : Int) : int (int x * y) = int (x * y) := by
  rw [int, int, int, Int.bmod_mul_bmod]

/-- `0xffffffffL & x` of an `int`. -/
theorem int_mod (x : Int) : int x % 2 ^ 32 = x % 2 ^ 32 := by
  have := Int.bmod_emod (x := x) (m := 2 ^ 32)
  rw [int]
  exact_mod_cast this

/-- `0xffff & x` of an `int`. -/
theorem int_mod_short (x : Int) : int x % 2 ^ 16 = x % 2 ^ 16 := by
  have hdvd : (2 ^ 16 : Int) ∣ 2 ^ 32 := ⟨2 ^ 16, by norm_num⟩
  rw [← Int.emod_emod_of_dvd (int x) hdvd, int_mod, Int.emod_emod_of_dvd x hdvd]

/-- `0xffff & x` of a `short`. -/
theorem short_mod (x : Int) : short x % 2 ^ 16 = x % 2 ^ 16 := by
  have := Int.bmod_emod (x := x) (m := 2 ^ 16)
  rw [short]
  exact_mod_cast this

theorem short_emod {x : Int} (h1 : -2 ^ 15 ≤ x) (h2 : x < 2 ^ 15) : short (x % 2 ^ 16) = x := by
  have hmod := Int.emod_bmod x (2 ^ 16)
  have hself : x.bmod (2 ^ 16) = x := Int.bmod_eq_of_le (by omega) (by omega)
  rw [short]
  exact_mod_cast hmod.trans hself

/-- Numbers that fit come back from their wrapped values by a mask. -/
theorem map_mask {wrapped : Int → Int} {k : Int} (hw : ∀ x, wrapped x % k = x % k) {l : List Nat}
    (h : ∀ n ∈ l, (n : Int) < k) : ((l.map fun n : Nat => wrapped n).map fun v => v % k) = l.map Int.ofNat := by
  induction l with
  | nil => rfl
  | cons n l ih =>
    have hn : wrapped n % k = Int.ofNat n := by
      rw [hw]
      exact Int.emod_eq_of_lt (by omega) (h n List.mem_cons_self)
    rw [List.map_cons, List.map_cons, List.map_cons, ih fun m hm => h m (List.mem_cons_of_mem _ hm), hn]

/-- One bit too large comes back negative. -/
theorem int_overflow {x : Int} (h1 : 2 ^ 31 ≤ x) (h2 : x < 2 ^ 32) : int x < 0 := by
  rw [int, Int.bmod_def]
  split <;> omega

theorem int_two_pow : int (2 ^ 31) = -2 ^ 31 := by
  rw [int]
  rfl

theorem le_int (x : Int) : -2 ^ 31 ≤ int x := by
  have := Int.le_bmod (x := x) (m := 2 ^ 32) (by decide)
  simpa [int] using this

theorem toInt_add_long {a b : Int64} (h1 : -2 ^ 63 ≤ a.toInt + b.toInt) (h2 : a.toInt + b.toInt < 2 ^ 63) :
    (a + b).toInt = a.toInt + b.toInt := by
  rw [Int64.toInt_add]
  exact Int.bmod_eq_of_le (by omega) (by omega)

theorem toInt_sub_long {a b : Int64} (h1 : -2 ^ 63 ≤ a.toInt - b.toInt) (h2 : a.toInt - b.toInt < 2 ^ 63) :
    (a - b).toInt = a.toInt - b.toInt := by
  rw [Int64.toInt_sub]
  exact Int.bmod_eq_of_le (by omega) (by omega)

/-- `a + -b`, as `addAndGet(-b)` computes it. -/
theorem toInt_add_neg_long {a b : Int64} (h1 : -2 ^ 63 ≤ a.toInt - b.toInt) (h2 : a.toInt - b.toInt < 2 ^ 63) :
    (a + -b).toInt = a.toInt - b.toInt := by
  rw [← Int64.sub_eq_add_neg, toInt_sub_long h1 h2]

/-- Past the largest `long` the sum comes back negative. -/
theorem toInt_add_long_overflow {a b : Int64} (h1 : 0 ≤ a.toInt) (h2 : 0 ≤ b.toInt)
    (h : 2 ^ 63 ≤ a.toInt + b.toInt) : (a + b).toInt < 0 := by
  have ha := a.toInt_lt
  have hb := b.toInt_lt
  rw [Int64.toInt_add]
  simp only [Int.bmod_def]
  split <;> omega

theorem toInt_max_long (a b : Int64) : (max a b).toInt = max a.toInt b.toInt := by
  show (if a ≤ b then b else a).toInt = _
  simp only [Int64.le_iff_toInt_le, Int.max_def]
  split <;> rfl

/-- Counting up by one is exact unless the counter is at the largest `int`. -/
theorem toInt_add_one_int (a : Int32) : (a + 1).toInt = a.toInt + 1 ↔ a.toInt + 1 < 2 ^ 31 := by
  have h1 := a.toInt_lt
  have h2 := a.le_toInt
  rw [Int32.toInt_add, Int32.toInt_one, Int.bmod_def]
  split <;> omega

theorem toInt_sub_one_int {a : Int32} (h : 0 ≤ a.toInt) : (a - 1).toInt = a.toInt - 1 := by
  have h1 := a.toInt_lt
  rw [Int32.toInt_sub, Int32.toInt_one]
  exact Int.bmod_eq_of_le (by omega) (by omega)

end WorldWind.Lib.JavaInt
