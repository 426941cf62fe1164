import WorldWind.Lib.JavaInt
/-!
# `java.lang.Float`

The number that 32 bits stand for as a `float`. Zero is the only number with
the same bits as an `int` and as a `float` (`floatOf_eq_int_iff`).
-/

namespace WorldWind.Lib.JavaFloat

open JavaInt

/-- A `double`; the two zeros are one number. -/
inductive JavaDouble where
  | finite (x : ℚ)
  | infinity (negative : Bool)
  | nan
  deriving DecidableEq

namespace JavaDouble

/-- The place of a number among the numbers and infinities. -/
def rank : JavaDouble → WithBot (WithTop ℚ)
  | .finite x => ((x : WithTop ℚ) : WithBot (WithTop ℚ))
  | .infinity negative => if negative then ⊥ else ((⊤ : WithTop ℚ) : WithBot (WithTop ℚ))
  | .nan => ⊥

/-- `a < b`. -/
def lt (a b : JavaDouble) : Bool := a ≠ .nan && b ≠ .nan && decide (a.rank < b.rank)

/-- `a == b`. -/
def eq (a b : JavaDouble) : Bool := a ≠ .nan && b ≠ .nan && decide (a.rank = b.rank)

theorem lt_iff {a b : JavaDouble} (ha : a ≠ .nan) (hb : b ≠ .nan) : a.lt b = true ↔ a.rank < b.rank := by
  simp [lt, ha, hb]

theorem eq_iff {a b : JavaDouble} (ha : a ≠ .nan) (hb : b ≠ .nan) : a.eq b = true ↔ a.rank = b.rank := by
  simp [eq, ha, hb]

end JavaDouble

/-- The number without its sign: `e` is the exponent field, `f` the fraction field. -/
def magnitude (e f : Nat) : ℚ := if e = 0 then f / 2 ^ 149 else (2 ^ 23 + f) * 2 ^ e / 2 ^ 150

/-- `Float.intBitsToFloat`, from unsigned bits. -/
def floatOf (bits : Nat) : JavaDouble :=
  let negative := 2 ^ 31 ≤ bits
  let e := bits / 2 ^ 23 % 2 ^ 8
  let f := bits % 2 ^ 23
  if e = 255 then if f = 0 then .infinity negative else .nan
  else .finite (if negative then -magnitude e f else magnitude e f)

/-- Over an exponent field of 150, a number is a multiple of the fraction with its leading bit. -/
theorem magnitude_eq {k : Nat} (hk : k ≤ 150) (f : Nat) : magnitude (150 + k) f = (2 ^ 23 + f) * 2 ^ k := by
  rw [magnitude, if_neg (by omega), pow_add]
  field_simp

theorem magnitude_le {e f : Nat} (he : e ≤ 150) (hf : f < 2 ^ 23) : magnitude e f ≤ 2 ^ 23 + f := by
  have hf' : (f : ℚ) < 2 ^ 23 := by exact_mod_cast hf
  rw [magnitude]
  split
  · rw [div_le_iff₀ (by positivity)]
    have : (0 : ℚ) ≤ f := Nat.cast_nonneg f
    nlinarith
  · rw [div_le_iff₀ (by positivity)]
    have hpow : (2 : ℚ) ^ e ≤ 2 ^ 150 := pow_le_pow_right₀ (by norm_num) he
    exact mul_le_mul_of_nonneg_left hpow (by positivity)

theorem two_pow_ge {k : Nat} (hk : 8 ≤ k) : k + 151 ≤ 2 ^ k := by
  obtain ⟨j, rfl⟩ := Nat.exists_eq_add_of_le hk
  have := Nat.lt_two_pow_self (n := j)
  rw [pow_add]
  omega

/-- No positive bits are the same number both ways. -/
theorem magnitude_eq_bits_iff {e f : Nat} (he : e < 255) (hf : f < 2 ^ 23) :
    magnitude e f = ((e * 2 ^ 23 + f : Nat) : ℚ) ↔ e = 0 ∧ f = 0 := by
  constructor
  · intro h
    have hf' : (f : ℚ) < 2 ^ 23 := by exact_mod_cast hf
    have hf0 : (0 : ℚ) ≤ f := Nat.cast_nonneg f
    push_cast at h
    rcases Nat.lt_or_ge 150 e with hlarge | hsmall
    · obtain ⟨k, rfl⟩ := Nat.exists_eq_add_of_le hlarge.le
      rw [magnitude_eq (by omega)] at h
      have hnat : (2 ^ 23 + f) * 2 ^ k = (150 + k) * 2 ^ 23 + f := by exact_mod_cast h
      rcases Nat.lt_or_ge k 8 with hk | hk
      · interval_cases k <;> omega
      · have := Nat.mul_le_mul_left (2 ^ 23 + f) (two_pow_ge hk)
        rw [hnat, Nat.mul_add, Nat.add_mul] at this
        nlinarith
    · rcases Nat.lt_or_ge e 2 with htiny | hge
      · interval_cases e
        · refine ⟨rfl, ?_⟩
          rw [magnitude, if_pos rfl, div_eq_iff (by positivity)] at h
          have hzero : (f : ℚ) = 0 := by linarith
          exact_mod_cast hzero
        · rw [magnitude, if_neg one_ne_zero, div_eq_iff (by positivity)] at h
          norm_num at h
          linarith
      · have hle := magnitude_le hsmall hf
        have hge' : (2 : ℚ) ≤ e := by exact_mod_cast hge
        linarith
  · rintro ⟨rfl, rfl⟩
    norm_num [magnitude]

/-- Nor are negative bits. -/
theorem neg_magnitude_ne_bits {e f : Nat} (he : e < 255) (hf : f < 2 ^ 23) :
    -magnitude e f ≠ (e * 2 ^ 23 + f : ℚ) - 2 ^ 31 := by
  intro h
  have hf' : (f : ℚ) < 2 ^ 23 := by exact_mod_cast hf
  rcases Nat.lt_or_ge 150 e with hlarge | hsmall
  · obtain ⟨k, rfl⟩ := Nat.exists_eq_add_of_le hlarge.le
    rw [magnitude_eq (by omega)] at h
    push_cast at h
    have hrat : ((2 ^ 23 + f) * 2 ^ k + (150 + k) * 2 ^ 23 + f : ℚ) = 2 ^ 31 := by linarith
    have hnat : (2 ^ 23 + f) * 2 ^ k + (150 + k) * 2 ^ 23 + f = 2 ^ 31 := by exact_mod_cast hrat
    rcases Nat.lt_or_ge k 8 with hk | hk
    · interval_cases k <;> omega
    · have := Nat.mul_le_mul_left (2 ^ 23 + f) (two_pow_ge hk)
      nlinarith
  · have hle := magnitude_le hsmall hf
    have he' : (e : ℚ) ≤ 150 := by exact_mod_cast hsmall
    linarith

theorem floatOf_eq_int_iff {bits : Nat} (h : bits < 2 ^ 32) :
    floatOf bits = .finite (int bits : ℤ) ↔ int bits = 0 := by
  have hf : bits % 2 ^ 23 < 2 ^ 23 := Nat.mod_lt _ (by positivity)
  have hdiv := Nat.div_add_mod bits (2 ^ 23)
  rw [floatOf]
  rcases Nat.lt_or_ge bits (2 ^ 31) with hpos | hneg
  · have hint : int bits = (bits : Int) := int_eq (by omega) (by omega)
    have hmod : bits / 2 ^ 23 % 2 ^ 8 = bits / 2 ^ 23 := Nat.mod_eq_of_lt (by omega)
    have hbits : bits / 2 ^ 23 * 2 ^ 23 + bits % 2 ^ 23 = bits := by omega
    rw [if_neg (not_le.2 hpos), hmod, hint]
    split
    · split <;> simp only [reduceCtorEq, false_iff] <;> omega
    · rename_i he
      have hiff := magnitude_eq_bits_iff (e := bits / 2 ^ 23) (by omega) hf
      rw [hbits] at hiff
      rw [JavaDouble.finite.injEq, Int.cast_natCast, hiff]
      omega
  · have hint : int bits = (bits : Int) - 2 ^ 32 := by
      have := int_eq (x := (bits : Int) - 2 ^ 32) (by omega) (by omega)
      have hmod : ((bits : Int) - 2 ^ 32) % 2 ^ 32 = bits % 2 ^ 32 := Int.sub_emod_right _ _
      rw [← this, ← int_emod (bits : Int), ← int_emod ((bits : Int) - 2 ^ 32), hmod]
    have hbits : (bits / 2 ^ 23 % 2 ^ 8) * 2 ^ 23 + bits % 2 ^ 23 + 2 ^ 31 = bits := by omega
    rw [if_pos hneg, hint]
    split
    · split <;> simp only [reduceCtorEq, false_iff] <;> omega
    · rename_i he
      have hne := neg_magnitude_ne_bits (e := bits / 2 ^ 23 % 2 ^ 8) (by omega) hf
      have hrat : ((bits / 2 ^ 23 % 2 ^ 8 : Nat) * 2 ^ 23 + (bits % 2 ^ 23 : Nat) + 2 ^ 31 : ℚ) = bits := by
        exact_mod_cast hbits
      rw [JavaDouble.finite.injEq]
      refine iff_of_false (fun heq => hne ?_) (by omega)
      rw [heq, ← sub_eq_iff_eq_add.2 hrat.symm]
      push_cast
      ring

end WorldWind.Lib.JavaFloat
