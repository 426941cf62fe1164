import Mathlib
/-!
# Numbers as bits, the most significant first

`bitsOf w n` are the last `w` bits of `n`. Leaving bits out in front is taking
a remainder (`drop_bitsOf`), leaving them out at the end a quotient
(`take_bitsOf`), and bits in a row are a number in base two (`valueOf_append`).

Fields of bits that are put into a mask one above another, by shifts and `|||`,
are read again by shifts and masks (`PackedBits.packed_get`).
-/

namespace WorldWind.Lib.Bits

def bitsOf : Nat → Nat → List Bool
  | 0, _ => []
  | w + 1, n => n.testBit w :: bitsOf w n

def valueOf : List Bool → Nat
  | [] => 0
  | b :: bs => b.toNat * 2 ^ bs.length + valueOf bs

@[simp] theorem length_bitsOf (w n : Nat) : (bitsOf w n).length = w := by
  induction w with
  | zero => rfl
  | succ w ih => rw [bitsOf, List.length_cons, ih]

theorem valueOf_bitsOf (w n : Nat) : valueOf (bitsOf w n) = n % 2 ^ w := by
  induction w with
  | zero => rw [pow_zero, Nat.mod_one, bitsOf, valueOf]
  | succ w ih => rw [bitsOf, valueOf, length_bitsOf, ih, Nat.toNat_testBit, Nat.mod_pow_succ, Nat.mul_comm,
      Nat.add_comm]

theorem valueOf_append (xs ys : List Bool) : valueOf (xs ++ ys) = valueOf xs * 2 ^ ys.length + valueOf ys := by
  induction xs with
  | nil => simp [valueOf]
  | cons b xs ih =>
    rw [List.cons_append, valueOf, valueOf, ih, List.length_append, pow_add]
    ring

theorem drop_bitsOf (w n c : Nat) : (bitsOf w n).drop c = bitsOf (w - c) n := by
  induction w generalizing c with
  | zero => simp [bitsOf]
  | succ w ih =>
    cases c with
    | zero => rfl
    | succ c => rw [bitsOf, List.drop_succ_cons, ih, Nat.add_sub_add_right]

theorem take_bitsOf {w t : Nat} (h : t ≤ w) (n : Nat) : (bitsOf w n).take t = bitsOf t (n / 2 ^ (w - t)) := by
  induction w generalizing t with
  | zero =>
    obtain rfl : t = 0 := by omega
    rfl
  | succ w ih =>
    cases t with
    | zero => rfl
    | succ t =>
      have hle : t ≤ w := by omega
      rw [bitsOf, List.take_succ_cons, ih hle, bitsOf, Nat.add_sub_add_right, Nat.testBit_div_two_pow,
        Nat.add_sub_cancel' hle]

end WorldWind.Lib.Bits

/-! ## Fields of bits in a number -/

namespace WorldWind.Lib.PackedBits

/-- A mask in the middle of a number. -/
theorem and_shiftLeft (n m k : Nat) : n &&& m <<< k = (n >>> k &&& m) <<< k := by
  apply Nat.eq_of_testBit_eq
  intro i
  simp only [Nat.testBit_and, Nat.testBit_shiftLeft, Nat.testBit_shiftRight]
  by_cases hi : k ≤ i
  · simp [hi, Nat.add_sub_cancel' hi]
  · simp [hi]

/-- `mask |= field << (b * i)` over the fields. -/
def packed (b : Nat) (field : Nat → Nat) (n : Nat) : Nat :=
  (List.range n).foldl (fun mask i => mask ||| field i <<< (b * i)) 0

variable {b : Nat} {field : Nat → Nat}

theorem packed_succ (b : Nat) (field : Nat → Nat) (n : Nat) :
    packed b field (n + 1) = packed b field n ||| field n <<< (b * n) := by
  unfold packed
  rw [List.range_succ, List.foldl_append]
  rfl

theorem packed_lt (h : ∀ i, field i < 2 ^ b) (n : Nat) : packed b field n < 2 ^ (b * n) := by
  induction n with
  | zero => exact Nat.one_pos
  | succ n ih =>
    rw [packed_succ]
    apply Nat.or_lt_two_pow
    · exact ih.trans_le (Nat.pow_le_pow_right two_pos (Nat.mul_le_mul_left b n.le_succ))
    · rw [Nat.shiftLeft_eq, Nat.mul_succ, Nat.mul_comm, pow_add]
      exact Nat.mul_lt_mul_of_pos_left (h n) (by positivity)

/-- Each field is read back from the mask. -/
theorem packed_get (h : ∀ i, field i < 2 ^ b) {n i : Nat} (hi : i < n) :
    packed b field n >>> (b * i) % 2 ^ b = field i := by
  induction n with
  | zero => omega
  | succ n ih =>
    have hlt := packed_lt h n
    rw [packed_succ, Nat.lor_comm, ← Nat.shiftLeft_add_eq_or_of_lt hlt, Nat.shiftLeft_eq]
    rcases Nat.lt_succ_iff_lt_or_eq.1 hi with hlt' | rfl
    · obtain ⟨k, rfl⟩ := Nat.exists_eq_add_of_lt hlt'
      rw [← ih hlt', Nat.shiftRight_eq_div_pow, Nat.shiftRight_eq_div_pow]
      have hpow : 2 ^ (b * (i + k + 1)) = 2 ^ (b * i) * (2 ^ b * 2 ^ (b * k)) := by
        rw [← pow_add, ← pow_add]
        congr 1
        ring
      -- what lies above is a multiple of two fields
      have hshape : field (i + k + 1) * 2 ^ (b * (i + k + 1)) =
          2 ^ (b * i) * (2 ^ b * (2 ^ (b * k) * field (i + k + 1))) := by
        rw [hpow]
        ring
      rw [hshape, Nat.mul_add_div (by positivity), Nat.mul_add_mod]
    · rw [Nat.shiftRight_eq_div_pow, Nat.add_comm, Nat.add_mul_div_right _ _ (by positivity), Nat.div_eq_of_lt hlt,
        Nat.zero_add, Nat.mod_eq_of_lt (h i)]

/-- Fields that are put in two at a time. -/
theorem foldl_pairs (b : Nat) (field : Nat → Nat) (n : Nat) :
    (List.range n).foldl (fun mask i => mask ||| (field (2 * i + 1) <<< b ||| field (2 * i)) <<< (2 * b * i)) 0 =
      packed b field (2 * n) := by
  induction n with
  | zero => rfl
  | succ n ih =>
    rw [List.range_succ, List.foldl_append, List.foldl_cons, List.foldl_nil, ih, Nat.mul_succ,
      show 2 * n + 2 = 2 * n + 1 + 1 by rfl, packed_succ, packed_succ, Nat.shiftLeft_or_distrib, ← Nat.shiftLeft_add,
      Nat.lor_assoc, Nat.lor_comm (field (2 * n + 1) <<< _)]
    congr 3 <;> ring_nf

end WorldWind.Lib.PackedBits
