import Mathlib
/-!
# Decimal text

Numbers are written with a fixed number of decimals, rounded half up in their
magnitude, and read back as what is written (`parseDouble_fixed`), which is
within half a unit of the last place (`abs_rounded_sub`).
-/

namespace WorldWind.Lib.Decimal

/-! ## Writing -/

/-- `%d` of a number that is not negative. -/
def decimal (n : Nat) : List Char := Nat.toDigits 10 n

/-- A text with zeros before it up to a width. -/
def zeroPad (width : Nat) (text : List Char) : List Char := List.replicate (width - text.length) '0' ++ text

/-- The magnitude in units of the last of `n` decimals, rounded half up. -/
def scaled (n : Nat) (x : ℚ) : Nat := ⌊|x| * 10 ^ n + 1 / 2⌋₊

/-- The magnitude with `n` decimals. -/
def fixedAbs (n : Nat) (x : ℚ) : List Char :=
  decimal (scaled n x / 10 ^ n) ++ '.' :: zeroPad n (decimal (scaled n x % 10 ^ n))

/-- `%.nf`. -/
def fixed (n : Nat) (x : ℚ) : List Char := (if x < 0 then ['-'] else []) ++ fixedAbs n x

/-- `%0w.nf` of a number that is not negative. -/
def fixedPadded (width n : Nat) (x : ℚ) : List Char := zeroPad width (fixedAbs n x)

/-! ## Reading -/

/-- The value of digits; no digits are zero. -/
def digitsValue (s : List Char) : Option Nat := if s.all Char.isDigit then some (Nat.ofDigitChars 10 s 0) else none

def parseUnsigned (s : List Char) : Option ℚ :=
  let whole := s.takeWhile (· ≠ '.')
  match s.dropWhile (· ≠ '.') with
  | [] => if whole = [] then none else (digitsValue whole).map fun a : Nat => (a : ℚ)
  | _ :: part =>
    if whole = [] ∧ part = [] then none
    else (digitsValue whole).bind fun a => (digitsValue part).map fun b : Nat => (a : ℚ) + b / 10 ^ part.length

/-- `Double.parseDouble` of a text without an exponent. -/
def parseDouble : List Char → Option ℚ
  | '-' :: s => (parseUnsigned s).map Neg.neg
  | '+' :: s => parseUnsigned s
  | s => parseUnsigned s

/-! ## Digits -/

theorem all_isDigit_decimal (n : Nat) : (decimal n).all Char.isDigit = true :=
  List.all_eq_true.2 fun _ hc => Nat.isDigit_of_mem_toDigits (by decide) le_rfl hc

theorem all_isDigit_zeroPad {s : List Char} (h : s.all Char.isDigit = true) (width : Nat) :
    (zeroPad width s).all Char.isDigit = true := by
  rw [zeroPad, List.all_append, h, Bool.and_true, List.all_eq_true]
  intro c hc
  rw [List.eq_of_mem_replicate hc]
  rfl

theorem decimal_ne_nil (n : Nat) : decimal n ≠ [] := Nat.toDigits_ne_nil

theorem length_zeroPad {width : Nat} {s : List Char} (h : s.length ≤ width) : (zeroPad width s).length = width := by
  rw [zeroPad, List.length_append, List.length_replicate]
  omega

theorem length_decimal_le {n width : Nat} (hw : 0 < width) (h : n < 10 ^ width) : (decimal n).length ≤ width :=
  (Nat.length_toDigits_le_iff (by decide) hw).2 h

theorem ofDigitChars_zeroPad (width : Nat) (s : List Char) :
    Nat.ofDigitChars 10 (zeroPad width s) 0 = Nat.ofDigitChars 10 s 0 := by
  rw [zeroPad, Nat.ofDigitChars_append, Nat.ofDigitChars_replicate_zero, Nat.mul_zero]

theorem digitsValue_decimal (n : Nat) : digitsValue (decimal n) = some n := by
  rw [digitsValue, if_pos (all_isDigit_decimal n), decimal, Nat.ofDigitChars_ten_toDigits]

theorem digitsValue_zeroPad (width : Nat) {s : List Char} {n : Nat} (h : digitsValue s = some n) :
    digitsValue (zeroPad width s) = some n := by
  rw [digitsValue] at h ⊢
  split at h
  · rename_i hall
    rw [if_pos (all_isDigit_zeroPad hall width), ofDigitChars_zeroPad]
    exact h
  · cases h

/-! ## What is written is read back -/

theorem ne_point_of_all {s : List Char} (h : s.all Char.isDigit = true) : ∀ c ∈ s, decide (c ≠ '.') = true := by
  intro c hc
  have := List.all_eq_true.1 h c hc
  rw [decide_eq_true_eq]
  rintro rfl
  cases this

theorem parseUnsigned_digits {s : List Char} {n : Nat} (hs : s ≠ []) (h : digitsValue s = some n) :
    parseUnsigned s = some (n : ℚ) := by
  have hall : s.all Char.isDigit = true := by
    rw [digitsValue] at h
    split at h
    · assumption
    · cases h
  have hne := ne_point_of_all hall
  have hdrop : s.dropWhile (· ≠ '.') = [] := List.dropWhile_eq_nil_iff.2 hne
  have htake : s.takeWhile (· ≠ '.') = s := List.takeWhile_eq_self_iff.2 hne
  rw [parseUnsigned, hdrop, htake]
  simp only
  rw [if_neg hs, h]
  rfl

theorem parseUnsigned_point {s t : List Char} {a b : Nat} (hs : s ≠ []) (ha : digitsValue s = some a)
    (hb : digitsValue t = some b) : parseUnsigned (s ++ '.' :: t) = some ((a : ℚ) + b / 10 ^ t.length) := by
  have hall : s.all Char.isDigit = true := by
    rw [digitsValue] at ha
    split at ha
    · assumption
    · cases ha
  have hne := ne_point_of_all hall
  have hdrop : (s ++ '.' :: t).dropWhile (· ≠ '.') = '.' :: t := by
    rw [List.dropWhile_append_of_pos hne]
    rfl
  have htake : (s ++ '.' :: t).takeWhile (· ≠ '.') = s := by
    rw [List.takeWhile_append_of_pos hne]
    exact List.append_nil s
  rw [parseUnsigned, hdrop, htake]
  simp only
  rw [if_neg fun h => hs h.1, ha, hb]
  rfl

/-- The magnitude that is written. -/
def rounded (n : Nat) (x : ℚ) : ℚ := scaled n x / 10 ^ n

theorem parseUnsigned_zeroPad_fixedAbs (width : Nat) {n : Nat} (hn : 0 < n) (x : ℚ) :
    parseUnsigned (fixedPadded width n x) = some (rounded n x) := by
  have hlt : scaled n x % 10 ^ n < 10 ^ n := Nat.mod_lt _ (by positivity)
  have hlen := length_zeroPad (length_decimal_le hn hlt)
  have happend : fixedPadded width n x =
      (List.replicate (width - (fixedAbs n x).length) '0' ++ decimal (scaled n x / 10 ^ n)) ++
        '.' :: zeroPad n (decimal (scaled n x % 10 ^ n)) := by
    rw [fixedPadded, zeroPad, fixedAbs, List.append_assoc]
  have hwhole : digitsValue (List.replicate (width - (fixedAbs n x).length) '0' ++ decimal (scaled n x / 10 ^ n)) =
      some (scaled n x / 10 ^ n) := by
    have := digitsValue_zeroPad (width - (fixedAbs n x).length + (decimal (scaled n x / 10 ^ n)).length)
      (digitsValue_decimal (scaled n x / 10 ^ n))
    rwa [zeroPad, Nat.add_sub_cancel] at this
  rw [happend, parseUnsigned_point (by simp [decimal_ne_nil]) hwhole
    (digitsValue_zeroPad n (digitsValue_decimal _)), hlen, rounded]
  congr 1
  have hpow : (10 : ℚ) ^ n ≠ 0 := by positivity
  rw [eq_div_iff hpow, add_mul, div_mul_cancel₀ _ hpow]
  exact_mod_cast Nat.div_add_mod' (scaled n x) (10 ^ n)

/-- A text that begins with a digit has no sign. -/
theorem parseDouble_of_digit {c : Char} {s : List Char} (h : c.isDigit = true) :
    parseDouble (c :: s) = parseUnsigned (c :: s) := by
  rw [parseDouble]
  · rintro s' heq
    cases heq
    cases h
  · rintro s' heq
    cases heq
    cases h

theorem parseDouble_of_head {s : List Char} (h : ∀ c ∈ s.head?, c.isDigit = true) :
    parseDouble s = parseUnsigned s := by
  cases s with
  | nil => rfl
  | cons c s => exact parseDouble_of_digit (h c rfl)

theorem isDigit_head_fixedPadded (width n : Nat) (x : ℚ) : ∀ c ∈ (fixedPadded width n x).head?, c.isDigit = true := by
  intro c hc
  have hall : (List.replicate (width - (fixedAbs n x).length) '0' ++ decimal (scaled n x / 10 ^ n)).all Char.isDigit =
      true := by
    rw [List.all_append, all_isDigit_decimal, Bool.and_true, List.all_eq_true]
    intro c hc
    rw [List.eq_of_mem_replicate hc]
    rfl
  rw [fixedPadded, zeroPad, fixedAbs, ← List.append_assoc,
    List.head?_append_of_ne_nil _ (by simp [decimal_ne_nil])] at hc
  exact List.all_eq_true.1 hall c (List.mem_of_mem_head? hc)

theorem parseDouble_fixedPadded (width : Nat) {n : Nat} (hn : 0 < n) (x : ℚ) :
    parseDouble (fixedPadded width n x) = some (rounded n x) := by
  rw [parseDouble_of_head (isDigit_head_fixedPadded width n x), parseUnsigned_zeroPad_fixedAbs width hn]

theorem parseDouble_zeroPad (width n : Nat) : parseDouble (zeroPad width (decimal n)) = some (n : ℚ) := by
  have hne : zeroPad width (decimal n) ≠ [] := by
    rw [zeroPad]
    simp [decimal_ne_nil]
  have hall := all_isDigit_zeroPad (all_isDigit_decimal n) width
  rw [parseDouble_of_head fun c hc => List.all_eq_true.1 hall c (List.mem_of_mem_head? hc)]
  exact parseUnsigned_digits hne (digitsValue_zeroPad width (digitsValue_decimal n))

/-- What `%.nf` writes is read as the rounded number, with its sign. -/
theorem parseDouble_fixed {n : Nat} (hn : 0 < n) (x : ℚ) :
    parseDouble (fixed n x) = some (if x < 0 then -rounded n x else rounded n x) := by
  have hplain : fixedAbs n x = fixedPadded 0 n x := by rw [fixedPadded, zeroPad, Nat.zero_sub]; rfl
  rw [fixed]
  split
  · rw [List.singleton_append, parseDouble, hplain, parseUnsigned_zeroPad_fixedAbs 0 hn]
    rfl
  · rw [List.nil_append, hplain, parseDouble_fixedPadded 0 hn]

/-! ## Rounding -/

theorem rounded_nonneg (n : Nat) (x : ℚ) : 0 ≤ rounded n x := by
  rw [rounded]
  positivity

/-- Rounding is off by half a unit of the last place at most. -/
theorem abs_rounded_sub (n : Nat) (x : ℚ) : abs (rounded n x - |x|) ≤ 1 / (2 * 10 ^ n) := by
  have hpow : (0 : ℚ) < 10 ^ n := by positivity
  have hnonneg : 0 ≤ |x| * 10 ^ n + 1 / 2 := by positivity
  have h1 := Nat.floor_le hnonneg
  have h2 := Nat.lt_floor_add_one (|x| * 10 ^ n + 1 / 2)
  rw [← scaled] at h1 h2
  have hx : rounded n x - |x| = (scaled n x - |x| * 10 ^ n) / 10 ^ n := by
    rw [rounded, sub_div, mul_div_cancel_right₀ _ hpow.ne']
  have habs : |(scaled n x : ℚ) - |x| * 10 ^ n| ≤ 1 / 2 := abs_le.2 ⟨by linarith, by linarith⟩
  rw [hx, abs_div, abs_of_pos hpow, div_le_iff₀ hpow]
  calc |(scaled n x : ℚ) - |x| * 10 ^ n| ≤ 1 / 2 := habs
    _ = 1 / (2 * 10 ^ n) * 10 ^ n := by field_simp

end WorldWind.Lib.Decimal
