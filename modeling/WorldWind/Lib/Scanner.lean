import WorldWind.Lib.Decimal
/-!
# `java.util.Scanner`

A scanner takes the words of a text that white space keeps apart. What is
printed as words is read as those words (`tokens_line`), and an int is read as
it was printed (`nextInt_printInt`). The text of a double is a parameter.
-/

namespace WorldWind.Lib.Scanner

open Decimal

def isWhitespace (c : Char) : Bool := (9 ≤ c.toNat && c.toNat ≤ 13) || (28 ≤ c.toNat && c.toNat ≤ 32)

/-- The words of a text. -/
def tokens (text : List Char) : List (List Char) := (text.splitOnP isWhitespace).filter fun word => word ≠ []

/-- A text that is one word. -/
structure IsToken (word : List Char) : Prop where
  ne_nil : word ≠ []
  solid : ∀ c ∈ word, isWhitespace c = false

theorem isToken_of_all {word : List Char} (hne : word ≠ []) (h : (word.all fun c => !isWhitespace c) = true) :
    IsToken word :=
  ⟨hne, fun c hc => by simpa using List.all_eq_true.1 h c hc⟩

/-! ## Numbers -/

/-- `print(int)`. -/
def printInt : Int → List Char
  | .ofNat n => decimal n
  | .negSucc n => '-' :: decimal (n + 1)

/-- The digits of a word and their sign. -/
def intValue : List Char → Option Int
  | '-' :: s => if s = [] then none else (digitsValue s).map fun n : Nat => -(n : Int)
  | s => if s = [] then none else (digitsValue s).map fun n : Nat => (n : Int)

/-- An `int` in decimal digits. -/
def nextInt (word : List Char) : Option Int :=
  (intValue word).bind fun n => if -2 ^ 31 ≤ n ∧ n < 2 ^ 31 then some n else none

/-- The text of a double and the double in a text, where a double is read back from its text. -/
structure DoubleText where
  print : ℚ → List Char
  nextDouble : List Char → Option ℚ
  isToken : ∀ x, IsToken (print x)
  nextDouble_print : ∀ x, nextDouble (print x) = some x

theorem isToken_of_digits {s : List Char} (hs : s ≠ []) (h : s.all Char.isDigit = true) : IsToken s := by
  refine ⟨hs, fun c hc => ?_⟩
  have hd := List.all_eq_true.1 h c hc
  rw [Char.isDigit, Bool.and_eq_true, decide_eq_true_eq, decide_eq_true_eq] at hd
  have h1 : 48 ≤ c.toNat := hd.1
  rw [isWhitespace, Bool.or_eq_false_iff, Bool.and_eq_false_iff, Bool.and_eq_false_iff, decide_eq_false_iff_not,
    decide_eq_false_iff_not, decide_eq_false_iff_not, decide_eq_false_iff_not]
  exact ⟨.inr (by omega), .inr (by omega)⟩

theorem isToken_decimal (n : Nat) : IsToken (decimal n) := isToken_of_digits (decimal_ne_nil n)
    (all_isDigit_decimal n)

theorem isToken_printInt (n : Int) : IsToken (printInt n) := by
  cases n with
  | ofNat n => exact isToken_decimal n
  | negSucc n =>
    refine ⟨List.cons_ne_nil _ _, ?_⟩
    rw [printInt, List.forall_mem_cons]
    exact ⟨by decide, (isToken_decimal _).solid⟩

theorem decimal_ne_minus (n : Nat) (s : List Char) : decimal n ≠ '-' :: s := by
  intro h
  have hall := all_isDigit_decimal n
  rw [h, List.all_cons] at hall
  cases hall

theorem intValue_printInt (n : Int) : intValue (printInt n) = some n := by
  cases n with
  | ofNat n =>
    have hvalue : intValue (decimal n) = (digitsValue (decimal n)).map fun n : Nat => (n : Int) := by
      rw [intValue.eq_def]
      split
      · rename_i s heq
        exact absurd heq (decimal_ne_minus n s)
      · exact if_neg (decimal_ne_nil n)
    rw [printInt, hvalue, digitsValue_decimal]
    rfl
  | negSucc n =>
    rw [printInt, intValue, if_neg (decimal_ne_nil (n + 1)), digitsValue_decimal]
    rfl

theorem nextInt_printInt {n : Int} (h1 : -2 ^ 31 ≤ n) (h2 : n < 2 ^ 31) : nextInt (printInt n) = some n := by
  rw [nextInt, intValue_printInt, Option.bind_some, if_pos ⟨h1, h2⟩]

/-! ## Words of a text -/

theorem tokens_nil : tokens [] = [] := rfl

/-- White space before a word is passed over. -/
theorem tokens_whitespace {c : Char} (h : isWhitespace c = true) (text : List Char) :
    tokens (c :: text) = tokens text := by
  have := @List.splitOnP_append_cons_of_forall_mem _ isWhitespace [] (List.forall_mem_nil _) c h text
  rw [List.nil_append] at this
  rw [tokens, this, List.filter_cons]
  rfl

theorem tokens_append {word : List Char} (hw : IsToken word) {c : Char} (h : isWhitespace c = true)
    (text : List Char) :
    tokens (word ++ c :: text) = word :: tokens text := by
  rw [tokens, List.splitOnP_append_cons_of_forall_mem hw.solid c h, List.filter_cons,
    if_pos (decide_eq_true hw.ne_nil)]
  rfl

theorem tokens_spaces (n : Nat) (text : List Char) : tokens (List.replicate n ' ' ++ text) = tokens text := by
  induction n with
  | zero => rfl
  | succ n ih => rw [List.replicate_succ, List.cons_append, tokens_whitespace rfl, ih]

/-- A line that holds a word. -/
theorem tokens_println {word : List Char} (hw : IsToken word) (text : List Char) :
    tokens (word ++ ['\n'] ++ text) = word :: tokens text := by
  rw [List.append_assoc, List.singleton_append, tokens_append hw rfl]

/-- A line that holds a key, spaces and a word. -/
theorem tokens_line {key word : List Char} (hk : IsToken key) (hw : IsToken word) {n : Nat} (hn : 0 < n)
    (text : List Char) :
    tokens (key ++ List.replicate n ' ' ++ word ++ ['\n'] ++ text) = key :: word :: tokens text := by
  obtain ⟨n, rfl⟩ := Nat.exists_eq_succ_of_ne_zero hn.ne'
  rw [List.replicate_succ, List.append_assoc, List.append_assoc, List.append_assoc, List.cons_append,
    tokens_append hk rfl, tokens_spaces, ← List.append_assoc, tokens_println hw]

end WorldWind.Lib.Scanner
