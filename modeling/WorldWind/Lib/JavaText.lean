import WorldWind.Lib.Scanner
/-!
# Text in Java

Pieces of a regular expression, and the functions of `String` that a parser of
a short text uses. A number that was written as digits is read back
(`parseInt_decimal`), and a text of words with signs between them is cut into
its words again (`splitSpaces_words`).
-/

namespace WorldWind.Lib.JavaText

open Lib.Decimal Lib.Scanner

/-! ## Pieces of a pattern -/

/-- One of some characters. -/
def oneOf (chars : List Char) : RegularExpression Char := chars.foldr (fun c r => .char c + r) 0

/-- `r?`. -/
def maybe (r : RegularExpression Char) : RegularExpression Char := r + 1

/-- `\d`. -/
def digit : RegularExpression Char := oneOf ['0', '1', '2', '3', '4', '5', '6', '7', '8', '9']

/-- `\s` as a set. -/
def spaces : List Char := [' ', '\t', '\n', '\x0b', '\x0c', '\r']

/-- `\s`. -/
def space : RegularExpression Char := oneOf spaces

theorem mem_oneOf {c : Char} {chars : List Char} (h : c ∈ chars) : [c] ∈ (oneOf chars).matches' := by
  induction chars with
  | nil => exact absurd h List.not_mem_nil
  | cons d ds ih =>
    rcases List.mem_cons.1 h with rfl | h
    · exact Or.inl rfl
    · exact Or.inr (ih h)

theorem mem_maybe {r : RegularExpression Char} {s : List Char} (h : s ∈ r.matches') : s ∈ (maybe r).matches' :=
    Or.inl h

theorem nil_mem_maybe (r : RegularExpression Char) : [] ∈ (maybe r).matches' := Or.inr rfl

theorem append_mem {p q : RegularExpression Char} {s t : List Char} (hs : s ∈ p.matches') (ht : t ∈ q.matches') :
    s ++ t ∈ (p * q).matches' := Language.append_mem_mul hs ht

theorem mem_star {r : RegularExpression Char} {s : List Char} (h : s ∈ r.matches') : s ∈ r.star.matches' := by
  have := Language.join_mem_kstar (l := r.matches') (L := [s]) (by simpa using h)
  simpa using this

theorem mem_digit {c : Char} (h : c.isDigit = true) : [c] ∈ digit.matches' := by
  refine mem_oneOf ?_
  have hc := Char.isDigit_iff_toNat.1 h
  have h1 : 48 ≤ c.toNat := hc.1
  have h2 : c.toNat ≤ 57 := hc.2
  rw [← Char.ofNat_toNat c]
  generalize c.toNat = n at h1 h2 ⊢
  interval_cases n <;> decide

/-! ## Functions of a string -/

/-- `trim`. -/
def trim (s : List Char) : List Char := ((s.dropWhile (· ≤ ' ')).reverse.dropWhile (· ≤ ' ')).reverse

/-- `replaceAll("\\s+", " ")`. -/
def squeeze : List Char → List Char
  | [] => []
  | c :: s =>
    if c ∈ spaces then if s.head?.any (· ∈ spaces) then squeeze s else ' ' :: squeeze s else c :: squeeze s

/-- `split(" ")`. Empty pieces at the end are left out. -/
def splitSpaces (s : List Char) : List (List Char) :=
  if ' ' ∈ s then ((s.splitOn ' ').reverse.dropWhile (· = [])).reverse else [s]

/-- `Integer.parseInt` of ASCII digits. -/
def parseInt : List Char → Option Int
  | '+' :: s => if s = [] then none else ((digitsValue s).map fun n : Nat => (n : Int)).bind ranged
  | '-' :: s => if s = [] then none else ((digitsValue s).map fun n : Nat => -(n : Int)).bind ranged
  | s => if s = [] then none else ((digitsValue s).map fun n : Nat => (n : Int)).bind ranged
where
  ranged (n : Int) : Option Int := if -2 ^ 31 ≤ n ∧ n < 2 ^ 31 then some n else none

/-! ## Words with signs between them -/

/-- A word of digits. -/
structure IsNumber (word : List Char) : Prop where
  ne_nil : word ≠ []
  digits : ∀ c ∈ word, c.isDigit = true

theorem isNumber_decimal (n : Nat) : IsNumber (decimal n) :=
  ⟨decimal_ne_nil n, fun c hc => List.all_eq_true.1 (all_isDigit_decimal n) c hc⟩

/-- A digit is neither a space nor below one. -/
theorem not_space_of_isDigit {c : Char} (h : c.isDigit = true) : c ∉ spaces ∧ ¬c ≤ ' ' ∧ c ≠ ' ' := by
  have h1 : 48 ≤ c.toNat := (Char.isDigit_iff_toNat.1 h).1
  refine ⟨fun hc => ?_, fun hc => ?_, fun hc => ?_⟩
  · simp only [spaces, List.mem_cons, List.not_mem_nil, or_false] at hc
    rcases hc with rfl | rfl | rfl | rfl | rfl | rfl <;> exact absurd h1 (by decide)
  · have h2 : c.toNat ≤ 32 := hc
    omega
  · exact absurd h1 (by rw [hc]; decide)

theorem squeeze_append {word : List Char} (h : IsNumber word) (s : List Char) :
    squeeze (word ++ s) = word ++ squeeze s := by
  have hall := h.digits
  clear h
  induction word with
  | nil => rfl
  | cons c cs ih =>
    have hc := (not_space_of_isDigit (hall c List.mem_cons_self)).1
    rw [List.cons_append, squeeze, if_neg hc, ih fun d hd => hall d (List.mem_cons_of_mem c hd), List.cons_append]

/-- Two spaces before a word become one. -/
theorem squeeze_gap {word : List Char} (h : IsNumber word) (s : List Char) :
    squeeze (' ' :: ' ' :: (word ++ s)) = ' ' :: (word ++ squeeze s) := by
  have hsp : ' ' ∈ spaces := List.mem_cons_self
  obtain ⟨c, cs, rfl⟩ := List.exists_cons_of_ne_nil h.ne_nil
  have hc := (not_space_of_isDigit (h.digits c List.mem_cons_self)).1
  have h1 : squeeze (' ' :: (c :: cs ++ s)) = ' ' :: squeeze (c :: cs ++ s) := by
    rw [squeeze, if_pos hsp, if_neg (by simpa using hc)]
  rw [squeeze, if_pos hsp, if_pos (by simpa using hsp), h1, squeeze_append h]

theorem dropWhile_of_head {p : Char → Bool} {s : List Char} (h : ∀ c ∈ s.head?, p c = false) : s.dropWhile p = s := by
  cases s with
  | nil => rfl
  | cons c s => exact List.dropWhile_cons_of_neg (by simpa using h c rfl)

/-- The space at the end of a text goes away. -/
theorem trim_space {s : List Char} (h1 : ∀ c ∈ s.head?, ¬c ≤ ' ') (h2 : ∀ c ∈ s.getLast?, ¬c ≤ ' ') (hs : s ≠ []) :
    trim (s ++ [' ']) = s := by
  have h3 : (s ++ [' ']).dropWhile (· ≤ ' ') = s ++ [' '] := by
    refine dropWhile_of_head fun c hc => ?_
    rw [List.head?_append_of_ne_nil _ hs] at hc
    simpa using h1 c hc
  rw [trim, h3, List.reverse_append, List.reverse_singleton, List.singleton_append,
    List.dropWhile_cons_of_pos (by decide), dropWhile_of_head, List.reverse_reverse]
  intro c hc
  rw [List.head?_reverse] at hc
  simpa using h2 c hc

theorem splitSpaces_words {a b c : List Char} (ha : IsNumber a) (hb : IsNumber b) (hc : IsNumber c) :
    splitSpaces (a ++ ' ' :: (b ++ ' ' :: c)) = [a, b, c] := by
  have hno : ∀ {w : List Char}, IsNumber w → ' ' ∉ w := fun h hmem =>
    (not_space_of_isDigit (h.digits _ hmem)).2.2 rfl
  have hsplit : (a ++ ' ' :: (b ++ ' ' :: c)).splitOn ' ' = [a, b, c] := by
    rw [List.splitOn_append_cons_self_of_not_mem (hno ha), List.splitOn_append_cons_self_of_not_mem (hno hb),
      List.splitOn_eq_singleton (hno hc)]
  rw [splitSpaces, if_pos (by simp), hsplit]
  simp [hc.ne_nil]

/-- A number that is an `int` is read back. -/
theorem parseInt_decimal {n : Nat} (h : n < 2 ^ 31) : parseInt (decimal n) = some (n : Int) := by
  obtain ⟨c, s, hcs⟩ := List.exists_cons_of_ne_nil (decimal_ne_nil n)
  have hc : c.isDigit = true := (isNumber_decimal n).digits c (hcs ▸ List.mem_cons_self)
  have hv := digitsValue_decimal n
  rw [hcs] at hv ⊢
  have hrange : parseInt.ranged (n : Int) = some (n : Int) := by
    rw [parseInt.ranged, if_pos]
    omega
  unfold parseInt
  split
  · rename_i heq
    cases heq
    exact absurd hc (by decide)
  · rename_i heq
    cases heq
    exact absurd hc (by decide)
  · rw [if_neg (List.cons_ne_nil c s), hv, Option.map_some, Option.bind_some, hrange]

end WorldWind.Lib.JavaText
