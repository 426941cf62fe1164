import WorldWind.Geom
import WorldWind.Lib.Casts
import WorldWind.Lib.JavaText
/-!
# `geom/Angle.java`, degrees, minutes and seconds

An angle is written as whole degrees, minutes and seconds, and such a text is
read back. The text has the angle in whole seconds of arc (`toDMSString_eq`), and
the pattern and the fields are read one by one (`fromDMSString_dmsText`).

The sign of the text goes into the degrees alone, so an angle below one degree
is read back as zero, and 999 degrees can be rounded up to a fourth digit, which
the pattern refuses. Everywhere else the text is the angle to half a second
(`fromDMSString_toDMSString_iff`).
-/

namespace WorldWind.Geom.Angle

open Lib.Casts Lib.Decimal Lib.JavaInt Lib.JavaText Lib.Scanner

/-! ## Writing -/

/-- Seconds and minutes that were rounded up to 60. -/
def fixRounding (d m s : Int) : Int × Int × Int :=
  let ms := if s = 60 then (int (m + 1), 0) else (m, s)
  if ms.1 = 60 then (int (d + 1), 0, ms.2) else (d, ms.1, ms.2)

/-- The degrees, minutes and seconds of `toDMSString`. -/
def fields (temp : ℚ) : Int × Int × Int :=
  let d := intCast ⌊temp⌋
  let temp := (temp - d) * 60
  let m := intCast ⌊temp⌋
  let temp := (temp - m) * 60
  fixRounding d m (int (roundLong temp))

def toDMSString (a : Angle) : List Char :=
  let sign := (SignType.sign a.degrees : Int)
  let dms := fields (a.degrees * sign)
  (if sign = -1 then ['-'] else []) ++ printInt dms.1 ++ ['\u00B0'] ++ [' '] ++ printInt dms.2.1 ++ ['\u2019'] ++
  [' '] ++
    printInt dms.2.2 ++ ['\u201d']

/-! ## Reading -/

/-- `fromDMS(int, int, int)`. -/
def fromDMS (degrees minutes seconds : Int) : Option Angle :=
  if minutes < 0 ∨ minutes ≥ 60 then none
  else if seconds < 0 ∨ seconds ≥ 60 then none
  else some (fromDegrees (degrees.sign * (int degrees.natAbs + (minutes : ℚ) / 60 + (seconds : ℚ) / 3600)))

def multiply (a : Angle) (multiplier : ℚ) : Angle := fromDegrees (a.degrees * multiplier)

/-- `([-|\+]?\d{1,3}[d|D|°|\s](\s*\d{1,2}['|’|\s])?(\s*\d{1,2}["|”|\s])?\s*([N|n|S|s|E|e|W|w])?\s?)` -/
def regex : RegularExpression Char :=
  maybe (oneOf ['-', '|', '+']) *
    (digit * (maybe digit * (maybe digit *
    (oneOf ('d' :: '|' :: 'D' :: '\u00B0' :: spaces) *
    (maybe (space.star * (digit * (maybe digit * oneOf ('\x27' :: '|' :: '\u2019' :: spaces)))) *
    (maybe (space.star * (digit * (maybe digit * oneOf ('\x22' :: '|' :: '\u201d' :: spaces)))) *
    (space.star *
    (maybe (oneOf ['N', '|', 'n', 'S', 's', 'E', 'e', 'W', 'w']) *
    maybe space))))))))

/-- The signs that become a space. -/
def signs : List Char := ['D', '|', 'd', '\u00B0', '\x27', '\u2019', '\x22', '\u201d']

/-- The sign of a suffix, and the text without the suffix. -/
def takeSuffix (dmsString : List Char) : Option (Int × List Char) :=
  (dmsString.map Char.toUpper).getLast?.map fun suffix =>
    if suffix.isDigit then (1, dmsString)
    else (if suffix = 'S' ∨ suffix = 'W' then -1 else 1, trim dmsString.dropLast)

/-- The sign of a prefix, and the text without the prefix. -/
def takePrefix (dmsString : List Char) : Option (Int × List Char) :=
  dmsString.head?.map fun first =>
    if first.isDigit then (1, dmsString) else (if first = '-' then -1 else 1, dmsString.tail)

/-- The field at an index, and zero where the text has ended. -/
def field (dms : List (List Char)) (i : Nat) : Option Int :=
  match dms[i]? with
  | some word => parseInt word
  | none => some 0

/-- `fromDMS(String)`. No result is an exception. -/
def fromDMSString (dmsString : List Char) : Option Angle :=
  if regex.rmatch (dmsString ++ [' ']) then do
    let spaced := dmsString.map fun c => if c ∈ signs then ' ' else c
    let suffix ← takeSuffix (trim (squeeze spaced))
    let first ← takePrefix suffix.2
    let dms := splitSpaces first.2
    let d ← dms.head?.bind parseInt
    let m ← field dms 1
    let s ← field dms 2
    let a ← fromDMS d m s
    pure (a.multiply ((suffix.1 * first.1 : Int) : ℚ))
  else none

/-! ## What is written -/

/-- The magnitude of an angle in whole seconds of arc. -/
def seconds (x : ℚ) : Nat := ⌊x * 3600 + 1 / 2⌋.toNat

/-- The text of degrees, minutes and seconds. -/
def dmsText (negative : Bool) (d m s : Nat) : List Char :=
  (if negative then ['-'] else []) ++
    (decimal d ++ '\u00B0' :: ' ' :: (decimal m ++ '\u2019' :: ' ' :: (decimal s ++ ['\u201d'])))

theorem intCast_floor {x : ℚ} (h1 : 0 ≤ x) (h2 : x < 1000) : intCast (⌊x⌋ : ℚ) = ⌊x⌋ := by
  have h3 : 0 ≤ ⌊x⌋ := Int.floor_nonneg.2 h1
  have h4 : (⌊x⌋ : ℚ) ≤ x := Int.floor_le x
  rw [intCast_eq_floor (by exact_mod_cast h3) (by linarith), Int.floor_intCast]

theorem roundLong_eq {x : ℚ} (h1 : 0 ≤ x) (h2 : x < 60) : int (roundLong x) = ⌊x + 1 / 2⌋ := by
  have h3 : 0 ≤ ⌊x + 1 / 2⌋ := Int.floor_nonneg.2 (by linarith)
  have h4 : ⌊x + 1 / 2⌋ < 61 := Int.floor_lt.2 (by push_cast; linarith)
  exact int_roundLong (by omega) (by omega)

/-- Seconds and minutes rounded up to 60 are carried. -/
theorem fixRounding_eq {d m s : Int} (hd : 0 ≤ d) (hd' : d < 1000) (hm : 0 ≤ m) (hm' : m < 60) (hs : 0 ≤ s)
    (hs' : s ≤ 60) :
    fixRounding d m s = ((3600 * d + 60 * m + s) / 3600, (3600 * d + 60 * m + s) / 60 % 60,
      (3600 * d + 60 * m + s) % 60) := by
  rw [fixRounding]
  rw [int_eq (by omega) (by omega), int_eq (by omega) (by omega)]
  by_cases h60 : s = 60
  · rw [if_pos h60]
    by_cases hm60 : m + 1 = 60
    · rw [if_pos hm60]
      refine Prod.ext ?_ (Prod.ext ?_ ?_) <;> dsimp only <;> omega
    · rw [if_neg hm60]
      refine Prod.ext ?_ (Prod.ext ?_ ?_) <;> dsimp only <;> omega
  · rw [if_neg h60, if_neg (by dsimp only; omega)]
    refine Prod.ext ?_ (Prod.ext ?_ ?_) <;> dsimp only <;> omega

/-- The three fields are the whole seconds of the angle. -/
theorem fields_eq {x : ℚ} (h1 : 0 ≤ x) (h2 : x < 1000) :
    fields x = ((seconds x : Int) / 3600, (seconds x : Int) / 60 % 60, (seconds x : Int) % 60) := by
  have hd : 0 ≤ ⌊x⌋ := Int.floor_nonneg.2 h1
  have hd' : ⌊x⌋ < 1000 := Int.floor_lt.2 (by exact_mod_cast h2)
  have hx1 := Int.floor_le x
  have hx2 := Int.lt_floor_add_one x
  have hy1 : 0 ≤ (x - ⌊x⌋) * 60 := by linarith
  have hy2 : (x - ⌊x⌋) * 60 < 60 := by linarith
  have hm : 0 ≤ ⌊(x - ⌊x⌋) * 60⌋ := Int.floor_nonneg.2 hy1
  have hm' : ⌊(x - ⌊x⌋) * 60⌋ < 60 := Int.floor_lt.2 (by exact_mod_cast hy2)
  have hm1 := Int.floor_le ((x - ⌊x⌋) * 60)
  have hm2 := Int.lt_floor_add_one ((x - ⌊x⌋) * 60)
  rw [fields, intCast_floor h1 h2, intCast_floor hy1 (by linarith)]
  generalize ⌊(x - ⌊x⌋) * 60⌋ = m at hm hm' hm1 hm2 ⊢
  have hz1 : 0 ≤ ((x - ⌊x⌋) * 60 - m) * 60 := by linarith
  have hz2 : ((x - ⌊x⌋) * 60 - m) * 60 < 60 := by linarith
  have hs : 0 ≤ ⌊((x - ⌊x⌋) * 60 - m) * 60 + 1 / 2⌋ := Int.floor_nonneg.2 (by linarith)
  have hs' : ⌊((x - ⌊x⌋) * 60 - m) * 60 + 1 / 2⌋ < 61 := Int.floor_lt.2 (by push_cast; linarith)
  -- the seconds of the remainder and those of the degrees and minutes add up
  have hsum : ⌊x * 3600 + 1 / 2⌋ = 3600 * ⌊x⌋ + 60 * m + ⌊((x - ⌊x⌋) * 60 - m) * 60 + 1 / 2⌋ := by
    rw [show x * 3600 + 1 / 2 = ((x - ⌊x⌋) * 60 - m) * 60 + 1 / 2 +
      ((3600 * ⌊x⌋ + 60 * m : Int) : ℚ) by push_cast; ring, Int.floor_add_intCast, add_comm]
  have hnat : (seconds x : Int) = 3600 * ⌊x⌋ + 60 * m + ⌊((x - ⌊x⌋) * 60 - m) * 60 + 1 / 2⌋ := by
    rw [seconds, hsum]
    omega
  rw [roundLong_eq hz1 hz2, fixRounding_eq hd hd' hm hm' hs (by omega), ← hnat]

theorem toDMSString_eq (a : Angle) (h : |a.degrees| < 1000) :
    a.toDMSString = dmsText (decide (a.degrees < 0)) (seconds |a.degrees| / 3600) (seconds |a.degrees| / 60 % 60)
      (seconds |a.degrees| % 60) := by
  have habs : a.degrees * ((SignType.sign a.degrees : Int) : ℚ) = |a.degrees| := by
    rcases lt_trichotomy a.degrees 0 with h0 | h0 | h0
    · rw [sign_neg h0, abs_of_neg h0]
      simp
    · rw [h0]
      simp
    · rw [sign_pos h0, abs_of_pos h0]
      simp
  have hsign : (SignType.sign a.degrees : Int) = -1 ↔ a.degrees < 0 := by
    rcases lt_trichotomy a.degrees 0 with h0 | h0 | h0
    · simp [sign_neg h0, h0]
    · simp [h0]
    · simp [sign_pos h0, h0.le]
  rw [toDMSString, habs, fields_eq (abs_nonneg _) h, dmsText]
  simp only [hsign, decide_eq_true_eq, List.append_assoc, List.cons_append, List.nil_append]
  rfl

/-! ## What is read -/

theorem append_mem_two {word s : List Char} {r : RegularExpression Char} (hw : IsNumber word) (hlen : word.length ≤ 2)
    (hs : s ∈ r.matches') : word ++ s ∈ (digit * (maybe digit * r)).matches' := by
  match word, hw, hlen with
  | [], hw, _ => exact absurd rfl hw.ne_nil
  | [a], hw, _ =>
    have ha := mem_digit (hw.digits a (by simp))
    exact append_mem ha (append_mem (nil_mem_maybe digit) hs)
  | [a, b], hw, _ =>
    have ha := mem_digit (hw.digits a (by simp))
    have hb := mem_digit (hw.digits b (by simp))
    show [a] ++ ([b] ++ s) ∈ _
    exact append_mem ha (append_mem (mem_maybe hb) hs)

theorem append_mem_three {word s : List Char} {r : RegularExpression Char} (hw : IsNumber word)
    (hlen : word.length ≤ 3)
    (hs : s ∈ r.matches') : word ++ s ∈ (digit * (maybe digit * (maybe digit * r))).matches' := by
  match word, hw, hlen with
  | [], hw, _ => exact absurd rfl hw.ne_nil
  | [a], hw, _ => exact append_mem_two hw (by simp) (append_mem (nil_mem_maybe digit) hs)
  | [a, b], hw, _ => exact append_mem_two hw (by simp) (append_mem (nil_mem_maybe digit) hs)
  | [a, b, c], hw, _ =>
    have hc := mem_digit (hw.digits c (by simp))
    have hab : IsNumber [a, b] := ⟨List.cons_ne_nil a [b], fun x hx => hw.digits x (List.mem_append_left [c] hx)⟩
    show [a, b] ++ ([c] ++ s) ∈ _
    exact append_mem_two hab le_rfl (append_mem (mem_maybe hc) hs)

/-- A text with up to three digits of degrees, and two of minutes and of seconds, fits the pattern. -/
theorem regex_dmsText (negative : Bool) {d m s : Nat} (hd : d < 1000) (hm : m < 60) (hs : s < 60) :
    regex.rmatch (dmsText negative d m s ++ [' ']) = true := by
  rw [RegularExpression.rmatch_iff_matches']
  have hsplit : dmsText negative d m s ++ [' '] =
      (if negative then ['-'] else []) ++ (decimal d ++ (['\u00B0'] ++ (([' '] ++ (decimal m ++ ['\u2019'])) ++
        (([' '] ++ (decimal s ++ ['\u201d'])) ++ ([' '] ++ ([] ++ [])))))) := by
    simp [dmsText]
  have hsign : (if negative then ['-'] else []) ∈ (maybe (oneOf ['-', '|', '+'])).matches' := by
    cases negative
    · exact nil_mem_maybe _
    · exact mem_maybe (mem_oneOf (by simp))
  have hspace : [' '] ∈ space.star.matches' := mem_star (mem_oneOf (by simp [spaces]))
  rw [hsplit]
  refine append_mem hsign (append_mem_three (isNumber_decimal d) (length_decimal_le (by decide) hd) ?_)
  refine append_mem (mem_oneOf (by simp)) ?_
  refine append_mem (mem_maybe (append_mem hspace ?_)) (append_mem (mem_maybe (append_mem hspace ?_)) ?_)
  · exact append_mem_two (isNumber_decimal m) (length_decimal_le (by decide) (by omega)) (mem_oneOf (by simp))
  · exact append_mem_two (isNumber_decimal s) (length_decimal_le (by decide) (by omega)) (mem_oneOf (by simp))
  · exact append_mem hspace (append_mem (nil_mem_maybe _) (nil_mem_maybe _))

theorem not_mem_signs {c : Char} (h : c.isDigit = true) : c ∉ signs := by
  intro hc
  simp only [signs, List.mem_cons, List.not_mem_nil, or_false] at hc
  rcases hc with rfl | rfl | rfl | rfl | rfl | rfl | rfl | rfl <;> exact absurd h (by decide)

theorem map_signs {word : List Char} (hw : IsNumber word) :
    (word.map fun c => if c ∈ signs then ' ' else c) = word := by
  refine (List.map_congr_left fun c hc => ?_).trans (List.map_id word)
  rw [if_neg (not_mem_signs (hw.digits c hc))]
  rfl

/-- The signs of a text are spaces, and its words are set apart by one space. -/
theorem trim_squeeze_dmsText (negative : Bool) (d m s : Nat) :
    trim (squeeze ((dmsText negative d m s).map fun c => if c ∈ signs then ' ' else c)) =
      (if negative then ['-'] else []) ++ (decimal d ++ ' ' :: (decimal m ++ ' ' :: decimal s)) := by
  have hd := isNumber_decimal d
  have hm := isNumber_decimal m
  have hs := isNumber_decimal s
  have hmap : ((dmsText negative d m s).map fun c => if c ∈ signs then ' ' else c) =
      (if negative then ['-'] else []) ++
        (decimal d ++ ' ' :: ' ' :: (decimal m ++ ' ' :: ' ' :: (decimal s ++ [' ']))) := by
    have hmapped : ((if negative then ['-'] else []).map fun c => if c ∈ signs then ' ' else c) =
        if negative then ['-'] else [] := by
      cases negative <;> decide
    simp only [dmsText, List.map_append, List.map_cons, map_signs hd, map_signs hm, map_signs hs, hmapped]
    rfl
  have hlast : squeeze [' '] = [' '] := rfl
  have hsqueeze : squeeze (decimal d ++ ' ' :: ' ' :: (decimal m ++ ' ' :: ' ' :: (decimal s ++ [' ']))) =
      decimal d ++ ' ' :: (decimal m ++ ' ' :: (decimal s ++ [' '])) := by
    rw [squeeze_append hd, squeeze_gap hm, squeeze_gap hs, hlast]
  have hsigned : squeeze ((if negative then ['-'] else []) ++
        (decimal d ++ ' ' :: ' ' :: (decimal m ++ ' ' :: ' ' :: (decimal s ++ [' '])))) =
      ((if negative then ['-'] else []) ++ (decimal d ++ ' ' :: (decimal m ++ ' ' :: decimal s))) ++ [' '] := by
    cases negative
    · simpa using hsqueeze
    · rw [if_pos rfl, List.singleton_append, squeeze, if_neg (by decide), hsqueeze]
      simp
  rw [hmap, hsigned]
  refine trim_space ?_ ?_ (by simp [hd.ne_nil])
  · intro c hc
    cases negative
    · have hc : c ∈ (decimal d).head? := by
        rw [← List.head?_append_of_ne_nil _ hd.ne_nil]
        exact hc
      exact (not_space_of_isDigit (hd.digits c (List.mem_of_mem_head? hc))).2.1
    · have hc : some '-' = some c := hc
      cases hc
      decide
  · intro c hc
    rw [show decimal d ++ ' ' :: (decimal m ++ ' ' :: decimal s) =
      (decimal d ++ ' ' :: (decimal m ++ [' '])) ++ decimal s by simp, ← List.append_assoc,
      List.getLast?_append_of_ne_nil _ hs.ne_nil] at hc
    exact (not_space_of_isDigit (hs.digits c (List.mem_of_mem_getLast? hc))).2.1

/-- A text that ends in a number has no suffix. -/
theorem takeSuffix_of_number {s word : List Char} (hw : IsNumber word) :
    takeSuffix (s ++ word) = some (1, s ++ word) := by
  have hlast : word.getLast? = some (word.getLast hw.ne_nil) := List.getLast?_eq_some_getLast hw.ne_nil
  have hdigit := hw.digits _ (List.getLast_mem hw.ne_nil)
  generalize word.getLast hw.ne_nil = c at hlast hdigit
  have hupper : c.toUpper = c := by
    have h1 : c.toNat ≤ 57 := (Char.isDigit_iff_toNat.1 hdigit).2
    refine dif_neg fun h => ?_
    have h2 : 97 ≤ c.toNat := UInt32.le_iff_toNat_le.1 h.1
    omega
  rw [takeSuffix, List.getLast?_map, List.getLast?_append_of_ne_nil _ hw.ne_nil, hlast, Option.map_some,
    Option.map_some, hupper, if_pos hdigit]

theorem takePrefix_sign (negative : Bool) {word : List Char} (hw : IsNumber word) (s : List Char) :
    takePrefix ((if negative then ['-'] else []) ++ (word ++ s)) = some (if negative then -1 else 1, word ++ s) := by
  cases negative
  · obtain ⟨c, cs, rfl⟩ := List.exists_cons_of_ne_nil hw.ne_nil
    have hc := hw.digits c List.mem_cons_self
    exact congrArg some (if_pos hc)
  · rfl

/-- What the text of an angle is read back as. -/
theorem fromDMSString_dmsText (negative : Bool) {d m s : Nat} (hd : d < 1000) (hm : m < 60) (hs : s < 60) :
    fromDMSString (dmsText negative d m s) =
      some ⟨((d : Int).sign : ℚ) * (d + (m : ℚ) / 60 + (s : ℚ) / 3600) * (if negative then -1 else 1)⟩ := by
  have hd' := isNumber_decimal d
  have hread : splitSpaces (decimal d ++ ' ' :: (decimal m ++ ' ' :: decimal s)) =
      [decimal d, decimal m, decimal s] :=
    splitSpaces_words hd' (isNumber_decimal m) (isNumber_decimal s)
  have hfrom : fromDMS d m s = some ⟨((d : Int).sign : ℚ) * (d + (m : ℚ) / 60 + (s : ℚ) / 3600)⟩ := by
    rw [fromDMS, if_neg (by omega), if_neg (by omega), int_eq (by omega) (by omega)]
    rfl
  have hsuffix : takeSuffix ((if negative then ['-'] else []) ++
      (decimal d ++ ' ' :: (decimal m ++ ' ' :: decimal s))) =
      some (1, (if negative then ['-'] else []) ++ (decimal d ++ ' ' :: (decimal m ++ ' ' :: decimal s))) := by
    have := takeSuffix_of_number (s := (if negative then ['-'] else []) ++ (decimal d ++ ' ' :: (decimal m ++ [' '])))
      (isNumber_decimal s)
    simpa using this
  rw [fromDMSString, if_pos (regex_dmsText negative hd hm hs)]
  simp only [trim_squeeze_dmsText, hsuffix, takePrefix_sign negative hd', hread, field, List.head?_cons,
    List.getElem?_cons_succ, List.getElem?_cons_zero, Option.bind_eq_bind, Option.bind_some,
    parseInt_decimal (show d < 2 ^ 31 by omega), parseInt_decimal (show m < 2 ^ 31 by omega),
    parseInt_decimal (show s < 2 ^ 31 by omega), hfrom]
  cases negative <;> rfl

/-! ## Back and forth -/

/-- The whole seconds are the nearest. -/
theorem abs_seconds_sub {x : ℚ} (h : 0 ≤ x) : |(seconds x : ℚ) / 3600 - x| ≤ 1 / 7200 := by
  have h0 : 0 ≤ ⌊x * 3600 + 1 / 2⌋ := Int.floor_nonneg.2 (by linarith)
  have hcast : (seconds x : ℚ) = ⌊x * 3600 + 1 / 2⌋ := by
    rw [seconds]
    exact_mod_cast Int.toNat_of_nonneg h0
  have h1 := Int.floor_le (x * 3600 + 1 / 2)
  have h2 := Int.lt_floor_add_one (x * 3600 + 1 / 2)
  rw [hcast, abs_le]
  constructor <;> linarith

theorem le_seconds_iff {x : ℚ} {n : Nat} (hn : 0 < n) : n ≤ seconds x ↔ (n : ℚ) - 1 / 2 ≤ x * 3600 := by
  have h : n ≤ ⌊x * 3600 + 1 / 2⌋.toNat ↔ (n : Int) ≤ ⌊x * 3600 + 1 / 2⌋ := by omega
  rw [seconds, h, Int.le_floor]
  push_cast
  constructor <;> intro h <;> linarith

/-- The whole seconds of a magnitude below one thousand degrees. -/
theorem seconds_le {x : ℚ} (h : x < 1000) : seconds x ≤ 3600000 := by
  by_contra hlt
  have h1 := (le_seconds_iff (x := x) (Nat.succ_pos 3600000)).1 (Nat.lt_of_not_le hlt)
  push_cast at h1
  linarith

/-- The text is read as an angle within half a second, on the same side of zero where the angle is not that small. -/
def RoundTrips (a : Angle) : Prop :=
  regex.rmatch (a.toDMSString ++ [' ']) = true ∧
    ∃ b, fromDMSString a.toDMSString = some b ∧ |b.degrees - a.degrees| ≤ 1 / 7200 ∧
      (1 / 7200 ≤ |a.degrees| → SignType.sign b.degrees = SignType.sign a.degrees)

/-- The text of an angle below 1000 degrees, once it is rounded to seconds, is read back field by field. -/
theorem fromDMSString_toDMSString {a : Angle} (h : |a.degrees| < 1000) (hs : seconds |a.degrees| < 3600000) :
    regex.rmatch (a.toDMSString ++ [' ']) = true ∧
      fromDMSString a.toDMSString = some ⟨(((seconds |a.degrees| / 3600 : Nat) : Int).sign : ℚ) *
        ((seconds |a.degrees| : ℚ) / 3600) * (if a.degrees < 0 then -1 else 1)⟩ := by
  rw [toDMSString_eq a h]
  generalize seconds |a.degrees| = n at hs ⊢
  have hd : n / 3600 < 1000 := by omega
  have hm : n / 60 % 60 < 60 := by omega
  have hn : n % 60 < 60 := by omega
  have hsum : ((n / 3600 : Nat) : ℚ) + ((n / 60 % 60 : Nat) : ℚ) / 60 + ((n % 60 : Nat) : ℚ) / 3600 = n / 3600 := by
    have : 3600 * (n / 3600) + 60 * (n / 60 % 60) + n % 60 = n := by omega
    have := congrArg (fun k : Nat => (k : ℚ)) this
    push_cast at this ⊢
    linarith
  refine ⟨regex_dmsText _ hd hm hn, ?_⟩
  rw [fromDMSString_dmsText _ hd hm hn, hsum]
  simp only [decide_eq_true_eq]

/-- One thousand degrees are refused. -/
theorem regex_thousand (negative : Bool) : regex.rmatch (dmsText negative 1000 0 0 ++ [' ']) = false := by
  cases negative <;> decide +kernel

/-- An angle below 1000 degrees survives exactly where its seconds are zero or at least one degree, and stay
below 1000 degrees when they are rounded. -/
theorem dmsString_roundTrips_iff (a : Angle) (h : |a.degrees| < 1000) :
    RoundTrips a ↔ |a.degrees| < 1 / 7200 ∨ (1 - 1 / 7200 ≤ |a.degrees| ∧ |a.degrees| < 1000 - 1 / 7200) := by
  have hzero : 1 ≤ seconds |a.degrees| ↔ 1 / 7200 ≤ |a.degrees| := by
    rw [le_seconds_iff Nat.one_pos]
    push_cast
    constructor <;> intro h <;> linarith
  have hone : 3600 ≤ seconds |a.degrees| ↔ 1 - 1 / 7200 ≤ |a.degrees| := by
    rw [le_seconds_iff (by decide)]
    push_cast
    constructor <;> intro h <;> linarith
  have hmax : 3600000 ≤ seconds |a.degrees| ↔ 1000 - 1 / 7200 ≤ |a.degrees| := by
    rw [le_seconds_iff (by decide)]
    push_cast
    constructor <;> intro h <;> linarith
  have hclose := abs_seconds_sub (abs_nonneg a.degrees)
  by_cases h3 : 3600000 ≤ seconds |a.degrees|
  · -- the degrees have a fourth digit
    have heq : seconds |a.degrees| = 3600000 := le_antisymm (seconds_le h) h3
    have hge := hmax.1 h3
    refine iff_of_false (fun hr => ?_) ?_
    · have hr := hr.1
      rw [toDMSString_eq a h, heq, regex_thousand] at hr
      exact absurd hr Bool.false_ne_true
    · rintro (h' | ⟨-, h'⟩) <;> linarith
  have hlt : |a.degrees| < 1000 - 1 / 7200 := not_le.1 fun hge => h3 (hmax.2 hge)
  obtain ⟨haccept, hread⟩ := fromDMSString_toDMSString h (Nat.lt_of_not_le h3)
  by_cases h1 : 3600 ≤ seconds |a.degrees|
  · -- the sign is that of the degrees
    refine iff_of_true ⟨haccept, _, hread, ?_, fun hsmall => ?_⟩ (Or.inr ⟨hone.1 h1, hlt⟩)
    · rw [Int.sign_eq_one_of_pos (by omega)]
      by_cases hneg : a.degrees < 0
      · rw [if_pos hneg]
        rw [abs_of_neg hneg, abs_le] at *
        push_cast
        constructor <;> linarith [hclose.1, hclose.2]
      · rw [if_neg hneg]
        rw [abs_of_nonneg (not_lt.1 hneg), abs_le] at *
        push_cast
        constructor <;> linarith [hclose.1, hclose.2]
    · have hpos : (0 : ℚ) < (seconds |a.degrees| : ℚ) / 3600 := by
        have : (3600 : ℚ) ≤ seconds |a.degrees| := by exact_mod_cast h1
        linarith
      rw [Int.sign_eq_one_of_pos (by omega)]
      rcases lt_trichotomy a.degrees 0 with hneg | h0 | hpos'
      · rw [if_pos hneg, sign_neg hneg, sign_neg]
        push_cast
        linarith
      · rw [h0, abs_zero] at hsmall
        linarith
      · rw [if_neg hpos'.le.not_gt, sign_pos hpos', sign_pos]
        push_cast
        linarith
  · -- no whole degree, and nothing carries the sign or the size
    have hb : fromDMSString a.toDMSString = some ⟨0⟩ := by
      rw [hread, Nat.div_eq_of_lt (Nat.lt_of_not_le h1)]
      simp
    by_cases h0 : 1 ≤ seconds |a.degrees|
    · have hge := hzero.1 h0
      refine iff_of_false ?_ ?_
      · rintro ⟨-, b, hb', -, hsign⟩
        cases hb.symm.trans hb'
        have hzero' := hsign hge
        rw [sign_zero, eq_comm, sign_eq_zero_iff] at hzero'
        rw [hzero', abs_zero] at hge
        linarith
      · rintro (h' | ⟨h', -⟩)
        · linarith
        · exact h1 (hone.2 h')
    · have hlt0 : |a.degrees| < 1 / 7200 := not_le.1 fun hge => h0 (hzero.2 hge)
      refine iff_of_true ⟨haccept, _, hb, ?_, fun hge => absurd hge (not_le.2 hlt0)⟩ (Or.inl hlt0)
      rw [zero_sub, abs_neg]
      exact hlt0.le

theorem roundTrips_oneDegree : RoundTrips ⟨-1⟩ :=
  (dmsString_roundTrips_iff ⟨-1⟩ (by norm_num)).2 (Or.inr (by norm_num))

/-- Half a degree is read back as zero. -/
theorem halfDegree_lost : |(⟨1 / 2⟩ : Angle).degrees| < 1000 ∧ ¬RoundTrips ⟨1 / 2⟩ := by
  refine ⟨by norm_num, ?_⟩
  rintro ⟨-, b, hb, -, hsign⟩
  have hread : fromDMSString (toDMSString ⟨1 / 2⟩) = some ⟨0⟩ := by
    have hseconds : seconds |1 / 2| = 1800 := by
      rw [abs_of_pos (by norm_num), seconds]
      norm_num
      rfl
    have := (fromDMSString_toDMSString (a := ⟨1 / 2⟩) (by norm_num) (by rw [hseconds]; decide)).2
    simp only [hseconds] at this
    rw [this]
    norm_num
  cases hread.symm.trans hb
  have hsign := hsign (by norm_num)
  rw [sign_zero, eq_comm, sign_eq_zero_iff] at hsign
  norm_num at hsign

end WorldWind.Geom.Angle
