import WorldWind.Nmea.Model
/-!
# Streams of any sentences

The reader of `Model`, with `Double.parseDouble` left open: any function from
texts to numbers, none where it throws. A line is empty or a sentence. The reader
stops at the first empty line, since `readSentence` answers it with the null that
means the end (`doReadStream_frames`); a sentence of separators alone throws; and
the factors of feet and fathoms are those of the other direction. Apart from
that, there is a point for each GGA sentence with well-formed fields
(`readsAll_iff`).
-/

namespace WorldWind.Nmea.Streams

/-! ## The reader -/

section

variable (parseDouble : List Char → Option ℚ)

def parseAngle (n : Nat) (negative : List Char) (angle direction : List Char) : Option ℚ :=
  if angle.length = 0 then some 0
  else if angle.length < n then none
  else
    (if angle.length > n then parseDouble (angle.drop n) else some 0).bind fun minutes =>
    (parseDouble (angle.take n)).map fun d =>
      let degrees := d + minutes / 60
      if equalsIgnoreCase direction negative then -degrees else degrees

def parseElevation (height units : List Char) : Option ℚ :=
  if height.length = 0 then some 0 else (parseDouble height).map (· * unitsToMeters units)

def doGGA (words : List (List Char)) : Option NmeaTrackPoint :=
  if words.length < 6 then none
  else
    (word words 1).bind fun time =>
    (word words 2).bind fun w2 => (word words 3).bind fun w3 =>
    (parseAngle parseDouble 2 ['S'] w2 w3).bind fun latitude =>
    (word words 4).bind fun w4 => (word words 5).bind fun w5 =>
    (parseAngle parseDouble 3 ['W'] w4 w5).bind fun longitude =>
    (if words.length ≥ 11 then
      (word words 9).bind fun w9 => (word words 10).bind fun w10 => parseElevation parseDouble w9 w10
    else some 0).bind fun altitude =>
    (if words.length ≥ 13 then
      (word words 11).bind fun w11 => (word words 12).bind fun w12 => parseElevation parseDouble w11 w12
    else some 0).map fun geoidHeight => ⟨latitude, longitude, altitude, geoidHeight, some time⟩

def newNmeaTrackPoint (words : List (List Char)) : Option NmeaTrackPoint :=
  (word words 0).bind fun w0 =>
  if equalsIgnoreCase w0 ['G', 'P', 'G', 'G', 'A'] then doGGA parseDouble words else some {}

def doTrackPoint (points : List NmeaTrackPoint) (words : List (List Char)) : List NmeaTrackPoint :=
  match newNmeaTrackPoint parseDouble words with
  | some point => points ++ [point]
  | none => points

def parseSentence (points : List NmeaTrackPoint) (sentence : List Char) : Option (List NmeaTrackPoint) :=
  let words := splitWords sentence
  (word words 0).map fun w0 =>
    if equalsIgnoreCase w0 ['G', 'P', 'G', 'G', 'A'] then doTrackPoint parseDouble points words else points

def doReadStream (points : List NmeaTrackPoint) (stream : List Nat) : Option (List NmeaTrackPoint) :=
  match _h : readSentence stream none with
  | (none, _) => some points
  | (some sentence, rest) => (parseSentence parseDouble points sentence).bind fun points => doReadStream points rest
termination_by stream.length
decreasing_by exact readSentence_length _ _ _h

/-- The points that a new reader has after `readStream`, which throws where there are none. -/
def readStream (stream : List Nat) : Option (List NmeaTrackPoint) := doReadStream parseDouble [] stream

end

variable {parseDouble : List Char → Option ℚ}

theorem doReadStream_end {stream rest : List Nat} (h : readSentence stream none = (none, rest))
    (points : List NmeaTrackPoint) : doReadStream parseDouble points stream = some points := by
  rw [doReadStream.eq_def]
  split
  · rfl
  · rename_i heq
    rw [h] at heq
    cases heq

theorem doReadStream_next {stream rest : List Nat} {sentence : List Char}
    (h : readSentence stream none = (some sentence, rest)) (points : List NmeaTrackPoint) :
    doReadStream parseDouble points stream =
      (parseSentence parseDouble points sentence).bind fun points => doReadStream parseDouble points rest := by
  rw [doReadStream.eq_def]
  split
  · rename_i heq
    rw [h] at heq
    cases heq
  · rename_i heq
    rw [h] at heq
    cases heq
    rfl

/-- The reader of `Model` is the one for decimal numbers. -/
theorem readStream_decimal (stream : List Nat) : Nmea.readStream stream =
    readStream Lib.Decimal.parseDouble stream := by
  have h : ∀ points stream,
      Nmea.doReadStream points stream = doReadStream Lib.Decimal.parseDouble points stream := by
    intro points stream
    induction points, stream using Nmea.doReadStream.induct with
    | case1 points stream rest hread =>
      rw [Nmea.doReadStream.eq_def, doReadStream_end hread]
      split
      · rfl
      · rename_i heq
        rw [hread] at heq
        cases heq
    | case2 points stream sentence rest hread ih =>
      rw [Nmea.doReadStream.eq_def, doReadStream_next hread]
      split
      · rename_i heq
        rw [hread] at heq
        cases heq
      · rename_i heq
        rw [hread] at heq
        cases heq
        exact congrArg _ (funext ih)
  exact h [] stream

/-! ## Lines -/

/-- A byte of a text: no end of a sentence or a line, no dollar, and not the zero that is waited at. -/
def IsText (b : Nat) : Prop := b < 256 ∧ b ≠ 0 ∧ b ≠ '$'.toNat ∧ b ≠ '\r'.toNat ∧ b ≠ '\n'.toNat

instance : DecidablePred IsText := fun _ => inferInstanceAs (Decidable (_ ∧ _))

/-- What stands between the dollar and the end of the line. -/
structure Sentence where
  bytes : List Nat
  text : ∀ b ∈ bytes, IsText b

/-- The characters that the reader makes of the bytes. -/
def Sentence.chars (s : Sentence) : List Char := s.bytes.map Char.ofNat

/-- A line is empty, or a dollar and a sentence. -/
abbrev Line := Option Sentence

def frame : Line → List Nat
  | none => ['\r'.toNat, '\n'.toNat]
  | some s => '$'.toNat :: s.bytes ++ ['\r'.toNat, '\n'.toNat]

theorem readSentence_text {bytes : List Nat} (h : ∀ b ∈ bytes, IsText b) (sb : List Char) (rest : List Nat) :
    readSentence (bytes ++ '\r'.toNat :: rest) (some sb) = (some (sb ++ bytes.map Char.ofNat), rest) := by
  induction bytes generalizing sb with
  | nil =>
    rw [List.map_nil, List.append_nil]
    rfl
  | cons b bytes ih =>
    obtain ⟨-, h0, hdollar, hreturn, -⟩ := h b List.mem_cons_self
    rw [List.cons_append, readSentence, if_neg h0, if_neg hdollar, if_neg hreturn, Option.map_some,
      ih (fun b' hb' => h b' (List.mem_cons_of_mem _ hb')), List.map_cons, List.append_assoc, List.singleton_append]

theorem readSentence_sentence (s : Sentence) (rest : List Nat) :
    readSentence (frame (some s) ++ rest) none = (some s.chars, '\n'.toNat :: rest) := by
  rw [frame, List.append_assoc, List.cons_append, readSentence, if_neg (by decide), if_pos rfl]
  exact readSentence_text s.text [] _

theorem readSentence_newline (stream : List Nat) :
    readSentence ('\n'.toNat :: stream) none = readSentence stream none := rfl

theorem doReadStream_newline (points : List NmeaTrackPoint) (stream : List Nat) :
    doReadStream parseDouble points ('\n'.toNat :: stream) = doReadStream parseDouble points stream := by
  match h : readSentence stream none with
  | (none, rest) => rw [doReadStream_end h, doReadStream_end ((readSentence_newline stream).trans h)]
  | (some sentence, rest) => rw [doReadStream_next h, doReadStream_next ((readSentence_newline stream).trans h)]

/-- The lines before the first empty one. -/
def beforeEmpty : List Line → List Sentence
  | some s :: lines => s :: beforeEmpty lines
  | _ => []

/-- The lines behind the first empty one. -/
def afterEmpty : List Line → List Line
  | some _ :: lines => afterEmpty lines
  | none :: lines => lines
  | [] => []

/-- Sentences are read up to the first empty line. -/
theorem doReadStream_frames (points : List NmeaTrackPoint) (lines : List Line) :
    doReadStream parseDouble points (lines.flatMap frame) =
      (beforeEmpty lines).foldlM (fun points s => parseSentence parseDouble points s.chars) points := by
  induction lines generalizing points with
  | nil =>
    have hend : readSentence [] none = (none, []) := rfl
    exact doReadStream_end hend points
  | cons line lines ih =>
    rw [List.flatMap_cons]
    cases line with
    | none =>
      have hend : readSentence (frame none ++ lines.flatMap frame) none =
          (none, '\n'.toNat :: lines.flatMap frame) := rfl
      exact doReadStream_end hend points
    | some s =>
      rw [doReadStream_next (readSentence_sentence s _)]
      simp only [doReadStream_newline, ih]
      rfl

/-! ## What the fields mean -/

/-- The fields of a GGA sentence, as numbers. A blank field is zero. -/
structure GgaFields where
  latitude : ℚ
  longitude : ℚ
  altitude : ℚ
  altitudeUnits : List Char
  geoidHeight : ℚ
  geoidUnits : List Char

section

variable (parseDouble)

/-- A number that may be left out. -/
def optionalNumber (text : List Char) : Option ℚ := if text = [] then some 0 else parseDouble text

/-- Degrees of `n` digits and minutes, with the sign of the direction. -/
def signedAngle (n : Nat) (negative angle direction : List Char) : Option ℚ :=
  if angle = [] then some 0
  else if angle.length < n then none
  else
    (parseDouble (angle.take n)).bind fun degrees => (optionalNumber parseDouble (angle.drop n)).map fun minutes =>
      (if equalsIgnoreCase direction negative then -1 else 1) * (degrees + minutes / 60)

/-- A height and its unit, where the sentence has both words. -/
def heightWords (words : List (List Char)) (i : Nat) : List Char × List Char :=
  if i + 2 ≤ words.length then (words.getD i [], words.getD (i + 1) []) else ([], [])

/-- The fields of a sentence, if it is a GGA sentence and they are well formed. -/
def ggaFields (words : List (List Char)) : Option GgaFields :=
  if equalsIgnoreCase (words.getD 0 []) ['G', 'P', 'G', 'G', 'A'] ∧ 6 ≤ words.length then
    (signedAngle parseDouble 2 ['S'] (words.getD 2 []) (words.getD 3 [])).bind fun latitude =>
    (signedAngle parseDouble 3 ['W'] (words.getD 4 []) (words.getD 5 [])).bind fun longitude =>
    (optionalNumber parseDouble (heightWords words 9).1).bind fun altitude =>
    (optionalNumber parseDouble (heightWords words 11).1).map fun geoidHeight =>
      ⟨latitude, longitude, altitude, (heightWords words 9).2, geoidHeight, (heightWords words 11).2⟩
  else none

end

/-- Metres in a unit: a foot, a fathom, a metre. Other words are taken for metres, as the reader does. -/
def metersPer (units : List Char) : ℚ := if units = ['f'] then 0.3048 else if units = ['F'] then 1.8288 else 1

/-- What a caller gets of a point. -/
structure Fix where
  latitude : ℚ
  longitude : ℚ
  elevation : ℚ
  deriving DecidableEq

def fixOfPoint (p : NmeaTrackPoint) : Fix := ⟨p.latitude, p.longitude, p.elevation⟩

def GgaFields.fix (factor : List Char → ℚ) (f : GgaFields) : Fix :=
  ⟨f.latitude, f.longitude, f.altitude * factor f.altitudeUnits + f.geoidHeight * factor f.geoidUnits⟩

/-! ## Sentences -/

theorem parseAngle_eq (n : Nat) (negative angle direction : List Char) :
    parseAngle parseDouble n negative angle direction = signedAngle parseDouble n negative angle direction := by
  rw [parseAngle, signedAngle]
  by_cases hnil : angle = []
  · rw [if_pos hnil, if_pos (List.length_eq_zero_iff.2 hnil)]
  rw [if_neg hnil, if_neg (mt List.length_eq_zero_iff.1 hnil)]
  by_cases hlt : angle.length < n
  · rw [if_pos hlt, if_pos hlt]
  rw [if_neg hlt, if_neg hlt, optionalNumber]
  have hdrop : angle.drop n = [] ↔ ¬angle.length > n := by
    rw [List.drop_eq_nil_iff, not_lt]
  by_cases hgt : angle.length > n
  · rw [if_pos hgt, if_neg (fun h => hdrop.1 h hgt)]
    cases parseDouble (angle.drop n) <;> cases parseDouble (angle.take n) <;> simp
  · rw [if_neg hgt, if_pos (hdrop.2 hgt)]
    cases parseDouble (angle.take n) <;> simp

theorem parseElevation_eq (height units : List Char) :
    parseElevation parseDouble height units = (optionalNumber parseDouble height).map (· * unitsToMeters units) := by
  rw [parseElevation, optionalNumber]
  by_cases hnil : height = []
  · rw [if_pos hnil, if_pos (List.length_eq_zero_iff.2 hnil), Option.map_some, zero_mul]
  · rw [if_neg hnil, if_neg (mt List.length_eq_zero_iff.1 hnil)]

theorem word_eq {words : List (List Char)} {i : Nat} (h : i < words.length) :
    word words i = some (words.getD i []) := by
  rw [word, List.getElem?_eq_getElem h, List.getD_eq_getElem _ _ h]

/-- A height of the sentence, or none. -/
theorem height_eq (words : List (List Char)) {i j k : Nat} (hj : j = i + 1) (hk : k = i + 2) :
    (if words.length ≥ k then
      (word words i).bind fun w => (word words j).bind fun u => parseElevation parseDouble w u
    else some 0) =
      (optionalNumber parseDouble (heightWords words i).1).map (· * unitsToMeters (heightWords words i).2) := by
  subst hj hk
  rw [heightWords]
  by_cases hlen : i + 2 ≤ words.length
  · rw [if_pos hlen, if_pos hlen, word_eq (by omega), word_eq (by omega), Option.bind_some, Option.bind_some,
      parseElevation_eq]
  · rw [if_neg hlen, if_neg hlen, optionalNumber, if_pos rfl, Option.map_some, zero_mul]

theorem doGGA_eq {words : List (List Char)}
    (hgga : equalsIgnoreCase (words.getD 0 []) ['G', 'P', 'G', 'G', 'A'] = true) :
    (doGGA parseDouble words).map fixOfPoint = (ggaFields parseDouble words).map (GgaFields.fix unitsToMeters) := by
  rw [doGGA, ggaFields]
  by_cases hlen : words.length < 6
  · rw [if_pos hlen, if_neg fun h => absurd h.2 (not_le.2 hlen)]
    rfl
  have hfields : equalsIgnoreCase (words.getD 0 []) ['G', 'P', 'G', 'G', 'A'] = true ∧ 6 ≤ words.length :=
    ⟨hgga, not_lt.1 hlen⟩
  rw [if_neg hlen, if_pos hfields, height_eq words (show 10 = 9 + 1 from rfl) (show 11 = 9 + 2 from rfl),
    height_eq words (show 12 = 11 + 1 from rfl) (show 13 = 11 + 2 from rfl), word_eq (by omega), word_eq (by omega),
    word_eq (by omega), word_eq (by omega), word_eq (by omega)]
  simp only [Option.bind_some, parseAngle_eq]
  cases signedAngle parseDouble 2 ['S'] (words.getD 2 []) (words.getD 3 []) with
  | none => rfl
  | some latitude =>
    cases signedAngle parseDouble 3 ['W'] (words.getD 4 []) (words.getD 5 []) with
    | none => rfl
    | some longitude =>
      cases optionalNumber parseDouble (heightWords words 9).1 with
      | none => rfl
      | some altitude => cases optionalNumber parseDouble (heightWords words 11).1 <;> rfl

/-- A sentence adds its point, and throws where there are separators only. -/
theorem parseSentence_eq (points : List NmeaTrackPoint) (sentence : List Char) :
    parseSentence parseDouble points sentence =
      if splitWords sentence = [] then none
      else some (points ++ (if equalsIgnoreCase ((splitWords sentence).getD 0 []) ['G', 'P', 'G', 'G', 'A'] then
        (doGGA parseDouble (splitWords sentence)).toList else [])) := by
  rw [parseSentence]
  by_cases hnil : splitWords sentence = []
  · rw [if_pos hnil, hnil]
    rfl
  have hlen : 0 < (splitWords sentence).length := List.length_pos_iff.2 hnil
  rw [if_neg hnil, word_eq hlen, Option.map_some]
  by_cases hgga : equalsIgnoreCase ((splitWords sentence).getD 0 []) ['G', 'P', 'G', 'G', 'A'] = true
  · rw [if_pos hgga, if_pos hgga, doTrackPoint, newNmeaTrackPoint, word_eq hlen, Option.bind_some, if_pos hgga]
    cases doGGA parseDouble (splitWords sentence) with
    | none => exact congrArg some (List.append_nil points).symm
    | some point => rfl
  · rw [if_neg hgga, if_neg hgga, List.append_nil]

/-! ## Separators alone -/

/-- A sentence of commas and asterisks, which has no word at all. -/
def SeparatorsOnly (sentence : List Char) : Prop := sentence ≠ [] ∧ ∀ c ∈ sentence, (c == ',' || c == '*') = true

instance (sentence : List Char) : Decidable (SeparatorsOnly sentence) := inferInstanceAs (Decidable (_ ∧ _))

theorem splitOnP_eq_nils {p : Char → Bool} {s : List Char} : (∀ w ∈ s.splitOnP p, w = []) ↔ ∀ c ∈ s, p c = true := by
  induction s with
  | nil => simp
  | cons c s ih =>
    rw [List.splitOnP_cons_eq_if_modifyHead, List.forall_mem_cons]
    by_cases hc : p c = true
    · rw [if_pos hc, List.forall_mem_cons, ih]
      exact and_congr (iff_of_true rfl hc) Iff.rfl
    · rw [if_neg hc]
      refine iff_of_false (fun h => ?_) fun h => hc h.1
      obtain ⟨w, ws, hw⟩ := List.exists_cons_of_ne_nil (List.splitOnP_ne_nil p s)
      rw [hw] at h
      exact List.cons_ne_nil c w (h _ List.mem_cons_self)

theorem dropTrailingEmpty_eq_nil {words : List (List Char)} : dropTrailingEmpty words = [] ↔ ∀ w ∈ words, w = [] := by
  rw [dropTrailingEmpty, List.reverse_eq_nil_iff, List.dropWhile_eq_nil_iff]
  simp only [List.mem_reverse, decide_eq_true_eq]

theorem splitWords_eq_nil {sentence : List Char} : splitWords sentence = [] ↔ SeparatorsOnly sentence := by
  rw [splitWords, SeparatorsOnly]
  by_cases hone : (sentence.splitOnP fun c => c == ',' || c == '*').length = 1
  · -- a text without a separator is a word
    rw [if_pos hone]
    refine iff_of_false (List.splitOnP_ne_nil _ _) ?_
    rintro ⟨hne, hall⟩
    obtain ⟨c, s, rfl⟩ := List.exists_cons_of_ne_nil hne
    rw [List.splitOnP_cons_eq_if_modifyHead, if_pos (hall c List.mem_cons_self), List.length_cons] at hone
    have hpos := List.length_pos_iff.2 (List.splitOnP_ne_nil (fun c => c == ',' || c == '*') s)
    omega
  · rw [if_neg hone, dropTrailingEmpty_eq_nil, splitOnP_eq_nils]
    refine (and_iff_right ?_).symm
    rintro rfl
    exact hone rfl

/-! ## Streams -/

section

variable (parseDouble)

/-- The fields of a line, if it is a GGA sentence with well-formed ones. -/
def wellFormedFields (s : Sentence) : Option GgaFields := ggaFields parseDouble (splitWords s.chars)

/-- The reader ends up with one point for each GGA sentence with well-formed fields, in the stream's order. -/
def ReadsAll (lines : List Line) : Prop :=
  ∃ points, readStream parseDouble (lines.flatMap frame) = some points ∧
    points.map fixOfPoint = (lines.reduceOption.filterMap (wellFormedFields parseDouble)).map
      (GgaFields.fix metersPer)

end

/-- How far off the factors are, for the heights of a sentence. -/
def GgaFields.unitError (f : GgaFields) : ℚ :=
  f.altitude * (unitsToMeters f.altitudeUnits - metersPer f.altitudeUnits) +
    f.geoidHeight * (unitsToMeters f.geoidUnits - metersPer f.geoidUnits)

theorem fix_eq_iff (f : GgaFields) : f.fix unitsToMeters = f.fix metersPer ↔ f.unitError = 0 := by
  rw [GgaFields.fix, GgaFields.fix, Fix.mk.injEq, and_iff_right rfl, and_iff_right rfl, GgaFields.unitError,
    ← sub_eq_zero]
  ring_nf

/-- What a sentence adds, as a caller sees it. -/
theorem map_sentence (words : List (List Char)) :
    (if equalsIgnoreCase (words.getD 0 []) ['G', 'P', 'G', 'G', 'A'] then (doGGA parseDouble words).toList
      else []).map fixOfPoint =
      (ggaFields parseDouble words).toList.map (GgaFields.fix unitsToMeters) := by
  by_cases hgga : equalsIgnoreCase (words.getD 0 []) ['G', 'P', 'G', 'G', 'A'] = true
  · rw [if_pos hgga, ← Option.toList_map, ← Option.toList_map, doGGA_eq hgga]
  · rw [if_neg hgga, ggaFields, if_neg fun h => hgga h.1]
    rfl

variable (parseDouble) in
theorem foldlM_parseSentence (sentences : List Sentence) (points : List NmeaTrackPoint) :
    (sentences.foldlM (fun points s => parseSentence parseDouble points s.chars) points).map
        (fun points => points.map fixOfPoint) =
      if ∃ s ∈ sentences, SeparatorsOnly s.chars then none
      else some (points.map fixOfPoint ++
        (sentences.filterMap (wellFormedFields parseDouble)).map (GgaFields.fix unitsToMeters)) := by
  induction sentences generalizing points with
  | nil => simp
  | cons s sentences ih =>
    rw [List.foldlM_cons, parseSentence_eq]
    by_cases hsep : SeparatorsOnly s.chars
    · rw [if_pos (splitWords_eq_nil.2 hsep), if_pos ⟨s, List.mem_cons_self, hsep⟩]
      rfl
    · rw [if_neg (mt splitWords_eq_nil.1 hsep), Option.bind_eq_bind, Option.bind_some, ih, List.map_append,
        map_sentence]
      have hexists : (∃ t ∈ s :: sentences, SeparatorsOnly t.chars) ↔ ∃ t ∈ sentences, SeparatorsOnly t.chars := by
        simp [hsep]
      have hfields : (s :: sentences).filterMap (wellFormedFields parseDouble) =
          (wellFormedFields parseDouble s).toList ++ sentences.filterMap (wellFormedFields parseDouble) := by
        cases hs : wellFormedFields parseDouble s <;> simp [hs]
      simp only [hexists, hfields, List.map_append, List.append_assoc]
      rfl

theorem reduceOption_eq (lines : List Line) :
    lines.reduceOption = beforeEmpty lines ++ (afterEmpty lines).reduceOption := by
  induction lines with
  | nil => rfl
  | cons line lines ih =>
    cases line with
    | none => rw [List.reduceOption_cons_of_none]; rfl
    | some s =>
      rw [List.reduceOption_cons_of_some, ih]
      rfl

/-- Two lists of values, one for a part of what the other is for. -/
theorem map_eq_map_append {α β : Type} {f g : α → β} {l m : List α} :
    l.map f = (l ++ m).map g ↔ m = [] ∧ ∀ x ∈ l, f x = g x := by
  constructor
  · intro h
    have hlen := congrArg List.length h
    rw [List.length_map, List.length_map, List.length_append] at hlen
    obtain rfl : m = [] := List.length_eq_zero_iff.1 (by omega)
    rw [List.append_nil] at h
    exact ⟨rfl, fun x hx => List.map_inj_left.1 h x hx⟩
  · rintro ⟨rfl, h⟩
    rw [List.append_nil]
    exact List.map_congr_left h

theorem readsAll_iff (lines : List Line) :
    ReadsAll parseDouble lines ↔
      (∀ s ∈ beforeEmpty lines, ¬SeparatorsOnly s.chars) ∧
        (∀ s, some s ∈ afterEmpty lines → wellFormedFields parseDouble s = none) ∧
        ∀ s ∈ beforeEmpty lines, ∀ f, wellFormedFields parseDouble s = some f → f.unitError = 0 := by
  have hread := foldlM_parseSentence parseDouble (beforeEmpty lines) []
  rw [← doReadStream_frames, List.map_nil, List.nil_append] at hread
  have hafter : (afterEmpty lines).reduceOption.filterMap (wellFormedFields parseDouble) = [] ↔
      ∀ s, some s ∈ afterEmpty lines → wellFormedFields parseDouble s = none := by
    rw [List.filterMap_eq_nil_iff]
    exact forall_congr' fun s => by rw [List.reduceOption_mem_iff]
  have hbefore : (∀ f ∈ (beforeEmpty lines).filterMap (wellFormedFields parseDouble),
      f.fix unitsToMeters = f.fix metersPer) ↔
        ∀ s ∈ beforeEmpty lines, ∀ f, wellFormedFields parseDouble s = some f → f.unitError = 0 := by
    simp only [List.mem_filterMap, fix_eq_iff]
    constructor
    · exact fun h s hs f hf => h f ⟨s, hs, hf⟩
    · rintro h f ⟨s, hs, hf⟩
      exact h s hs f hf
  rw [ReadsAll, readStream]
  by_cases hsep : ∃ s ∈ beforeEmpty lines, SeparatorsOnly s.chars
  · rw [if_pos hsep, Option.map_eq_none_iff] at hread
    rw [hread]
    refine iff_of_false ?_ ?_
    · rintro ⟨points, hpoints, -⟩
      cases hpoints
    · rintro ⟨hnone, -⟩
      obtain ⟨s, hs, hsep⟩ := hsep
      exact hnone s hs hsep
  · rw [if_neg hsep, Option.map_eq_some_iff] at hread
    obtain ⟨points, hpoints, hmap⟩ := hread
    rw [hpoints, and_iff_right fun s hs h => hsep ⟨s, hs, h⟩, ← hafter, ← hbefore, ← map_eq_map_append,
      ← List.filterMap_append, ← reduceOption_eq, ← hmap]
    simp

/-- A sentence one degree north and one degree east, ten metres, feet or fathoms high. -/
def oneDegree (units : Nat) (h : IsText units) : Sentence where
  bytes := "GPGGA,1,0100.0,N,00100.0,E,,,,10.0,".toList.map Char.toNat ++ [units]
  text b hb := by
    rcases List.mem_append.1 hb with hb | hb
    · have hall : ("GPGGA,1,0100.0,N,00100.0,E,,,,10.0,".toList.map Char.toNat).all fun b => IsText b := by
        decide +kernel
      exact of_decide_eq_true (List.all_eq_true.1 hall b hb)
    · exact List.mem_singleton.1 hb ▸ h

/-- A sentence behind an empty line is not read, and ten feet are read as more than thirty metres. -/
theorem emptyLine_notRead :
    ¬ReadsAll Lib.Decimal.parseDouble [none, some (oneDegree 'M'.toNat (by decide))] ∧
      ¬ReadsAll Lib.Decimal.parseDouble [some (oneDegree 'f'.toNat (by decide))] := by
  constructor
  · rintro ⟨points, hread, hpoints⟩
    rw [readStream, doReadStream_frames] at hread
    obtain rfl := Option.some.inj hread
    exact absurd (congrArg List.length hpoints) (by decide +kernel)
  · rintro ⟨points, hread, hpoints⟩
    have hcode := foldlM_parseSentence Lib.Decimal.parseDouble [oneDegree 'f'.toNat (by decide)] []
    rw [readStream, doReadStream_frames] at hread
    change (List.foldlM _ [] [oneDegree 'f'.toNat (by decide)]) = some points at hread
    have hword : ¬∃ s ∈ [oneDegree 'f'.toNat (by decide)], SeparatorsOnly s.chars := by
      rintro ⟨s, hs, -, hall⟩
      obtain rfl := List.mem_singleton.1 hs
      exact absurd (hall 'G' (List.mem_map.2 ⟨'G'.toNat, List.mem_append_left _ (by decide +kernel), rfl⟩))
        (by decide)
    rw [hread, if_neg hword, Option.map_some, hpoints, Option.some.injEq] at hcode
    exact absurd hcode (by decide +kernel)

end WorldWind.Nmea.Streams
