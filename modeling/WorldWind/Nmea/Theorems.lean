import WorldWind.Nmea.Model
/-!
# What the writer writes is read back

A sentence is the only thing between a dollar and a carriage return, so the
reader takes off the stream the sentences that were written, one for each
point. The words of a sentence have no separator in them, so none is shifted,
and each number is read as it was rounded.
-/

namespace WorldWind.Nmea

open Lib.Decimal

/-! ## Characters -/

/-- Digits, letters, signs and points: nothing that ends a word or a sentence. -/
def Plain (s : List Char) : Prop := ∀ c ∈ s, 45 ≤ c.toNat ∧ c.toNat ≤ 122

instance (s : List Char) : Decidable (Plain s) := List.decidableBAll _ s

theorem Plain.append {s t : List Char} (hs : Plain s) (ht : Plain t) : Plain (s ++ t) := fun c hc =>
  (List.mem_append.1 hc).elim (hs c) (ht c)

theorem plain_of_isDigit {s : List Char} (h : s.all Char.isDigit = true) : Plain s := by
  intro c hc
  have hd := List.all_eq_true.1 h c hc
  rw [Char.isDigit, Bool.and_eq_true, decide_eq_true_eq, decide_eq_true_eq] at hd
  have h1 : 48 ≤ c.toNat := hd.1
  have h2 : c.toNat ≤ 57 := hd.2
  exact ⟨h1.trans' (by decide), h2.trans (by decide)⟩

theorem plain_decimal (n : Nat) : Plain (decimal n) := plain_of_isDigit (all_isDigit_decimal n)

theorem plain_zeroPad {s : List Char} (h : Plain s) (width : Nat) : Plain (zeroPad width s) := by
  refine Plain.append (fun c hc => ?_) h
  rw [List.eq_of_mem_replicate hc]
  decide

theorem plain_fixedAbs (n : Nat) (x : ℚ) : Plain (fixedAbs n x) := by
  rw [fixedAbs, List.append_cons]
  exact ((plain_decimal _).append (by decide)).append (plain_zeroPad (plain_decimal _) n)

theorem plain_fixed (n : Nat) (x : ℚ) : Plain (fixed n x) := by
  refine Plain.append ?_ (plain_fixedAbs n x)
  split <;> decide

/-- A checksum is a byte. -/
theorem computeChecksum_lt (s : List Char) : computeChecksum s < 256 := by
  have h : ∀ (s : List Char) (n : Nat), n < 256 →
      s.foldl (fun chksum c => chksum ^^^ (0xFF &&& c.toNat)) n < 256 := by
    intro s
    induction s with
    | nil => exact fun n hn => hn
    | cons c s ih =>
      intro n hn
      exact ih _ (Nat.xor_lt_two_pow (n := 8) hn (Nat.and_le_left.trans_lt (by decide)))
  exact h s 0 (by decide)

theorem plain_formatChecksum (s : List Char) : Plain (formatChecksum (computeChecksum s)) := by
  have h : ∀ n < 256, Plain (formatChecksum n) := by decide +kernel
  exact h _ (computeChecksum_lt s)

/-! ## Words -/

/-- Degrees and minutes of an angle. -/
def angleText (n : Nat) (degrees : ℚ) : List Char :=
  zeroPad n (decimal ⌊|degrees|⌋₊) ++ fixedPadded 6 3 (60 * (|degrees| - ⌊|degrees|⌋₊))

def direction (negative positive : Char) (degrees : ℚ) : List Char := if degrees < 0 then [negative] else [positive]

theorem plain_angleText (n : Nat) (degrees : ℚ) : Plain (angleText n degrees) :=
  (plain_zeroPad (plain_decimal _) n).append (plain_zeroPad (plain_fixedAbs _ _) 6)

theorem plain_direction {negative positive : Char} (hn : Plain [negative]) (hp : Plain [positive]) (degrees : ℚ) :
    Plain (direction negative positive degrees) := by
  rw [direction]
  split
  · exact hn
  · exact hp

/-- The words of the sentence of a point before its checksum. -/
def fieldWords (p : TrackPoint) : List (List Char) :=
  [['G', 'P', 'G', 'G', 'A'], formatTime p.time, angleText 2 p.latitude, direction 'S' 'N' p.latitude,
    angleText 3 p.longitude, direction 'W' 'E' p.longitude, [], [], [], fixed 1 p.elevation, ['M'], fixed 1 0,
      ['M'], [],
    []]

def fields (p : TrackPoint) : List Char := sentenceFields p.time p.latitude p.longitude p.elevation 0

/-- Each word of a sentence is followed by a comma. -/
theorem fields_eq (p : TrackPoint) : fields p = (fieldWords p).flatMap (· ++ [',']) := by
  have hlat : formatLatitude p.latitude = angleText 2 p.latitude ++ ',' :: direction 'S' 'N' p.latitude := by
    rw [formatLatitude, angleText, direction]
  have hlon : formatLongitude p.longitude = angleText 3 p.longitude ++ ',' :: direction 'W' 'E' p.longitude := by
    rw [formatLongitude, angleText, direction]
  unfold fields sentenceFields formatElevation fieldWords
  simp only [hlat, hlon, List.flatMap_cons, List.flatMap_nil, List.append_assoc, List.cons_append, List.nil_append]

/-- The points that a track can hold. -/
structure TrackPoint.Valid (p : TrackPoint) : Prop where
  latitude : -90 ≤ p.latitude ∧ p.latitude ≤ 90
  longitude : -180 ≤ p.longitude ∧ p.longitude ≤ 180
  time : ∀ time ∈ p.time, ∀ c ∈ time, c.isDigit = true ∨ c = '.'

theorem TrackPoint.Valid.plain_time {p : TrackPoint} (h : p.Valid) : Plain (formatTime p.time) := by
  cases htime : p.time with
  | none => exact fun c hc => nomatch hc
  | some time =>
    intro c hc
    rcases h.time time htime c hc with hd | rfl
    · exact plain_of_isDigit (s := [c]) (by simp [hd]) c (List.mem_singleton_self c)
    · decide

theorem plain_fieldWords {p : TrackPoint} (h : p.Valid) : ∀ w ∈ fieldWords p, Plain w := by
  simp only [fieldWords, List.forall_mem_cons]
  exact ⟨by decide, h.plain_time, plain_angleText _ _, plain_direction (by decide) (by decide) _, plain_angleText _ _,
    plain_direction (by decide) (by decide) _, by decide, by decide, by decide, plain_fixed _ _, by decide,
    plain_fixed _ _, by decide, by decide, by decide, fun w hw => nomatch hw⟩

/-- The text of a sentence. -/
def sentence (p : TrackPoint) : List Char := fields p ++ '*' :: formatChecksum (computeChecksum (fields p))

/-- What the framing relies on: no character of a sentence ends it or begins another. -/
theorem framed_sentence {p : TrackPoint} (h : p.Valid) : ∀ c ∈ sentence p, 42 ≤ c.toNat ∧ c.toNat ≤ 122 := by
  have hplain : ∀ {s : List Char}, Plain s → ∀ c ∈ s, 42 ≤ c.toNat ∧ c.toNat ≤ 122 := fun hs c hc =>
    ⟨(hs c hc).1.trans' (by decide), (hs c hc).2⟩
  intro c hc
  rw [sentence, fields_eq, List.mem_append, List.mem_flatMap, List.mem_cons] at hc
  rcases hc with ⟨w, hw, hc⟩ | rfl | hc
  · rw [List.mem_append, List.mem_singleton] at hc
    rcases hc with hc | rfl
    · exact hplain (plain_fieldWords h w hw) c hc
    · decide
  · decide
  · exact hplain (plain_formatChecksum _) c hc

/-! ## Splitting -/

theorem separator_of_plain {s : List Char} (h : Plain s) : ∀ c ∈ s, (c == ',' || c == '*') = false := by
  intro c hc
  have := (h c hc).1
  rw [Bool.or_eq_false_iff, beq_eq_false_iff_ne, beq_eq_false_iff_ne]
  constructor
  · rintro rfl
    exact absurd this (by decide)
  · rintro rfl
    exact absurd this (by decide)

theorem splitOnP_words (words : List (List Char)) (h : ∀ w ∈ words, Plain w) (s : List Char) :
    (words.flatMap (· ++ [',']) ++ s).splitOnP (fun c => c == ',' || c == '*') =
      words ++ s.splitOnP fun c => c == ',' || c == '*' := by
  induction words with
  | nil => rfl
  | cons w words ih =>
    have happend : ((w :: words).flatMap (· ++ [',']) ++ s) = w ++ ',' :: (words.flatMap (· ++ [',']) ++ s) := by
      rw [List.flatMap_cons, List.append_assoc, List.append_assoc, List.singleton_append]
    rw [happend, List.splitOnP_append_cons_of_forall_mem (separator_of_plain (h w List.mem_cons_self)) _ rfl,
      ih fun w' hw' => h w' (List.mem_cons_of_mem _ hw'), List.cons_append]

theorem formatChecksum_ne_nil (n : Nat) : formatChecksum n ≠ [] := Nat.toDigits_ne_nil

/-- The words of a sentence are those it was put together from, and its checksum. -/
theorem splitWords_sentence {p : TrackPoint} (h : p.Valid) :
    splitWords (sentence p) = fieldWords p ++ [[], formatChecksum (computeChecksum (fields p))] := by
  have hsplit : (sentence p).splitOnP (fun c => c == ',' || c == '*') =
      fieldWords p ++ [[], formatChecksum (computeChecksum (fields p))] := by
    rw [sentence]
    conv_lhs => rw [fields_eq p]
    rw [splitOnP_words _ (plain_fieldWords h), ← List.nil_append ('*' :: _),
      List.splitOnP_append_cons_of_forall_mem (List.forall_mem_nil _) _ rfl, ← fields_eq,
      List.splitOnP_eq_singleton (separator_of_plain (plain_formatChecksum _))]
  rw [splitWords, hsplit, if_neg (by simp [fieldWords]), dropTrailingEmpty]
  have hlast : decide (formatChecksum (computeChecksum (fields p)) = []) = false :=
    decide_eq_false (formatChecksum_ne_nil _)
  rw [List.reverse_append, List.reverse_cons, List.reverse_singleton, List.singleton_append, List.cons_append,
    List.dropWhile_cons, hlast]
  simp

/-! ## Numbers -/

/-- An angle as it is rounded. -/
def roundedAngle (degrees : ℚ) : ℚ :=
  let magnitude := ⌊|degrees|⌋₊ + rounded 3 (60 * (|degrees| - ⌊|degrees|⌋₊)) / 60
  if degrees < 0 then -magnitude else magnitude

theorem minutes_nonneg (degrees : ℚ) : 0 ≤ 60 * (|degrees| - ⌊|degrees|⌋₊) := by
  have := Nat.floor_le (abs_nonneg degrees)
  linarith

theorem parseAngle_angleText {n : Nat} (hn : 0 < n) {degrees : ℚ} (h : |degrees| < 10 ^ n) {negative positive : Char}
    (hne : equalsIgnoreCase [positive] [negative] = false) :
    parseAngle n [negative] (angleText n degrees) (direction negative positive degrees) =
      some (roundedAngle degrees) := by
  have hlt : ⌊|degrees|⌋₊ < 10 ^ n := by
    rw [Nat.floor_lt (abs_nonneg _)]
    exact_mod_cast h
  have hlen : (zeroPad n (decimal ⌊|degrees|⌋₊)).length = n := length_zeroPad (length_decimal_le hn hlt)
  have hminutes : 0 < (fixedPadded 6 3 (60 * (|degrees| - ⌊|degrees|⌋₊))).length := by
    rw [fixedPadded, zeroPad, fixedAbs]
    simp
  have hangle : (angleText n degrees).length = n + (fixedPadded 6 3 (60 * (|degrees| - ⌊|degrees|⌋₊))).length := by
    rw [angleText, List.length_append, hlen]
  rw [parseAngle, if_neg (by omega), if_neg (by omega), if_pos (by omega)]
  have hdrop : (angleText n degrees).drop n = fixedPadded 6 3 (60 * (|degrees| - ⌊|degrees|⌋₊)) := by
    rw [angleText, List.drop_append_of_le_length hlen.ge, List.drop_of_length_le hlen.le, List.nil_append]
  have htake : (angleText n degrees).take n = zeroPad n (decimal ⌊|degrees|⌋₊) := by
    rw [angleText, List.take_append_of_le_length hlen.ge, List.take_of_length_le hlen.le]
  rw [hdrop, htake, parseDouble_fixedPadded 6 (by decide), parseDouble_zeroPad, Option.bind_some, Option.map_some,
    roundedAngle, direction]
  congr 1
  by_cases hneg : degrees < 0
  · simp only [if_pos hneg]
    exact if_pos (by rw [equalsIgnoreCase, beq_self_eq_true])
  · simp only [if_neg hneg]
    exact if_neg (by rw [hne]; exact Bool.false_ne_true)

/-- An elevation as it is rounded. -/
def roundedElevation (x : ℚ) : ℚ := if x < 0 then -rounded 1 x else rounded 1 x

theorem fixed_ne_nil (n : Nat) (x : ℚ) : (fixed n x).length ≠ 0 := by
  rw [fixed, fixedAbs]
  simp

theorem parseElevation_fixed (x : ℚ) : parseElevation (fixed 1 x) ['M'] = some (roundedElevation x) := by
  rw [parseElevation, if_neg (fixed_ne_nil 1 x), parseDouble_fixed (by decide), Option.map_some, unitsToMeters,
    if_pos rfl, mul_one, roundedElevation]

/-- The point that is read for a point. -/
def readBack (p : TrackPoint) : NmeaTrackPoint :=
  ⟨roundedAngle p.latitude, roundedAngle p.longitude, roundedElevation p.elevation, roundedElevation 0,
    some (formatTime p.time)⟩

theorem doGGA_words {p : TrackPoint} (h : p.Valid) (rest : List (List Char)) :
    doGGA (fieldWords p ++ rest) = some (readBack p) := by
  have hlat : |p.latitude| < 10 ^ 2 := (abs_le.2 h.latitude).trans_lt (by norm_num)
  have hlon : |p.longitude| < 10 ^ 3 := (abs_le.2 h.longitude).trans_lt (by norm_num)
  have hsouth : equalsIgnoreCase ['N'] ['S'] = false := rfl
  have hwest : equalsIgnoreCase ['E'] ['W'] = false := rfl
  have hlength : (fieldWords p ++ rest).length = 15 + rest.length := by rw [List.length_append]; rfl
  rw [doGGA, if_neg (by omega), if_pos (by omega), if_pos (by omega)]
  simp only [fieldWords, word, List.cons_append, List.getElem?_cons_succ, List.getElem?_cons_zero, Option.bind_some,
    parseLatitude, parseLongitude, parseAngle_angleText (by decide) hlat hsouth,
    parseAngle_angleText (by decide) hlon hwest, parseElevation_fixed, Option.map_some]
  rfl

/-! ## Sentences -/

theorem parseSentence_sentence {p : TrackPoint} (h : p.Valid) (points : List NmeaTrackPoint) :
    parseSentence points (sentence p) = some (points ++ [readBack p]) := by
  have hword : ∀ rest, word (fieldWords p ++ rest) 0 = some ['G', 'P', 'G', 'G', 'A'] := fun _ => rfl
  rw [parseSentence, splitWords_sentence h, hword, Option.map_some, if_pos (by decide), doTrackPoint,
    newNmeaTrackPoint, hword, Option.bind_some, if_pos (by decide), doGGA_words h]

theorem encode_append (s t : List Char) : encode (s ++ t) = encode s ++ encode t := List.map_append

theorem readSentence_encode {s : List Char} (h : ∀ c ∈ s, 42 ≤ c.toNat ∧ c.toNat ≤ 122) (sb : List Char)
    (rest : List Nat) : readSentence (encode s ++ '\r'.toNat :: rest) (some sb) = (some (sb ++ s), rest) := by
  induction s generalizing sb with
  | nil =>
    rw [List.append_nil]
    rfl
  | cons c s ih =>
    have hc := h c List.mem_cons_self
    have hcode : encode (c :: s) = c.toNat :: encode s := by
      rw [encode, List.map_cons, if_pos (by omega)]
      rfl
    have hdollar : '$'.toNat = 36 := rfl
    have hreturn : '\r'.toNat = 13 := rfl
    rw [hcode, List.cons_append, readSentence, if_neg (by omega), if_neg (by omega), if_neg (by omega),
      Option.map_some,
      ih (fun c' hc' => h c' (List.mem_cons_of_mem _ hc')), Char.ofNat_toNat, List.append_assoc,
        List.singleton_append]

/-- What stands between two sentences is passed over. -/
theorem doReadStream_newline (points : List NmeaTrackPoint) (stream : List Nat) :
    doReadStream points ('\n'.toNat :: stream) = doReadStream points stream := by
  have hread : readSentence ('\n'.toNat :: stream) none = readSentence stream none := rfl
  rw [doReadStream.eq_def, doReadStream.eq_def points stream]
  split <;> split <;> simp_all

theorem doReadStream_sentence {s : List Char} (h : ∀ c ∈ s, 42 ≤ c.toNat ∧ c.toNat ≤ 122)
    (points : List NmeaTrackPoint) (rest : List Nat) :
    doReadStream points (encode ['$'] ++ encode s ++ encode ['\r', '\n'] ++ rest) =
      (parseSentence points s).bind fun points => doReadStream points rest := by
  have hread : readSentence (encode ['$'] ++ encode s ++ encode ['\r', '\n'] ++ rest) none =
      (some s, '\n'.toNat :: rest) := by
    have happend : encode ['$'] ++ encode s ++ encode ['\r', '\n'] ++ rest =
        '$'.toNat :: (encode s ++ '\r'.toNat :: ('\n'.toNat :: rest)) := by
      rw [List.append_assoc, List.append_assoc]
      rfl
    rw [happend, readSentence, if_neg (by decide), if_pos rfl, readSentence_encode h, List.nil_append]
  rw [doReadStream.eq_def]
  split
  · rename_i heq
    rw [hread] at heq
    cases heq
  · rename_i heq
    rw [hread] at heq
    cases heq
    simp only [doReadStream_newline]

/-! ## The track -/

/-- The points of a track that are not null, in order over all segments. -/
def Track.points (track : Track) : List TrackPoint := track.segments.flatMap fun ts => (ts.getD []).reduceOption

/-- The bytes of a point's sentence. -/
def frame (p : TrackPoint) : List Nat := encode ['$'] ++ encode (sentence p) ++ encode ['\r', '\n']

theorem doWriteTrackPoint_eq (point : Option TrackPoint) (out : List Nat) :
    doWriteTrackPoint point out = out ++ point.toList.flatMap frame := by
  cases point with
  | none => exact (List.append_nil out).symm
  | some p =>
    rw [Option.toList_some, List.flatMap_singleton, frame, ← List.append_assoc, ← List.append_assoc]
    rfl

theorem doWriteTrackSegment_eq (segment : TrackSegment) (out : List Nat) :
    doWriteTrackSegment segment out = out ++ (segment.getD []).reduceOption.flatMap frame := by
  cases segment with
  | none => exact (List.append_nil out).symm
  | some points =>
    rw [doWriteTrackSegment, Option.getD_some]
    induction points generalizing out with
    | nil => exact (List.append_nil out).symm
    | cons point points ih =>
      rw [List.foldl_cons, ih, doWriteTrackPoint_eq]
      cases point with
      | none => rw [Option.toList_none, List.flatMap_nil, List.append_nil, List.reduceOption_cons_of_none]
      | some p =>
        rw [List.reduceOption_cons_of_some, List.flatMap_cons, List.append_assoc, Option.toList_some,
          List.flatMap_singleton]

/-- The writer writes the sentence of each point, one after the other. -/
theorem writeTrack_eq (track : Track) : writeTrack track = track.points.flatMap frame := by
  have h : ∀ (segments : List TrackSegment) (out : List Nat),
      segments.foldl (fun out ts => doWriteTrackSegment ts out) out =
        out ++ (segments.flatMap fun ts => (ts.getD []).reduceOption).flatMap frame := by
    intro segments
    induction segments with
    | nil => exact fun out => (List.append_nil out).symm
    | cons ts segments ih =>
      intro out
      rw [List.foldl_cons, ih, doWriteTrackSegment_eq, List.flatMap_cons, List.flatMap_append, List.append_assoc]
  exact h track.segments []

/-- The reader takes the sentences off the stream one for one. -/
theorem doReadStream_frames (ps : List TrackPoint) (h : ∀ p ∈ ps, p.Valid) (points : List NmeaTrackPoint) :
    doReadStream points (ps.flatMap frame) = some (points ++ ps.map readBack) := by
  induction ps generalizing points with
  | nil =>
    rw [doReadStream.eq_def, List.map_nil, List.append_nil]
    rfl
  | cons p ps ih =>
    have hp := h p List.mem_cons_self
    rw [List.flatMap_cons, frame, doReadStream_sentence (framed_sentence hp), parseSentence_sentence hp,
      Option.bind_some, ih fun q hq => h q (List.mem_cons_of_mem _ hq), List.map_cons, List.append_assoc,
      List.singleton_append]

/-! ## Distance -/

/-- Half a unit of the last decimal of the minutes, in degrees. -/
def angleTolerance : ℚ := 0.0005 / 60

/-- An angle on the same side, within the tolerance. -/
structure NearAngle (x y : ℚ) : Prop where
  close : |y - x| ≤ angleTolerance
  nonneg : 0 ≤ x → 0 ≤ y
  nonpos : x ≤ 0 → y ≤ 0
  pos : angleTolerance < x → 0 < y
  neg : x < -angleTolerance → y < 0

/-- What is read for a point. -/
structure Near (p : TrackPoint) (q : NmeaTrackPoint) : Prop where
  latitude : NearAngle p.latitude q.latitude
  longitude : NearAngle p.longitude q.longitude
  elevation : |q.elevation - p.elevation| ≤ 0.05
  time : q.time = some (formatTime p.time)

theorem abs_roundedAngle_sub (x : ℚ) : |roundedAngle x - x| ≤ angleTolerance := by
  have hround := abs_le.1 (abs_rounded_sub 3 (60 * (|x| - ⌊|x|⌋₊)))
  rw [abs_of_nonneg (minutes_nonneg x)] at hround
  have htol : angleTolerance = 1 / (2 * 10 ^ 3) / 60 := by norm_num [angleTolerance]
  rw [roundedAngle, htol, abs_le]
  by_cases hneg : x < 0
  · rw [if_pos hneg]
    rw [abs_of_neg hneg] at hround ⊢
    constructor <;> linarith
  · rw [if_neg hneg]
    rw [abs_of_nonneg (not_lt.1 hneg)] at hround ⊢
    constructor <;> linarith

theorem nearAngle_rounded (x : ℚ) : NearAngle x (roundedAngle x) := by
  have hclose := abs_roundedAngle_sub x
  have hmagnitude : 0 ≤ (⌊|x|⌋₊ : ℚ) + rounded 3 (60 * (|x| - ⌊|x|⌋₊)) / 60 :=
    add_nonneg (Nat.cast_nonneg _) (div_nonneg (rounded_nonneg _ _) (by norm_num))
  have hsides := abs_le.1 hclose
  refine ⟨hclose, fun h => ?_, fun h => ?_, fun h => by linarith, fun h => by linarith⟩
  · rw [roundedAngle, if_neg (not_lt.2 h)]
    exact hmagnitude
  · rcases h.lt_or_eq with h | rfl
    · rw [roundedAngle, if_pos h]
      exact neg_nonpos.2 hmagnitude
    · norm_num [roundedAngle, rounded, scaled]

theorem abs_roundedElevation_sub (x : ℚ) : |roundedElevation x - x| ≤ 0.05 := by
  have hround := abs_le.1 (abs_rounded_sub 1 x)
  rw [roundedElevation, abs_le]
  by_cases hneg : x < 0
  · rw [if_pos hneg]
    rw [abs_of_neg hneg] at hround
    constructor <;> linarith
  · rw [if_neg hneg]
    rw [abs_of_nonneg (not_lt.1 hneg)] at hround
    constructor <;> linarith

theorem near_readBack (p : TrackPoint) : Near p (readBack p) := by
  have hzero : roundedElevation 0 = 0 := by norm_num [roundedElevation, rounded, scaled]
  refine ⟨nearAngle_rounded _, nearAngle_rounded _, ?_, rfl⟩
  rw [NmeaTrackPoint.elevation, readBack]
  simp only [hzero, add_zero]
  exact abs_roundedElevation_sub p.elevation

theorem forall₂_near (ps : List TrackPoint) : List.Forall₂ Near ps (ps.map readBack) := by
  induction ps with
  | nil => exact .nil
  | cons p ps ih => exact .cons (near_readBack p) ih

/-- Reading a written track gives one point for each point, in order, near to it. A file is refused where the track
has no points. -/
theorem readStream_writeTrack (track : Track) (h : ∀ p ∈ track.points, p.Valid) :
    ∃ points, readStream (writeTrack track) = some points ∧ List.Forall₂ Near track.points points ∧
      readFile (writeTrack track) = if track.points = [] then none else some points := by
  have hread : doReadStream [] (writeTrack track) = some (track.points.map readBack) := by
    rw [writeTrack_eq, doReadStream_frames _ h, List.nil_append]
  refine ⟨_, hread, forall₂_near _, ?_⟩
  rw [readFile, hread, Option.bind_some, List.length_map]
  split <;> rename_i hlength
  · rw [if_pos (List.length_eq_zero_iff.1 hlength)]
  · rw [if_neg fun hnil => hlength (List.length_eq_zero_iff.2 hnil)]

/-- A null segment, a null point, and a point each side of the equator. -/
def twoSides : Track :=
  ⟨[some [some ⟨none, -3 / 2, 179999999 / 1000000, -301 / 100⟩, none], none,
    some [some ⟨some ['1', '2', '.', '5'], 1 / 3, -1 / 1000, 12⟩]]⟩

theorem readStream_writeTrack_twoSides :
    ∃ points, readStream (writeTrack twoSides) = some points ∧ List.Forall₂ Near twoSides.points points ∧
      readFile (writeTrack twoSides) = if twoSides.points = [] then none else some points := by
  refine readStream_writeTrack twoSides ?_
  have hpoints : twoSides.points =
      [⟨none, -3 / 2, 179999999 / 1000000, -301 / 100⟩, ⟨some ['1', '2', '.', '5'], 1 / 3, -1 / 1000, 12⟩] := rfl
  rw [hpoints, List.forall_mem_cons, List.forall_mem_singleton]
  constructor
  · exact ⟨by norm_num, by norm_num, fun time ht => nomatch ht⟩
  · refine ⟨by norm_num, by norm_num, fun time ht => ?_⟩
    cases ht
    simp

end WorldWind.Nmea
