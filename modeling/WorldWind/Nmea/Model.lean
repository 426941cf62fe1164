import WorldWind.Lib.Decimal
/-!
# `formats/nmea/NmeaWriter.java`, `NmeaReader.java`, `NmeaTrackPoint.java`

The writer puts each point of a track into one GGA sentence. The reader takes
sentences off a stream, splits them into words and makes points of them again.
Doubles are exact numbers. A stream is a list of bytes, in the writer's default
encoding. A call that throws has no result.
-/

namespace WorldWind.Nmea

open Lib.Decimal

/-! ## Writing -/

structure TrackPoint where
  time : Option (List Char)
  latitude : ℚ
  longitude : ℚ
  elevation : ℚ

/-- A segment and each of its points may be null. -/
abbrev TrackSegment := Option (List (Option TrackPoint))

structure Track where
  segments : List TrackSegment

/-- US-ASCII, with a question mark for every other character. -/
def encode (s : List Char) : List Nat := s.map fun c => if c.toNat < 128 then c.toNat else '?'.toNat

def formatTime : Option (List Char) → List Char
  | some time => time
  | none => []

/-- "DDMM.MMM,[N|S]". -/
def formatLatitude (degrees : ℚ) : List Char :=
  let d := ⌊|degrees|⌋₊
  let m := 60 * (|degrees| - d)
  zeroPad 2 (decimal d) ++ fixedPadded 6 3 m ++ ',' :: (if degrees < 0 then ['S'] else ['N'])

/-- "DDDMM.MMM,[E|W]". -/
def formatLongitude (degrees : ℚ) : List Char :=
  let d := ⌊|degrees|⌋₊
  let m := 60 * (|degrees| - d)
  zeroPad 3 (decimal d) ++ fixedPadded 6 3 m ++ ',' :: (if degrees < 0 then ['W'] else ['E'])

def formatElevation (metersElevation : ℚ) : List Char := fixed 1 metersElevation ++ [',', 'M']

def computeChecksum (s : List Char) : Nat := s.foldl (fun chksum c => chksum ^^^ (0xFF &&& c.toNat)) 0

/-- `Integer.toHexString`. -/
def formatChecksum (checksum : Nat) : List Char := Nat.toDigits 16 checksum

/-- The fields of the sentence. The fix, the satellites, the dilution, the update and the station are left blank. -/
def sentenceFields (time : Option (List Char)) (lat lon altitude geoidHeight : ℚ) : List Char :=
  ['G', 'P'] ++ ['G', 'G', 'A'] ++ [','] ++ formatTime time ++ [','] ++ formatLatitude lat ++ [','] ++
    formatLongitude lon ++ [','] ++ [] ++ [','] ++ [] ++ [','] ++ [] ++ [','] ++ formatElevation altitude ++ [','] ++
    formatElevation geoidHeight ++ [','] ++ [] ++ [','] ++ [] ++ [',']

def writeGGASentence (time : Option (List Char)) (lat lon altitude geoidHeight : ℚ) (out : List Nat) : List Nat :=
  let sb := sentenceFields time lat lon altitude geoidHeight
  let sb := sb ++ '*' :: formatChecksum (computeChecksum sb)
  out ++ encode ['$'] ++ encode sb ++ encode ['\r', '\n']

/-- Points of either kind are written alike. -/
def doWriteTrackPoint (point : Option TrackPoint) (out : List Nat) : List Nat :=
  match point with
  | some p => writeGGASentence p.time p.latitude p.longitude p.elevation 0 out
  | none => out

def doWriteTrackSegment (segment : TrackSegment) (out : List Nat) : List Nat :=
  match segment with
  | some points => points.foldl (fun out tp => doWriteTrackPoint tp out) out
  | none => out

def doWriteTrack (track : Track) (out : List Nat) : List Nat :=
  track.segments.foldl (fun out ts => doWriteTrackSegment ts out) out

def writeTrack (track : Track) : List Nat := doWriteTrack track []

/-! ## Points -/

structure NmeaTrackPoint where
  latitude : ℚ := 0
  longitude : ℚ := 0
  altitude : ℚ := 0
  geoidHeight : ℚ := 0
  time : Option (List Char) := none

def NmeaTrackPoint.elevation (p : NmeaTrackPoint) : ℚ := p.altitude + p.geoidHeight

def equalsIgnoreCase (a b : List Char) : Bool := a.map Char.toUpper == b.map Char.toUpper

/-- An angle whose degrees have `n` digits, negative in the direction `negative`. -/
def parseAngle (n : Nat) (negative : List Char) (angle direction : List Char) : Option ℚ :=
  if angle.length = 0 then some 0
  else if angle.length < n then none
  else
    (if angle.length > n then parseDouble (angle.drop n) else some 0).bind fun minutes =>
    (parseDouble (angle.take n)).map fun d =>
      let degrees := d + minutes / 60
      if equalsIgnoreCase direction negative then -degrees else degrees

def parseLatitude (angle direction : List Char) : Option ℚ := parseAngle 2 ['S'] angle direction

def parseLongitude (angle direction : List Char) : Option ℚ := parseAngle 3 ['W'] angle direction

def unitsToMeters (units : List Char) : ℚ :=
  if units = ['M'] then 1
  else if units = ['f'] then 3.2808399
  else if units = ['F'] then 0.5468066528
  else 1

def parseElevation (height units : List Char) : Option ℚ :=
  if height.length = 0 then some 0 else (parseDouble height).map (· * unitsToMeters units)

/-- A word, which throws past the end of the array. -/
def word (words : List (List Char)) (i : Nat) : Option (List Char) := words[i]?

def doGGA (words : List (List Char)) : Option NmeaTrackPoint :=
  if words.length < 6 then none
  else
    (word words 1).bind fun time =>
    (word words 2).bind fun w2 => (word words 3).bind fun w3 => (parseLatitude w2 w3).bind fun latitude =>
    (word words 4).bind fun w4 => (word words 5).bind fun w5 => (parseLongitude w4 w5).bind fun longitude =>
    (if words.length ≥ 11 then
      (word words 9).bind fun w9 => (word words 10).bind fun w10 => parseElevation w9 w10
    else some 0).bind fun altitude =>
    (if words.length ≥ 13 then
      (word words 11).bind fun w11 => (word words 12).bind fun w12 => parseElevation w11 w12
    else some 0).map fun geoidHeight => ⟨latitude, longitude, altitude, geoidHeight, some time⟩

/-- The constructor `NmeaTrackPoint(words)`. Nothing is taken from a sentence of another kind. -/
def newNmeaTrackPoint (words : List (List Char)) : Option NmeaTrackPoint :=
  (word words 0).bind fun w0 => if equalsIgnoreCase w0 ['G', 'P', 'G', 'G', 'A'] then doGGA words else some {}

/-! ## Reading -/

/-- What is left of the words without the empty ones at the end. -/
def dropTrailingEmpty (words : List (List Char)) : List (List Char) := (words.reverse.dropWhile (· = [])).reverse

/-- `sentence.split("[,*]")`. A text without a separator is a word by itself. -/
def splitWords (sentence : List Char) : List (List Char) :=
  let words := sentence.splitOnP fun c => c == ',' || c == '*'
  if words.length = 1 then words else dropTrailingEmpty words

/-- The sentence up to the next carriage return, from the last dollar before it, and the stream behind it. -/
def readSentence : List Nat → Option (List Char) → Option (List Char) × List Nat
  | [], _ => (none, [])
  | b :: stream, sb =>
    if b = 0 then readSentence stream sb
    else if b = '$'.toNat then readSentence stream (some [])
    else if b = '\r'.toNat then (sb, stream)
    else readSentence stream (sb.map (· ++ [Char.ofNat b]))

/-- A point that throws is left out. -/
def doTrackPoint (points : List NmeaTrackPoint) (words : List (List Char)) : List NmeaTrackPoint :=
  match newNmeaTrackPoint words with
  | some point => points ++ [point]
  | none => points

def parseSentence (points : List NmeaTrackPoint) (sentence : List Char) : Option (List NmeaTrackPoint) :=
  let words := splitWords sentence
  (word words 0).map fun w0 =>
    if equalsIgnoreCase w0 ['G', 'P', 'G', 'G', 'A'] then doTrackPoint points words else points

theorem readSentence_length (stream : List Nat) (sb : Option (List Char)) {sentence : List Char} {rest : List Nat}
    (h : readSentence stream sb = (some sentence, rest)) : rest.length < stream.length := by
  induction stream generalizing sb with
  | nil => cases h
  | cons b stream ih =>
    rw [readSentence] at h
    split at h
    · exact Nat.lt_succ_of_lt (ih _ h)
    · split at h
      · exact Nat.lt_succ_of_lt (ih _ h)
      · split at h
        · cases h
          exact Nat.lt_succ_self _
        · exact Nat.lt_succ_of_lt (ih _ h)

/-- Sentences are read until there is none. -/
def doReadStream (points : List NmeaTrackPoint) (stream : List Nat) : Option (List NmeaTrackPoint) :=
  match _h : readSentence stream none with
  | (none, _) => some points
  | (some sentence, rest) => (parseSentence points sentence).bind fun points => doReadStream points rest
termination_by stream.length
decreasing_by exact readSentence_length _ _ _h

/-- The points that a new reader has after `readStream`. -/
def readStream (stream : List Nat) : Option (List NmeaTrackPoint) := doReadStream [] stream

/-- The points that a new reader has after `readFile`, which throws where there are none. -/
def readFile (file : List Nat) : Option (List NmeaTrackPoint) :=
  (doReadStream [] file).bind fun points => if points.length = 0 then none else some points

end WorldWind.Nmea
