import WorldWind.Lib.FileChannel
import WorldWind.Lib.Grid
/-!
# `formats/dted/DTED.java`

A DTED file has three header records, of which only the first is looked at
closely, and a data record for each line of longitude. `readElevations` puts
the lines into the columns of a raster. Doubles are exact numbers. A call that
throws has no result.
-/

namespace WorldWind.Dted

open Lib.JavaArray Lib.JavaInt Lib.Nio

def REC_HEADER_SIZE : Nat := 8
def REC_CHKSUM_SIZE : Nat := 4

def DTED_UHL_SIZE : Nat := 80
def DTED_DSI_SIZE : Nat := 648
def DTED_ACC_SIZE : Nat := 2700

def DTED_UHL_OFFSET : Nat := 0
def DTED_DSI_OFFSET : Nat := DTED_UHL_OFFSET + DTED_UHL_SIZE
def DTED_ACC_OFFSET : Nat := DTED_DSI_OFFSET + DTED_DSI_SIZE
def DTED_DATA_OFFSET : Nat := DTED_ACC_OFFSET + DTED_ACC_SIZE

def DTED_NODATA_VALUE : Int := -32767

/-- `Double.MAX_VALUE`. -/
def maxValue : ℚ := (2 - 1 / 2 ^ 52) * 2 ^ 1023

/-- `Double.MIN_VALUE`, the least positive double. -/
def minValue : ℚ := 1 / 2 ^ 1074

/-! ## Strings -/

def upper (b : Int8) : Int8 := if 97 ≤ b ∧ b ≤ 122 then b - 32 else b

def equalsIgnoreCase (a b : List Int8) : Bool := a.map upper == b.map upper

/-- `10 * n + digit`. -/
def addDigit (n : Nat) (b : Int8) : Option Nat :=
  if 48 ≤ b ∧ b ≤ 57 then some (10 * n + (b.toInt - 48).toNat) else none

/-- The number that decimal digits spell. -/
def digits (s : List Int8) : Option Nat := if s = [] then none else s.foldlM addDigit 0

/-- `Integer.valueOf`. -/
def parseInt : List Int8 → Option Int
  | 45 :: s => (digits s).map fun n : Nat => -(n : Int)
  | 43 :: s => (digits s).map fun n : Nat => (n : Int)
  | s => (digits s).map fun n : Nat => (n : Int)

def trim (s : List Int8) : List Int8 :=
  ((s.dropWhile fun b => decide (0 ≤ b ∧ b ≤ 32)).reverse.dropWhile fun b => decide (0 ≤ b ∧ b ≤ 32)).reverse

/-- `Angle.fromDMS` of fields that are digits, and a hemisphere. -/
def fromDMS (d m s : List Int8) (hemisphere : List Int8) : Option ℚ :=
  (digits d).bind fun d => (digits m).bind fun m => (digits s).bind fun s =>
  if 60 ≤ m ∨ 60 ≤ s then none
  else
    -- `Math.signum(degrees)` is zero for zero degrees
    let degrees : ℚ := if d = 0 then 0 else d + m / 60 + s / 3600
    match hemisphere.map upper with
    | [78] | [69] => some degrees
    | [83] | [87] => some (-degrees)
    | _ => none

/-- `null` has no degrees, so it throws where it is used. -/
def readAngle (angle : List Int8) : Option ℚ :=
  let sb := trim angle
  match sb.length with
  | 7 => fromDMS (sb.take 2) ((sb.drop 2).take 2) ((sb.drop 4).take 2) (sb.drop 6)
  | 8 => fromDMS (sb.take 3) ((sb.drop 3).take 2) ((sb.drop 5).take 2) (sb.drop 7)
  | 9 => fromDMS (sb.take 2) ((sb.drop 2).take 2) ((sb.drop 4).take 2) (sb.drop 8)
  | 10 => fromDMS (sb.take 3) ((sb.drop 3).take 2) ((sb.drop 5).take 2) (sb.drop 9)
  | _ => none

/-! ## Headers -/

structure Metadata where
  width : Int
  height : Int
  pixelWidth : ℚ
  pixelHeight : ℚ
  minLatitude : ℚ
  maxLatitude : ℚ
  minLongitude : ℚ
  maxLongitude : ℚ

/-- A header record, which begins with its name. -/
def readHeader (theChannel : FileChannel) (offset size : Nat) (id : List Int8) : Option (List Int8 × FileChannel) :=
  let r := (theChannel.setPosition offset).read (ByteBuffer.wrap (List.replicate size 0))
  if equalsIgnoreCase (r.1.bytes.take 3) id then some (r.1.bytes, r.2) else none

/-- `new String(bytes, offset, n)`. -/
def substring (bytes : List Int8) (offset n : Nat) : List Int8 := (bytes.drop offset).take n

def readUHL (theChannel : FileChannel) (offset : Nat) : Option (Metadata × FileChannel) :=
  (readHeader theChannel offset DTED_UHL_SIZE [85, 72, 76]).bind fun uhl =>
  (parseInt (substring uhl.1 47 4)).bind fun width =>
  (parseInt (substring uhl.1 51 4)).bind fun height =>
  (readAngle (substring uhl.1 4 8)).bind fun lon =>
  (readAngle (substring uhl.1 12 8)).map fun lat =>
    let pixelWidth : ℚ := 1 / (width - 1)
    let pixelHeight : ℚ := 1 / (height - 1)
    (⟨width, height, pixelWidth, pixelHeight, lat - pixelHeight / 2, lat + 1 + pixelHeight / 2, lon - pixelWidth / 2,
      lon + 1 + pixelWidth / 2⟩, uhl.2)

def readDSI (theChannel : FileChannel) (offset : Nat) : Option FileChannel :=
  (readHeader theChannel offset DTED_DSI_SIZE [68, 83, 73]).map fun dsi => dsi.2

def readACC (theChannel : FileChannel) (offset : Nat) : Option FileChannel :=
  (readHeader theChannel offset DTED_ACC_SIZE [65, 67, 67]).map fun acc => acc.2

/-! ## Elevations -/

structure DataRaster where
  width : Nat
  height : Nat
  samples : List Int
  elevationMin : ℚ
  elevationMax : ℚ

/-- The least and the greatest elevation so far. -/
structure Extremes where
  min : ℚ
  max : ℚ

def Extremes.add (m : Extremes) (elev : Int) : Extremes :=
  if elev ≠ DTED_NODATA_VALUE then
    ⟨if (elev : ℚ) < m.min then elev else m.min, if (elev : ℚ) > m.max then elev else m.max⟩
  else m

/-- `dataChkSum += 0xFF & bb.get(i)` for the first `n` bytes. -/
def dataChkSum (bb : ByteBuffer) (n : Nat) : Option Int :=
  (List.range n).foldlM (fun sum i => (bb.getAt i).map fun b => int (sum + ubyte b)) 0

structure State where
  theChannel : FileChannel
  bb : ByteBuffer
  samples : List Int
  extremes : Extremes

/-- One round of the inner loop. -/
def readElevation (data : List Int) (width height x : Nat) (s : List Int × Extremes) (i : Nat) :
    Option (List Int × Extremes) :=
  data[i + 4]?.bind fun elev =>
  (write s.1 ((height - i - 1) * width + x) elev).map fun samples => (samples, s.2.add elev)

/-- One round of the outer loop. -/
def readRecord (width height : Nat) (s : State) (x : Nat) : Option State :=
  let recordSize := REC_HEADER_SIZE + width * 16 / 8 + REC_CHKSUM_SIZE
  let r := s.theChannel.read s.bb
  let bb := r.1.flip
  (dataChkSum bb (recordSize - REC_CHKSUM_SIZE)).bind fun sum =>
  let data := bb.asShortBuffer
  ((List.range height).foldlM (readElevation data width height x) (s.samples, s.extremes)).bind fun t =>
  data[width + REC_CHKSUM_SIZE]?.bind fun hi =>
  data[width + REC_CHKSUM_SIZE + 1]?.bind fun lo =>
  -- `(0xFFFF & hi) << 16 | (0xFFFF & lo)`
  let expectedChkSum := int (hi % 2 ^ 16 * 2 ^ 16 + lo % 2 ^ 16)
  if expectedChkSum ≠ sum then none else some ⟨r.2, bb, t.1, t.2⟩

def readElevations (theChannel : FileChannel) (offset : Nat) (metadata : Metadata) : Option DataRaster :=
  -- `ByteBufferRaster.createGeoreferencedRaster`
  if metadata.width ≤ 0 ∨ metadata.height ≤ 0 then none
  else
    let width := metadata.width.toNat
    let height := metadata.height.toNat
    let recordSize := REC_HEADER_SIZE + width * 16 / 8 + REC_CHKSUM_SIZE
    (ByteBuffer.allocate recordSize).bind fun bb =>
    ((List.range width).foldlM (readRecord width height)
      ⟨theChannel.setPosition offset, bb, List.replicate (height * width) 0, ⟨maxValue, minValue⟩⟩).map fun s =>
      ⟨width, height, s.samples, s.extremes.min, s.extremes.max⟩

def read (file : List Int8) : Option DataRaster :=
  (readUHL ⟨file, 0⟩ DTED_UHL_OFFSET).bind fun uhl =>
  (readDSI uhl.2 DTED_DSI_OFFSET).bind fun channel =>
  (readACC channel DTED_ACC_OFFSET).bind fun channel =>
  readElevations channel DTED_DATA_OFFSET uhl.1

end WorldWind.Dted
