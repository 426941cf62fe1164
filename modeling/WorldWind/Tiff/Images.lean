import WorldWind.Tiff.Geotiff
/-!
# The samples of an image

The methods for samples of one byte, stored pixel by pixel or band by band, and
which method `doRead` takes for a directory. Images and rasters are made of the
data after that.
-/

namespace WorldWind.Tiff

open Lib Lib.JavaArray Lib.JavaInt Lib.Nio

namespace TIFFReader

/-- A strip is read into the array of `buff` at `offset`, as far as the array goes. -/
def readInto (fc : FileChannel) (buff : ByteBuffer) (offset : Int) (strip : Int × Int) : Option ByteBuffer :=
  if strip.1 < 0 then none
  else
    let len := int strip.2
    let len := if int (offset + len) ≥ buff.bytes.length then int (buff.bytes.length - offset) else len
    (buff.setLimit (int (offset + len))).map fun buff => ((fc.setPosition strip.1.toNat).read buff).1

/-- One round of the loop of `readPixelInterleaved8`: the buffer and the offset. -/
def readInterleavedStrip (fc : FileChannel) (s : ByteBuffer × Int) (strip : Int × Int) : Option (ByteBuffer × Int) :=
  (readInto fc s.1 s.2 strip).map fun buff => (buff, int (s.2 + strip.2))

def readPixelInterleaved8 (fc : FileChannel) (width height samplesPerPixel : Int) (strips : List (Int × Int)) :
    Option (List (List Int8)) :=
  let length := int (width * height * samplesPerPixel)
  if length < 0 then none
  else
    (strips.foldlM (readInterleavedStrip fc) (ByteBuffer.wrap (List.replicate length.toNat 0), 0)).map fun s =>
    [s.1.bytes]

/-- The variables of `readPlanar8`. The buffer wraps the array of the current band. -/
structure Planar8 where
  data : List (List Int8)
  band : Nat
  offset : Int
  numRows : Int
  buff : ByteBuffer

/-- One round of the loop of `readPlanar8`. -/
def readPlanarStrip8 (fc : FileChannel) (height rowsPerStrip : Int) (s : Planar8) (strip : Int × Int) :
    Option Planar8 :=
  (readInto fc s.buff s.offset strip).bind fun buff =>
  let data := s.data.set s.band buff.bytes
  let numRows := int (s.numRows + rowsPerStrip)
  if numRows ≥ height ∧ s.band < data.length - 1 then
    data[s.band + 1]?.map fun array => ⟨data, s.band + 1, 0, 0, ByteBuffer.wrap array⟩
  else some ⟨data, s.band, int (s.offset + strip.2), numRows, buff⟩

def readPlanar8 (fc : FileChannel) (width height samplesPerPixel : Int) (strips : List (Int × Int))
    (rowsPerStrip : Int) :
    Option (List (List Int8)) :=
  if samplesPerPixel < 0 ∨ int (width * height) < 0 then none
  else
    let data := List.replicate samplesPerPixel.toNat (List.replicate (int (width * height)).toNat 0)
    data[0]?.bind fun array =>
    (strips.foldlM (readPlanarStrip8 fc height rowsPerStrip) ⟨data, 0, 0, 0, ByteBuffer.wrap array⟩).map fun s =>
    s.data

end TIFFReader

/-! ## The method -/

inductive Method where
  | readPixelInterleaved8
  | readPlanar8
  | readPlanar16
  | readPlanarFloat32
  deriving DecidableEq, Repr

/-- The call of the method. -/
def Method.call (method : Method) (fc : FileChannel) (order : ByteOrder) (width height samplesPerPixel : Int)
    (strips : List (Int × Int)) (rowsPerStrip : Int) : Option (List (List Int)) :=
  match method with
  | .readPixelInterleaved8 =>
      (TIFFReader.readPixelInterleaved8 fc width height samplesPerPixel strips).map fun data =>
      data.map fun band => band.map Int8.toInt
  | .readPlanar8 => (TIFFReader.readPlanar8 fc width height samplesPerPixel strips rowsPerStrip).map fun data =>
      data.map fun band => band.map Int8.toInt
  | .readPlanar16 => TIFFReader.readPlanar16 fc order width height samplesPerPixel strips rowsPerStrip
  | .readPlanarFloat32 => TIFFReader.readPlanarFloat32 fc order width height samplesPerPixel strips rowsPerStrip

namespace GeotiffReader

/-- The method `doRead` takes for an image without GeoKeys. Colours are of one
byte, and other images have one sample for a pixel; the rest is refused. -/
def selectMethod (tiff : BaselineTiff) : Option Method :=
  if tiff.photometric = 2 ∨ tiff.photometric = 5 ∨ tiff.photometric = 3 then
    tiff.bitsPerSample.bind fun bitsPerSample =>
      if ∃ bits ∈ bitsPerSample, bits ≠ 8 then none
      else if tiff.planarConfig = 1 then some .readPixelInterleaved8
      else some .readPlanar8
  else if tiff.samplesPerPixel ≠ 1 then none
  else
    let sampleFormat := (tiff.sampleFormat.bind List.head?).getD 0
    let bitsPerSample := (tiff.bitsPerSample.bind List.head?).getD 0
    if sampleFormat = 1 ∨ sampleFormat = 2 then
      if bitsPerSample = 16 then some .readPlanar16
      else if bitsPerSample = 8 then some .readPlanar8
      else none
    else if sampleFormat = 3 ∧ bitsPerSample = 32 then some .readPlanarFloat32
    else none

/-- The samples `doRead` reads. Compressed strips are left out. -/
def readSamples (fc : FileChannel) (order : ByteOrder) (ifd : List (Option TiffIFDEntry)) :
    Option (List (List Int)) :=
  let tiff := BaselineTiff.extract ifd
  if tiff.width ≤ 0 ∨ tiff.height ≤ 0 ∨ tiff.samplesPerPixel ≤ 0 ∨ tiff.photometric ≤ -1 ∨ 6 < tiff.photometric ∨
      tiff.rowsPerStrip ≤ 0 ∨ (tiff.planarConfig ≠ 2 ∧ tiff.planarConfig ≠ 1) then none
  else
    (stripTable Tag.STRIP_OFFSETS ifd).bind fun stripOffsets =>
    (stripTable Tag.STRIP_BYTE_COUNTS ifd).bind fun stripCounts =>
    stripOffsets.bind fun stripOffsets =>
    stripCounts.bind fun stripCounts =>
    if stripOffsets = [] ∨ stripCounts = [] then none
    else
      (getByTag Tag.COMPRESSION ifd).bind fun compression =>
      (getByTag Tag.TILE_WIDTH ifd).bind fun tileWidth =>
      if (∃ c ∈ compression, c.asLong ≠ some 1) ∨ tileWidth ≠ none ∨
        stripCounts.length < stripOffsets.length then none
      else
        (selectMethod tiff).bind fun method =>
          method.call fc order tiff.width tiff.height tiff.samplesPerPixel
            (stripOffsets.zip stripCounts) tiff.rowsPerStrip

end GeotiffReader

end WorldWind.Tiff
