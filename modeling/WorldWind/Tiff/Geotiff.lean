import WorldWind.Tiff.Ifd
/-!
# `GeotiffWriter.writeRaster` and `GeotiffReader`, for elevations

The writer puts one strip per row behind the header, then the two strip
tables, the georeferencing and the directory. The reader takes the directory
apart again and reads the strips. A float is its 32 bits and a double its 64.
A call that throws has no result.
-/

namespace WorldWind.Tiff

open Lib.JavaArray Lib.JavaInt Lib.Nio

namespace Tag

def IMAGE_WIDTH : Int := 256
def IMAGE_LENGTH : Int := 257
def BITS_PER_SAMPLE : Int := 258
def COMPRESSION : Int := 259
def PHOTO_INTERPRETATION : Int := 262
def DOCUMENT_NAME : Int := 269
def IMAGE_DESCRIPTION : Int := 270
def STRIP_OFFSETS : Int := 273
def ORIENTATION : Int := 274
def SAMPLES_PER_PIXEL : Int := 277
def ROWS_PER_STRIP : Int := 278
def STRIP_BYTE_COUNTS : Int := 279
def PLANAR_CONFIGURATION : Int := 284
def SOFTWARE_VERSION : Int := 305
def DATE_TIME : Int := 306
def TILE_WIDTH : Int := 322
def SAMPLE_FORMAT : Int := 339
def MODEL_PIXELSCALE : Int := 33550
def MODEL_TIEPOINT : Int := 33922
def GEO_KEY_DIRECTORY : Int := 34735
def GDAL_NODATA : Int := 42113

end Tag

/-! ## Rasters -/

/-- `AVKey.DATA_TYPE` of an elevation raster. -/
inductive DataType where
  | INT16
  | FLOAT32
  deriving DecidableEq, Repr

namespace DataType

def bitsPerSample : DataType → Nat
  | .INT16 => 16
  | .FLOAT32 => 32

def sampleFormat : DataType → Nat
  | .INT16 => 2
  | .FLOAT32 => 3

def bytesPerSample (t : DataType) : Nat := t.bitsPerSample / 8

/-- `putShort` and `putFloat`. -/
def sampleBytes : DataType → Int → List Int8
  | .INT16, x => shortBytes .bigEndian x
  | .FLOAT32, x => intBytes .bigEndian x

end DataType

/-- An elevation raster: its buffer has a sample for every cell. -/
structure Raster where
  dataType : DataType
  width : Nat
  height : Nat
  samples : List Int
  width_pos : 0 < width
  height_pos : 0 < height
  length_samples : width * height ≤ samples.length
  samples_range : ∀ x ∈ samples, -2 ^ (dataType.bitsPerSample - 1) ≤ x ∧ x < 2 ^ (dataType.bitsPerSample - 1)

/-- What the parameters of a raster add to its file, after `validateParameters`:
strings that are not blank as their bytes, and the values of the sector, the
pixel size, the missing data and the geo keys. -/
structure GeoParams where
  displayName : Option (List Int8)
  description : Option (List Int8)
  version : Option (List Int8)
  dateTime : Option (List Int8)
  pixelWidth : Int
  pixelHeight : Int
  minLongitude : Int
  maxLongitude : Int
  minLatitude : Int
  maxLatitude : Int
  missingData : Option (List Int8)
  epsg : Int
  inFeet : Bool
  pixelIsPoint : Bool
  deriving DecidableEq, Repr

/-- The bits of a whole number as a double. -/
def doubleBits (n : Nat) : Int :=
  if n = 0 then 0 else (1023 + Nat.log2 n) * 2 ^ 52 + (n * 2 ^ (52 - Nat.log2 n) - 2 ^ 52)

/-! ## The writer -/

namespace GeotiffWriter

def tiffHeader : List Int8 := [0x4D, 0x4D, 0, 42, 0, 0, 0, 0]

/-- The bytes of row `y`. -/
def rowBytes (raster : Raster) (y : Nat) : List Int8 :=
  (List.range raster.width).flatMap fun x =>
    raster.dataType.sampleBytes (raster.samples.getD (x + y * raster.width) 0)

/-- One strip per row, and where each one starts. -/
def writeRows (raster : Raster) (fc : FileChannel) : FileChannel × List Int :=
  (List.range raster.height).foldl
    (fun r y => (r.1.write (rowBytes raster y), r.2 ++ [int r.1.position])) (fc, [])

/-- A block of bytes with an entry that points to it. -/
structure Block where
  tag : Int
  type : Int
  count : Nat
  bytes : List Int8

def stringBlock (tag : Int) (value : Option (List Int8)) : List Block :=
  match value with
  | none => []
  | some bytes => [⟨tag, Typ.ASCII, bytes.length, bytes⟩]

def doublesBlock (tag : Int) (values : List Int) : Block :=
  ⟨tag, Typ.DOUBLE, values.length, values.flatMap (longBytes .bigEndian)⟩

def tiePoints (width height : Nat) (params : GeoParams) : List Int :=
  let p := params
  [0, 0, 0, p.minLongitude, p.maxLatitude, 0,
    doubleBits (width - 1), 0, 0, p.maxLongitude, p.maxLatitude, 0,
    doubleBits (width - 1), doubleBits (height - 1), 0, p.maxLongitude, p.minLatitude, 0,
    0, doubleBits (height - 1), 0, p.minLongitude, p.minLatitude, 0]

def geoKeys (params : GeoParams) : List Int :=
  [1, 1, 0, 7,
    1024, 0, 1, 2,
    1025, 0, 1, if params.pixelIsPoint then 2 else 1,
    2048, 0, 1, params.epsg,
    2054, 0, 1, 9102,
    4096, 0, 1, 5030,
    4099, 0, 1, if params.inFeet then 9002 else 9001]

/-- The blocks of `appendGeoTiff`, in the order they are written. -/
def geoBlocks (width height : Nat) (params : GeoParams) : List Block :=
  stringBlock Tag.DOCUMENT_NAME params.displayName ++ stringBlock Tag.IMAGE_DESCRIPTION params.description ++
  stringBlock Tag.SOFTWARE_VERSION params.version ++ stringBlock Tag.DATE_TIME params.dateTime ++
  [doublesBlock Tag.MODEL_PIXELSCALE [params.pixelWidth, params.pixelHeight, doubleBits 1],
    doublesBlock Tag.MODEL_TIEPOINT (tiePoints width height params)] ++
  stringBlock Tag.GDAL_NODATA params.missingData ++
  [⟨Tag.GEO_KEY_DIRECTORY, Typ.SHORT, (geoKeys params).length, (geoKeys params).flatMap (shortBytes .bigEndian)⟩]

/-- Writes a block and adds its entry. -/
def appendBlock (r : FileChannel × List TiffIFDEntry) (b : Block) : FileChannel × List TiffIFDEntry :=
  (r.1.write b.bytes, r.2 ++ [⟨b.tag, b.type, b.count, r.1.position, none⟩])

def appendGeoTiff (raster : Raster) (params : GeoParams) (r : FileChannel × List TiffIFDEntry) :
    FileChannel × List TiffIFDEntry :=
  (geoBlocks raster.width raster.height params).foldl appendBlock r

def entryBytes (ifd : TiffIFDEntry) : List Int8 :=
  shortBytes .bigEndian ifd.tag ++ shortBytes .bigEndian ifd.type ++ intBytes .bigEndian ifd.count ++
    if ifd.type = Typ.SHORT ∧ ifd.count = 1 then shortBytes .bigEndian ifd.valOffset ++ shortBytes .bigEndian 0
    else intBytes .bigEndian ifd.valOffset

/-- The next multiple of four. -/
def aligned (offset : Nat) : Nat := offset + if offset % 4 = 0 then 0 else 4 - offset % 4

def sortIFDs (ifds : List TiffIFDEntry) : List TiffIFDEntry := ifds.mergeSort fun a b => decide (a.tag ≤ b.tag)

def writeIFDs (fc : FileChannel) (ifds : List TiffIFDEntry) : FileChannel :=
  let offset := aligned fc.position
  let fc := (fc.setPosition offset).write (shortBytes .bigEndian ifds.length)
  let fc := fc.write ((sortIFDs ifds).flatMap entryBytes)
  let fc := fc.write (intBytes .bigEndian 0)
  (fc.setPosition 4).write (intBytes .bigEndian offset)

/-- The entries that hold their value. -/
def valueEntries (raster : Raster) : List TiffIFDEntry :=
  [⟨Tag.IMAGE_WIDTH, Typ.LONG, 1, raster.width, none⟩,
    ⟨Tag.IMAGE_LENGTH, Typ.LONG, 1, raster.height, none⟩,
    ⟨Tag.BITS_PER_SAMPLE, Typ.SHORT, 1, raster.dataType.bitsPerSample, none⟩,
    ⟨Tag.COMPRESSION, Typ.LONG, 1, 1, none⟩,
    ⟨Tag.PHOTO_INTERPRETATION, Typ.SHORT, 1, 1, none⟩,
    ⟨Tag.SAMPLES_PER_PIXEL, Typ.SHORT, 1, 1, none⟩,
    ⟨Tag.ORIENTATION, Typ.SHORT, 1, 1, none⟩,
    ⟨Tag.PLANAR_CONFIGURATION, Typ.SHORT, 1, 1, none⟩,
    ⟨Tag.SAMPLE_FORMAT, Typ.SHORT, 1, raster.dataType.sampleFormat, none⟩]

/-- The file of a raster. -/
def writeRaster (raster : Raster) (params : GeoParams) : List Int8 :=
  let rows := writeRows raster ((⟨[], 0⟩ : FileChannel).write tiffHeader)
  let stripCounts := List.replicate raster.height ((raster.width * raster.dataType.bytesPerSample : Nat) : Int)
  let fc := rows.1
  let ifds := valueEntries raster ++ [⟨Tag.STRIP_OFFSETS, Typ.LONG, raster.height, fc.position, none⟩,
    ⟨Tag.ROWS_PER_STRIP, Typ.LONG, 1, 1, none⟩]
  let fc := fc.write (rows.2.flatMap (intBytes .bigEndian))
  let ifds := ifds ++ [⟨Tag.STRIP_BYTE_COUNTS, Typ.LONG, raster.height, fc.position, none⟩]
  let fc := fc.write (stripCounts.flatMap (intBytes .bigEndian))
  let r := appendGeoTiff raster params (fc, ifds)
  (writeIFDs r.1 r.2).content

end GeotiffWriter

/-! ## Strips -/

namespace TIFFReader

/-- The bands read so far and the buffer of the current one. -/
structure Planar where
  data : List (List Int)
  band : Nat
  numRows : Int
  buff : ByteBuffer

/-- One round of the loop of `readPlanar16` and `readPlanarFloat32`. `samples`
are the samples of a buffer, `size` is the size of one, and `past` is how the
loop compares the end of a strip with the end of the buffer. -/
def readStrip (size : Nat) (samples : ByteBuffer → List Int) (past : Int → Int → Bool) (fc : FileChannel)
    (height : Int) (rowsPerStrip : Int) (s : Planar) (strip : Int × Int) : Option Planar :=
  if strip.1 < 0 then none
  else
    s.data[s.band]?.bind fun cells =>
    let len := int strip.2
    let bytes := int (cells.length * size)
    let len := if past (int (s.buff.position + len)) bytes then int (bytes - s.buff.position) else len
    (s.buff.setLimit (int (s.buff.position + len))).bind fun buff =>
    let buff := ((fc.setPosition strip.1.toNat).read buff).1
    let numRows := int (s.numRows + rowsPerStrip)
    if height ≤ numRows then
      let sbuff := samples buff.flip
      -- `sbuff.get(data[band])`
      if sbuff.length < cells.length then none
      else some ⟨s.data.set s.band (sbuff.take cells.length), s.band + 1, 0, buff.flip.clear⟩
    else some { s with numRows, buff }

def readPlanar (size : Nat) (samples : ByteBuffer → List Int) (past : Int → Int → Bool) (fc : FileChannel)
    (order : ByteOrder) (width height samplesPerPixel : Int) (strips : List (Int × Int)) (rowsPerStrip : Int) :
    Option (List (List Int)) :=
  if samplesPerPixel < 0 ∨ int (width * height) < 0 then none
  else
    (ByteBuffer.allocate (int (width * height * size))).bind fun buff =>
    (strips.foldlM (readStrip size samples past fc height rowsPerStrip)
      ⟨List.replicate samplesPerPixel.toNat (List.replicate (int (width * height)).toNat 0), 0, 0,
        { buff with order }⟩).map fun s => s.data

def readPlanar16 : FileChannel → ByteOrder → Int → Int → Int → List (Int × Int) → Int → Option (List (List Int)) :=
  readPlanar 2 ByteBuffer.asShortBuffer fun a b => decide (a > b)

def readPlanarFloat32 : FileChannel → ByteOrder → Int → Int → Int → List (Int × Int) → Int →
    Option (List (List Int)) :=
  readPlanar 4 ByteBuffer.asIntBuffer fun a b => decide (a ≥ b)

end TIFFReader

/-! ## The reader -/

@[ext] structure BaselineTiff where
  width : Int
  height : Int
  samplesPerPixel : Int
  photometric : Int
  rowsPerStrip : Int
  planarConfig : Int
  sampleFormat : Option (List Int)
  bitsPerSample : Option (List Int)
  deriving DecidableEq, Repr

namespace BaselineTiff

def new : BaselineTiff := ⟨0, 0, 0, -1, 0, 0, none, none⟩

/-- What one entry sets. An accessor that throws leaves the value as it is. -/
def extractEntry (tiff : BaselineTiff) (entry : TiffIFDEntry) : BaselineTiff :=
  if entry.tag = Tag.IMAGE_WIDTH then { tiff with width := (entry.asLong.map int).getD tiff.width }
  else if entry.tag = Tag.IMAGE_LENGTH then { tiff with height := (entry.asLong.map int).getD tiff.height }
  else if entry.tag = Tag.SAMPLES_PER_PIXEL then
    { tiff with samplesPerPixel := (entry.asLong.map int).getD tiff.samplesPerPixel }
  else if entry.tag = Tag.PHOTO_INTERPRETATION then
    { tiff with photometric := (entry.asLong.map int).getD tiff.photometric }
  else if entry.tag = Tag.ROWS_PER_STRIP then
    { tiff with rowsPerStrip := (entry.asLong.map int).getD tiff.rowsPerStrip }
  else if entry.tag = Tag.PLANAR_CONFIGURATION then
    { tiff with planarConfig := (entry.asLong.map int).getD tiff.planarConfig }
  else if entry.tag = Tag.SAMPLE_FORMAT then
    { tiff with sampleFormat := entry.getShortsAsInts.or tiff.sampleFormat }
  else if entry.tag = Tag.BITS_PER_SAMPLE then
    { tiff with bitsPerSample := entry.getShortsAsInts.or tiff.bitsPerSample }
  else tiff

/-- A `null` entry throws and is skipped. -/
def extract (ifd : List (Option TiffIFDEntry)) : BaselineTiff :=
  ifd.foldl (fun tiff entry => (entry.map (extractEntry tiff)).getD tiff) new

end BaselineTiff

/-- A raster that was read, before `ElevationsUtil.rectify`. -/
structure Elevations where
  dataType : DataType
  width : Int
  height : Int
  samples : List Int
  deriving DecidableEq, Repr

namespace GeotiffReader

/-- The entries of a directory, one after another. -/
def readEntries (order : ByteOrder) : Nat → FileChannel → List (Option TiffIFDEntry) × FileChannel
  | 0, fc => ([], fc)
  | n + 1, fc =>
    let r := TIFFIFDFactory.create fc order
    let rest := readEntries order n r.2
    (r.1 :: rest.1, rest.2)

/-- The directories. There are no more different ones than the file has bytes,
so `depth` need not be more than its length. -/
def readIFD (order : ByteOrder) : Nat → Int → FileChannel → Option (List (List (Option TiffIFDEntry)))
  | 0, _, _ => none
  | depth + 1, numEntries, fc =>
    let r := readEntries order numEntries.toNat fc
    let bb := r.2.read { ByteBuffer.wrap (List.replicate 4 0) with order }
    (TIFFIFDFactory.getUnsignedInt bb.1.flip).bind fun next =>
    if 0 < next.1 then
      let count := (bb.2.setPosition next.1.toNat).read { ByteBuffer.wrap (List.replicate 2 0) with order }
      count.1.flip.getShort.bind fun n => (readIFD order depth n.1 count.2).map fun ifds => r.1 :: ifds
    else some [r.1]

/-- The byte order and the directories of a file. -/
def readTiffHeaders (file : List Int8) : Option (ByteOrder × List (List (Option TiffIFDEntry))) :=
  let ifh := (⟨file, 0⟩ : FileChannel).read (ByteBuffer.wrap (List.replicate 8 0))
  let array := ifh.1.bytes
  (if array[0]? = some 0x4D ∧ array[1]? = some 0x4D then some ByteOrder.bigEndian
    else if array[0]? = some 0x49 ∧ array[1]? = some 0x49 then some ByteOrder.littleEndian
    else none).bind fun byteOrder =>
  (({ ByteBuffer.wrap array with order := byteOrder } : ByteBuffer).setPosition 4).bind fun buffer =>
  (TIFFIFDFactory.getUnsignedInt buffer).bind fun ifdOffset =>
  let count := (ifh.2.setPosition ifdOffset.1.toNat).read { ByteBuffer.wrap (List.replicate 2 0) with order :=
    byteOrder }
  count.1.flip.getShort.bind fun n =>
  (readIFD byteOrder (file.length + 1) n.1 count.2).map fun ifds => (byteOrder, ifds)

/-- `getByTag`. A `null` entry in front throws. -/
def getByTag (tag : Int) : List (Option TiffIFDEntry) → Option (Option TiffIFDEntry)
  | [] => some none
  | none :: _ => none
  | some entry :: ifd => if entry.tag = tag then some (some entry) else getByTag tag ifd

/-- `AVKey.DATA_TYPE` of an image whose `AVKey.PIXEL_FORMAT` is an elevation. -/
def elevationType (tiff : BaselineTiff) : Option DataType :=
  if tiff.photometric = 2 ∨ tiff.photometric = 5 ∨ tiff.photometric = 3 ∨ tiff.samplesPerPixel ≠ 1 then none
  else
    let sampleFormat := (tiff.sampleFormat.bind List.head?).getD 0
    let bitsPerSample := (tiff.bitsPerSample.bind List.head?).getD 0
    if sampleFormat = 2 ∧ bitsPerSample = 16 then some .INT16
    else if sampleFormat = 3 ∧ bitsPerSample = 32 then some .FLOAT32
    else none

/-- The strip tables. A table that cannot be read as numbers is `null`. -/
def stripTable (tag : Int) (ifd : List (Option TiffIFDEntry)) : Option (Option (List Int)) :=
  ifd.foldlM (fun table entry => entry.bind fun entry =>
    if entry.tag = tag then entry.getAsLongs else some table) none

/-- `doRead`, for elevations. -/
def doRead (fc : FileChannel) (order : ByteOrder) (ifd : List (Option TiffIFDEntry)) : Option Elevations :=
  let tiff := BaselineTiff.extract ifd
  if tiff.width ≤ 0 ∨ tiff.height ≤ 0 ∨ tiff.samplesPerPixel ≤ 0 ∨ tiff.photometric ≤ -1 ∨ 6 < tiff.photometric ∨
      tiff.rowsPerStrip ≤ 0 ∨ (tiff.planarConfig ≠ 2 ∧ tiff.planarConfig ≠ 1) then none
  else
    (stripTable Tag.STRIP_OFFSETS ifd).bind fun stripOffsets =>
    (stripTable Tag.STRIP_BYTE_COUNTS ifd).bind fun stripCounts =>
    stripOffsets.bind fun stripOffsets =>
    stripCounts.bind fun stripCounts =>
    if stripOffsets = [] ∨ stripCounts = [] then none
    else
      (getByTag Tag.COMPRESSION ifd).bind fun compression =>
      (getByTag Tag.TILE_WIDTH ifd).bind fun tileWidth =>
      -- LZW is not looked at for elevations
      if (∃ c ∈ compression, c.asLong ≠ some 1 ∧ c.asLong ≠ some 5) ∨ tileWidth ≠ none ∨
          stripCounts.length < stripOffsets.length then none
      else
        (elevationType tiff).bind fun dataType =>
        (match dataType with
          | .INT16 => TIFFReader.readPlanar16 fc order tiff.width tiff.height tiff.samplesPerPixel
              (stripOffsets.zip stripCounts) tiff.rowsPerStrip
          | .FLOAT32 => TIFFReader.readPlanarFloat32 fc order tiff.width tiff.height tiff.samplesPerPixel
              (stripOffsets.zip stripCounts) tiff.rowsPerStrip).bind fun data =>
        data[0]?.map fun samples => ⟨dataType, tiff.width, tiff.height, samples⟩

/-- The first image of a file. -/
def read (file : List Int8) : Option Elevations :=
  (readTiffHeaders file).bind fun r => r.2.head?.bind fun ifd => doRead ⟨file, 0⟩ r.1 ifd

end GeotiffReader

end WorldWind.Tiff
