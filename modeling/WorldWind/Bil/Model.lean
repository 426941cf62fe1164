import WorldWind.Bil.WorldFile
import WorldWind.Lib.JavaFloat
/-!
# `data/ByteBufferRaster.java`, `data/BILRasterWriter.java`, `data/BILRasterReader.java`

The writer puts the bytes of a raster into one file, its place into a world
file and its shape into a header. The reader makes a raster of the bytes from
what the other two say. A buffer begins at position zero, and the reader's
raster is the one it has before it is rectified.
-/

namespace WorldWind.Bil

open Geom Lib.JavaInt Lib.JavaFloat Lib.Nio Lib.Scanner

/-! ## Rasters -/

/-- `Double.MAX_VALUE`. -/
def maxValue : ℚ := (2 - 1 / 2 ^ 52) * 2 ^ 1023

def DataType.size : DataType → Nat
  | .INT8 => 1
  | .INT16 => 2
  | .INT32 => 4
  | .FLOAT32 => 4

/-- A raster over the bytes of a buffer, with the values it was made with. -/
structure ByteBufferRaster where
  width : Int
  height : Int
  byteBuffer : List Int8
  order : ByteOrder
  dataType : DataType
  values : AVList

namespace ByteBufferRaster

def getSector (raster : ByteBufferRaster) : Option Sector :=
  match raster.values .SECTOR with
  | some (.sector s) => some s
  | _ => none

def getTransparentValue (raster : ByteBufferRaster) : ℚ :=
  match raster.values .MISSING_DATA_SIGNAL with
  | some (.double x) => x
  | _ => maxValue

/-- The number of elements in the buffer. -/
def length (raster : ByteBufferRaster) : Nat := raster.byteBuffer.length / raster.dataType.size

def indexFor (raster : ByteBufferRaster) (x y : Int) : Int := int (x + int (y * raster.width))

/-- The bytes of an element; an index outside the buffer throws. -/
def element (raster : ByteBufferRaster) (index : Int) : Option (List Int8) :=
  if 0 ≤ index ∧ index < raster.length then
    some ((raster.byteBuffer.drop (raster.dataType.size * index.toNat)).take raster.dataType.size)
  else none

/-- The number in the bytes of an element. -/
def toDouble (dataType : DataType) (order : ByteOrder) (bytes : List Int8) : JavaDouble :=
  match dataType with
  | .INT8 => .finite ((bytes.headD 0).toInt : ℤ)
  | .INT16 => .finite (shortOf order bytes : ℤ)
  | .INT32 => .finite (intOf order bytes : ℤ)
  | .FLOAT32 => floatOf (uintOf order bytes)

def getDoubleAtPosition (raster : ByteBufferRaster) (row col : Int) : Option JavaDouble :=
  if row < 0 ∨ col < 0 ∨ row > raster.height - 1 ∨ col > raster.width - 1 then none
  else (raster.element (raster.indexFor col row)).map (toDouble raster.dataType raster.order)

end ByteBufferRaster

/-- The constructor `ByteBufferRaster(width, height, sector, byteBuffer, list)` with a type and an order in the list.
The entries of the list come last, but for the width and the height, which stay. -/
def newByteBufferRaster (width height : Int) (sector : Option Sector) (byteBuffer : List Int8) (list : AVList) :
    Option ByteBufferRaster :=
  match list .DATA_TYPE, list .BYTE_ORDER with
  | some (.dataType dataType), some (.byteOrder order) =>
    if width < 0 ∨ height < 0 then none
    else if ((byteBuffer.length / dataType.size : Nat) : Int) < int (width * height) then none
    else
      some ⟨width, height, byteBuffer, order, dataType, fun key =>
        if key = .WIDTH then some (.int width)
        else if key = .HEIGHT then some (.int height)
        else if key = .SECTOR ∧ ¬ list.hasKey .SECTOR then sector.map .sector
        else list key⟩
  | _, _ => none

/-! ## Writing -/

variable (t : DoubleText)

structure Files where
  bil : List Int8
  blw : List Char
  hdr : List Char

/-- A line of six in a world file. -/
def printDouble (x : ℚ) : List Char := t.print x ++ ['\n']

def writeWorldFile (sector : Sector) (width height : Int) : List Char :=
  let xPixelSize := sector.deltaLon.degrees / width
  let yPixelSize := -sector.deltaLat.degrees / height
  let xLocation := sector.minLongitude.degrees
  let yLocation := sector.maxLatitude.degrees
  printDouble t xPixelSize ++ printDouble t 0 ++ printDouble t 0 ++ printDouble t yPixelSize ++
    printDouble t xLocation ++
    printDouble t yLocation

/-- A key, spaces up to column 15 and a word. -/
def line (key word : List Char) : List Char := key ++ List.replicate (15 - key.length) ' ' ++ word ++ ['\n']

/-- A line for the missing-data value that there is. -/
def missingLine (missing : Option ℚ) : List Char :=
  match missing with
  | some o => line NODATA (t.print o)
  | none => []

def bitsOf : DataType → Int
  | .INT8 => 8
  | .INT16 => 16
  | .INT32 | .FLOAT32 => 32

def writeHdrFile (width height : Int) (byteOrder : ByteOrder) (dataType : DataType) (missing : Option ℚ) :
    List Char :=
  let nBits := bitsOf dataType
  let rowBytes := int (width * (nBits / 8))
  line BYTEORDER (if byteOrder = .bigEndian then "M".toList else "I".toList) ++
    line "LAYOUT".toList "BIL".toList ++
    line NROWS (printInt height) ++
    line NCOLS (printInt width) ++
    line NBANDS (printInt 1) ++
    line NBITS (printInt nBits) ++
    line BANDROWBYTES (printInt rowBytes) ++
    line TOTALROWBYTES (printInt rowBytes) ++
    line "BANDGAPBYTES".toList (printInt 0) ++
    missingLine t missing

/-- The missing-data value of a raster that has one. -/
def missingDataValue (raster : ByteBufferRaster) : Option ℚ :=
  let d := raster.getTransparentValue
  if d ≠ maxValue then some d else none

/-- A raster without a sector is refused once its bytes are written. -/
def doWrite (raster : ByteBufferRaster) : Option Files :=
  raster.getSector.map fun sector =>
    ⟨raster.byteBuffer, writeWorldFile t sector raster.width raster.height,
      writeHdrFile t raster.width raster.height raster.order raster.dataType (missingDataValue raster)⟩

/-! ## Reading -/

/-- Whether `validateMetadata` finds nothing missing. -/
def validMetadata (params : AVList) : Bool :=
  (params.getInt .WIDTH).isSome && (params.getInt .HEIGHT).isSome &&
    (match params .SECTOR with | some (.sector _) => true | _ => false) &&
    (match params .BYTE_ORDER with | some (.byteOrder _) => true | _ => false) &&
    (match params .PIXEL_FORMAT with | some (.pixelFormat .ELEVATION) => true | _ => false) &&
    (match params .DATA_TYPE with | some (.dataType _) => true | _ => false)

/-- `doRead` up to the rectification. The other files of the directory are in the order in which they are listed. -/
def doRead (bil : List Int8) (worldFiles : List File) (params : AVList) : Option ByteBufferRaster :=
  (if validMetadata params then some params
    else readWorldFiles t worldFiles (params.setValue .FILE_SIZE (.int bil.length))).bind fun params =>
  (params.getInt .WIDTH).bind fun width => (params.getInt .HEIGHT).bind fun height =>
    let sector := match params .SECTOR with
      | some (.sector s) => some s
      | _ => none
    let params := if params.hasKey .PIXEL_FORMAT then params else params.setValue .PIXEL_FORMAT
      (.pixelFormat .ELEVATION)
    newByteBufferRaster width height sector bil params

/-- The listing of the two files that stand beside the bytes. -/
def Files.list (files : Files) (hdrFirst : Bool) : List File :=
  if hdrFirst then [.hdrFile files.hdr, .worldFile files.blw] else [.worldFile files.blw, .hdrFile files.hdr]

/-- A raster is written, and what is written is read without further parameters. -/
def writeAndRead (raster : ByteBufferRaster) (hdrFirst : Bool) : Option ByteBufferRaster :=
  (doWrite t raster).bind fun files => doRead t files.bil (files.list hdrFirst) .empty

end WorldWind.Bil
