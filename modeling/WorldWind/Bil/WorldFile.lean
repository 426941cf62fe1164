import WorldWind.Geom
import WorldWind.Lib.Nio
import WorldWind.Lib.Scanner
/-!
# `formats/worldfile/WorldFile.java`

A world file has six numbers, a header has keys and words. `decodeWorldFiles`
scans them into a list of values and makes of these the size, the byte order,
the pixel format, the data type, the missing-data value and the sector. A call
that throws has no result. Projection files are left out.
-/

namespace WorldWind.Bil

open Geom Lib.Nio Lib.Scanner

scoped instance lawfulKeys : LawfulBEq (List Char) := inferInstance

/-! ## Values -/

/-- The types of samples; doubles are left out. -/
inductive DataType where
  | INT8
  | INT16
  | INT32
  | FLOAT32
  deriving DecidableEq

inductive PixelFormat where
  | ELEVATION
  | IMAGE
  deriving DecidableEq

/-- The keys of a header, which are in upper case, and those of `AVKey` and `WorldFile`. -/
inductive Key where
  | header (name : List Char)
  | FILE_SIZE
  | WIDTH
  | HEIGHT
  | SECTOR
  | BYTE_ORDER
  | PIXEL_FORMAT
  | DATA_TYPE
  | MISSING_DATA_SIGNAL
  | MISSING_DATA_REPLACEMENT
  | WORLD_FILE_X_PIXEL_SIZE
  | WORLD_FILE_Y_PIXEL_SIZE
  | WORLD_FILE_X_COEFFICIENT
  | WORLD_FILE_Y_COEFFICIENT
  | WORLD_FILE_X_LOCATION
  | WORLD_FILE_Y_LOCATION
  | WORLD_FILE_IMAGE_SIZE
  deriving DecidableEq

inductive Value where
  | int (n : Int)
  | double (x : ℚ)
  | string (s : List Char)
  | size (width height : Int)
  | sector (s : Sector)
  | byteOrder (order : ByteOrder)
  | pixelFormat (format : PixelFormat)
  | dataType (type : DataType)

abbrev AVList := Key → Option Value

namespace AVList

def empty : AVList := fun _ => none

def setValue (values : AVList) (key : Key) (value : Value) : AVList :=
    fun k => if k = key then some value else values k

def hasKey (values : AVList) (key : Key) : Bool := (values key).isSome

/-- `if (o != null) values.setValue(key, o)`. -/
def setIfPresent (values : AVList) (key : Key) (o : Option Value) : AVList :=
  match o with
  | some value => values.setValue key value
  | none => values

/-- `(Integer) values.getValue(key)`, unboxed. -/
def getInt (values : AVList) (key : Key) : Option Int :=
  match values key with
  | some (.int n) => some n
  | _ => none

/-- `(Double) values.getValue(key)`, unboxed. -/
def getDouble (values : AVList) (key : Key) : Option ℚ :=
  match values key with
  | some (.double x) => some x
  | _ => none

end AVList

/-! ## Words of a header -/

def NROWS : List Char := "NROWS".toList
def NCOLS : List Char := "NCOLS".toList
def NBANDS : List Char := "NBANDS".toList
def NBITS : List Char := "NBITS".toList
def BANDROWBYTES : List Char := "BANDROWBYTES".toList
def TOTALROWBYTES : List Char := "TOTALROWBYTES".toList
def SKIPBYTES : List Char := "SKIPBYTES".toList
def NODATA : List Char := "NODATA".toList
def NODATA_VALUE : List Char := "NODATA_VALUE".toList
def ULXMAP : List Char := "ULXMAP".toList
def ULYMAP : List Char := "ULYMAP".toList
def XLLCORNER : List Char := "XLLCORNER".toList
def YLLCORNER : List Char := "YLLCORNER".toList
def XLLCENTER : List Char := "XLLCENTER".toList
def YLLCENTER : List Char := "YLLCENTER".toList
def YLLCCENTER : List Char := "YLLCCENTER".toList
def XDIM : List Char := "XDIM".toList
def YDIM : List Char := "YDIM".toList
def CELLSIZE : List Char := "CELLSIZE".toList
def PIXELTYPE : List Char := "PIXELTYPE".toList
def BYTEORDER : List Char := "BYTEORDER".toList

def intKeys : List (List Char) := [NROWS, NCOLS, NBANDS, NBITS, BANDROWBYTES, TOTALROWBYTES, SKIPBYTES]

def doubleKeys : List (List Char) := [ULXMAP, ULYMAP, XLLCORNER, YLLCORNER, XLLCENTER, YLLCCENTER, XDIM, YDIM]

def toUpperCase (s : List Char) : List Char := s.map Char.toUpper

def equalsIgnoreCase (a b : List Char) : Bool := toUpperCase a == toUpperCase b

/-! ## Scanning -/

def worldFileKeys : List Key :=
  [.WORLD_FILE_X_PIXEL_SIZE, .WORLD_FILE_Y_COEFFICIENT, .WORLD_FILE_X_COEFFICIENT, .WORLD_FILE_Y_PIXEL_SIZE,
    .WORLD_FILE_X_LOCATION, .WORLD_FILE_Y_LOCATION]

variable (t : DoubleText)

def scanDoubles : List Key → List (List Char) → AVList → Option AVList
  | [], _, values => some values
  | _ :: _, [], _ => none
  | key :: keys, word :: words, values =>
    (t.nextDouble word).bind fun x => scanDoubles keys words (values.setValue key (.double x))

def scanWorldFile (file : List Char) (values : AVList) : Option AVList :=
  scanDoubles t worldFileKeys (tokens file) values

/-- The value of one key of a header. -/
def scanHdrValue (key word : List Char) (values : AVList) : Option AVList :=
  if key ∈ intKeys then (nextInt word).map fun n => values.setValue (.header key) (.int n)
  else if key = NODATA ∨ key = NODATA_VALUE then
    (t.nextDouble word).map fun nodata =>
      (values.setValue (.header key) (.double nodata)).setValue (.header NODATA) (.double nodata)
  else if key ∈ doubleKeys then (t.nextDouble word).map fun x => values.setValue (.header key) (.double x)
  else if key = CELLSIZE then
    (t.nextDouble word).map fun cellSize =>
      ((values.setValue (.header key) (.double cellSize)).setValue (.header XDIM) (.double cellSize)).setValue
        (.header YDIM) (.double cellSize)
  else some (values.setValue (.header key) (.string word))

/-- Headers without bands and bits take them from the size of the file. -/
def guessBits (values : AVList) : Option AVList :=
  if ¬ values.hasKey (.header NBANDS) ∨ ¬ values.hasKey (.header NBITS) then
    if values.hasKey .FILE_SIZE ∧ values.hasKey (.header NCOLS) ∧ values.hasKey (.header NROWS) then
      (values.getInt (.header NCOLS)).bind fun nCols => (values.getInt (.header NROWS)).bind fun nRows =>
      (values.getInt .FILE_SIZE).map fun fileSize =>
        let bits : ℚ := fileSize / nCols / nRows * 8
        if bits = 8 ∨ bits = 16 ∨ bits = 32 then
          (values.setValue (.header NBANDS) (.int 1)).setValue (.header NBITS) (.int bits.floor)
        else if bits = 24 then (values.setValue (.header NBANDS) (.int 3)).setValue (.header NBITS) (.int 8)
        else values
    else some values
  else some values

/-- A key without a value ends the scan at once. -/
def scanHdr : List (List Char) → AVList → Option AVList
  | [], values => guessBits values
  | [_], values => some values
  | key :: word :: words, values => (scanHdrValue t (toUpperCase key) word values).bind fun values =>
      scanHdr words values

def scanHdrFile (file : List Char) (values : AVList) : Option AVList := scanHdr t (tokens file) values

/-! ## Values from the files -/

/-- A size with one of its two keys missing throws. -/
def parseSize (values : AVList) : Option (Option Value) :=
  if ¬ values.hasKey (.header NROWS) ∧ ¬ values.hasKey (.header NCOLS) then some none
  else
    (values.getInt (.header NCOLS)).bind fun nCols => (values.getInt (.header NROWS)).map fun nRows =>
      some (.size nCols nRows)

def parseByteOrder (values : AVList) : Option Value :=
  match values (.header BYTEORDER) with
  | some (.string s) =>
    some (.byteOrder (if equalsIgnoreCase s "I".toList ∨ equalsIgnoreCase s "LSBFIRST".toList then .littleEndian
      else .bigEndian))
  | some _ => some (.byteOrder .bigEndian)
  | none => none

def parsePixelFormat (values : AVList) : Option Value :=
  match values.getInt (.header NBANDS), values.getInt (.header NBITS) with
  | some nBands, some nBits =>
    if nBands = 1 ∧ (nBits = 16 ∨ nBits = 32) then some (.pixelFormat .ELEVATION)
    else if nBands = 1 ∧ nBits = 8 then some (.pixelFormat .IMAGE)
    else if nBands = 3 ∧ nBits = 8 then some (.pixelFormat .IMAGE)
    else none
  | _, _ => none

/-- Thirty-two bits are taken for a `float`. -/
def parseDataType (values : AVList) : Option Value :=
  match values.getInt (.header NBITS) with
  | some nBits =>
    if nBits = 8 then some (.dataType .INT8)
    else if nBits = 16 then some (.dataType .INT16)
    else if nBits = 32 then some (.dataType .FLOAT32)
    else none
  | none =>
    match values (.header PIXELTYPE) with
    | some (.string pixelType) =>
      if equalsIgnoreCase "FLOAT".toList pixelType then some (.dataType .FLOAT32) else none
    | _ => none

def parseMissingDataValue (values : AVList) : Option Value := values (.header NODATA)

def worldFileValuesAppearGeographic (values : AVList) : Bool :=
  match values.getDouble .WORLD_FILE_X_LOCATION, values.getDouble .WORLD_FILE_Y_LOCATION,
    values.getDouble .WORLD_FILE_X_PIXEL_SIZE, values.getDouble .WORLD_FILE_Y_PIXEL_SIZE with
  | some xLocation, some yLocation, some xPixelSize, some yPixelSize =>
    Angle.isValidLongitude xPixelSize && Angle.isValidLatitude yPixelSize && Angle.isValidLongitude xLocation &&
      Angle.isValidLatitude yLocation
  | _, _, _, _ => false

/-- The sector of six numbers and a size. -/
def degreesSector (xPixelSize yPixelSize xLocation yLocation : ℚ) (imageWidth imageHeight : Int) : Sector :=
  let latOrigin := Angle.fromDegrees yLocation
  let s := yPixelSize
  let latOffset := latOrigin.addDegrees ((if s ≤ 0 then s else -s) * imageHeight)
  let lonOrigin := Angle.fromDegrees xLocation
  let lonOffset := lonOrigin.addDegrees (xPixelSize * imageWidth)
  let minLon := if lonOrigin.degrees < lonOffset.degrees then lonOrigin else lonOffset
  let maxLon := if lonOrigin.degrees < lonOffset.degrees then lonOffset else lonOrigin
  let minLat := if latOrigin.degrees < latOffset.degrees then latOrigin else latOffset
  let maxLat := if latOrigin.degrees < latOffset.degrees then latOffset else latOrigin
  ⟨minLat, maxLat, minLon, maxLon⟩

def parseDegrees (values : AVList) (imageWidth imageHeight : Int) : Option Sector :=
  if imageWidth ≤ 0 ∨ imageHeight ≤ 0 then none
  else
    (values.getDouble .WORLD_FILE_Y_LOCATION).bind fun yLocation =>
    (values.getDouble .WORLD_FILE_Y_PIXEL_SIZE).bind fun yPixelSize =>
    (values.getDouble .WORLD_FILE_X_LOCATION).bind fun xLocation =>
    (values.getDouble .WORLD_FILE_X_PIXEL_SIZE).bind fun xPixelSize =>
      let sector := degreesSector xPixelSize yPixelSize xLocation yLocation imageWidth imageHeight
      if sector.isWithinLatLonLimits then some sector else none

/-- A corner of the header's grid that two keys give, with valid coordinates. -/
def corner (values : AVList) (x y : List Char) : Option Bool :=
  if values.hasKey (.header x) ∧ values.hasKey (.header y) then
    (values.getDouble (.header x)).bind fun lon => (values.getDouble (.header y)).map fun lat =>
      Angle.isValidLongitude lon && Angle.isValidLatitude lat
  else some false

/-- The outer result is missing where the call throws, the inner one where it is null. -/
def extractSectorFromHeader (values : AVList) : Option (Option Sector) :=
  if values.hasKey (.header NROWS) ∧ values.hasKey (.header NCOLS) ∧ values.hasKey (.header XDIM) ∧
      values.hasKey (.header YDIM) then
    (values.getInt (.header NCOLS)).bind fun nCols => (values.getInt (.header NROWS)).bind fun nRows =>
    (values.getDouble (.header XDIM)).bind fun x => (values.getDouble (.header YDIM)).bind fun y =>
    let xDim := |x|
    let yDim := |y|
    (corner values XLLCORNER YLLCORNER).bind fun llCorner =>
    if llCorner then
      (values.getDouble (.header XLLCORNER)).bind fun lon => (values.getDouble (.header YLLCORNER)).map fun lat =>
        let xmin := (Angle.fromDegreesLongitude lon).degrees
        let ymin := (Angle.fromDegreesLatitude lat).degrees
        let xmax := (Angle.fromDegreesLongitude (xmin + nCols * xDim)).degrees
        let ymax := (Angle.fromDegreesLatitude (ymin + nRows * yDim)).degrees
        some (Sector.fromDegrees ymin ymax xmin xmax)
    else
      (corner values XLLCENTER YLLCCENTER).bind fun llCenter =>
      if llCenter then
        -- the latitude is asked for under a key that is not the one that was checked
        (values.getDouble (.header XLLCENTER)).bind fun lon => (values.getDouble (.header YLLCENTER)).map fun lat =>
          let xmin := (Angle.fromDegreesLongitude (lon - xDim / 2)).degrees
          let ymin := (Angle.fromDegreesLatitude (lat - yDim / 2)).degrees
          let xmax := (Angle.fromDegreesLongitude (xmin + nCols * xDim)).degrees
          let ymax := (Angle.fromDegreesLatitude (ymin + nRows * yDim)).degrees
          some (Sector.fromDegrees ymin ymax xmin xmax)
      else
        (corner values ULXMAP ULYMAP).bind fun ulMap =>
        if ulMap then
          (values.getDouble (.header ULXMAP)).bind fun lon => (values.getDouble (.header ULYMAP)).map fun lat =>
            let xmin := (Angle.fromDegreesLongitude (lon - xDim / 2)).degrees
            let ymax := (Angle.fromDegreesLatitude (lat + yDim / 2)).degrees
            let xmax := (Angle.fromDegreesLongitude (xmin + nCols * xDim)).degrees
            let ymin := (Angle.fromDegreesLatitude (ymax - nRows * yDim)).degrees
            some (Sector.fromDegrees ymin ymax xmin xmax)
        else some none
  else some none

/-! ## All files -/

/-- A file whose name ends in "w", and one whose name ends in ".hdr". -/
inductive File where
  | worldFile (text : List Char)
  | hdrFile (text : List Char)

def scanFiles : List File → AVList → Option AVList
  | [], values => some values
  | .worldFile text :: files, values => (scanWorldFile t text values).bind fun values => scanFiles files values
  | .hdrFile text :: files, values => (scanHdrFile t text values).bind fun values => scanFiles files values

/-- The size that the values hold, or the one of the header. -/
def imageSize (values : AVList) : Option (Option Value) :=
  match values .WORLD_FILE_IMAGE_SIZE with
  | some (.size width height) => some (some (.size width height))
  | _ => parseSize values

/-- Without a size, and without an image to take it from, the six numbers give no sector. -/
def worldFileSector (values : AVList) (size : Option Value) : Option (Option Sector) :=
  if worldFileValuesAppearGeographic values then
    match size with
    | some (.size width height) => (parseDegrees values width height).map some
    | _ => some none
  else some none

def decodeWorldFiles (worldFiles : List File) (values : AVList) : Option AVList :=
  (scanFiles t worldFiles values).bind fun values =>
  (imageSize values).bind fun size =>
    let values := values.setIfPresent .WORLD_FILE_IMAGE_SIZE size
    let values := values.setIfPresent .BYTE_ORDER (parseByteOrder values)
    let values := values.setIfPresent .PIXEL_FORMAT (parsePixelFormat values)
    let values := values.setIfPresent .DATA_TYPE (parseDataType values)
    let values := values.setIfPresent .MISSING_DATA_REPLACEMENT (parseMissingDataValue values)
    (worldFileSector values size).bind fun sector =>
    match sector with
    | some sector => some (values.setValue .SECTOR (.sector sector))
    | none => (extractSectorFromHeader values).map fun sector => values.setIfPresent .SECTOR (sector.map .sector)

/-- `readWorldFiles`, with the files of the directory in the order in which they are listed. -/
def readWorldFiles (worldFiles : List File) (params : AVList) : Option AVList :=
  (decodeWorldFiles t worldFiles params).map fun params =>
  match params .WORLD_FILE_IMAGE_SIZE with
  | some (.size width height) =>
    let params := if params.hasKey .WIDTH then params else params.setValue .WIDTH (.int width)
    if params.hasKey .HEIGHT then params else params.setValue .HEIGHT (.int height)
  | _ => params

end WorldWind.Bil
