import WorldWind.Bil.Model
/-!
# What comes back from a raster's files

The header and the world file are scanned as they were written. The shape comes
back, but thirty-two bits come back as a `float`, the missing-data value under
its other key, and the sector only where the pixels are small enough.
-/

namespace WorldWind.Bil

open Geom Lib.Decimal Lib.JavaInt Lib.JavaFloat Lib.Nio Lib.Scanner

/-! ## Words of the files -/

theorem tokens_line_append {key word : List Char} (hk : IsToken key) (hlen : key.length < 15) (hw : IsToken word)
    (text : List Char) : tokens (line key word ++ text) = key :: word :: tokens text :=
  tokens_line hk hw (Nat.sub_pos_of_lt hlen) text

variable (t : DoubleText)

/-- The word for a byte order. -/
def orderWord (order : ByteOrder) : List Char := if order = .bigEndian then "M".toList else "I".toList

theorem isToken_orderWord (order : ByteOrder) : IsToken (orderWord order) := by
  cases order <;> exact isToken_of_all (by decide) (by decide)

/-- The words for a missing-data value. -/
def missingWords (missing : Option ℚ) : List (List Char) :=
  match missing with
  | some o => [NODATA, t.print o]
  | none => []

theorem tokens_writeHdrFile (width height : Int) (order : ByteOrder) (dataType : DataType) (missing : Option ℚ) :
    tokens (writeHdrFile t width height order dataType missing) =
      BYTEORDER :: orderWord order :: "LAYOUT".toList :: "BIL".toList :: NROWS :: printInt height :: NCOLS ::
        printInt width :: NBANDS :: printInt 1 :: NBITS :: printInt (bitsOf dataType) :: BANDROWBYTES ::
        printInt (int (width * (bitsOf dataType / 8))) :: TOTALROWBYTES ::
        printInt (int (width * (bitsOf dataType / 8))) :: "BANDGAPBYTES".toList :: printInt 0 ::
        missingWords t missing := by
  have hend : tokens (missingLine t missing) = missingWords t missing := by
    cases missing with
    | none => rfl
    | some o =>
      have hkey : IsToken NODATA := isToken_of_all (by decide) (by decide)
      have := tokens_line_append hkey (by decide) (t.isToken o) []
      rwa [List.append_nil, tokens_nil] at this
  have hkey : ∀ {key word : List Char}, (key ≠ [] ∧ (key.all fun c => !isWhitespace c) = true ∧ key.length < 15) →
      IsToken word → ∀ text, tokens (line key word ++ text) = key :: word :: tokens text := fun hk hw text =>
    tokens_line_append (isToken_of_all hk.1 hk.2.1) hk.2.2 hw text
  have horder : (if order = ByteOrder.bigEndian then "M".toList else "I".toList) = orderWord order := rfl
  unfold writeHdrFile
  simp only [List.append_assoc, horder]
  rw [hkey (by decide) (isToken_orderWord order), hkey (by decide) (isToken_of_all (by decide) (by decide)),
    hkey (by decide) (isToken_printInt _), hkey (by decide) (isToken_printInt _), hkey (by decide)
      (isToken_printInt _),
    hkey (by decide) (isToken_printInt _), hkey (by decide) (isToken_printInt _), hkey (by decide)
      (isToken_printInt _),
    hkey (by decide) (isToken_printInt _), hend]

theorem tokens_writeWorldFile (sector : Sector) (width height : Int) :
    tokens (writeWorldFile t sector width height) =
      [t.print (sector.deltaLon.degrees / width), t.print 0, t.print 0, t.print (-sector.deltaLat.degrees / height),
        t.print sector.minLongitude.degrees, t.print sector.maxLatitude.degrees] := by
  have hlast := tokens_println (t.isToken sector.maxLatitude.degrees) []
  rw [List.append_nil, tokens_nil] at hlast
  rw [writeWorldFile]
  simp only [printDouble, List.append_assoc] at hlast ⊢
  simp only [← List.append_assoc (t.print _) ['\n'], tokens_println (t.isToken _), hlast]

/-! ## Scanning -/

/-- The values of a header that was written. -/
def hdrValues (width height : Int) (order : ByteOrder) (dataType : DataType) (missing : Option ℚ) (values : AVList) :
    AVList :=
  let rowBytes := int (width * (bitsOf dataType / 8))
  let values := values.setValue (.header BYTEORDER) (.string (orderWord order))
  let values := values.setValue (.header "LAYOUT".toList) (.string "BIL".toList)
  let values := values.setValue (.header NROWS) (.int height)
  let values := values.setValue (.header NCOLS) (.int width)
  let values := values.setValue (.header NBANDS) (.int 1)
  let values := values.setValue (.header NBITS) (.int (bitsOf dataType))
  let values := values.setValue (.header BANDROWBYTES) (.int rowBytes)
  let values := values.setValue (.header TOTALROWBYTES) (.int rowBytes)
  let values := values.setValue (.header "BANDGAPBYTES".toList) (.string (printInt 0))
  match missing with
  | some o => (values.setValue (.header NODATA) (.double o)).setValue (.header NODATA) (.double o)
  | none => values

theorem scanHdr_int {key word : List Char} (hkey : toUpperCase key ∈ intKeys) {n : Int}
    (hword : nextInt word = some n)
    (words : List (List Char)) (values : AVList) :
    scanHdr t (key :: word :: words) values =
      scanHdr t words (values.setValue (.header (toUpperCase key)) (.int n)) := by
  rw [scanHdr, scanHdrValue, if_pos hkey, hword]
  rfl

theorem scanHdr_string {key : List Char} (word : List Char)
    (hkey : toUpperCase key ∉ intKeys ++ [NODATA, NODATA_VALUE, CELLSIZE] ++ doubleKeys) (words : List (List Char))
    (values : AVList) :
    scanHdr t (key :: word :: words) values =
      scanHdr t words (values.setValue (.header (toUpperCase key)) (.string word)) := by
  simp only [List.mem_append, List.mem_cons, List.not_mem_nil, or_false, not_or] at hkey
  obtain ⟨⟨hint, hnodata, hvalue, hcell⟩, hdouble⟩ := hkey
  rw [scanHdr, scanHdrValue, if_neg hint, if_neg (not_or.2 ⟨hnodata, hvalue⟩), if_neg hdouble, if_neg hcell]
  rfl

theorem scanHdr_nodata (o : ℚ) (values : AVList) :
    scanHdr t [NODATA, t.print o] values =
      guessBits ((values.setValue (.header NODATA) (.double o)).setValue (.header NODATA) (.double o)) := by
  have hupper : toUpperCase NODATA = NODATA := by decide
  rw [scanHdr, hupper, scanHdrValue, if_neg (by decide), if_pos (.inl rfl), t.nextDouble_print]
  rfl

theorem int_bounds (x : Int) : -2 ^ 31 ≤ int x ∧ int x < 2 ^ 31 := by
  refine ⟨?_, int_lt x⟩
  have := Int.le_bmod (x := x) (m := 2 ^ 32) (by decide)
  simpa [int] using this

theorem guessBits_eq {values : AVList} (hbands : values.hasKey (.header NBANDS) = true)
    (hbits : values.hasKey (.header NBITS) = true) : guessBits values = some values := by
  rw [guessBits, if_neg (by simp [hbands, hbits])]

theorem scanHdrFile_writeHdrFile {width height : Int} (hw : 1 ≤ width ∧ width < 2 ^ 31)
    (hh : 1 ≤ height ∧ height < 2 ^ 31) (order : ByteOrder) (dataType : DataType) (missing : Option ℚ)
    (values : AVList) :
    scanHdrFile t (writeHdrFile t width height order dataType missing) values =
      some (hdrValues width height order dataType missing values) := by
  have hsize : ∀ {n : Int}, 1 ≤ n ∧ n < 2 ^ 31 → nextInt (printInt n) = some n := fun h =>
    nextInt_printInt (by omega) h.2
  have hbits : nextInt (printInt (bitsOf dataType)) = some (bitsOf dataType) := by
    cases dataType <;> exact nextInt_printInt (by decide) (by decide)
  have hrow := nextInt_printInt (int_bounds (width * (bitsOf dataType / 8))).1 (int_bounds _).2
  rw [scanHdrFile, tokens_writeHdrFile, scanHdr_string t _ (by decide), scanHdr_string t _ (by decide),
    scanHdr_int t (by decide) (hsize hh), scanHdr_int t (by decide) (hsize hw),
    scanHdr_int t (by decide) (nextInt_printInt (n := 1) (by decide) (by decide)), scanHdr_int t (by decide) hbits,
    scanHdr_int t (by decide) hrow, scanHdr_int t (by decide) hrow, scanHdr_string t _ (by decide)]
  cases missing with
  | none => exact guessBits_eq rfl rfl
  | some o =>
    rw [missingWords, scanHdr_nodata]
    exact guessBits_eq rfl rfl

/-- The values of a world file that was written. -/
def worldFileValues (sector : Sector) (width height : Int) (values : AVList) : AVList :=
  let values := values.setValue .WORLD_FILE_X_PIXEL_SIZE (.double (sector.deltaLon.degrees / width))
  let values := values.setValue .WORLD_FILE_Y_COEFFICIENT (.double 0)
  let values := values.setValue .WORLD_FILE_X_COEFFICIENT (.double 0)
  let values := values.setValue .WORLD_FILE_Y_PIXEL_SIZE (.double (-sector.deltaLat.degrees / height))
  let values := values.setValue .WORLD_FILE_X_LOCATION (.double sector.minLongitude.degrees)
  values.setValue .WORLD_FILE_Y_LOCATION (.double sector.maxLatitude.degrees)

theorem scanWorldFile_writeWorldFile (sector : Sector) (width height : Int) (values : AVList) :
    scanWorldFile t (writeWorldFile t sector width height) values =
      some (worldFileValues sector width height values) := by
  rw [scanWorldFile, tokens_writeWorldFile]
  simp only [worldFileKeys, scanDoubles, t.nextDouble_print, Option.bind_some]
  rfl

/-! ## Decoding -/

/-- A raster that the writer takes, as its constructor made it. -/
structure Writable (raster : ByteBufferRaster) (sector : Sector) : Prop where
  dataType : raster.dataType = .INT16 ∨ raster.dataType = .INT32 ∨ raster.dataType = .FLOAT32
  width : 1 ≤ raster.width ∧ raster.width < 2 ^ 31
  height : 1 ≤ raster.height ∧ raster.height < 2 ^ 31
  length : int (raster.width * raster.height) ≤ raster.length
  hasSector : raster.getSector = some sector
  limits : sector.isWithinLatLonLimits = true

/-- What the values say of a raster once its files are scanned. -/
structure Scanned (raster : ByteBufferRaster) (sector : Sector) (values : AVList) : Prop where
  rows : values (.header NROWS) = some (.int raster.height)
  cols : values (.header NCOLS) = some (.int raster.width)
  bands : values (.header NBANDS) = some (.int 1)
  bits : values (.header NBITS) = some (.int (bitsOf raster.dataType))
  order : values (.header BYTEORDER) = some (.string (orderWord raster.order))
  nodata : values (.header NODATA) = (missingDataValue raster).map .double
  xDim : values (.header XDIM) = none
  xPixelSize : values .WORLD_FILE_X_PIXEL_SIZE = some (.double (sector.deltaLon.degrees / raster.width))
  yPixelSize : values .WORLD_FILE_Y_PIXEL_SIZE = some (.double (-sector.deltaLat.degrees / raster.height))
  xLocation : values .WORLD_FILE_X_LOCATION = some (.double sector.minLongitude.degrees)
  yLocation : values .WORLD_FILE_Y_LOCATION = some (.double sector.maxLatitude.degrees)
  imageSize : values .WORLD_FILE_IMAGE_SIZE = none
  width : values .WIDTH = none
  height : values .HEIGHT = none
  noSector : values .SECTOR = none
  signal : values .MISSING_DATA_SIGNAL = none
  replacement : values .MISSING_DATA_REPLACEMENT = none

/-- Both files are scanned to the same values, whichever is listed first. -/
theorem scanFiles_scanned {raster : ByteBufferRaster} {sector : Sector} (h : Writable raster sector) {files : Files}
    (hfiles : doWrite t raster = some files) (hdrFirst : Bool) (size : Int) :
    ∃ values, scanFiles t (files.list hdrFirst) (AVList.empty.setValue .FILE_SIZE (.int size)) = some values ∧
      Scanned raster sector values := by
  rw [doWrite, h.hasSector, Option.map_some, Option.some.injEq] at hfiles
  subst hfiles
  have hscan := scanHdrFile_writeHdrFile t h.width h.height raster.order raster.dataType (missingDataValue raster)
  let hdr := hdrValues raster.width raster.height raster.order raster.dataType (missingDataValue raster)
  let blw := worldFileValues sector raster.width raster.height
  let params := AVList.empty.setValue .FILE_SIZE (.int size)
  cases hdrFirst with
  | true =>
    refine ⟨blw (hdr params), ?_, ?_⟩
    · rw [Files.list, if_pos rfl, scanFiles, hscan, Option.bind_some, scanFiles, scanWorldFile_writeWorldFile]
      rfl
    · simp only [hdr, blw, params, hdrValues]
      cases hm : missingDataValue raster <;>
        exact ⟨rfl, rfl, rfl, rfl, rfl, by rw [hm]; rfl, rfl, rfl, rfl, rfl, rfl, rfl, rfl, rfl, rfl, rfl, rfl⟩
  | false =>
    refine ⟨hdr (blw params), ?_, ?_⟩
    · rw [Files.list, if_neg Bool.false_ne_true, scanFiles, scanWorldFile_writeWorldFile, Option.bind_some, scanFiles,
        hscan]
      rfl
    · simp only [hdr, blw, params, hdrValues]
      cases hm : missingDataValue raster <;>
        exact ⟨rfl, rfl, rfl, rfl, rfl, by rw [hm]; rfl, rfl, rfl, rfl, rfl, rfl, rfl, rfl, rfl, rfl, rfl, rfl⟩

/-- The type that the bits are read as. -/
def readType : DataType → DataType
  | .INT8 => .INT8
  | .INT16 => .INT16
  | .INT32 => .FLOAT32
  | .FLOAT32 => .FLOAT32

theorem size_readType (type : DataType) : (readType type).size = type.size := by cases type <;> rfl

section parsing

variable {values : AVList}

theorem parseByteOrder_eq {order : ByteOrder} (h : values (.header BYTEORDER) = some (.string (orderWord order))) :
    parseByteOrder values = some (.byteOrder order) := by
  rw [parseByteOrder, h]
  cases order <;> rfl

theorem parsePixelFormat_eq {type : DataType} (htype : type ≠ .INT8)
    (hbands : values (.header NBANDS) = some (.int 1))
    (hbits : values (.header NBITS) = some (.int (bitsOf type))) :
    parsePixelFormat values = some (.pixelFormat .ELEVATION) := by
  rw [parsePixelFormat, AVList.getInt, AVList.getInt, hbands, hbits]
  cases type with
  | INT8 => exact absurd rfl htype
  | INT16 | INT32 | FLOAT32 => rfl

theorem parseDataType_eq {type : DataType} (hbits : values (.header NBITS) = some (.int (bitsOf type))) :
    parseDataType values = some (.dataType (readType type)) := by
  rw [parseDataType, AVList.getInt, hbits]
  cases type <;> rfl

theorem imageSize_eq {width height : Int} (hsize : values .WORLD_FILE_IMAGE_SIZE = none)
    (hrows : values (.header NROWS) = some (.int height)) (hcols : values (.header NCOLS) = some (.int width)) :
    imageSize values = some (some (.size width height)) := by
  rw [imageSize, hsize]
  simp only [parseSize, AVList.hasKey, AVList.getInt, hrows, hcols]
  rfl

end parsing

/-- The sector that the six numbers and the size give. -/
def readSector (raster : ByteBufferRaster) (sector : Sector) : Sector :=
  degreesSector (sector.deltaLon.degrees / raster.width) (-sector.deltaLat.degrees / raster.height)
    sector.minLongitude.degrees sector.maxLatitude.degrees raster.width raster.height

/-- Whether the six numbers pass for degrees. -/
def appearsGeographic (raster : ByteBufferRaster) (sector : Sector) : Bool :=
  Angle.isValidLongitude (sector.deltaLon.degrees / raster.width) &&
    Angle.isValidLatitude (-sector.deltaLat.degrees / raster.height) &&
    Angle.isValidLongitude sector.minLongitude.degrees && Angle.isValidLatitude sector.maxLatitude.degrees

/-- What becomes of the sector: none where the call throws, a null one where the numbers do not pass for degrees. -/
def decodedSector (raster : ByteBufferRaster) (sector : Sector) : Option (Option Sector) :=
  if appearsGeographic raster sector then
    if (readSector raster sector).isWithinLatLonLimits then some (some (readSector raster sector)) else none
  else some none

theorem worldFileSector_eq {raster : ByteBufferRaster} {sector : Sector} (h : Writable raster sector)
    {values : AVList}
    (hx : values .WORLD_FILE_X_PIXEL_SIZE = some (.double (sector.deltaLon.degrees / raster.width)))
    (hy : values .WORLD_FILE_Y_PIXEL_SIZE = some (.double (-sector.deltaLat.degrees / raster.height)))
    (hlon : values .WORLD_FILE_X_LOCATION = some (.double sector.minLongitude.degrees))
    (hlat : values .WORLD_FILE_Y_LOCATION = some (.double sector.maxLatitude.degrees)) :
    worldFileSector values (some (.size raster.width raster.height)) = decodedSector raster sector := by
  have hgeographic : worldFileValuesAppearGeographic values = appearsGeographic raster sector := by
    rw [worldFileValuesAppearGeographic]
    simp only [AVList.getDouble, hx, hy, hlon, hlat]
    rfl
  have hdegrees : parseDegrees values raster.width raster.height =
      if (readSector raster sector).isWithinLatLonLimits then some (readSector raster sector) else none := by
    have hw := h.width.1
    have hh := h.height.1
    rw [parseDegrees, if_neg (by omega)]
    simp only [AVList.getDouble, hx, hy, hlon, hlat, Option.bind_some]
    rfl
  rw [worldFileSector, hgeographic, decodedSector]
  split
  · simp only [hdegrees]
    split <;> rfl
  · rfl

/-- The values of a raster that is read, but for its size and its sector. -/
def decodedValues (raster : ByteBufferRaster) (values : AVList) : AVList :=
  ((((values.setValue .WORLD_FILE_IMAGE_SIZE (.size raster.width raster.height)).setValue .BYTE_ORDER
    (.byteOrder raster.order)).setValue .PIXEL_FORMAT (.pixelFormat .ELEVATION)).setValue .DATA_TYPE
    (.dataType (readType raster.dataType))).setIfPresent .MISSING_DATA_REPLACEMENT
    ((missingDataValue raster).map .double)

theorem decodeWorldFiles_eq {raster : ByteBufferRaster} {sector : Sector} (h : Writable raster sector)
    {values : AVList}
    (hs : Scanned raster sector values) {worldFiles : List File} {params : AVList}
    (hscan : scanFiles t worldFiles params = some values) :
    decodeWorldFiles t worldFiles params = (decodedSector raster sector).map fun s =>
      (decodedValues raster values).setIfPresent .SECTOR (s.map .sector) := by
  have htype : raster.dataType ≠ .INT8 := by
    rcases h.dataType with htype | htype | htype <;> rw [htype] <;> decide
  let v1 := values.setValue .WORLD_FILE_IMAGE_SIZE (.size raster.width raster.height)
  let v2 := v1.setValue .BYTE_ORDER (.byteOrder raster.order)
  let v3 := v2.setValue .PIXEL_FORMAT (.pixelFormat .ELEVATION)
  let v4 := v3.setValue .DATA_TYPE (.dataType (readType raster.dataType))
  have h2 : v1.setIfPresent .BYTE_ORDER (parseByteOrder v1) = v2 := by
    have horder : parseByteOrder v1 = some (.byteOrder raster.order) := parseByteOrder_eq hs.order
    rw [horder]
    rfl
  have h3 : v2.setIfPresent .PIXEL_FORMAT (parsePixelFormat v2) = v3 := by
    have hformat : parsePixelFormat v2 = some (.pixelFormat .ELEVATION) := parsePixelFormat_eq htype hs.bands hs.bits
    rw [hformat]
    rfl
  have h4 : v3.setIfPresent .DATA_TYPE (parseDataType v3) = v4 := by
    have hread : parseDataType v3 = some (.dataType (readType raster.dataType)) := parseDataType_eq hs.bits
    rw [hread]
    rfl
  have h5 : v4.setIfPresent .MISSING_DATA_REPLACEMENT (parseMissingDataValue v4) = decodedValues raster values := by
    have hnodata : parseMissingDataValue v4 = (missingDataValue raster).map .double := hs.nodata
    rw [hnodata]
    rfl
  have hsector : worldFileSector (decodedValues raster values) (some (.size raster.width raster.height)) =
      decodedSector raster sector := by
    refine worldFileSector_eq h ?_ ?_ ?_ ?_ <;> rw [decodedValues] <;> cases missingDataValue raster
    · exact hs.xPixelSize
    · exact hs.xPixelSize
    · exact hs.yPixelSize
    · exact hs.yPixelSize
    · exact hs.xLocation
    · exact hs.xLocation
    · exact hs.yLocation
    · exact hs.yLocation
  have hdim : (decodedValues raster values).hasKey (.header XDIM) = false := by
    have hnone : decodedValues raster values (.header XDIM) = none := by
      rw [decodedValues]
      cases missingDataValue raster <;> exact hs.xDim
    rw [AVList.hasKey, hnone]
    rfl
  have hheader : extractSectorFromHeader (decodedValues raster values) = some none := by
    rw [extractSectorFromHeader, if_neg (by simp [hdim])]
  have hsize : values.setIfPresent .WORLD_FILE_IMAGE_SIZE (some (.size raster.width raster.height)) = v1 := rfl
  rw [decodeWorldFiles, hscan, Option.bind_some, imageSize_eq hs.imageSize hs.rows hs.cols, Option.bind_some]
  simp only [hsize, h2, h3, h4, h5, hsector]
  cases decodedSector raster sector with
  | none => rfl
  | some s =>
    cases s with
    | none => simp only [Option.bind_some, hheader, Option.map_some, Option.map_none]
    | some s => rfl

/-- The parameters that the reader makes a raster with. -/
def readParams (raster : ByteBufferRaster) (values : AVList) (s : Option Sector) : AVList :=
  (((decodedValues raster values).setIfPresent .SECTOR (s.map .sector)).setValue .WIDTH (.int raster.width)).setValue
    .HEIGHT (.int raster.height)

theorem readWorldFiles_eq {raster : ByteBufferRaster} {sector : Sector} (h : Writable raster sector) {values : AVList}
    (hs : Scanned raster sector values) {worldFiles : List File} {params : AVList}
    (hscan : scanFiles t worldFiles params = some values) :
    readWorldFiles t worldFiles params = (decodedSector raster sector).map (readParams raster values) := by
  have hkeys : ∀ s : Option Sector,
      let p := (decodedValues raster values).setIfPresent .SECTOR (s.map .sector)
      p .WORLD_FILE_IMAGE_SIZE = some (.size raster.width raster.height) ∧ p .WIDTH = none ∧ p .HEIGHT = none := by
    intro s
    rw [decodedValues]
    cases missingDataValue raster <;> cases s <;> exact ⟨rfl, hs.width, hs.height⟩
  rw [readWorldFiles, decodeWorldFiles_eq t h hs hscan, Option.map_map]
  congr 1
  funext s
  obtain ⟨hsize, hwidth, hheight⟩ := hkeys s
  rw [Function.comp_apply, readParams]
  generalize (decodedValues raster values).setIfPresent .SECTOR (s.map .sector) = p at hsize hwidth hheight ⊢
  have hnoWidth : p.hasKey .WIDTH = false := by rw [AVList.hasKey, hwidth]; rfl
  have hnoHeight : (p.setValue .WIDTH (.int raster.width)).hasKey .HEIGHT = false := congrArg Option.isSome hheight
  simp only [hsize, hnoWidth, hnoHeight, Bool.false_eq_true, if_false]

/-- The raster that is read, where the call returns: its bytes are those that were written. -/
structure Read (raster : ByteBufferRaster) (sector : Option Sector) (raster' : ByteBufferRaster) : Prop where
  width : raster'.width = raster.width
  height : raster'.height = raster.height
  byteBuffer : raster'.byteBuffer = raster.byteBuffer
  order : raster'.order = raster.order
  dataType : raster'.dataType = readType raster.dataType
  sector : raster'.getSector = sector
  signal : raster'.values .MISSING_DATA_SIGNAL = none
  replacement : raster'.values .MISSING_DATA_REPLACEMENT = (missingDataValue raster).map .double

theorem doRead_eq {raster : ByteBufferRaster} {sector : Sector} (h : Writable raster sector) {values : AVList}
    (hs : Scanned raster sector values) {worldFiles : List File}
    (hscan : scanFiles t worldFiles (AVList.empty.setValue .FILE_SIZE (.int raster.byteBuffer.length)) =
      some values) :
    doRead t raster.byteBuffer worldFiles .empty = (decodedSector raster sector).bind fun s =>
      newByteBufferRaster raster.width raster.height s raster.byteBuffer (readParams raster values s) := by
  have hvalid : validMetadata AVList.empty = false := rfl
  rw [doRead, hvalid, if_neg Bool.false_ne_true, readWorldFiles_eq t h hs hscan]
  cases hsector : decodedSector raster sector with
  | none => rfl
  | some s =>
    have hformat : (readParams raster values s).hasKey .PIXEL_FORMAT = true := by
      rw [readParams, decodedValues]
      cases missingDataValue raster <;> cases s <;> rfl
    have hread : readParams raster values s .SECTOR = s.map .sector := by
      rw [readParams, decodedValues]
      cases missingDataValue raster <;> cases s <;> first | rfl | exact hs.noSector
    have hwidth : (readParams raster values s).getInt .WIDTH = some raster.width := rfl
    have hheight : (readParams raster values s).getInt .HEIGHT = some raster.height := rfl
    simp only [Option.map_some, Option.bind_some, hwidth, hheight, hformat, if_true, hread]
    cases s <;> rfl

/-- The constructor takes what the reader gives it. -/
theorem newByteBufferRaster_read {raster : ByteBufferRaster} {sector : Sector} (h : Writable raster sector)
    {values : AVList} (hs : Scanned raster sector values) (s : Option Sector) :
    ∃ raster', newByteBufferRaster raster.width raster.height s raster.byteBuffer (readParams raster values s) =
      some raster' ∧ Read raster s raster' := by
  have htype : readParams raster values s .DATA_TYPE = some (.dataType (readType raster.dataType)) := by
    rw [readParams, decodedValues]
    cases missingDataValue raster <;> cases s <;> rfl
  have horder : readParams raster values s .BYTE_ORDER = some (.byteOrder raster.order) := by
    rw [readParams, decodedValues]
    cases missingDataValue raster <;> cases s <;> rfl
  have hsector : readParams raster values s .SECTOR = s.map .sector := by
    rw [readParams, decodedValues]
    cases missingDataValue raster <;> cases s <;> first | rfl | exact hs.noSector
  have hsignal : readParams raster values s .MISSING_DATA_SIGNAL = none := by
    rw [readParams, decodedValues]
    cases missingDataValue raster <;> cases s <;> exact hs.signal
  have hreplacement : readParams raster values s .MISSING_DATA_REPLACEMENT =
      (missingDataValue raster).map .double := by
    rw [readParams, decodedValues]
    cases missingDataValue raster <;> cases s <;> first | rfl | exact hs.replacement
  have hw := h.width.1
  have hh := h.height.1
  have hlength := h.length
  rw [ByteBufferRaster.length] at hlength
  rw [newByteBufferRaster, htype, horder]
  simp only [size_readType]
  rw [if_neg (by omega), if_neg (by omega)]
  refine ⟨_, rfl, rfl, rfl, rfl, rfl, rfl, ?_, hsignal, hreplacement⟩
  rw [ByteBufferRaster.getSector]
  cases s <;> simp [AVList.hasKey, hsector]

theorem writeAndRead_eq {raster : ByteBufferRaster} {sector : Sector} (h : Writable raster sector) (hdrFirst : Bool) :
    ∃ values, Scanned raster sector values ∧ writeAndRead t raster hdrFirst =
      (decodedSector raster sector).bind fun s =>
      newByteBufferRaster raster.width raster.height s raster.byteBuffer (readParams raster values s) := by
  obtain ⟨files, hfiles⟩ : ∃ files, doWrite t raster = some files := ⟨_, by rw [doWrite, h.hasSector]; rfl⟩
  have hbil : files.bil = raster.byteBuffer := by
    have hfiles' := hfiles
    rw [doWrite, h.hasSector, Option.map_some, Option.some.injEq] at hfiles'
    rw [← hfiles']
  obtain ⟨values, hscan, hs⟩ := scanFiles_scanned t h hfiles hdrFirst raster.byteBuffer.length
  refine ⟨values, hs, ?_⟩
  rw [writeAndRead, hfiles, Option.bind_some, hbil, doRead_eq t h hs hscan]

/-! ## Samples -/

/-- No element but zero. -/
def AllZero (raster : ByteBufferRaster) : Prop := ∀ row col x, raster.getDoubleAtPosition row col = some x →
    x = .finite 0

theorem getDoubleAtPosition_read {raster raster' : ByteBufferRaster} {s : Option Sector} (hr : Read raster s raster')
    (row col : Int) :
    raster'.getDoubleAtPosition row col =
      if row < 0 ∨ col < 0 ∨ row > raster.height - 1 ∨ col > raster.width - 1 then none
      else (raster.element (raster.indexFor col row)).map
        (ByteBufferRaster.toDouble (readType raster.dataType) raster.order) := by
  have helement : ∀ index, raster'.element index = raster.element index := by
    intro index
    rw [ByteBufferRaster.element, ByteBufferRaster.element, ByteBufferRaster.length, ByteBufferRaster.length,
      hr.byteBuffer, hr.dataType, size_readType]
  have hindex : raster'.indexFor col row = raster.indexFor col row := by
    rw [ByteBufferRaster.indexFor, ByteBufferRaster.indexFor, hr.width]
  rw [ByteBufferRaster.getDoubleAtPosition, helement, hindex, hr.width, hr.height, hr.order, hr.dataType]

theorem toDouble_float_iff (order : ByteOrder) (bytes : List Int8) :
    ByteBufferRaster.toDouble .FLOAT32 order bytes = ByteBufferRaster.toDouble .INT32 order bytes ↔
      ByteBufferRaster.toDouble .INT32 order bytes = .finite 0 := by
  rw [ByteBufferRaster.toDouble, ByteBufferRaster.toDouble, intOf_eq, floatOf_eq_int_iff (uintOf_lt order bytes),
    JavaDouble.finite.injEq, Int.cast_eq_zero]

/-- The samples are the same where none is an `int` other than zero. -/
theorem samples_iff {raster raster' : ByteBufferRaster} {s : Option Sector}
    (htype : raster.dataType = .INT16 ∨ raster.dataType = .INT32 ∨ raster.dataType = .FLOAT32)
    (hr : Read raster s raster') :
    (∀ row col, raster'.getDoubleAtPosition row col = raster.getDoubleAtPosition row col) ↔
      (raster.dataType = .INT32 → AllZero raster) := by
  have hsame : readType raster.dataType = raster.dataType →
      ∀ row col, raster'.getDoubleAtPosition row col = raster.getDoubleAtPosition row col := by
    intro hread row col
    rw [getDoubleAtPosition_read hr, hread, ByteBufferRaster.getDoubleAtPosition]
  rcases htype with htype | htype | htype
  · exact iff_of_true (hsame (by rw [htype]; rfl)) fun h => by rw [htype] at h; cases h
  · rw [AllZero, forall_prop_of_true htype]
    refine forall₂_congr fun row col => ?_
    rw [getDoubleAtPosition_read hr, ByteBufferRaster.getDoubleAtPosition, htype]
    split
    · exact iff_of_true rfl fun x hx => nomatch hx
    · cases raster.element (raster.indexFor col row) with
      | none => exact iff_of_true rfl fun x hx => nomatch hx
      | some bytes =>
        rw [Option.map_some, Option.map_some, Option.some.injEq]
        refine (toDouble_float_iff raster.order bytes).trans ⟨fun h x hx => ?_, fun h => h _ rfl⟩
        rw [← Option.some.inj hx, h]
  · exact iff_of_true (hsame (by rw [htype]; rfl)) fun h => by rw [htype] at h; cases h

/-! ## The sector -/

/-- A sector from its least to its greatest angles, with pixels that pass for degrees of latitude and longitude. -/
structure FitsDegrees (raster : ByteBufferRaster) (sector : Sector) : Prop where
  latitudes : sector.minLatitude.degrees ≤ sector.maxLatitude.degrees
  longitudes : sector.minLongitude.degrees ≤ sector.maxLongitude.degrees
  pixelWidth : sector.deltaLon.degrees / raster.width ≤ 180
  pixelHeight : sector.deltaLat.degrees / raster.height ≤ 90

/-- The sector reaches from its north to the south, and from its west or its east to the other. -/
theorem degreesSector_eq {width height : Int} (hw : 0 < width) (hh : 0 < height) (deltaLon deltaLat lon lat : ℚ) :
    degreesSector (deltaLon / width) (-deltaLat / height) lon lat width height =
      ⟨⟨lat - |deltaLat|⟩, ⟨lat⟩, ⟨min lon (lon + deltaLon)⟩, ⟨max lon (lon + deltaLon)⟩⟩ := by
  have hw' : (width : ℚ) ≠ 0 := by exact_mod_cast hw.ne'
  have hh' : (0 : ℚ) < height := by exact_mod_cast hh
  have hlat : (if -deltaLat / height ≤ 0 then -deltaLat / height else -(-deltaLat / height)) * height =
      -|deltaLat| := by
    rcases le_or_gt 0 deltaLat with hle | hlt
    · rw [if_pos (div_nonpos_of_nonpos_of_nonneg (by linarith) hh'.le), div_mul_cancel₀ _ hh'.ne', abs_of_nonneg hle]
    · rw [if_neg (not_le.2 (div_pos (by linarith) hh')), neg_mul, div_mul_cancel₀ _ hh'.ne', abs_of_neg hlt]
  have habs := abs_nonneg deltaLat
  simp only [degreesSector, Angle.addDegrees, Angle.fromDegrees, hlat, div_mul_cancel₀ _ hw']
  rw [if_neg (by linarith), if_neg (by linarith), ← sub_eq_add_neg]
  rcases lt_or_ge lon (lon + deltaLon) with hlt | hle
  · rw [if_pos hlt, if_pos hlt, min_eq_left hlt.le, max_eq_right hlt.le]
  · rw [if_neg (not_lt.2 hle), if_neg (not_lt.2 hle), min_eq_right hle, max_eq_left hle]

theorem readSector_eq_iff {raster : ByteBufferRaster} {sector : Sector} (h : Writable raster sector) :
    readSector raster sector = sector ↔ sector.minLatitude.degrees ≤ sector.maxLatitude.degrees ∧
      sector.minLongitude.degrees ≤ sector.maxLongitude.degrees := by
  have hw : 0 < raster.width := h.width.1
  have hh : 0 < raster.height := h.height.1
  rw [readSector, degreesSector_eq hw hh]
  obtain ⟨⟨minLat⟩, ⟨maxLat⟩, ⟨minLon⟩, ⟨maxLon⟩⟩ := sector
  simp only [Sector.deltaLat, Sector.deltaLon, Angle.fromDegrees, add_sub_cancel, Sector.mk.injEq, Angle.mk.injEq,
    true_and, min_eq_left_iff, max_eq_right_iff, and_self]
  refine and_congr_left' ⟨fun heq => ?_, fun hle => ?_⟩
  · have := abs_nonneg (maxLat - minLat)
    linarith
  · rw [abs_of_nonneg (by linarith)]
    ring

/-- The sector comes back where it is one of degrees. -/
theorem decodedSector_iff {raster : ByteBufferRaster} {sector : Sector} (h : Writable raster sector) :
    decodedSector raster sector = some (some sector) ↔ FitsDegrees raster sector := by
  have hlimits := h.limits
  simp only [Sector.isWithinLatLonLimits, decide_eq_true_eq] at hlimits
  obtain ⟨hminLat, hmaxLat, hminLon, hmaxLon⟩ := hlimits
  have hw : (0 : ℚ) < raster.width := by exact_mod_cast h.width.1
  have hh : (0 : ℚ) < raster.height := by exact_mod_cast h.height.1
  constructor
  · intro hdecoded
    rw [decodedSector] at hdecoded
    split at hdecoded
    · rename_i hgeographic
      split at hdecoded
      · have hsector : readSector raster sector = sector := Option.some.inj (Option.some.inj hdecoded)
        obtain ⟨hlat, hlon⟩ := (readSector_eq_iff h).1 hsector
        simp only [appearsGeographic, Angle.isValidLongitude, Angle.isValidLatitude, Bool.and_eq_true,
          decide_eq_true_eq] at hgeographic
        refine ⟨hlat, hlon, hgeographic.1.1.1.2, ?_⟩
        have := hgeographic.1.1.2.1
        rw [neg_div] at this
        linarith
      · cases hdecoded
    · cases hdecoded
  · rintro ⟨hlat, hlon, hwidth, hheight⟩
    have hsector := (readSector_eq_iff h).2 ⟨hlat, hlon⟩
    have hlonSize : 0 ≤ sector.deltaLon.degrees / raster.width := by
      refine div_nonneg ?_ hw.le
      rw [Sector.deltaLon, Angle.fromDegrees]
      linarith
    have hlatSize : 0 ≤ sector.deltaLat.degrees / raster.height := by
      refine div_nonneg ?_ hh.le
      rw [Sector.deltaLat, Angle.fromDegrees]
      linarith
    have hgeographic : appearsGeographic raster sector = true := by
      simp only [appearsGeographic, Angle.isValidLongitude, Angle.isValidLatitude, Bool.and_eq_true,
        decide_eq_true_eq, neg_div]
      refine ⟨⟨⟨⟨?_, ?_⟩, ?_, ?_⟩, ?_, ?_⟩, ?_, ?_⟩ <;> linarith
    rw [decodedSector, if_pos hgeographic, hsector, if_pos h.limits]

/-! ## The round trip -/

/-- The same size, the same place and the same samples. -/
structure SameRaster (raster raster' : ByteBufferRaster) : Prop where
  width : raster'.width = raster.width
  height : raster'.height = raster.height
  sector : raster'.getSector = raster.getSector
  samples : ∀ row col, raster'.getDoubleAtPosition row col = raster.getDoubleAtPosition row col

/-- What is read is the same raster where the sector fits and no `int` sample is lost. -/
theorem read_same_iff {raster : ByteBufferRaster} {sector : Sector} (h : Writable raster sector) (hdrFirst : Bool)
    {P : ByteBufferRaster → Prop} {Q : Prop} (hPQ : ∀ {raster' s}, Read raster s raster' → (P raster' ↔ Q)) :
    (∃ raster', writeAndRead t raster hdrFirst = some raster' ∧ SameRaster raster raster' ∧ P raster') ↔
      FitsDegrees raster sector ∧ (raster.dataType = .INT32 → AllZero raster) ∧ Q := by
  obtain ⟨values, hs, hread⟩ := writeAndRead_eq t h hdrFirst
  constructor
  · rintro ⟨raster', hraster', hsame, hP⟩
    rw [hread] at hraster'
    obtain ⟨s, hsector, hnew⟩ := Option.bind_eq_some_iff.1 hraster'
    obtain ⟨raster'', hnew', hr⟩ := newByteBufferRaster_read h hs s
    obtain rfl : raster'' = raster' := Option.some.inj (hnew'.symm.trans hnew)
    have hsome : s = some sector := by rw [← hr.sector, hsame.sector, h.hasSector]
    rw [hsome] at hsector
    exact ⟨(decodedSector_iff h).1 hsector, (samples_iff h.dataType hr).1 hsame.samples, (hPQ hr).1 hP⟩
  · rintro ⟨hfits, hzero, hQ⟩
    obtain ⟨raster', hnew, hr⟩ := newByteBufferRaster_read h hs (some sector)
    refine ⟨raster', ?_, ⟨hr.width, hr.height, hr.sector.trans h.hasSector.symm,
      (samples_iff h.dataType hr).2 hzero⟩, (hPQ hr).2 hQ⟩
    rw [hread, (decodedSector_iff h).2 hfits, Option.bind_some, hnew]

theorem getTransparentValue_read {raster raster' : ByteBufferRaster} {s : Option Sector}
    (hr : Read raster s raster') :
    raster'.getTransparentValue = maxValue := by
  rw [ByteBufferRaster.getTransparentValue, hr.signal]

theorem replacement_read {raster raster' : ByteBufferRaster} {s : Option Sector} (hr : Read raster s raster') :
    raster'.values .MISSING_DATA_REPLACEMENT = (missingDataValue raster).map .double ↔ True :=
  iff_of_true hr.replacement trivial

theorem signal_read {raster raster' : ByteBufferRaster} {s : Option Sector} (hr : Read raster s raster') :
    raster'.getTransparentValue = raster.getTransparentValue ↔ raster.getTransparentValue = maxValue := by
  rw [getTransparentValue_read hr, eq_comm]

/-- A raster comes back from its files, with its missing-data value, where its sector is one of degrees with pixels of
180 degrees by 90 at most, no `int` sample is other than zero, and it has no missing-data value. Where it has one, the
value is under the key `MISSING_DATA_REPLACEMENT`. -/
theorem writeAndRead_iff {raster : ByteBufferRaster} {sector : Sector} (h : Writable raster sector)
    (hdrFirst : Bool) :
    ((∃ raster', writeAndRead t raster hdrFirst = some raster' ∧ SameRaster raster raster' ∧
        raster'.getTransparentValue = raster.getTransparentValue) ↔
      FitsDegrees raster sector ∧ (raster.dataType = .INT32 → AllZero raster) ∧
        raster.getTransparentValue = maxValue) ∧
    ((∃ raster', writeAndRead t raster hdrFirst = some raster' ∧ SameRaster raster raster' ∧
        raster'.values .MISSING_DATA_REPLACEMENT = (missingDataValue raster).map .double) ↔
      FitsDegrees raster sector ∧ (raster.dataType = .INT32 → AllZero raster)) := by
  refine ⟨read_same_iff t h hdrFirst signal_read, ?_⟩
  rw [read_same_iff t h hdrFirst replacement_read, and_true]

/-! ## One sample -/

/-- The text of a number: a whole one with a point and a zero, another as a quotient. -/
def quotientText (x : ℚ) : List Char :=
  if x.den = 1 then printInt x.num ++ ".0".toList else printInt x.num ++ '/' :: decimal x.den

def beforeMark (c : Char) : Bool := c ≠ '.' && c ≠ '/'

def quotientValue (s : List Char) : Option ℚ :=
  (intValue (s.takeWhile beforeMark)).bind fun n =>
  match s.dropWhile beforeMark with
  | '/' :: d => (digitsValue d).map fun d : Nat => (n : ℚ) / d
  | _ => some n

theorem beforeMark_printInt (n : Int) : ∀ c ∈ printInt n, beforeMark c = true := by
  have hdigits : ∀ n : Nat, ∀ c ∈ decimal n, beforeMark c = true := by
    intro n c hc
    have hd := List.all_eq_true.1 (all_isDigit_decimal n) c hc
    rw [beforeMark, Bool.and_eq_true, decide_eq_true_eq, decide_eq_true_eq]
    constructor <;> rintro rfl <;> cases hd
  cases n with
  | ofNat n => exact hdigits n
  | negSucc n =>
    rw [printInt, List.forall_mem_cons]
    exact ⟨by decide, hdigits _⟩

theorem quotientValue_append (n : Int) {c : Char} (hc : beforeMark c = false) (rest : List Char) :
    quotientValue (printInt n ++ c :: rest) =
      match c :: rest with
      | '/' :: d => (digitsValue d).map fun d : Nat => (n : ℚ) / d
      | _ => some n := by
  have hall := beforeMark_printInt n
  have htake : (printInt n ++ c :: rest).takeWhile beforeMark = printInt n := by
    rw [List.takeWhile_append_of_pos hall, List.takeWhile_cons_of_neg (by simp [hc]), List.append_nil]
  have hdrop : (printInt n ++ c :: rest).dropWhile beforeMark = c :: rest := by
    rw [List.dropWhile_append_of_pos hall, List.dropWhile_cons_of_neg (by simp [hc])]
  rw [quotientValue, htake, hdrop, intValue_printInt, Option.bind_some]

theorem quotientValue_quotientText (x : ℚ) : quotientValue (quotientText x) = some x := by
  rw [quotientText]
  split
  · rename_i hden
    have happend : printInt x.num ++ ".0".toList = printInt x.num ++ '.' :: ['0'] := rfl
    rw [happend, quotientValue_append _ rfl]
    exact congrArg some (Rat.den_eq_one_iff x |>.1 hden)
  · rw [quotientValue_append _ rfl]
    simp only [digitsValue_decimal, Option.map_some, Rat.num_div_den]

theorem isToken_append {s u : List Char} (hs : IsToken s) (hu : ∀ c ∈ u, isWhitespace c = false) : IsToken (s ++ u) :=
  ⟨List.append_ne_nil_of_left_ne_nil hs.ne_nil u, fun c hc => (List.mem_append.1 hc).elim (hs.solid c) (hu c)⟩

theorem isToken_quotientText (x : ℚ) : IsToken (quotientText x) := by
  rw [quotientText]
  split
  · have hpoint : IsToken ".0".toList := isToken_of_all (by decide) (by decide)
    exact isToken_append (isToken_printInt _) hpoint.solid
  · refine isToken_append (isToken_printInt _) ?_
    rw [List.forall_mem_cons]
    exact ⟨by decide, (isToken_decimal _).solid⟩

def quotients : DoubleText := ⟨quotientText, quotientValue, isToken_quotientText, quotientValue_quotientText⟩

/-- One sample over a degree by a degree. -/
def oneSample (dataType : DataType) (byteBuffer : List Int8) : ByteBufferRaster :=
  ⟨1, 1, byteBuffer, .bigEndian, dataType,
    AVList.empty.setValue .SECTOR (.sector (.fromDegrees 0 1 0 1))⟩

theorem writable_oneSample {dataType : DataType} (htype : dataType = .INT16 ∨ dataType = .INT32 ∨ dataType = .FLOAT32)
    {byteBuffer : List Int8} (hlength : byteBuffer.length = dataType.size) :
    Writable (oneSample dataType byteBuffer) (.fromDegrees 0 1 0 1) := by
  have hone : int (1 * 1) = 1 := int_eq (by decide) (by decide)
  have hsmall : (1 : Int) ≤ 1 ∧ (1 : Int) < 2 ^ 31 := by decide
  refine ⟨htype, hsmall, hsmall, ?_, rfl, by decide⟩
  have hsize : 0 < dataType.size := by cases dataType <;> decide
  rw [oneSample, ByteBufferRaster.length, hlength, Nat.div_self hsize, hone]
  rfl

theorem writeAndRead_iff_oneShort :
    ((∃ raster', writeAndRead quotients (oneSample .INT16 [1, 2]) false = some raster' ∧
        SameRaster (oneSample .INT16 [1, 2]) raster' ∧
        raster'.getTransparentValue = (oneSample .INT16 [1, 2]).getTransparentValue) ↔
      FitsDegrees (oneSample .INT16 [1, 2]) (.fromDegrees 0 1 0 1) ∧
        ((oneSample .INT16 [1, 2]).dataType = .INT32 → AllZero (oneSample .INT16 [1, 2])) ∧
        (oneSample .INT16 [1, 2]).getTransparentValue = maxValue) ∧
    ((∃ raster', writeAndRead quotients (oneSample .INT16 [1, 2]) false = some raster' ∧
        SameRaster (oneSample .INT16 [1, 2]) raster' ∧
        raster'.values .MISSING_DATA_REPLACEMENT = (missingDataValue (oneSample .INT16 [1, 2])).map .double) ↔
      FitsDegrees (oneSample .INT16 [1, 2]) (.fromDegrees 0 1 0 1) ∧
        ((oneSample .INT16 [1, 2]).dataType = .INT32 → AllZero (oneSample .INT16 [1, 2]))) :=
  writeAndRead_iff quotients (writable_oneSample (.inl rfl) rfl) false

/-- The `int` one comes back as the least positive `float`. -/
theorem oneInt_notRead :
    ¬ ∃ raster', writeAndRead quotients (oneSample .INT32 [0, 0, 0, 1]) false = some raster' ∧
      SameRaster (oneSample .INT32 [0, 0, 0, 1]) raster' ∧
      raster'.getTransparentValue = (oneSample .INT32 [0, 0, 0, 1]).getTransparentValue := by
  rw [read_same_iff quotients (writable_oneSample (.inr (.inl rfl)) rfl) false signal_read]
  rintro ⟨-, hzero, -⟩
  have hsample : (oneSample .INT32 [0, 0, 0, 1]).getDoubleAtPosition 0 0 = some (.finite 1) := by
    have hindex : (oneSample .INT32 [0, 0, 0, 1]).indexFor 0 0 = 0 := by
      have hzero : int 0 = 0 := int_eq (by decide) (by decide)
      rw [ByteBufferRaster.indexFor, zero_mul, zero_add, hzero, hzero]
    have helement : (oneSample .INT32 [0, 0, 0, 1]).element 0 = some [0, 0, 0, 1] := rfl
    have hvalue : intOf .bigEndian [0, 0, 0, 1] = 1 := int_eq (by decide) (by decide)
    rw [ByteBufferRaster.getDoubleAtPosition, hindex, helement, if_neg (by decide), Option.map_some]
    exact congrArg (fun n : Int => some (JavaDouble.finite n)) hvalue
  have := hzero rfl 0 0 _ hsample
  cases this

end WorldWind.Bil
