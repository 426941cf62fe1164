import WorldWind.Lib.Grid
import WorldWind.Lib.Nio
import WorldWind.WWMath
/-!
# `formats/wvt/WaveletCodec.java`

An encoding holds, for each band, the coefficients of a Haar transform as
bytes, coarsest first: the average, then for each level the horizontal, the
vertical and the diagonal differences. The encoder works in `float`; the model
works in rational numbers. A `byte` is an `Int8`, a sample of an image a
`UInt8`. A call that throws has no result.

The bands are independent, so the loops over `k` inside the others are one map
over the bands. AWT's image is its type and its bands.
-/

namespace WorldWind.Wavelet

open Lib.Grid Lib.JavaArray Lib.JavaInt Lib.Nio WWMath

def TYPE_BYTE_GRAY : Int := 0x67726179
def TYPE_3BYTE_BGR : Int := 0x72676220
def TYPE_4BYTE_ARGB : Int := 0x61726762

def isTypeValid (type : Int) : Bool := type = TYPE_BYTE_GRAY ∨ type = TYPE_3BYTE_BGR ∨ type = TYPE_4BYTE_ARGB

/-- `BufferedImage.getType()`, as far as the codec tells types apart. -/
inductive ImageType where
  | byteGray
  | threeByteBGR
  | fourByteABGR
  | other
  deriving DecidableEq, Repr

def getWaveletType : ImageType → Int
  | .byteGray => TYPE_BYTE_GRAY
  | .threeByteBGR => TYPE_3BYTE_BGR
  | .fourByteABGR => TYPE_4BYTE_ARGB
  | .other => -1

/-- An image of byte samples, band by band and row by row. -/
structure Image where
  imageType : ImageType
  width : Nat
  height : Nat
  bands : List (List UInt8)
  width_pos : 0 < width
  height_pos : 0 < height
  isArray : width * height < 2 ^ 31
  samples : ∀ band ∈ bands, band.length = width * height

structure WaveletCodec where
  type : Int
  resolutionX : Int
  resolutionY : Int
  xform : List (List Int8)
  deriving DecidableEq, Repr

/-- The constructor: throws for an unknown type. -/
def WaveletCodec.new (type resolutionX resolutionY : Int) (xform : List (List Int8)) : Option WaveletCodec :=
  if isTypeValid type then some ⟨type, resolutionX, resolutionY, xform⟩ else none

/-! ## Reconstruction -/

/-- The body of the loop of `reconstruct` for a band: the `scale × scale` image
in the corner of `imageData` becomes one of twice the size. -/
def reconstructLevel (xform : List Int8) (resolution scale offset : Nat) (imageData : List Int) :
    Option (List Int) :=
  let numVals := scale * scale
  let A j i := imageData.getD (j * resolution + i) 0
  let H j i := (xform.getD (offset + (j * scale + i)) 0).toInt
  let V j i := (xform.getD (offset + numVals + (j * scale + i)) 0).toInt
  let D j i := (xform.getD (offset + 2 * numVals + (j * scale + i)) 0).toInt
  -- The working buffers have a cell for each value, and all reads are in bounds.
  if numVals ≤ (resolution / 2) * (resolution / 2) ∧
      (∀ c ∈ cells scale scale, c.1 * resolution + c.2 < imageData.length) ∧ offset + 3 * numVals ≤ xform.length then
    writes imageData ((cells scale scale).flatMap fun (j, i) =>
      [(2 * j * resolution + i * 2, A j i + H j i + V j i + D j i),
        (2 * j * resolution + i * 2 + 1, A j i - H j i + V j i - D j i),
        (2 * j * resolution + resolution + i * 2, A j i + H j i - V j i - D j i),
        (2 * j * resolution + resolution + i * 2 + 1, A j i - H j i - V j i + D j i)])
  else none

/-- The loop of `reconstruct`. The scale doubles until it reaches the
resolution, so as many rounds as the resolution are enough. -/
def reconstructLoop (xform : List Int8) (resolution : Nat) : Nat → Nat → Nat → List Int → Option (List Int)
  | 0, _, _, _ => none
  | rounds + 1, scale, offset, imageData =>
    if resolution * resolution ≤ scale * scale then some imageData
    else (reconstructLevel xform resolution scale offset imageData).bind fun imageData =>
      if 2 * scale < resolution then
        reconstructLoop xform resolution rounds (2 * scale) (offset + 3 * (scale * scale)) imageData
      else some imageData

/-- `(byte) Math.max(0, Math.min(255, v))`, as the raster shows it. -/
def clampSample (v : Int) : UInt8 := UInt8.ofNat (max 0 (min 255 v)).toNat

/-- `reconstruct` for a band. `size` is the length of `imageData`. -/
def reconstructBand (size : Int) (resolution : Nat) (xform : List Int8) : Option (List UInt8) :=
  match xform with
  | [] => none
  | first :: _ =>
    if size < 1 then none
    else
      let imageData := (List.replicate size.toNat (0 : Int)).set 0 (ubyte first)
      (reconstructLoop xform resolution (resolution + 1) 1 1 imageData).bind fun imageData =>
        if ∀ c ∈ cells resolution resolution, c.1 * resolution + c.2 < imageData.length then
          some ((cells resolution resolution).map fun c => clampSample (imageData.getD (c.1 * resolution + c.2) 0))
        else none

/-- The bands of the reconstructed image. Without bands the code fails at
`imageBytes[0]`, without pixels in the sample model. -/
def WaveletCodec.reconstruct (c : WaveletCodec) (resolution : Nat) : Option (List (List UInt8)) :=
  if c.xform = [] ∨ resolution = 0 then none
  else c.xform.mapM (reconstructBand (int (c.resolutionX * c.resolutionY)) resolution)

/-! ## Files -/

/-- `length` in `save`. The size of a band in bytes is computed from its size
in bits, which may not be an `int`. -/
def saveLength (c : WaveletCodec) : Int :=
  c.xform.foldl (fun length band => int (length + (int (band.length * 8)).tdiv 8)) ((4 * 32) / 8)

def WaveletCodec.save (c : WaveletCodec) : Option ByteBuffer := do
  let buffer ← ByteBuffer.allocate (saveLength c)
  let buffer ← buffer.putInt c.resolutionX
  let buffer ← buffer.putInt c.resolutionY
  let buffer ← buffer.putInt c.type
  let buffer ← buffer.putInt c.xform.length
  let buffer ← c.xform.foldlM (fun buffer band => buffer.put band) buffer
  some buffer.flip

/-- `new byte[numBands][n]` filled by reading the bands one after another. -/
def readBands (n : Nat) : Nat → ByteBuffer → Option (List (List Int8))
  | 0, _ => some []
  | numBands + 1, buffer =>
    (buffer.get n).bind fun r => (readBands n numBands r.2).map fun bands => r.1 :: bands

def load (buffer : ByteBuffer) : Option WaveletCodec :=
  buffer.getInt.bind fun (resolutionX, buffer) =>
  buffer.getInt.bind fun (resolutionY, buffer) =>
  buffer.getInt.bind fun (type, buffer) =>
  if isTypeValid type then
    buffer.getInt.bind fun (numBands, buffer) =>
    if numBands < 0 ∨ int (resolutionX * resolutionY) < 0 then none
    else
      (readBands (int (resolutionX * resolutionY)).toNat numBands.toNat buffer).bind fun xform =>
        WaveletCodec.new type resolutionX resolutionY xform
  else none

/-- The first `n` bytes of each band, band `k` beginning behind the header and
`k` full bands. -/
def readPartialBands (n : Nat) (bandSize : Int) : Nat → Nat → ByteBuffer → Option (List (List Int8))
  | 0, _, _ => some []
  | numBands + 1, k, buffer =>
    (buffer.setPosition (int (4 * (32 / 8) + int (k * bandSize)))).bind fun buffer =>
    (buffer.get n).bind fun (band, buffer) =>
      (readPartialBands n bandSize numBands (k + 1) buffer).map fun bands => band :: bands

def loadPartial (buffer : ByteBuffer) (resolution : Int) : Option WaveletCodec :=
  buffer.getInt.bind fun (resolutionX, buffer) =>
  buffer.getInt.bind fun (resolutionY, buffer) =>
  if resolutionX < resolution ∨ resolutionY < resolution then none
  else
    buffer.getInt.bind fun (type, buffer) =>
    if isTypeValid type then
      buffer.getInt.bind fun (numBands, buffer) =>
      if numBands < 0 ∨ int (resolution * resolution) < 0 then none
      else
        (readPartialBands (int (resolution * resolution)).toNat (int (resolutionX * resolutionY)) numBands.toNat 0
          buffer).bind fun xform => WaveletCodec.new type resolutionX resolutionY xform
    else none

/-! ## Encoding -/

/-- The pass of `encode` along the rows. Rows start at multiples of `yRes`. -/
def rowPass (yRes xformXres xformYres : Nat) (imageData workspace : List ℚ) : Option (List ℚ) :=
  let half := xformXres / 2
  let read j i := imageData.getD (j * yRes + i) 0
  if ∀ c ∈ cells xformYres half, c.1 * yRes + c.2 * 2 + 1 < imageData.length then
    writes workspace ((cells xformYres half).flatMap fun (j, i) =>
      let average := (read j (i * 2) + read j (i * 2 + 1)) / 2
      let detail := read j (i * 2) - average
      [(j * yRes + i, average), (j * yRes + i + half, detail)])
  else none

/-- The pass along the columns. -/
def columnPass (yRes xformXres xformYres : Nat) (imageData workspace : List ℚ) : Option (List ℚ) :=
  let half := xformYres / 2
  let read i j := imageData.getD (j + i * yRes) 0
  if ∀ c ∈ cells xformXres half, c.1 + (c.2 * 2 + 1) * yRes < imageData.length then
    writes workspace ((cells xformXres half).flatMap fun (j, i) =>
      let average := (read (i * 2) j + read (i * 2 + 1) j) / 2
      let detail := read (i * 2) j - average
      [(j + i * yRes, average), (j + (i + half) * yRes, detail)])
  else none

/-- The loop of `encode`. After each pass the workspace is copied over the
image data, also after a pass that has written nothing. -/
def encodeLoop (yRes : Nat) : Nat → Nat → Nat → List ℚ → List ℚ → Option (List ℚ)
  | 0, _, _, _, _ => none
  | rounds + 1, xformXres, xformYres, imageData, workspace =>
    if ¬ (0 < xformXres ∨ 0 < xformYres) then some imageData
    else (rowPass yRes xformXres xformYres imageData workspace).bind fun workspace =>
      (columnPass yRes xformXres xformYres workspace workspace).bind fun workspace =>
        encodeLoop yRes rounds (xformXres / 2) (xformYres / 2) workspace workspace

/-- `Math.round`. -/
def round (x : ℚ) : Int := ⌊x + 1 / 2⌋

/-- The average, `(byte) Math.min(255, Math.max(0, Math.round(x)))`. -/
def quantizeAverage (x : ℚ) : Int8 := byte (min 255 (max 0 (round x))).toNat

/-- A coefficient, `(byte) Math.max(-128, Math.min(127, Math.round(x)))`. -/
def quantize (x : ℚ) : Int8 := Int8.ofInt (max (-128) (min 127 (round x)))

/-- The cells of one level in the order of the file: the horizontal, the
vertical and the diagonal block. -/
def levelLayout (xRes scale : Nat) : List Nat :=
  (List.range 3).flatMap fun subBlock =>
    let colOffset := if subBlock % 2 = 0 then scale else 0
    let rowOffset := if 0 < subBlock then scale * xRes else 0
    (cells scale scale).map fun (j, i) => rowOffset + colOffset + j * xRes + i

/-- The cells in the order of the file, without the average. -/
def layout (xRes : Nat) : Nat → Nat → List Nat
  | 0, _ => []
  | rounds + 1, scale => if scale < xRes then levelLayout xRes scale ++ layout xRes rounds (2 * scale) else []

/-- The coefficients of a transformed band, as bytes in the order of the file. -/
def rearrange (xRes bandSize : Nat) (imageData : List ℚ) : Option (List Int8) :=
  if 0 < imageData.length ∧ ∀ p ∈ layout xRes xRes 1, p < imageData.length then
    writes (List.replicate bandSize 0) ((0, quantizeAverage (imageData.getD 0 0)) ::
      ((layout xRes xRes 1).zipIdx 1).map fun (p, next) => (next, quantize (imageData.getD p 0)))
  else none

/-- `encode` for a band. -/
def encodeBand (xRes yRes : Nat) (samples : List UInt8) : Option (List Int8) :=
  let bandSize := xRes * yRes
  let imageData := samples.map fun x => (x.toNat : ℚ)
  (encodeLoop yRes (xRes + yRes) xRes yRes imageData (List.replicate bandSize 0)).bind (rearrange xRes bandSize)

def encode (image : Image) : Option WaveletCodec :=
  let xRes := image.width
  let yRes := image.height
  if ¬ isPowerOfTwo xRes ∨ ¬ isPowerOfTwo yRes then none
  else
    let numBands := image.bands.length
    if ¬ (numBands = 1 ∨ numBands = 3 ∨ numBands = 4) then none
    else
      let type := getWaveletType image.imageType
      if ¬ isTypeValid type then none
      else (image.bands.mapM (encodeBand xRes yRes)).bind fun xform => WaveletCodec.new type xRes yRes xform

end WorldWind.Wavelet
