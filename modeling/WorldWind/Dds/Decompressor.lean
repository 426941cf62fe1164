import WorldWind.Dds.Model
import WorldWind.Lib.NioLoops
import WorldWind.Lib.Numerals
/-!
# `formats/dds/DXT1Decompressor.java`, `DXT3Decompressor.java`, `Color24.java`

The decompressors go through the blocks of an image row by row. A block's two
end colors are made a table of four, and each of its pixels is put in the strip
of four rows that is then set in the image.

A pixel is the bits of the `int` that `setRGB` is given; how the image stores
it is not modelled. A decompressor that throws, or catches an exception and
returns `null`, has no result.
-/

namespace WorldWind.Dds

open Lib.Grid Lib.JavaArray Lib.Nio
open scoped Lib.Numerals

/-! ## Colors -/

structure Color24 where
  r : Nat
  g : Nat
  b : Nat
  deriving DecidableEq, Repr

namespace Color24

def getPixel888 (color : Color24) : Nat := color.r <<< 16 ||| color.g <<< 8 ||| color.b

/-- The masks take lower bits of a `short` that has been made a `long`. -/
def fromPixel565 (pixel : Int) : Color24 :=
  let bits := (pixel % 2 ^ 64).toNat
  ⟨(bits &&& 0xf800) >>> 8, (bits &&& 0x07e0) >>> 3, (bits &&& 0x001f) <<< 3⟩

def expandLookupTable (minColor maxColor : Int) (k : Fin 4) : Color24 :=
  let colorMin := fromPixel565 minColor
  let colorMax := fromPixel565 maxColor
  match k with
  | 0 => colorMin
  | 1 => colorMax
  | 2 => ⟨(2 * colorMin.r + colorMax.r + 1) / 3, (2 * colorMin.g + colorMax.g + 1) / 3,
      (2 * colorMin.b + colorMax.b + 1) / 3⟩
  | 3 => ⟨(colorMin.r + 2 * colorMax.r + 1) / 3, (colorMin.g + 2 * colorMax.g + 1) / 3,
      (colorMin.b + 2 * colorMax.b + 1) / 3⟩

end Color24

/-! ## Images -/

structure BufferedImage where
  width : Nat
  height : Nat
  rgb : List Nat
  deriving DecidableEq, Repr

namespace BufferedImage

def new (width height : Nat) : BufferedImage := ⟨width, height, List.replicate (width * height) 0⟩

def getRGB (image : BufferedImage) (x y : Nat) : Option Nat :=
  if x < image.width ∧ y < image.height then image.rgb[y * image.width + x]? else none

/-- Throws outside of the image and outside of the array. -/
def setRGB (image : BufferedImage) (startX startY w h : Nat) (rgbArray : List Nat) (offset scansize : Nat) :
    Option BufferedImage :=
  if startX + w ≤ image.width ∧ startY + h ≤ image.height then
    ((cells h w).foldlM (fun rgb (y, x) => rgbArray[offset + y * scansize + x]?.bind fun v =>
      write rgb ((startY + y) * image.width + (startX + x)) v) image.rgb).map fun rgb => { image with rgb }
  else none

end BufferedImage

/-! ## Blocks of pixels -/

/-- `mask >>> k * bits`, and the lowest `bits` bits of it. -/
def bitsAt (mask : Int) (width bits k : Nat) : Nat :=
  ((mask % 2 ^ width).toNat >>> (k * bits)) &&& (2 ^ bits - 1)

def colorIndex (colorIndexMask : Int) (k : Nat) : Fin 4 := Fin.ofNat 4 (bitsAt colorIndexMask 32 2 k)

/-- The 16 pixels of a block of `decodeDxt1Buffer`. -/
def dxt1Pixel (minColor maxColor colorIndexMask : Int) (k : Nat) : Nat :=
  (Color24.expandLookupTable minColor maxColor (colorIndex colorIndexMask k)).getPixel888

/-- Those of `decodeDxt3Buffer`. -/
def dxt3Pixel (alphaData minColor maxColor colorIndexMask : Int) (k : Nat) : Nat :=
  let alpha := bitsAt alphaData 64 4 k <<< 4
  alpha <<< 24 ||| (Color24.expandLookupTable minColor maxColor (colorIndex colorIndexMask k)).getPixel888

def readDxt1Block (buffer : ByteBuffer) : Option ((Nat → Nat) × ByteBuffer) :=
  buffer.getShort.bind fun (minColor, buffer) =>
  buffer.getShort.bind fun (maxColor, buffer) =>
  buffer.getInt.bind fun (colorIndexMask, buffer) =>
  some (dxt1Pixel minColor maxColor colorIndexMask, buffer)

def readDxt3Block (buffer : ByteBuffer) : Option ((Nat → Nat) × ByteBuffer) :=
  buffer.getLong.bind fun (alphaData, buffer) =>
  buffer.getShort.bind fun (minColor, buffer) =>
  buffer.getShort.bind fun (maxColor, buffer) =>
  buffer.getInt.bind fun (colorIndexMask, buffer) =>
  some (dxt3Pixel alphaData minColor maxColor colorIndexMask, buffer)

/-! ## The loops -/

/-- The loop over the pixels of a block, the last one first. -/
def putBlock (width col : Nat) (pixel : Nat → Nat) (pixels : List Nat) : Option (List Nat) :=
  writes pixels ((List.range 16).reverse.map fun k => (k / 4 * width + (col * 4 + k % 4), pixel k))

/-- One round of the loop over the columns of tiles. -/
def decodeTile (readBlock : ByteBuffer → Option ((Nat → Nat) × ByteBuffer)) (width col : Nat) (pixels : List Nat)
    (buffer : ByteBuffer) : Option (List Nat × ByteBuffer) :=
  (readBlock buffer).bind fun (pixel, buffer) => (putBlock width col pixel pixels).map fun pixels => (pixels, buffer)

/-- One round of the loop over the rows of tiles: the strip `pixels` is used
again for each. -/
def decodeRow (readBlock : ByteBuffer → Option ((Nat → Nat) × ByteBuffer)) (width row : Nat)
    (state : BufferedImage × List Nat) (buffer : ByteBuffer) : Option ((BufferedImage × List Nat) × ByteBuffer) :=
  ((List.range (width / 4)).foldlM (fun r col => decodeTile readBlock width col r.1 r.2) (state.2, buffer)).bind
    fun (pixels, buffer) =>
    (state.1.setRGB 0 (row * 4) width 4 pixels 0 width).map fun result => ((result, pixels), buffer)

/-- What the two decoders share. -/
def decodeBuffer (readBlock : ByteBuffer → Option ((Nat → Nat) × ByteBuffer)) (buffer : ByteBuffer)
    (width height : Int) : Option BufferedImage :=
  if width < 4 ∨ height < 4 then none
  else
    let buffer := { buffer with order := .littleEndian }
    let width := width.toNat
    let height := height.toNat
    ((List.range (height / 4)).foldlM (fun r row => decodeRow readBlock width row r.1 r.2)
      ((BufferedImage.new width height, List.replicate (4 * width) 0), buffer)).map fun r => r.1.1

def decodeDxt1Buffer (buffer : ByteBuffer) (width height : Int) : Option BufferedImage :=
  decodeBuffer readDxt1Block buffer width height

def decodeDxt3Buffer (buffer : ByteBuffer) (width height : Int) : Option BufferedImage :=
  decodeBuffer readDxt3Block buffer width height

/-! ## Files -/

/-- The decompressor for a format. -/
def getDecompressor (dxtFormat : Int) : Option (ByteBuffer → Int → Int → Option BufferedImage) :=
  if dxtFormat = D3DFMT_DXT3 then some decodeDxt3Buffer
  else if dxtFormat = D3DFMT_DXT1 then some decodeDxt1Buffer
  else none

/-- `DDSDecompressor.doDecompress`: the images of a mapped file. The position is
set in front of each, so it does not matter where a decompressor leaves it. -/
def decompressFile (bytes : List Int8) : Option (List BufferedImage) :=
  let buffer := ByteBuffer.wrap bytes
  (readFrom buffer).bind fun (header, _) =>
  (getDecompressor header.pixelFormat.fourCC).bind fun decompress =>
  (doDecompress header).bind fun reads =>
  reads.mapM fun read => (buffer.setPosition read.offset).bind fun buffer => decompress buffer read.width read.height

end WorldWind.Dds
