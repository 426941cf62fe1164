import WorldWind.Lib.Grid
import WorldWind.Lib.Nio
import WorldWind.WWMath
/-!
# `formats/dds`: compressing an image to a DDS file

`DDSCompressor` predicts the size of the file, writes a header of 128 bytes and
then the blocks of the image, or of each of its mip map levels. `DDSHeader`
reads the header, and `DDSDecompressor` computes from it where the levels are.

The colors of a block are what the block compressors make of 16 pixels; here an
image has them as data. A call that throws has no result.
-/

namespace WorldWind.Dds

open Lib.Grid Lib.JavaInt Lib.Nio WWMath

/-! ## Constants -/

def DDS_SIGNATURE_SIZE : Int := 4
def DDS_HEADER_SIZE : Int := 124
def DDS_PIXEL_FORMAT_SIZE : Int := 32
def DDS_PIXEL_FORMAT_OFFSET : Int := 76
def DDS_DATA_OFFSET : Int := DDS_SIGNATURE_SIZE + DDS_HEADER_SIZE

def DDPF_FOURCC : Nat := 0x0004
def DDSCAPS_TEXTURE : Nat := 0x1000
def DDSD_CAPS : Nat := 0x0001
def DDSD_HEIGHT : Nat := 0x0002
def DDSD_WIDTH : Nat := 0x0004
def DDSD_PIXELFORMAT : Nat := 0x1000
def DDSD_MIPMAPCOUNT : Nat := 0x20000
def DDSD_LINEARSIZE : Nat := 0x80000

def makeFourCC (ch0 ch1 ch2 ch3 : Char) : Int :=
  (ch0.toNat ||| ch1.toNat <<< 8 ||| ch2.toNat <<< 16 ||| ch3.toNat <<< 24 : Nat)

def D3DFMT_DXT1 : Int := makeFourCC 'D' 'X' 'T' '1'
def D3DFMT_DXT3 : Int := makeFourCC 'D' 'X' 'T' '3'
def MAGIC : Int := makeFourCC 'D' 'D' 'S' ' '

/-! ## Images -/

structure BlockDXT1 where
  color0 : Int
  color1 : Int
  colorIndexMask : Int

structure BlockDXT3 where
  alphaValueMask : Int
  colorBlock : BlockDXT1

/-- The compressed blocks of an image. The block at column `i` and row `j` is
that of the pixels from there on. -/
structure Blocks where
  dxt1 : Nat → Nat → BlockDXT1
  dxt3 : Nat → Nat → BlockDXT3

/-- The number of pixels of an image is below the largest `int`. -/
structure Image where
  width : Nat
  height : Nat
  blocks : Blocks
  width_pos : 1 ≤ width
  height_pos : 1 ≤ height
  isImage : width * height < 2 ^ 31 - 1

/-- Level `level` of the chain of mip maps, of which `blocks` are the contents. -/
def mipMapLevel (image : Image) (blocks : Nat → Blocks) (level : Nat) : Image where
  width := max (image.width >>> level) 1
  height := max (image.height >>> level) 1
  blocks := blocks level
  width_pos := Nat.le_max_right _ _
  height_pos := Nat.le_max_right _ _
  isImage := (Nat.mul_le_mul (Nat.max_le.2 ⟨Nat.shiftRight_le _ _, image.width_pos⟩)
    (Nat.max_le.2 ⟨Nat.shiftRight_le _ _, image.height_pos⟩)).trans_lt image.isImage

def getMaxMipmapLevel (width height : Nat) : Nat := max (logBase2 width) (logBase2 height)

/-- `ImageUtil.buildMipmaps` down to the last level. -/
def buildMipMaps (image : Image) (blocks : Nat → Blocks) : List Image :=
  (List.range (getMaxMipmapLevel image.width image.height + 1)).map (mipMapLevel image blocks)

/-! ## The block compressors -/

inductive DXTCompressor where
  | DXT1Compressor
  | DXT3Compressor
  deriving DecidableEq, Repr

namespace DXTCompressor

def getDXTFormat : DXTCompressor → Int
  | DXT1Compressor => D3DFMT_DXT1
  | DXT3Compressor => D3DFMT_DXT3

def getCompressedSize (c : DXTCompressor) (image : Image) : Int :=
  let width := max image.width 4
  let height := max image.height 4
  match c with
  | DXT1Compressor => (int (width * height : Nat)).tdiv 2
  | DXT3Compressor => int (width * height : Nat)

def putBlockDXT1 (block : BlockDXT1) (buffer : ByteBuffer) : Option ByteBuffer :=
  (buffer.putShort block.color0).bind fun buffer =>
  (buffer.putShort block.color1).bind fun buffer =>
  buffer.putInt block.colorIndexMask

def putBlockDXT3 (block : BlockDXT3) (buffer : ByteBuffer) : Option ByteBuffer :=
  (buffer.putLong block.alphaValueMask).bind (putBlockDXT1 block.colorBlock)

/-- The loops over the blocks, `for j < height by 4, for i < width by 4`. -/
def compressImage (c : DXTCompressor) (image : Image) (buffer : ByteBuffer) : Option ByteBuffer :=
  (cells ((image.height + 3) / 4) ((image.width + 3) / 4)).foldlM (fun buffer (j, i) =>
    match c with
    | DXT1Compressor => putBlockDXT1 (image.blocks.dxt1 (4 * i) (4 * j)) buffer
    | DXT3Compressor => putBlockDXT3 (image.blocks.dxt3 (4 * i) (4 * j)) buffer) buffer

end DXTCompressor

/-! ## The header -/

structure DDSPixelFormat where
  flags : Int
  fourCC : Int
  rgbBitCount : Int
  rBitMask : Int
  gBitMask : Int
  bBitMask : Int
  aBitMask : Int
  deriving DecidableEq, Repr

structure DDSHeader where
  flags : Int
  width : Int
  height : Int
  linearSize : Int
  depth : Int
  mipMapCount : Int
  pixelFormat : DDSPixelFormat
  caps : Int
  caps2 : Int
  caps3 : Int
  caps4 : Int
  deriving DecidableEq, Repr

def createDDSHeader (compressor : DXTCompressor) (image : Image) : DDSHeader where
  flags := (DDSD_WIDTH ||| DDSD_HEIGHT ||| DDSD_LINEARSIZE ||| DDSD_PIXELFORMAT ||| DDSD_CAPS : Nat)
  width := image.width
  height := image.height
  linearSize := compressor.getCompressedSize image
  depth := 0
  mipMapCount := 0
  pixelFormat := ⟨DDPF_FOURCC, compressor.getDXTFormat, 0, 0, 0, 0, 0⟩
  caps := DDSCAPS_TEXTURE
  caps2 := 0
  caps3 := 0
  caps4 := 0

/-- What `doCompressImage` changes in the header of an image with mip maps. -/
def DDSHeader.withMipMaps (header : DDSHeader) (count : Nat) : DDSHeader :=
  { header with flags := (header.flags.toNat ||| DDSD_MIPMAPCOUNT : Nat), mipMapCount := count }

def writeDDSPixelFormat (pixelFormat : DDSPixelFormat) (buffer : ByteBuffer) : Option ByteBuffer :=
  let pos := buffer.position
  ((buffer.putInt DDS_PIXEL_FORMAT_SIZE).bind fun buffer =>
  (buffer.putInt pixelFormat.flags).bind fun buffer =>
  (buffer.putInt pixelFormat.fourCC).bind fun buffer =>
  (buffer.putInt pixelFormat.rgbBitCount).bind fun buffer =>
  (buffer.putInt pixelFormat.rBitMask).bind fun buffer =>
  (buffer.putInt pixelFormat.gBitMask).bind fun buffer =>
  (buffer.putInt pixelFormat.bBitMask).bind fun buffer =>
  buffer.putInt pixelFormat.aBitMask).bind fun buffer => buffer.setPosition (pos + DDS_PIXEL_FORMAT_SIZE)

def writeDDSHeader (header : DDSHeader) (buffer : ByteBuffer) : Option ByteBuffer :=
  let pos := buffer.position
  ((buffer.putInt DDS_HEADER_SIZE).bind fun buffer =>
  (buffer.putInt header.flags).bind fun buffer =>
  (buffer.putInt header.height).bind fun buffer =>
  (buffer.putInt header.width).bind fun buffer =>
  (buffer.putInt header.linearSize).bind fun buffer =>
  (buffer.putInt header.depth).bind fun buffer =>
  (buffer.putInt header.mipMapCount).bind fun buffer =>
  (buffer.setPosition (buffer.position + 44)).bind fun buffer =>
  (writeDDSPixelFormat header.pixelFormat buffer).bind fun buffer =>
  (buffer.putInt header.caps).bind fun buffer =>
  (buffer.putInt header.caps2).bind fun buffer =>
  (buffer.putInt header.caps3).bind fun buffer =>
  (buffer.putInt header.caps4).bind fun buffer =>
  buffer.setPosition (buffer.position + 4)).bind fun buffer => buffer.setPosition (pos + DDS_HEADER_SIZE)

def readPixelFormat (buffer : ByteBuffer) : Option (DDSPixelFormat × ByteBuffer) :=
  buffer.getInt.bind fun (dwSize, buffer) =>
  if dwSize ≠ DDS_PIXEL_FORMAT_SIZE then none
  else
    buffer.getInt.bind fun (flags, buffer) =>
    buffer.getInt.bind fun (fourCC, buffer) =>
    buffer.getInt.bind fun (rgbBitCount, buffer) =>
    buffer.getInt.bind fun (rBitMask, buffer) =>
    buffer.getInt.bind fun (gBitMask, buffer) =>
    buffer.getInt.bind fun (bBitMask, buffer) =>
    buffer.getInt.bind fun (aBitMask, buffer) =>
    some (⟨flags, fourCC, rgbBitCount, rBitMask, gBitMask, bBitMask, aBitMask⟩, buffer)

/-- The part of `readFrom` behind the signature and the size. -/
def readFields (buffer : ByteBuffer) : Option (DDSHeader × ByteBuffer) :=
  buffer.getInt.bind fun (flags, buffer) =>
  buffer.getInt.bind fun (height, buffer) =>
  buffer.getInt.bind fun (width, buffer) =>
  buffer.getInt.bind fun (linearSize, buffer) =>
  buffer.getInt.bind fun (depth, buffer) =>
  buffer.getInt.bind fun (mipMapCount, buffer) =>
  (buffer.setPosition DDS_PIXEL_FORMAT_OFFSET).bind fun buffer =>
  (readPixelFormat buffer).bind fun (pixelFormat, buffer) =>
  buffer.getInt.bind fun (caps, buffer) =>
  buffer.getInt.bind fun (caps2, buffer) =>
  buffer.getInt.bind fun (caps3, buffer) =>
  buffer.getInt.bind fun (caps4, buffer) =>
  buffer.getInt.bind fun (_, buffer) =>
  some (⟨flags, width, height, linearSize, depth, mipMapCount, pixelFormat, caps, caps2, caps3, caps4⟩, buffer)

/-- `DDSHeader.readFrom(ByteBuffer)`. -/
def readFrom (buffer : ByteBuffer) : Option (DDSHeader × ByteBuffer) :=
  let buffer := { buffer with order := .littleEndian }
  if buffer.limit - buffer.position < DDS_SIGNATURE_SIZE + DDS_HEADER_SIZE then none
  else
    buffer.getInt.bind fun (signature, buffer) =>
    if MAGIC ≠ signature then none
    else
      buffer.getInt.bind fun (dwSize, buffer) =>
      if dwSize ≠ DDS_HEADER_SIZE then none else readFields buffer

/-! ## Writing the file -/

/-- The header of the file and the images it holds. -/
def plan (compressor : DXTCompressor) (image : Image) (buildMipmaps : Bool) (blocks : Nat → Blocks) :
    DDSHeader × List Image :=
  let header := createDDSHeader compressor image
  if buildMipmaps then
    let mipMapLevels := buildMipMaps image blocks
    (header.withMipMaps mipMapLevels.length, mipMapLevels)
  else (header, [image])

def fileSize (compressor : DXTCompressor) (levels : List Image) : Int :=
  levels.foldl (fun fileSize image => int (fileSize + compressor.getCompressedSize image)) (4 + DDS_HEADER_SIZE)

/-- `doCompressImage` up to the call of `rewind`. -/
def writeFile (compressor : DXTCompressor) (header : DDSHeader) (levels : List Image) : Option ByteBuffer :=
  (ByteBuffer.allocate (fileSize compressor levels)).bind fun buffer =>
  let buffer := { buffer with order := .littleEndian }
  (buffer.putInt MAGIC).bind fun buffer =>
  (writeDDSHeader header buffer).bind fun buffer =>
  levels.foldlM (fun buffer image => compressor.compressImage image buffer) buffer

def doCompressImage (compressor : DXTCompressor) (image : Image) (buildMipmaps : Bool) (blocks : Nat → Blocks) :
    Option ByteBuffer :=
  let (header, levels) := plan compressor image buildMipmaps blocks
  (writeFile compressor header levels).map ByteBuffer.rewind

/-! ## Where the decompressor reads -/

/-- A call of `decompress`: the position of the buffer and the size of the
image. -/
structure Read where
  offset : Int
  width : Int
  height : Int
  deriving DecidableEq, Repr

/-- The loop of `doDecompress` from level `i` on. -/
def mipMapReads (header : DDSHeader) : Nat → Nat → Int → Int → List Read
  | 0, _, _, _ => []
  | rounds + 1, i, mmOffset, mmLength =>
    let mmWidth := header.width.tdiv (2 ^ i)
    let mmHeight := header.height.tdiv (2 ^ i)
    if mmWidth < 4 ∨ mmHeight < 4 then []
    else ⟨mmOffset, mmWidth, mmHeight⟩ :: mipMapReads header rounds (i + 1) (int (mmOffset + mmLength))
      (mmLength.tdiv 4)

/-- The reads of `doDecompress`, which throws for other sizes and formats. -/
def doDecompress (header : DDSHeader) : Option (List Read) :=
  if ¬ isPowerOfTwo header.width.toNat ∨ ¬ isPowerOfTwo header.height.toNat then none
  else if header.pixelFormat.fourCC = D3DFMT_DXT3 ∨ header.pixelFormat.fourCC = D3DFMT_DXT1 then
    if header.mipMapCount = 0 then some [⟨DDS_DATA_OFFSET, header.width, header.height⟩]
    else some (mipMapReads header header.mipMapCount.toNat 0 DDS_DATA_OFFSET header.linearSize)
  else none

end WorldWind.Dds
