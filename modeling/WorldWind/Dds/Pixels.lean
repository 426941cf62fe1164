import WorldWind.Dds.BlockCompressor
/-!
# `formats/dds`: from pixels to blocks

`BasicColorBlockExtractor` takes 4 by 4 pixels out of an image and repeats
pixels where the image ends before the block. `BlockDXT1Compressor` has a second
mode, with three colors and a transparent one, and `BlockDXT3Compressor` adds
four bits of alpha for each pixel. The compressors of images go through the
blocks with one block compressor, which keeps its colors from block to block.

A pixel is the bits of an `int`, the alpha in the upper eight.
-/

namespace WorldWind.Dds

open Lib.Grid Lib.JavaInt Lib.Nio
open scoped Lib.Numerals

structure DXTCompressionAttributes where
  buildMipmaps : Bool
  premultiplyAlpha : Bool
  enableDXT1Alpha : Bool
  dxt1AlphaThreshold : Int
  colorBlockCompressionType : ColorBlockCompressionType

/-- An image whose color model may have alpha, as `getRGB` returns its pixels. -/
structure Pixels where
  width : Nat
  height : Nat
  hasAlpha : Bool
  getRGB : Nat → Nat → Nat
  width_pos : 1 ≤ width
  height_pos : 1 ≤ height
  isImage : width * height < 2 ^ 31 - 1

/-! ## Extracting blocks -/

def int32ToColor32 (int32 : Nat) : Color32 where
  a := (int32 >>> 24 % 256 : Nat)
  r := (int32 >>> 16 % 256 : Nat)
  g := (int32 >>> 8 % 256 : Nat)
  b := (int32 % 256 : Nat)

def div255 (a : Int) : Int := (a + a / 2 ^ 8 + 128) / 2 ^ 8

def premultiply (color : Color32) : Color32 where
  a := color.a
  r := div255 (color.r * color.a)
  g := div255 (color.g * color.a)
  b := div255 (color.b * color.a)

theorem int32ToColor32_alpha (int32 : Nat) : 0 ≤ (int32ToColor32 int32).a ∧ (int32ToColor32 int32).a ≤ 255 := by
  simp only [int32ToColor32]
  omega

theorem int32ToColor32_bytes (int32 : Nat) : (int32ToColor32 int32).Bytes := by
  constructor <;> simp only [int32ToColor32] <;> omega

theorem div255_mem {x a : Int} (hx : 0 ≤ x ∧ x ≤ 255) (ha : 0 ≤ a ∧ a ≤ 255) :
    0 ≤ div255 (x * a) ∧ div255 (x * a) ≤ 255 := by
  have h0 : 0 ≤ x * a := mul_nonneg hx.1 ha.1
  have h1 : x * a ≤ 255 * 255 := mul_le_mul hx.2 ha.2 ha.1 (by omega)
  unfold div255
  omega

theorem premultiply_bytes {color : Color32} (h : color.Bytes) (ha : 0 ≤ color.a ∧ color.a ≤ 255) :
    (premultiply color).Bytes :=
  ⟨div255_mem h.r ha, div255_mem h.g ha, div255_mem h.b ha⟩

def remainder : List Nat := [0, 0, 0, 0, 0, 1, 0, 1, 0, 1, 2, 0, 0, 1, 2, 3]

/-- The color in column `i` and row `j` of the block at `x` and `y`. -/
def extractColor (image : Pixels) (x y i j : Nat) : Color32 :=
  let bw := min (image.width - x) 4
  let bh := min (image.height - y) 4
  let buffer := fun p => image.getRGB (x + p % 4) (y + p / 4)
  let bx := remainder.getD (4 * (bw - 1) + i) 0
  let blockY := remainder.getD (4 * (bh - 1) + j) 0
  int32ToColor32 (buffer (bx + blockY * 4))

def extractColorBlock4x4 (attributes : DXTCompressionAttributes) (image : Pixels) (x y : Nat) : ColorBlock4x4 where
  color k :=
    let color := extractColor image x y (k.val % 4) (k.val / 4)
    if attributes.premultiplyAlpha then premultiply color else color
  bytes k := by
    dsimp only
    split
    · exact premultiply_bytes (int32ToColor32_bytes _) (int32ToColor32_alpha _)
    · exact int32ToColor32_bytes _

/-! ## Blocks with three colors -/

def computeColorPalette3 (color0 color1 : Int) (k : Fin 4) : Color32 :=
  let c0 := short565ToColor32 color0
  let c1 := short565ToColor32 color1
  match k with
  | 0 => c0
  | 1 => c1
  | 2 => ⟨255, (c0.r + c1.r).tdiv 2, (c0.g + c1.g).tdiv 2, (c0.b + c1.b).tdiv 2⟩
  | 3 => ⟨0, 0, 0, 0⟩

def paletteIndex3 (alphaThreshold alpha d0 d1 d2 : Int) : Nat :=
  if alpha < alphaThreshold then 3
  else if d0 < d1 ∧ d0 < d2 then 0
  else if d1 < d2 then 1
  else 2

def computePaletteIndices3 (block : ColorBlock4x4) (alphaThreshold : Int) (palette : Fin 4 → Color32) : Nat :=
  indexMask (fun i =>
    let color := block.color (Fin.ofNat 16 i)
    paletteIndex3 alphaThreshold color.a (colorDistanceSquared (palette 0) color)
      (colorDistanceSquared (palette 1) color) (colorDistanceSquared (palette 2) color)) 16

/-- The compressor after the call, and the block: the smaller color is first. -/
def BlockDXT1Compressor.compressBlockDXT1a (compressor : BlockDXT1Compressor) (colorBlock : ColorBlock4x4)
    (attributes : DXTCompressionAttributes) : BlockDXT1Compressor × BlockDXT1 :=
  let ends := chooseMinMaxColors colorBlock attributes.colorBlockCompressionType compressor.ends
  let color0 := short565FromColor32 ends.maxColor
  let color1 := short565FromColor32 ends.minColor
  let (color0, color1) := if color0 < color1 then (color1, color0) else (color0, color1)
  let palette := computeColorPalette3 color1 color0
  (⟨ends, palette⟩,
    ⟨color1, color0, computePaletteIndices3 colorBlock attributes.dxt1AlphaThreshold palette⟩)

def blockHasDXT1Alpha (colorBlock : ColorBlock4x4) (alphaThreshold : Int) : Bool :=
  (List.finRange 16).any fun i => (colorBlock.color i).a < alphaThreshold

/-! ## Alpha -/

def alphaDistanceSquared (a0 a1 : Int) : Int := (a0 - a1) * (a0 - a1)

/-- A four bit value as eight bits, `(q << 4) | q`. -/
def alpha8 (q : Int) : Int := 16 * q + q

def alpha4FromAlpha8 (alpha : Int) : Int :=
  let q0 := alpha8 (max (alpha / 2 ^ 4 - 1) 0)
  let q1 := alpha8 (alpha / 2 ^ 4)
  let q2 := alpha8 (min (alpha / 2 ^ 4 + 1) 0xF)
  let d0 := alphaDistanceSquared q0 alpha
  let d1 := alphaDistanceSquared q1 alpha
  let d2 := alphaDistanceSquared q2 alpha
  if d0 < d1 ∧ d0 < d2 then q0 / 2 ^ 4
  else if d1 < d2 then q1 / 2 ^ 4
  else q2 / 2 ^ 4

/-- The four bits of a pixel, `0xF & alpha4FromAlpha8(a)`. -/
def alphaBits (colorBlock : ColorBlock4x4) (k : Nat) : Nat :=
  (alpha4FromAlpha8 (colorBlock.color (Fin.ofNat 16 k)).a % 2 ^ 4).toNat

def computeAlphaValueMask (colorBlock : ColorBlock4x4) : Nat :=
  (List.range 8).foldl (fun bitmask i =>
    let a0 := alphaBits colorBlock (2 * i)
    let a1 := alphaBits colorBlock (2 * i + 1)
    bitmask ||| (a1 <<< 4 ||| a0) <<< (8 * i)) 0

/-! ## Images -/

/-- The block of the round at `x` and `y` of the loops of `DXT1Compressor`. -/
def compressBlock1 (attributes : DXTCompressionAttributes) (hasAlpha : Bool) (compressor : BlockDXT1Compressor)
    (colorBlock : ColorBlock4x4) : BlockDXT1Compressor × BlockDXT1 :=
  if attributes.enableDXT1Alpha && hasAlpha && blockHasDXT1Alpha colorBlock attributes.dxt1AlphaThreshold then
    compressor.compressBlockDXT1a colorBlock attributes
  else compressor.compressBlockDXT1 colorBlock attributes.colorBlockCompressionType

/-- `BlockDXT3Compressor.compressBlockDXT3`. -/
def compressBlockDXT3 (attributes : DXTCompressionAttributes) (compressor : BlockDXT1Compressor)
    (colorBlock : ColorBlock4x4) : BlockDXT1Compressor × BlockDXT3 :=
  let (compressor, block) := compressor.compressBlockDXT1 colorBlock attributes.colorBlockCompressionType
  (compressor, ⟨computeAlphaValueMask colorBlock, block⟩)

/-- One round of the loops of `compressImage`. -/
def DXTCompressor.compressRound (c : DXTCompressor) (attributes : DXTCompressionAttributes) (image : Pixels)
    (state : BlockDXT1Compressor × ByteBuffer) (cell : Nat × Nat) : Option (BlockDXT1Compressor × ByteBuffer) :=
  let colorBlock := extractColorBlock4x4 attributes image (4 * cell.2) (4 * cell.1)
  match c with
  | .DXT1Compressor =>
    let (compressor, block) := compressBlock1 attributes image.hasAlpha state.1 colorBlock
    (putBlockDXT1 block state.2).map fun buffer => (compressor, buffer)
  | .DXT3Compressor =>
    let (compressor, block) := compressBlockDXT3 attributes state.1 colorBlock
    (putBlockDXT3 block state.2).map fun buffer => (compressor, buffer)

/-- `compressImage` from the pixels on. -/
def DXTCompressor.compressPixels (c : DXTCompressor) (attributes : DXTCompressionAttributes) (image : Pixels)
    (buffer : ByteBuffer) : Option ByteBuffer :=
  ((cells ((image.height + 3) / 4) ((image.width + 3) / 4)).foldlM (c.compressRound attributes image)
    (BlockDXT1Compressor.new, buffer)).map Prod.snd

end WorldWind.Dds
