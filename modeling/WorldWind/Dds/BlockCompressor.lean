import WorldWind.Dds.Model
import WorldWind.Lib.Numerals
/-!
# `formats/dds/BlockDXT1Compressor.java`

A block of 16 colors becomes two end colors of 16 bits and an index of two bits
for each pixel. The end colors are two colors of the block, or the corners of a
box around them, as the attributes say. The colors between the ends are at one
and two thirds. The components of colors are between 0 and 255, so nothing
overflows; the subtraction of `greaterThan` may wrap, for other numbers.

A compressor keeps its colors between calls (`minColor`, `maxColor`, `palette`).
-/

namespace WorldWind.Dds

open Lib.JavaInt
open scoped Lib.Numerals

structure Color32 where
  a : Int
  r : Int
  g : Int
  b : Int
  deriving DecidableEq, Repr

/-- The components are bytes. -/
structure Color32.Bytes (c : Color32) : Prop where
  r : 0 ≤ c.r ∧ c.r ≤ 255
  g : 0 ≤ c.g ∧ c.g ≤ 255
  b : 0 ≤ c.b ∧ c.b ≤ 255

instance (c : Color32) : Decidable c.Bytes :=
  decidable_of_iff ((0 ≤ c.r ∧ c.r ≤ 255) ∧ (0 ≤ c.g ∧ c.g ≤ 255) ∧ (0 ≤ c.b ∧ c.b ≤ 255))
    ⟨fun h => ⟨h.1, h.2.1, h.2.2⟩, fun h => ⟨h.r, h.g, h.b⟩⟩

structure ColorBlock4x4 where
  color : Fin 16 → Color32
  bytes : ∀ i, (color i).Bytes

/-- `getColorBlockCompressionType()`, which is compared by reference with the
three constants. -/
inductive ColorBlockCompressionType where
  | COLOR_BLOCK_COMPRESSION_BBOX
  | COLOR_BLOCK_COMPRESSION_EUCLIDEAN_DISTANCE
  | COLOR_BLOCK_COMPRESSION_LUMINANCE_DISTANCE
  | other
  deriving DecidableEq, Repr

/-! ## Arithmetic of colors -/

def mul8bit (a b : Int) : Int :=
  let t := a * b + 128
  (t + t / 256) / 256

/-- The shifted parts do not overlap. -/
def short565FromColor32 (color : Color32) : Int :=
  mul8bit color.r 31 * 2 ^ 11 + mul8bit color.g 63 * 2 ^ 5 + mul8bit color.b 31

/-- The 5 and the 6 bits of a component and its upper bits again. -/
def expand5 (v : Int) : Int := v * 8 + v / 4
def expand6 (v : Int) : Int := v * 4 + v / 16

def short565ToColor32 (color16 : Int) : Color32 where
  a := 255
  r := expand5 (color16 / 2 ^ 11 % 2 ^ 5)
  g := expand6 (color16 / 2 ^ 5 % 2 ^ 6)
  b := expand5 (color16 % 2 ^ 5)

def colorLuminance (c : Color32) : Int := c.r + c.g + 2 * c.b

def colorDistanceSquared (c1 c2 : Color32) : Int :=
  (c1.r - c2.r) * (c1.r - c2.r) + (c1.g - c2.g) * (c1.g - c2.g) + (c1.b - c2.b) * (c1.b - c2.b)

def maxColorComponents (c1 c2 : Color32) : Color32 where
  a := if c1.a > c2.a then c1.a else c2.a
  r := if c1.r > c2.r then c1.r else c2.r
  g := if c1.g > c2.g then c1.g else c2.g
  b := if c1.b > c2.b then c1.b else c2.b

def minColorComponents (c1 c2 : Color32) : Color32 where
  a := if c1.a > c2.a then c2.a else c1.a
  r := if c1.r > c2.r then c2.r else c1.r
  g := if c1.g > c2.g then c2.g else c1.g
  b := if c1.b > c2.b then c2.b else c1.b

/-- The sign bit of `b - a`. -/
def greaterThan (a b : Int) : Nat := if int (b - a) < 0 then 1 else 0

/-! ## The end colors -/

/-- The minimum and the maximum color. -/
structure Ends where
  minColor : Color32
  maxColor : Color32
  deriving DecidableEq, Repr

def findMinMaxColorsBox (block : ColorBlock4x4) (ends : Ends) : Ends :=
  (List.finRange 16).foldl (fun ends i =>
    ⟨minColorComponents ends.minColor (block.color i), maxColorComponents ends.maxColor (block.color i)⟩)
    ⟨{ ends.minColor with r := 255, g := 255, b := 255 }, { ends.maxColor with r := 0, g := 0, b := 0 }⟩

def selectDiagonal (block : ColorBlock4x4) (ends : Ends) : Ends :=
  let centerR := (ends.minColor.r + ends.maxColor.r).tdiv 2
  let centerG := (ends.minColor.g + ends.maxColor.g).tdiv 2
  let centerB := (ends.minColor.b + ends.maxColor.b).tdiv 2
  let cvx := ((List.finRange 16).map fun i => ((block.color i).r - centerR) * ((block.color i).b - centerB)).sum
  let cvy := ((List.finRange 16).map fun i => ((block.color i).g - centerG) * ((block.color i).b - centerB)).sum
  let (x0, x1) := if cvx < 0 then (ends.maxColor.r, ends.minColor.r) else (ends.minColor.r, ends.maxColor.r)
  let (y0, y1) := if cvy < 0 then (ends.maxColor.g, ends.minColor.g) else (ends.minColor.g, ends.maxColor.g)
  ⟨{ ends.minColor with r := x0, g := y0 }, { ends.maxColor with r := x1, g := y1 }⟩

/-- A component of the minimum moved inside, and one of the maximum. -/
def insetMin (min inset : Int) : Int := if min + inset < 255 then min + inset else 255
def insetMax (max inset : Int) : Int := if max > inset then max - inset else 0

def insetBox (ends : Ends) : Ends :=
  let insetR := (ends.maxColor.r - ends.minColor.r) / 16
  let insetG := (ends.maxColor.g - ends.minColor.g) / 16
  let insetB := (ends.maxColor.b - ends.minColor.b) / 16
  ⟨{ ends.minColor with
      r := insetMin ends.minColor.r insetR, g := insetMin ends.minColor.g insetG, b :=
        insetMin ends.minColor.b insetB },
    { ends.maxColor with
      r := insetMax ends.maxColor.r insetR, g := insetMax ends.maxColor.g insetG, b :=
        insetMax ends.maxColor.b insetB }⟩

/-- The variables of the searches for the end colors: the indices found so far
and what they are compared by. -/
structure Search where
  minIndex : Fin 16
  maxIndex : Fin 16
  low : Int
  high : Int

/-- The first pair of the colors that are farthest apart. -/
def findMinMaxColorsEuclideanDistance (block : ColorBlock4x4) : Ends :=
  let found := ((List.finRange 16).flatMap fun i => ((List.finRange 16).filter (i < ·)).map fun j => (i, j)).foldl
    (fun (s : Search) (i, j) =>
      let d := colorDistanceSquared (block.color i) (block.color j)
      if d > s.high then ⟨i, j, s.low, d⟩ else s) ⟨0, 0, 0, -1⟩
  ⟨block.color found.minIndex, block.color found.maxIndex⟩

/-- The first of the darkest and of the lightest colors. -/
def findMinMaxColorsLuminanceDistance (block : ColorBlock4x4) : Ends :=
  let found := (List.finRange 16).foldl (fun (s : Search) i =>
    let luminance := colorLuminance (block.color i)
    let s := if luminance < s.low then { s with minIndex := i, low := luminance } else s
    if luminance > s.high then { s with maxIndex := i, high := luminance } else s) ⟨0, 0, 2 ^ 31 - 1, -1⟩
  ⟨block.color found.minIndex, block.color found.maxIndex⟩

/-- For another type the ends are those of the call before. -/
def chooseMinMaxColors (block : ColorBlock4x4) (type : ColorBlockCompressionType) (ends : Ends) : Ends :=
  match type with
  | .COLOR_BLOCK_COMPRESSION_BBOX => insetBox (selectDiagonal block (findMinMaxColorsBox block ends))
  | .COLOR_BLOCK_COMPRESSION_EUCLIDEAN_DISTANCE => findMinMaxColorsEuclideanDistance block
  | .COLOR_BLOCK_COMPRESSION_LUMINANCE_DISTANCE => findMinMaxColorsLuminanceDistance block
  | .other => ends

/-! ## Palettes -/

/-- The colors of a block's indices. The alpha of the last one is never set. -/
def computeColorPalette4 (color0 color1 : Int) (k : Fin 4) : Color32 :=
  let c0 := short565ToColor32 color0
  let c1 := short565ToColor32 color1
  match k with
  | 0 => c0
  | 1 => c1
  | 2 => ⟨255, (2 * c0.r + c1.r).tdiv 3, (2 * c0.g + c1.g).tdiv 3, (2 * c0.b + c1.b).tdiv 3⟩
  | 3 => ⟨0, (c0.r + 2 * c1.r).tdiv 3, (c0.g + 2 * c1.g).tdiv 3, (c0.b + 2 * c1.b).tdiv 3⟩

/-- The index of a pixel with these distances to the colors of the palette. -/
def paletteIndex4 (d0 d1 d2 d3 : Int) : Nat :=
  let b0 := greaterThan d0 d3
  let b1 := greaterThan d1 d2
  let b2 := greaterThan d0 d2
  let b3 := greaterThan d1 d3
  let b4 := greaterThan d2 d3
  let x0 := b1 &&& b2
  let x1 := b0 &&& b3
  let x2 := b0 &&& b4
  x2 ||| ((x0 ||| x1) <<< 1)

/-- `mask |= index << (i << 1)` over the pixels. -/
def indexMask (index : Nat → Nat) (n : Nat) : Nat :=
  (List.range n).foldl (fun mask i => mask ||| index i <<< (2 * i)) 0

def computePaletteIndices4 (block : ColorBlock4x4) (palette : Fin 4 → Color32) : Nat :=
  indexMask (fun i =>
    let color := block.color (Fin.ofNat 16 i)
    paletteIndex4 (colorDistanceSquared (palette 0) color) (colorDistanceSquared (palette 1) color)
      (colorDistanceSquared (palette 2) color) (colorDistanceSquared (palette 3) color)) 16

/-! ## Blocks -/

structure BlockDXT1Compressor where
  ends : Ends
  palette : Fin 4 → Color32

namespace BlockDXT1Compressor

def new : BlockDXT1Compressor := ⟨⟨⟨0, 0, 0, 0⟩, ⟨0, 0, 0, 0⟩⟩, fun _ => ⟨0, 0, 0, 0⟩⟩

/-- The compressor after the call, and the block. -/
def compressBlockDXT1 (compressor : BlockDXT1Compressor) (colorBlock : ColorBlock4x4)
    (type : ColorBlockCompressionType) : BlockDXT1Compressor × BlockDXT1 :=
  let ends := chooseMinMaxColors colorBlock type compressor.ends
  let color0 := short565FromColor32 ends.maxColor
  let color1 := short565FromColor32 ends.minColor
  let (color0, color1) := if color0 < color1 then (color1, color0) else (color0, color1)
  let palette := computeColorPalette4 color0 color1
  (⟨ends, palette⟩, ⟨color0, color1, computePaletteIndices4 colorBlock palette⟩)

end BlockDXT1Compressor

end WorldWind.Dds
