import WorldWind.Dds.Pixels
import WorldWind.Dds.RoundTrip
/-!
# From pixels to pixels

A block does not depend on the blocks before it, though one compressor makes
them all (`compressPixels_eq`). So what comes out of a file can be compared with
the pixels that went in: the decoder's colors are those of the compressor up to
the bits it does not repeat and to its rounding (`decompressed_colors`), and
the alpha of DXT3 is sixteen times the nearest of 16 values (`decompressed_alpha`).
-/

namespace WorldWind.Dds

open Lib.Grid Lib.JavaInt Lib.Nio Lib.PackedBits
open scoped Lib.Numerals

/-! ## The compressor's state -/

/-- The ends agree but for their alpha. -/
structure Ends.SameColors (e f : Ends) : Prop where
  minR : e.minColor.r = f.minColor.r
  minG : e.minColor.g = f.minColor.g
  minB : e.minColor.b = f.minColor.b
  maxR : e.maxColor.r = f.maxColor.r
  maxG : e.maxColor.g = f.maxColor.g
  maxB : e.maxColor.b = f.maxColor.b

theorem Ends.SameColors.refl (e : Ends) : e.SameColors e := ⟨rfl, rfl, rfl, rfl, rfl, rfl⟩

theorem findMinMaxColorsBox_same (block : ColorBlock4x4) (e f : Ends) :
    (findMinMaxColorsBox block e).SameColors (findMinMaxColorsBox block f) := by
  have hfold : ∀ (l : List (Fin 16)) (e f : Ends), e.SameColors f →
      (l.foldl (fun ends i => Ends.mk (minColorComponents ends.minColor (block.color i))
        (maxColorComponents ends.maxColor (block.color i))) e).SameColors
      (l.foldl (fun ends i => Ends.mk (minColorComponents ends.minColor (block.color i))
        (maxColorComponents ends.maxColor (block.color i))) f) := by
    intro l
    induction l with
    | nil => exact fun e f h => h
    | cons i l ih =>
      intro e f h
      apply ih
      obtain ⟨h1, h2, h3, h4, h5, h6⟩ := h
      constructor <;> simp only [minColorComponents, maxColorComponents, *]
  exact hfold _ _ _ ⟨rfl, rfl, rfl, rfl, rfl, rfl⟩

theorem selectDiagonal_same (block : ColorBlock4x4) {e f : Ends} (h : e.SameColors f) :
    (selectDiagonal block e).SameColors (selectDiagonal block f) := by
  obtain ⟨h1, h2, h3, h4, h5, h6⟩ := h
  constructor <;> simp only [selectDiagonal, *]

theorem insetBox_same {e f : Ends} (h : e.SameColors f) : (insetBox e).SameColors (insetBox f) := by
  obtain ⟨h1, h2, h3, h4, h5, h6⟩ := h
  constructor <;> simp only [insetBox, *]

/-- Only for a type without a method do the ends matter that are there before. -/
theorem chooseMinMaxColors_same (block : ColorBlock4x4) {type : ColorBlockCompressionType} {e f : Ends}
    (h : type = .other → e = f) : (chooseMinMaxColors block type e).SameColors (chooseMinMaxColors block type f) := by
  cases type with
  | COLOR_BLOCK_COMPRESSION_BBOX =>
    exact insetBox_same (selectDiagonal_same block (findMinMaxColorsBox_same block e f))
  | COLOR_BLOCK_COMPRESSION_EUCLIDEAN_DISTANCE => exact Ends.SameColors.refl _
  | COLOR_BLOCK_COMPRESSION_LUMINANCE_DISTANCE => exact Ends.SameColors.refl _
  | other =>
    rw [h rfl]
    exact Ends.SameColors.refl _

theorem Ends.SameColors.short565 {e f : Ends} (h : e.SameColors f) :
    short565FromColor32 e.minColor = short565FromColor32 f.minColor ∧
      short565FromColor32 e.maxColor = short565FromColor32 f.maxColor := by
  unfold short565FromColor32
  rw [h.minR, h.minG, h.minB, h.maxR, h.maxG, h.maxB]
  exact ⟨rfl, rfl⟩

/-- A compressor in the middle of an image: its ends are the first ones if they
never change. -/
def BlockDXT1Compressor.Running (compressor : BlockDXT1Compressor) (type : ColorBlockCompressionType) : Prop :=
  type = .other → compressor.ends = BlockDXT1Compressor.new.ends

section

variable {attributes : DXTCompressionAttributes} {compressor : BlockDXT1Compressor}

theorem compressBlockDXT1_new (block : ColorBlock4x4) {type : ColorBlockCompressionType}
    (h : compressor.Running type) :
    (compressor.compressBlockDXT1 block type).2 = (BlockDXT1Compressor.new.compressBlockDXT1 block type).2 ∧
      (compressor.compressBlockDXT1 block type).1.Running type := by
  obtain ⟨hmin, hmax⟩ := (chooseMinMaxColors_same block h).short565
  constructor
  · simp only [BlockDXT1Compressor.compressBlockDXT1, hmin, hmax]
  · intro htype
    rw [← h htype]
    subst htype
    rfl

theorem compressBlockDXT1a_new (block : ColorBlock4x4)
    (h : compressor.Running attributes.colorBlockCompressionType) :
    (compressor.compressBlockDXT1a block attributes).2 =
        (BlockDXT1Compressor.new.compressBlockDXT1a block attributes).2 ∧
      (compressor.compressBlockDXT1a block attributes).1.Running attributes.colorBlockCompressionType := by
  obtain ⟨hmin, hmax⟩ := (chooseMinMaxColors_same block h).short565
  constructor
  · simp only [BlockDXT1Compressor.compressBlockDXT1a, hmin, hmax]
  · intro htype
    rw [← h htype]
    simp only [BlockDXT1Compressor.compressBlockDXT1a, htype]
    rfl

variable (attributes) in
theorem compressBlock1_new (hasAlpha : Bool) (block : ColorBlock4x4)
    (h : compressor.Running attributes.colorBlockCompressionType) :
    (compressBlock1 attributes hasAlpha compressor block).2 =
        (compressBlock1 attributes hasAlpha BlockDXT1Compressor.new block).2 ∧
      (compressBlock1 attributes hasAlpha compressor block).1.Running attributes.colorBlockCompressionType := by
  unfold compressBlock1
  split
  · exact compressBlockDXT1a_new block h
  · exact compressBlockDXT1_new block h

variable (attributes) in
theorem compressBlockDXT3_new (block : ColorBlock4x4)
    (h : compressor.Running attributes.colorBlockCompressionType) :
    (compressBlockDXT3 attributes compressor block).2 =
        (compressBlockDXT3 attributes BlockDXT1Compressor.new block).2 ∧
      (compressBlockDXT3 attributes compressor block).1.Running attributes.colorBlockCompressionType := by
  obtain ⟨hblock, hrunning⟩ := compressBlockDXT1_new block h
  unfold compressBlockDXT3
  exact ⟨congrArg (BlockDXT3.mk _) hblock, hrunning⟩

end

/-! ## Images as blocks -/

/-- The blocks of an image, each by a compressor of its own. -/
def Pixels.blocks (image : Pixels) (attributes : DXTCompressionAttributes) : Blocks where
  dxt1 x y := (compressBlock1 attributes image.hasAlpha BlockDXT1Compressor.new
    (extractColorBlock4x4 attributes image x y)).2
  dxt3 x y := (compressBlockDXT3 attributes BlockDXT1Compressor.new (extractColorBlock4x4 attributes image x y)).2

def Pixels.image (image : Pixels) (attributes : DXTCompressionAttributes) : Image where
  width := image.width
  height := image.height
  blocks := image.blocks attributes
  width_pos := image.width_pos
  height_pos := image.height_pos
  isImage := image.isImage

/-- A state that does not show in what is written. -/
theorem foldlM_hidden {σ β ι : Type*} {step : σ × β → ι → Option (σ × β)} {put : β → ι → Option β} (P : σ → Prop)
    (hstep : ∀ s b i, P s → ∃ s', P s' ∧ step (s, b) i = (put b i).map fun b => (s', b)) (l : List ι) {s : σ} (b : β)
    (h : P s) : (l.foldlM step (s, b)).map Prod.snd = l.foldlM put b := by
  induction l generalizing s b with
  | nil => rfl
  | cons i l ih =>
    obtain ⟨s', h', hnext⟩ := hstep s b i h
    rw [List.foldlM_cons, List.foldlM_cons, hnext, Option.bind_eq_bind, Option.map_bind, Option.bind_map]
    exact Option.bind_congr fun b _ => ih b h'

/-- **One compressor for all blocks** writes what a new one for each would. -/
theorem compressPixels_eq (c : DXTCompressor) (attributes : DXTCompressionAttributes) (image : Pixels)
    (buffer : ByteBuffer) :
    c.compressPixels attributes image buffer = c.compressImage (image.image attributes) buffer := by
  unfold DXTCompressor.compressPixels DXTCompressor.compressImage
  apply foldlM_hidden (fun compressor : BlockDXT1Compressor =>
    compressor.Running attributes.colorBlockCompressionType)
  · intro compressor buffer cell h
    cases c with
    | DXT1Compressor =>
      obtain ⟨hblock, hrunning⟩ := compressBlock1_new attributes image.hasAlpha
        (extractColorBlock4x4 attributes image (4 * cell.2) (4 * cell.1)) h
      refine ⟨_, hrunning, ?_⟩
      simp only [DXTCompressor.compressRound, hblock]
      rfl
    | DXT3Compressor =>
      obtain ⟨hblock, hrunning⟩ := compressBlockDXT3_new attributes
        (extractColorBlock4x4 attributes image (4 * cell.2) (4 * cell.1)) h
      refine ⟨_, hrunning, ?_⟩
      simp only [DXTCompressor.compressRound, hblock]
      rfl
  · exact fun _ => rfl

/-! ## Masks -/

theorem compressBlockDXT1_isMask (compressor : BlockDXT1Compressor) (block : ColorBlock4x4)
    (type : ColorBlockCompressionType) : (compressor.compressBlockDXT1 block type).2.IsMask := by
  have hd := compressor.distances_mem block type
  rw [BlockDXT1Compressor.compressBlockDXT1_eq]
  refine ⟨Int.natCast_nonneg _, ?_⟩
  show ((computePaletteIndices4 block (compressor.blockPalette block type) : Nat) : Int) < 2 ^ 32
  exact_mod_cast indexMask_lt (fun i => paletteIndex4_lt (hd _ 0) (hd _ 1) (hd _ 2) (hd _ 3)) 16

theorem paletteIndex3_lt (alphaThreshold alpha d0 d1 d2 : Int) : paletteIndex3 alphaThreshold alpha d0 d1 d2 < 4 := by
  unfold paletteIndex3
  split_ifs <;> omega

theorem compressBlockDXT1a_isMask (compressor : BlockDXT1Compressor) (block : ColorBlock4x4)
    (attributes : DXTCompressionAttributes) : (compressor.compressBlockDXT1a block attributes).2.IsMask := by
  have hlt : ∀ palette, computePaletteIndices3 block attributes.dxt1AlphaThreshold palette < 2 ^ (2 * 16) :=
    fun palette => indexMask_lt (fun i => paletteIndex3_lt _ _ _ _ _) 16
  constructor
  · exact Int.natCast_nonneg _
  · simp only [BlockDXT1Compressor.compressBlockDXT1a]
    exact_mod_cast hlt _

theorem compressBlock1_isMask (attributes : DXTCompressionAttributes) (hasAlpha : Bool)
    (compressor : BlockDXT1Compressor) (block : ColorBlock4x4) :
    (compressBlock1 attributes hasAlpha compressor block).2.IsMask := by
  unfold compressBlock1
  split
  · exact compressBlockDXT1a_isMask _ _ _
  · exact compressBlockDXT1_isMask _ _ _

theorem alphaBits_lt (block : ColorBlock4x4) (k : Nat) : alphaBits block k < 2 ^ 4 := by
  unfold alphaBits
  omega

theorem computeAlphaValueMask_eq (block : ColorBlock4x4) :
    computeAlphaValueMask block = packed 4 (alphaBits block) 16 := foldl_pairs 4 (alphaBits block) 8

theorem blocks_areMasks (image : Pixels) (attributes : DXTCompressionAttributes) :
    (image.blocks attributes).AreMasks := by
  refine ⟨fun x y => compressBlock1_isMask _ _ _ _, fun x y => ⟨Int.natCast_nonneg _, ?_, ?_⟩⟩
  · show ((computeAlphaValueMask _ : Nat) : Int) < 2 ^ 64
    rw [computeAlphaValueMask_eq]
    exact_mod_cast packed_lt (alphaBits_lt _) 16
  · exact compressBlockDXT1_isMask _ _ _

/-! ## Colors -/

/-- A color of the decoder against one of the compressor: at most seven less in
red and blue and three less in green, and at most one more. -/
structure Color24.CloseTo (d : Color24) (p : Color32) : Prop where
  r : (d.r : Int) ≤ p.r + 1 ∧ p.r ≤ d.r + 7
  g : (d.g : Int) ≤ p.g + 1 ∧ p.g ≤ d.g + 3
  b : (d.b : Int) ≤ p.b + 1 ∧ p.b ≤ d.b + 7

/-- The decoder does not repeat the upper bits of a component. -/
theorem fromPixel565_expand (pixel : Int) :
    ((Color24.fromPixel565 pixel).r : Int) ≤ (short565ToColor32 pixel).r ∧
    (short565ToColor32 pixel).r ≤ (Color24.fromPixel565 pixel).r + 7 ∧
    ((Color24.fromPixel565 pixel).g : Int) ≤ (short565ToColor32 pixel).g ∧
    (short565ToColor32 pixel).g ≤ (Color24.fromPixel565 pixel).g + 3 ∧
    ((Color24.fromPixel565 pixel).b : Int) ≤ (short565ToColor32 pixel).b ∧
    (short565ToColor32 pixel).b ≤ (Color24.fromPixel565 pixel).b + 7 := by
  rw [fromPixel565_eq]
  simp only [short565ToColor32, expand5, expand6]
  omega

/-- The thirds of the two tables: one is rounded, the other cut. -/
theorem thirds_close {x y m : Int} {u v : Nat} (hx : u ≤ x ∧ x ≤ u + m) (hy : v ≤ y ∧ y ≤ v + m) :
    ((((2 * u + v + 1) / 3 : Nat) : Int) ≤ (2 * x + y).tdiv 3 + 1 ∧
      (2 * x + y).tdiv 3 ≤ ((2 * u + v + 1) / 3 : Nat) + m) ∧
    (((u + 2 * v + 1) / 3 : Nat) : Int) ≤ (x + 2 * y).tdiv 3 + 1 ∧
      (x + 2 * y).tdiv 3 ≤ ((u + 2 * v + 1) / 3 : Nat) + m := by
  rw [Int.tdiv_eq_ediv_of_nonneg (by omega), Int.tdiv_eq_ediv_of_nonneg (by omega)]
  omega

theorem expandLookupTable_close (color0 color1 : Int) (k : Fin 4) :
    (Color24.expandLookupTable color0 color1 k).CloseTo (computeColorPalette4 color0 color1 k) := by
  obtain ⟨h1, h2, h3, h4, h5, h6⟩ := fromPixel565_expand color0
  obtain ⟨h1', h2', h3', h4', h5', h6'⟩ := fromPixel565_expand color1
  have hr := thirds_close ⟨h1, h2⟩ ⟨h1', h2'⟩
  have hg := thirds_close ⟨h3, h4⟩ ⟨h3', h4'⟩
  have hb := thirds_close ⟨h5, h6⟩ ⟨h5', h6'⟩
  fin_cases k
  · exact ⟨⟨Int.le_add_one h1, h2⟩, ⟨Int.le_add_one h3, h4⟩, Int.le_add_one h5, h6⟩
  · exact ⟨⟨Int.le_add_one h1', h2'⟩, ⟨Int.le_add_one h3', h4'⟩, Int.le_add_one h5', h6'⟩
  · exact ⟨hr.1, hg.1, hb.1⟩
  · exact ⟨hr.2, hg.2, hb.2⟩

/-- The colors of a pixel. -/
def rgb (pixel : Nat) : Color24 := ⟨pixel / 2 ^ 16 % 256, pixel / 2 ^ 8 % 256, pixel % 256⟩

/-- The alpha of a pixel. -/
def alpha (pixel : Nat) : Nat := pixel / 2 ^ 24

theorem rgb_getPixel888 {c : Color24} (h : c.Bytes) (n : Nat) : rgb (n * 2 ^ 24 + c.getPixel888) = c := by
  obtain ⟨hr, hg, hb⟩ := h
  rw [getPixel888_eq ⟨hr, hg, hb⟩, rgb]
  obtain ⟨r, g, b⟩ := c
  dsimp only at hr hg hb ⊢
  rw [Color24.mk.injEq]
  omega

theorem alpha_getPixel888 {c : Color24} (h : c.Bytes) (n : Nat) : alpha (n * 2 ^ 24 + c.getPixel888) = n := by
  obtain ⟨hr, hg, hb⟩ := h
  rw [getPixel888_eq ⟨hr, hg, hb⟩, alpha]
  omega

/-- The block with the four colors that the compressor makes for a pixel. -/
def Pixels.block (image : Pixels) (attributes : DXTCompressionAttributes) (x y : Nat) : BlockDXT1 :=
  (BlockDXT1Compressor.new.compressBlockDXT1
    (extractColorBlock4x4 attributes image (4 * (x / 4)) (4 * (y / 4))) attributes.colorBlockCompressionType).2

/-- The color the compressor chooses for a pixel. -/
def Pixels.chosen (image : Pixels) (attributes : DXTCompressionAttributes) (x y : Nat) : Color32 :=
  computeColorPalette4 (image.block attributes x y).color0 (image.block attributes x y).color1
    (Fin.ofNat 4 ((image.block attributes x y).index (pixelIndex x y)))

theorem decoded_close (image : Pixels) (attributes : DXTCompressionAttributes) {c : DXTCompressor}
    (hnotransparent : c = .DXT3Compressor ∨ attributes.enableDXT1Alpha = false ∨ image.hasAlpha = false) (x y : Nat) :
    (rgb ((image.blocks attributes).decoded c x y)).CloseTo (image.chosen attributes x y) := by
  have hclose := expandLookupTable_close (image.block attributes x y).color0 (image.block attributes x y).color1
    (Fin.ofNat 4 ((image.block attributes x y).index (pixelIndex x y)))
  have hbytes : ((image.block attributes x y).color (pixelIndex x y)).Bytes := expandLookupTable_bytes _ _ _
  cases c with
  | DXT1Compressor =>
    have hfour : (image.blocks attributes).dxt1 (4 * (x / 4)) (4 * (y / 4)) = image.block attributes x y := by
      have hnot : (attributes.enableDXT1Alpha && image.hasAlpha) = false := by
        rcases hnotransparent with h | h | h
        · cases h
        · rw [h, Bool.false_and]
        · rw [h, Bool.and_false]
      simp only [Pixels.blocks, compressBlock1, hnot, Bool.false_and]
      rfl
    have hrgb := rgb_getPixel888 hbytes 0
    rw [Nat.zero_mul, Nat.zero_add] at hrgb
    simp only [Blocks.decoded, hfour, hrgb]
    exact hclose
  | DXT3Compressor =>
    have hblock : ((image.blocks attributes).dxt3 (4 * (x / 4)) (4 * (y / 4))).colorBlock =
        image.block attributes x y := rfl
    simp only [Blocks.decoded, hblock, rgb_getPixel888 hbytes]
    exact hclose

/-! ## Alpha -/

/-- Of the 16 values `17 * r`, the one of `q` is nearest. So `16 * q` is not more
than 22 below and not more than 7 above. -/
structure NearestAlpha (q : Nat) (a : Nat) : Prop where
  lt : q < 16
  below : a ≤ 16 * q + 22
  above : 16 * q ≤ a + 7
  nearest : ∀ r : Nat, r < 16 → |17 * (q : Int) - a| ≤ |17 * (r : Int) - a|

theorem alpha4FromAlpha8_nearest : ∀ a : Nat, a < 256 →
    ((alpha4FromAlpha8 a % 2 ^ 4).toNat < 16 ∧ a ≤ 16 * (alpha4FromAlpha8 a % 2 ^ 4).toNat + 22 ∧
      16 * (alpha4FromAlpha8 a % 2 ^ 4).toNat ≤ a + 7) ∧
      ∀ r : Nat, r < 16 → |17 * ((alpha4FromAlpha8 a % 2 ^ 4).toNat : Int) - a| ≤ |17 * (r : Int) - a| := by
  decide +kernel

/-- Inside of an image a block has the pixels of the image. -/
theorem extractColor_inside {image : Pixels} {x y : Nat} (hx : x < image.width) (hy : y < image.height)
    (hwidth : 4 ∣ image.width) (hheight : 4 ∣ image.height) :
    extractColor image (4 * (x / 4)) (4 * (y / 4)) (x % 4) (y % 4) = int32ToColor32 (image.getRGB x y) := by
  have hbw : min (image.width - 4 * (x / 4)) 4 = 4 := by omega
  have hbh : min (image.height - 4 * (y / 4)) 4 = 4 := by omega
  have hremainder : ∀ i < 4, remainder.getD (4 * (4 - 1) + i) 0 = i := by decide
  unfold extractColor
  rw [hbw, hbh]
  dsimp only
  rw [hremainder _ (Nat.mod_lt x (by decide)), hremainder _ (Nat.mod_lt y (by decide))]
  congr 2 <;> omega

theorem blocks_alpha {image : Pixels} {attributes : DXTCompressionAttributes} {x y : Nat} (hx : x < image.width)
    (hy : y < image.height) (hwidth : 4 ∣ image.width) (hheight : 4 ∣ image.height) :
    ((image.blocks attributes).dxt3 (4 * (x / 4)) (4 * (y / 4))).alpha (pixelIndex x y) =
      (alpha4FromAlpha8 ((image.getRGB x y >>> 24 % 256 : Nat) : Int) % 2 ^ 4).toNat := by
  have hcolor : ((extractColorBlock4x4 attributes image (4 * (x / 4)) (4 * (y / 4))).color (pixelIndex x y)).a =
      ((image.getRGB x y >>> 24 % 256 : Nat) : Int) := by
    have hinside := extractColor_inside hx hy hwidth hheight
    have hmod : (pixelIndex x y).val % 4 = x % 4 := by
      show (4 * (y % 4) + x % 4) % 4 = x % 4
      omega
    have hdiv : (pixelIndex x y).val / 4 = y % 4 := by
      show (4 * (y % 4) + x % 4) / 4 = y % 4
      omega
    unfold extractColorBlock4x4
    simp only [hmod, hdiv, hinside]
    split <;> rfl
  have hmask : (((image.blocks attributes).dxt3 (4 * (x / 4)) (4 * (y / 4))).alphaValueMask).toNat =
      packed 4 (alphaBits (extractColorBlock4x4 attributes image (4 * (x / 4)) (4 * (y / 4)))) 16 := by
    rw [← computeAlphaValueMask_eq]
    rfl
  have hget := packed_get (alphaBits_lt (extractColorBlock4x4 attributes image (4 * (x / 4)) (4 * (y / 4))))
    (pixelIndex x y).isLt
  unfold BlockDXT3.alpha
  rw [hmask]
  refine hget.trans ?_
  rw [alphaBits, Fin.ofNat_val_eq_self, hcolor]

theorem decoded_alpha {image : Pixels} (attributes : DXTCompressionAttributes) {x y : Nat} (hx : x < image.width)
    (hy : y < image.height) (hwidth : 4 ∣ image.width) (hheight : 4 ∣ image.height) :
    ∃ q, alpha ((image.blocks attributes).decoded .DXT3Compressor x y) = 16 * q ∧
      NearestAlpha q (image.getRGB x y >>> 24 % 256) := by
  obtain ⟨⟨hlt, hbelow, habove⟩, hnear⟩ := alpha4FromAlpha8_nearest (image.getRGB x y >>> 24 % 256) (by omega)
  refine ⟨_, ?_, ⟨hlt, hbelow, habove, hnear⟩⟩
  have hbytes : (((image.blocks attributes).dxt3 (4 * (x / 4)) (4 * (y / 4))).colorBlock.color
      (pixelIndex x y)).Bytes := expandLookupTable_bytes _ _ _
  rw [Blocks.decoded, alpha_getPixel888 hbytes, blocks_alpha hx hy hwidth hheight]

/-! ## Files -/

/-- The images for the levels of a file, the first the whole image. -/
structure Levels where
  level : Nat → Pixels
  width_eq : ∀ k, (level k).width = max ((level 0).width >>> k) 1
  height_eq : ∀ k, (level k).height = max ((level 0).height >>> k) 1

/-- The file for an image and its mip maps. -/
def Levels.compress (levels : Levels) (c : DXTCompressor) (attributes : DXTCompressionAttributes) :
    Option ByteBuffer :=
  doCompressImage c ((levels.level 0).image attributes) attributes.buildMipmaps fun k =>
    (levels.level k).blocks attributes

/-- The levels of the file have the blocks of the images. -/
theorem plan_level (levels : Levels) (c : DXTCompressor) (attributes : DXTCompressionAttributes) {k : Nat}
    {image : Image}
    (h : (plan c ((levels.level 0).image attributes) attributes.buildMipmaps fun k =>
      (levels.level k).blocks attributes).2[k]? = some image) :
    image.width = (levels.level k).width ∧ image.height = (levels.level k).height ∧
      image.blocks = (levels.level k).blocks attributes := by
  cases hmips : attributes.buildMipmaps with
  | false =>
    rw [hmips] at h
    rcases k with _ | k
    · obtain rfl := Option.some.inj h
      exact ⟨rfl, rfl, rfl⟩
    · simp [plan] at h
  | true =>
    rw [hmips] at h
    change ((List.range _).map (mipMapLevel _ _))[k]? = some image at h
    rw [List.getElem?_map] at h
    obtain ⟨i, hi, rfl⟩ := Option.map_eq_some_iff.1 h
    obtain rfl : k = i := by simpa using (List.getElem?_eq_some_iff.1 hi).2
    exact ⟨(levels.width_eq k).symm, (levels.height_eq k).symm, rfl⟩

section

variable (levels : Levels) {c : DXTCompressor} (attributes : DXTCompressionAttributes) {a b : Nat}

theorem decompress_compress (hwidth : (levels.level 0).width = 2 ^ a) (hheight : (levels.level 0).height = 2 ^ b)
    (ha : 2 ≤ a) (hb : 2 ≤ b) (hfits : ¬ TooLarge c attributes.buildMipmaps a b) :
    ∃ file images, levels.compress c attributes = some file ∧ decompressFile file.bytes = some images ∧
      images.length = (if attributes.buildMipmaps then min a b - 1 else 1) ∧
      ∀ (k : Nat) result, images[k]? = some result →
        result.width = (levels.level k).width ∧ result.height = (levels.level k).height ∧
        ∀ x < result.width, ∀ y < result.height,
          result.getRGB x y = some (((levels.level k).blocks attributes).decoded c x y) := by
  have h : ((levels.level 0).image attributes).Sides a b := ⟨hwidth, hheight⟩
  obtain ⟨file, hfile, hbytes⟩ := doCompressImage_plan h ha hb hfits fun k => (levels.level k).blocks attributes
  obtain ⟨images, himages, hlength, hall⟩ := decompressFile_plan h ha hb hfits (blocks_areMasks _ _)
    fun k => blocks_areMasks (levels.level k) attributes
  rw [← hbytes] at himages
  refine ⟨file, images, hfile, himages, hlength, fun k result hresult => ?_⟩
  obtain ⟨image, himage, hw, hh, hpixels⟩ := hall k result hresult
  obtain ⟨h1, h2, h3⟩ := plan_level levels c attributes himage
  refine ⟨hw.trans h1, hh.trans h2, fun x hx y hy => ?_⟩
  rw [hpixels x (by rwa [← hw]) y (by rwa [← hh]), h3]

/-- **The alpha that comes back** from DXT3 is sixteen times the nibble whose
byte `17 * q` is nearest to the pixel's alpha, so it is never more than 240. -/
theorem decompressed_alpha (hwidth : (levels.level 0).width = 2 ^ a) (hheight : (levels.level 0).height = 2 ^ b)
    (ha : 2 ≤ a) (hb : 2 ≤ b) (hfits : ¬ TooLarge .DXT3Compressor attributes.buildMipmaps a b) :
    ∃ file images, levels.compress .DXT3Compressor attributes = some file ∧
      decompressFile file.bytes = some images ∧
      images.length = (if attributes.buildMipmaps then min a b - 1 else 1) ∧
      ∀ (k : Nat) result, images[k]? = some result → ∀ x < result.width, ∀ y < result.height,
        ∃ pixel q, result.getRGB x y = some pixel ∧ alpha pixel = 16 * q ∧
          NearestAlpha q ((levels.level k).getRGB x y >>> 24 % 256) := by
  obtain ⟨file, images, hfile, himages, hlength, hall⟩ :=
    decompress_compress levels attributes hwidth hheight ha hb hfits
  refine ⟨file, images, hfile, himages, hlength, fun k result hresult x hx y hy => ?_⟩
  obtain ⟨hw, hh, hpixels⟩ := hall k result hresult
  have hk : k < images.length := (List.getElem?_eq_some_iff.1 hresult).1
  have hk' : k + 2 ≤ a ∧ k + 2 ≤ b := by
    rw [hlength] at hk
    split at hk <;> omega
  have hside : ∀ n, k + 2 ≤ n → 4 ∣ max (2 ^ n >>> k) 1 := by
    intro n hn
    obtain ⟨m, rfl⟩ := Nat.exists_eq_add_of_le' hn
    rw [Nat.shiftRight_eq_div_pow, show m + (k + 2) = k + (m + 2) by omega, pow_add,
      Nat.mul_div_cancel_left _ (by positivity), max_eq_left Nat.one_le_two_pow]
    exact pow_dvd_pow 2 (Nat.le_add_left 2 m)
  have hw4 : 4 ∣ (levels.level k).width := by
    rw [levels.width_eq, hwidth]
    exact hside a hk'.1
  have hh4 : 4 ∣ (levels.level k).height := by
    rw [levels.height_eq, hheight]
    exact hside b hk'.2
  obtain ⟨q, hq, hnear⟩ := decoded_alpha attributes (hw ▸ hx) (hh ▸ hy) hw4 hh4
  exact ⟨_, q, hpixels x hx y hy, hq, hnear⟩

end

/-- An image of 8 by 4 pixels with all its mip maps. -/
def gradient : Levels where
  level k := ⟨max (8 >>> k) 1, max (4 >>> k) 1, true, fun x y => (32 * x) <<< 24 + (60 * y) <<< 16 + 100,
    Nat.le_max_right _ _, Nat.le_max_right _ _,
    (Nat.mul_le_mul (Nat.max_le.2 ⟨Nat.shiftRight_le 8 k, by decide⟩)
      (Nat.max_le.2 ⟨Nat.shiftRight_le 4 k, by decide⟩)).trans_lt (by decide)⟩
  width_eq _ := rfl
  height_eq _ := rfl

def defaultAttributes : DXTCompressionAttributes :=
  ⟨true, true, false, 128, .COLOR_BLOCK_COMPRESSION_EUCLIDEAN_DISTANCE⟩

theorem gradient_alpha :
    ∃ file images, gradient.compress .DXT3Compressor defaultAttributes = some file ∧
      decompressFile file.bytes = some images ∧ images.length = 1 ∧
      ∀ (k : Nat) result, images[k]? = some result → ∀ x < result.width, ∀ y < result.height,
        ∃ pixel q, result.getRGB x y = some pixel ∧ alpha pixel = 16 * q ∧
          NearestAlpha q ((gradient.level k).getRGB x y >>> 24 % 256) :=
  decompressed_alpha gradient defaultAttributes (a := 3) (b := 2) rfl rfl (by decide) (by decide) (by decide)

end WorldWind.Dds
