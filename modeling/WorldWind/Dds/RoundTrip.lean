import WorldWind.Dds.BlockCompressorTheorems
import WorldWind.Dds.Decoding
import WorldWind.Lib.Loops
/-!
# From the compressor's blocks to the decompressor's images

The images that the decompressor returns for a file have at every pixel the
color that the pixel's block has in the decoder's own table, and for DXT3 four
bits of alpha, whatever the blocks are (`decompressFile_doCompressImage`).
-/

namespace WorldWind.Dds

open Lib.Grid Lib.JavaInt Lib.Loops Lib.Nio Lib.PackedBits ByteBuffer

/-! ## Colors of 16 bits -/

theorem fromPixel565_eq (pixel : Int) : Color24.fromPixel565 pixel =
    ⟨(pixel % 2 ^ 16).toNat / 2 ^ 11 % 32 * 8, (pixel % 2 ^ 16).toNat / 2 ^ 5 % 64 * 4,
      (pixel % 2 ^ 16).toNat % 32 * 8⟩ := by
  have hbits : (pixel % 2 ^ 64).toNat % 2 ^ 16 = (pixel % 2 ^ 16).toNat := by omega
  unfold Color24.fromPixel565
  generalize (pixel % 2 ^ 64).toNat = bits at *
  generalize (pixel % 2 ^ 16).toNat = n at *
  have hr : bits &&& 0xf800 = (bits >>> 11 % 32) <<< 11 := by
    rw [← Nat.and_two_pow_sub_one_eq_mod _ 5]
    exact and_shiftLeft bits 31 11
  have hg : bits &&& 0x07e0 = (bits >>> 5 % 64) <<< 5 := by
    rw [← Nat.and_two_pow_sub_one_eq_mod _ 6]
    exact and_shiftLeft bits 63 5
  have hb : bits &&& 0x001f = bits % 32 := Nat.and_two_pow_sub_one_eq_mod _ 5
  simp only [hr, hg, hb, Nat.shiftLeft_eq, Nat.shiftRight_eq_div_pow, Color24.mk.injEq]
  omega

/-- The components of a color are bytes. -/
structure Color24.Bytes (c : Color24) : Prop where
  r : c.r < 256
  g : c.g < 256
  b : c.b < 256

theorem fromPixel565_bytes (pixel : Int) : (Color24.fromPixel565 pixel).Bytes := by
  rw [fromPixel565_eq]
  constructor <;> dsimp only <;> omega

theorem expandLookupTable_bytes (minColor maxColor : Int) (k : Fin 4) :
    (Color24.expandLookupTable minColor maxColor k).Bytes := by
  have hmin := fromPixel565_bytes minColor
  have hmax := fromPixel565_bytes maxColor
  obtain ⟨hr, hg, hb⟩ := hmin
  obtain ⟨hr', hg', hb'⟩ := hmax
  fin_cases k
  · exact fromPixel565_bytes minColor
  · exact fromPixel565_bytes maxColor
  · constructor <;> dsimp only [Color24.expandLookupTable] <;> omega
  · constructor <;> dsimp only [Color24.expandLookupTable] <;> omega

/-- The parts of a pixel do not overlap. -/
theorem getPixel888_eq {c : Color24} (h : c.Bytes) : c.getPixel888 = c.r * 2 ^ 16 + c.g * 2 ^ 8 + c.b := by
  have hb := h.b
  have hg := h.g
  unfold Color24.getPixel888
  rw [← Nat.shiftLeft_add_eq_or_of_lt (show c.g <<< 8 < 2 ^ 16 by rw [Nat.shiftLeft_eq]; omega), Nat.shiftLeft_eq,
    Nat.shiftLeft_eq, show c.r * 2 ^ 16 + c.g * 2 ^ 8 = (c.r * 2 ^ 8 + c.g) * 2 ^ 8 by ring, ← Nat.shiftLeft_eq,
    ← Nat.shiftLeft_add_eq_or_of_lt (show c.b < 2 ^ 8 from hb)]

/-- The sign of a `short` is masked away. -/
theorem fromPixel565_short (pixel : Int) : Color24.fromPixel565 (short pixel) = Color24.fromPixel565 pixel := by
  rw [fromPixel565_eq, fromPixel565_eq, short_mod]

theorem expandLookupTable_short (minColor maxColor : Int) :
    Color24.expandLookupTable (short minColor) (short maxColor) = Color24.expandLookupTable minColor maxColor := by
  funext k
  unfold Color24.expandLookupTable
  simp only [fromPixel565_short]

/-! ## Blocks -/

/-- The masks are of 32 and of 64 bits. -/
structure BlockDXT1.IsMask (block : BlockDXT1) : Prop where
  nonneg : 0 ≤ block.colorIndexMask
  lt : block.colorIndexMask < 2 ^ 32

structure BlockDXT3.IsMask (block : BlockDXT3) : Prop where
  nonneg : 0 ≤ block.alphaValueMask
  lt : block.alphaValueMask < 2 ^ 64
  colorBlock : block.colorBlock.IsMask

/-- The color the decoder has for a pixel. -/
def BlockDXT1.color (block : BlockDXT1) (i : Fin 16) : Color24 :=
  Color24.expandLookupTable block.color0 block.color1 (Fin.ofNat 4 (block.index i))

/-- The four bits of alpha of a pixel. -/
def BlockDXT3.alpha (block : BlockDXT3) (i : Fin 16) : Nat := block.alphaValueMask.toNat >>> (4 * i.val) % 16

theorem bitsAt_eq {mask x : Int} {width bits : Nat} (h : x % 2 ^ width = mask) (k : Nat) :
    bitsAt x width bits k = mask.toNat >>> (bits * k) % 2 ^ bits := by
  unfold bitsAt
  rw [h, Nat.and_two_pow_sub_one_eq_mod, Nat.mul_comm]

theorem dxt1Pixel_eq {block : BlockDXT1} (h : block.IsMask) (i : Fin 16) :
    dxt1Pixel (short block.color0) (short block.color1) (int block.colorIndexMask) i.val =
      (block.color i).getPixel888 := by
  have hmask : int block.colorIndexMask % 2 ^ 32 = block.colorIndexMask := by
    rw [int_mod]
    exact Int.emod_eq_of_lt h.nonneg h.lt
  unfold dxt1Pixel colorIndex
  rw [expandLookupTable_short, bitsAt_eq hmask]
  rfl

theorem dxt3Pixel_eq {block : BlockDXT3} (h : block.IsMask) (i : Fin 16) :
    dxt3Pixel (long block.alphaValueMask) (short block.colorBlock.color0) (short block.colorBlock.color1)
      (int block.colorBlock.colorIndexMask) i.val =
      16 * block.alpha i * 2 ^ 24 + (block.colorBlock.color i).getPixel888 := by
  have hmask : long block.alphaValueMask % 2 ^ 64 = block.alphaValueMask := by
    rw [long_mod]
    exact Int.emod_eq_of_lt h.nonneg h.lt
  have hbytes : (block.colorBlock.color i).Bytes := expandLookupTable_bytes _ _ _
  have hlt : (block.colorBlock.color i).getPixel888 < 2 ^ 24 := by
    obtain ⟨hr, hg, hb⟩ := hbytes
    rw [getPixel888_eq ⟨hr, hg, hb⟩]
    omega
  have hpixel := dxt1Pixel_eq h.colorBlock i
  unfold dxt1Pixel at hpixel
  unfold dxt3Pixel
  rw [hpixel, bitsAt_eq hmask, ← Nat.shiftLeft_add_eq_or_of_lt hlt, Nat.shiftLeft_eq, Nat.shiftLeft_eq]
  unfold BlockDXT3.alpha
  ring_nf

theorem reads_readDxt1Block (block : BlockDXT1) (p : Nat) :
    Reads .littleEndian p readDxt1Block (bytesDXT1 block)
      (dxt1Pixel (short block.color0) (short block.color1) (int block.colorIndexMask)) :=
  (reads_getShort _).bind ((reads_getShort _).bind ((reads_getInt_int _).result fun _ => rfl))

theorem reads_readDxt3Block (block : BlockDXT3) (p : Nat) :
    Reads .littleEndian p readDxt3Block (bytesDXT3 block)
      (dxt3Pixel (long block.alphaValueMask) (short block.colorBlock.color0) (short block.colorBlock.color1)
        (int block.colorBlock.colorIndexMask)) :=
  (reads_getLong _).bind ((reads_getShort _).bind ((reads_getShort _).bind
    ((reads_getInt_int _).result fun _ => rfl)))

/-! ## Levels -/

structure Blocks.AreMasks (blocks : Blocks) : Prop where
  dxt1 : ∀ x y, (blocks.dxt1 x y).IsMask
  dxt3 : ∀ x y, (blocks.dxt3 x y).IsMask

/-- The number of a pixel in its block. -/
def pixelIndex (x y : Nat) : Fin 16 := ⟨4 * (y % 4) + x % 4, by omega⟩

/-- What the decoder makes of a pixel of an image with these blocks. -/
def Blocks.decoded (blocks : Blocks) (c : DXTCompressor) (x y : Nat) : Nat :=
  match c with
  | .DXT1Compressor => ((blocks.dxt1 (4 * (x / 4)) (4 * (y / 4))).color (pixelIndex x y)).getPixel888
  | .DXT3Compressor =>
    let block := blocks.dxt3 (4 * (x / 4)) (4 * (y / 4))
    16 * block.alpha (pixelIndex x y) * 2 ^ 24 + (block.colorBlock.color (pixelIndex x y)).getPixel888

/-- The decompressor for what a compressor writes. -/
def DXTCompressor.decode : DXTCompressor → ByteBuffer → Int → Int → Option BufferedImage
  | .DXT1Compressor => decodeDxt1Buffer
  | .DXT3Compressor => decodeDxt3Buffer

theorem getDecompressor_format (c : DXTCompressor) : getDecompressor c.getDXTFormat = some c.decode := by
  cases c with
  | DXT1Compressor => exact (if_neg (by decide)).trans (if_pos rfl)
  | DXT3Compressor => exact if_pos rfl

/-- An image with the pixels of a level. -/
def Image.DecodesTo (level : Image) (c : DXTCompressor) (result : BufferedImage) : Prop :=
  result.width = level.width ∧ result.height = level.height ∧
    ∀ x < level.width, ∀ y < level.height, result.getRGB x y = some (level.blocks.decoded c x y)

theorem decode_levelBytes {level : Image} {c : DXTCompressor} (hmask : level.blocks.AreMasks) (hwidth : 4 ∣ level.width)
    (hheight : 4 ∣ level.height) {b : ByteBuffer} (hb : b.Valid) {rest : List Int8}
    (hr : b.remaining = levelBytes c level ++ rest) :
    ∃ result, c.decode b level.width level.height = some result ∧ level.DecodesTo c result := by
  have hw := level.width_pos
  have hh := level.height_pos
  have hcells : ((level.height + 3) / 4, (level.width + 3) / 4) = (level.height / 4, level.width / 4) := by
    rw [Prod.mk.injEq]
    omega
  simp only [Prod.mk.injEq] at hcells
  have hsame : ∀ x y : Nat, (⟨4 * (y % 4) + x % 4, by omega⟩ : Fin 16) = pixelIndex x y := fun _ _ => rfl
  unfold levelBytes at hr
  rw [hcells.1, hcells.2] at hr
  cases c with
  | DXT1Compressor =>
    have hread := fun (row col : Nat) p => reads_readDxt1Block (level.blocks.dxt1 (4 * col) (4 * row)) p
    obtain ⟨result, hres, h1, h2, hpixels⟩ := decodeBuffer_spec hread hwidth hheight (by omega) (by omega) hb hr
    refine ⟨result, hres, h1, h2, fun x hx y hy => ?_⟩
    rw [hpixels x hx y hy]
    exact congrArg some (dxt1Pixel_eq (hmask.dxt1 _ _) (pixelIndex x y))
  | DXT3Compressor =>
    have hread := fun (row col : Nat) p => reads_readDxt3Block (level.blocks.dxt3 (4 * col) (4 * row)) p
    obtain ⟨result, hres, h1, h2, hpixels⟩ := decodeBuffer_spec hread hwidth hheight (by omega) (by omega) hb hr
    refine ⟨result, hres, h1, h2, fun x hx y hy => ?_⟩
    rw [hpixels x hx y hy]
    exact congrArg some (dxt3Pixel_eq (hmask.dxt3 _ _) (pixelIndex x y))

/-! ## Files -/

section Files

variable {c : DXTCompressor} {header : DDSHeader} {levels : List Image} {a b : Nat} {image : Image}
  {buildMipmaps : Bool} {blocks : Nat → Blocks}

/-- The bytes in front of a level, the level, and what is behind it. -/
theorem fileBytes_level {k : Nat} {level : Image} (h : levels[k]? = some level) :
    ∃ rest, fileBytes c header levels = fileBytes c header (levels.take k) ++ (levelBytes c level ++ rest) := by
  obtain ⟨hk, rfl⟩ := List.getElem?_eq_some_iff.1 h
  refine ⟨(levels.drop (k + 1)).flatMap (levelBytes c), ?_⟩
  have hsplit : levels.flatMap (levelBytes c) = (levels.take k).flatMap (levelBytes c) ++
      (levelBytes c levels[k] ++ (levels.drop (k + 1)).flatMap (levelBytes c)) := by
    rw [← List.flatMap_cons, ← List.drop_eq_getElem_cons hk, ← List.flatMap_append, List.take_append_drop]
  unfold fileBytes
  rw [hsplit]
  simp only [List.append_assoc]

/-- The number of images that are read back: the levels with a whole block. -/
theorem mipMapReads_length (hwidth : header.width = (2 ^ a : Nat)) (hheight : header.height = (2 ^ b : Nat))
    (rounds : Nat) :
    ∀ k offset length, min a b - 1 ≤ k + rounds →
      (mipMapReads header rounds k offset length).length = min a b - 1 - k := by
  induction rounds with
  | zero =>
    intro k offset length hk
    rw [mipMapReads, List.length_nil]
    omega
  | succ rounds ih =>
    intro k offset length hk
    simp only [mipMapReads]
    split
    · rename_i hsides
      have hnot : ¬ (k + 2 ≤ a ∧ k + 2 ≤ b) := by
        rw [← four_le_tdiv, ← four_le_tdiv, ← hwidth, ← hheight]
        omega
      rw [List.length_nil]
      omega
    · rename_i hsides
      have hboth : k + 2 ≤ a ∧ k + 2 ≤ b := by
        rw [← four_le_tdiv, ← four_le_tdiv, ← hwidth, ← hheight]
        omega
      rw [List.length_cons, ih _ _ _ (by omega)]
      omega

theorem doDecompress_length (hheader : Describes c buildMipmaps a b header) {reads : List Read}
    (h : doDecompress header = some reads) :
    reads.length = if buildMipmaps then min a b - 1 else 1 := by
  unfold doDecompress at h
  split at h
  · cases h
  · split at h
    · cases buildMipmaps with
      | false =>
        rw [hheader.mipMapCount, if_neg Bool.false_ne_true, if_pos rfl] at h
        obtain rfl := Option.some.inj h
        rfl
      | true =>
        rw [hheader.mipMapCount, if_pos rfl, if_neg (by omega), Int.toNat_natCast] at h
        obtain rfl := Option.some.inj h
        rw [mipMapReads_length hheader.width hheader.height _ _ _ _ (by omega), if_pos rfl, Nat.sub_zero]
    · cases h

/-- The images of a file are those of its levels that have a whole block. -/
theorem decompressFile_fileBytes (hheader : Describes c buildMipmaps a b header) (hchain : IsChain a b levels)
    (hcount : levels.length = if buildMipmaps then max a b + 1 else 1) (ha : 2 ≤ a) (hb : 2 ≤ b)
    (hlt : (fileBytes c header levels).length < 2 ^ 31) (hmasks : ∀ level ∈ levels, level.blocks.AreMasks) :
    ∃ images, decompressFile (fileBytes c header levels) = some images ∧
      images.length = (if buildMipmaps then min a b - 1 else 1) ∧
      ∀ (k : Nat) result, images[k]? = some result →
        ∃ level : Image, levels[k]? = some level ∧ level.DecodesTo c result := by
  obtain ⟨reads, hreads, -, hlevels⟩ := doDecompress_spec hheader hchain hcount ha hb hlt
  have hlength := doDecompress_length hheader hreads
  have hvalid : (wrap (fileBytes c header levels)).Valid := ⟨Nat.zero_le _, le_rfl⟩
  have hcontent : (wrap (fileBytes c header levels)).content = fileBytes c header levels := List.take_length
  have hremaining : (wrap (fileBytes c header levels)).remaining = intBytes .littleEndian MAGIC ++
      ((intBytes .littleEndian DDS_HEADER_SIZE ++ fieldBytes header) ++ levels.flatMap (levelBytes c)) := hcontent
  obtain ⟨after, hread⟩ := readFrom_spec hheader.isInts hvalid rfl hremaining
  have hround : ∀ r ∈ reads.zipIdx, ∃ result,
      ((wrap (fileBytes c header levels)).setPosition r.1.offset).bind
        (fun buffer => c.decode buffer r.1.width r.1.height) = some result ∧
      ∃ level : Image, levels[r.2]? = some level ∧ level.DecodesTo c result := by
    intro r hr
    obtain ⟨level, hlevel, heq⟩ := hlevels r.2 r.1 (List.mk_mem_zipIdx_iff_getElem?.1 hr)
    obtain ⟨rest, hsplit⟩ : ∃ rest, fileBytes c header levels =
      fileBytes c header (levels.take r.2) ++ (levelBytes c level ++ rest) := fileBytes_level hlevel
    obtain ⟨buffer, hset, hbv, -, hrest⟩ := setPosition_remaining hvalid (hcontent.trans hsplit)
    have hk : r.2 < reads.length := (List.getElem?_eq_some_iff.1 (List.mk_mem_zipIdx_iff_getElem?.1 hr)).1
    have hk' : r.2 + 2 ≤ a ∧ r.2 + 2 ≤ b := by
      rw [hlength] at hk
      split at hk <;> omega
    have hsides := hchain r.2 level hlevel
    have hfour : ∀ n, 2 ≤ n → 4 ∣ 2 ^ n := fun n hn => pow_dvd_pow 2 hn
    obtain ⟨result, hdecode, hpixels⟩ := decode_levelBytes (c := c)
      (hmasks level (List.mem_of_getElem? hlevel)) (hsides.width ▸ hfour _ (by omega))
      (hsides.height ▸ hfour _ (by omega)) hbv hrest
    refine ⟨result, ?_, level, hlevel, hpixels⟩
    rw [heq, hset, Option.bind_some, hdecode]
  have hfst : reads.zipIdx.map Prod.fst = reads := List.zipIdx_map_fst 0 reads
  obtain ⟨images, hmapM, hall⟩ := mapM_forall₂ hround
  refine ⟨images, ?_, ?_, fun k result hresult => ?_⟩
  · unfold decompressFile
    simp only [hread, Option.bind_some, hheader.fourCC, getDecompressor_format, hreads]
    rw [← hmapM, ← hfst, List.mapM_map, hfst]
    rfl
  · rw [← hall.length_eq, List.length_zipIdx, hlength]
  · obtain ⟨hk, rfl⟩ := List.getElem?_eq_some_iff.1 hresult
    have hk' : k < reads.zipIdx.length := by rwa [hall.length_eq]
    have hget := hall.get hk' hk
    simpa using hget

theorem Image.Sides.sum_le (h : image.Sides a b) : a + b ≤ 30 := by
  have hlt := image.isImage
  rw [h.1, h.2, ← pow_add] at hlt
  have := (Nat.pow_lt_pow_iff_right one_lt_two).1 (hlt.trans (show 2 ^ 31 - 1 < 2 ^ 31 by omega))
  omega

/-- The file that is written. -/
theorem doCompressImage_plan (h : image.Sides a b) (ha : 2 ≤ a) (hb : 2 ≤ b) (hfits : ¬ TooLarge c buildMipmaps a b)
    (blocks : Nat → Blocks) :
    ∃ file, doCompressImage c image buildMipmaps blocks = some file ∧
      file.bytes = fileBytes c (plan c image buildMipmaps blocks).1 (plan c image buildMipmaps blocks).2 := by
  have hsum := h.sum_le
  have htotal := (totalSize_lt_iff c buildMipmaps a (by omega) b (by omega) ⟨ha, hb, hsum⟩).2 hfits
  have hwrite := writeFile_plan c buildMipmaps blocks h hsum ha hb
  rw [if_pos htotal] at hwrite
  have hdo : doCompressImage c image buildMipmaps blocks =
      (writeFile c (plan c image buildMipmaps blocks).1 (plan c image buildMipmaps blocks).2).map rewind := rfl
  rw [hwrite, Option.map_some] at hdo
  exact ⟨_, hdo, rfl⟩

/-- What it reads back as. -/
theorem decompressFile_plan (h : image.Sides a b) (ha : 2 ≤ a) (hb : 2 ≤ b) (hfits : ¬ TooLarge c buildMipmaps a b)
    (hmasks : image.blocks.AreMasks) (hmips : ∀ k, (blocks k).AreMasks) :
    ∃ images, decompressFile (fileBytes c (plan c image buildMipmaps blocks).1 (plan c image buildMipmaps blocks).2) =
        some images ∧ images.length = (if buildMipmaps then min a b - 1 else 1) ∧
      ∀ (k : Nat) result, images[k]? = some result →
        ∃ level : Image, (plan c image buildMipmaps blocks).2[k]? = some level ∧ level.DecodesTo c result := by
  have hsum := h.sum_le
  have htotal := (totalSize_lt_iff c buildMipmaps a (by omega) b (by omega) ⟨ha, hb, hsum⟩).2 hfits
  have hlength := fileBytes_length_eq c buildMipmaps blocks h (plan c image buildMipmaps blocks).1
  have hlevels : ∀ level ∈ (plan c image buildMipmaps blocks).2, level.blocks.AreMasks := by
    intro level hlevel
    cases buildMipmaps with
    | false =>
      obtain rfl := List.mem_singleton.1 hlevel
      exact hmasks
    | true =>
      obtain ⟨k, -, rfl⟩ := List.mem_map.1 hlevel
      exact hmips k
  apply decompressFile_fileBytes (plan_header c buildMipmaps blocks h ha hb hsum) (plan_isChain c buildMipmaps blocks h)
    (plan_length c buildMipmaps blocks h) ha hb ?_ hlevels
  rw [hlength]
  exact htotal

end Files

/-- A block with two ends and all four indices. -/
def stripedBlock : BlockDXT1 := ⟨0xffff, 0x1234, 0xe4e4e4e4⟩

def stripedImage : Image :=
  ⟨8, 16, ⟨fun _ _ => stripedBlock, fun _ _ => ⟨0xfedcba9876543210, stripedBlock⟩⟩,
    Nat.succ_pos 7, by decide, by decide⟩

end WorldWind.Dds
