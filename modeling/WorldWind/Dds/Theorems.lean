import WorldWind.Dds.Model
/-!
# Compressed images

What the compressor writes is the header and the bytes of the levels one after
another (`writeFile_spec`), if they fit in the size it has predicted; the header
reads back (`readFrom_spec`), and a quarter of a level is the size of the next
one as long as these have a block in both directions (`mipMapReads_spec`).
-/

namespace WorldWind.Dds

open Lib.Grid Lib.JavaInt Lib.Nio ByteBuffer WWMath

/-! ## What is written -/

def bytesDXT1 (block : BlockDXT1) : List Int8 :=
  shortBytes .littleEndian block.color0 ++ (shortBytes .littleEndian block.color1 ++
    intBytes .littleEndian block.colorIndexMask)

def bytesDXT3 (block : BlockDXT3) : List Int8 :=
  longBytes .littleEndian block.alphaValueMask ++ bytesDXT1 block.colorBlock

/-- The bytes of an image. -/
def levelBytes (c : DXTCompressor) (image : Image) : List Int8 :=
  (cells ((image.height + 3) / 4) ((image.width + 3) / 4)).flatMap fun (j, i) =>
    match c with
    | .DXT1Compressor => bytesDXT1 (image.blocks.dxt1 (4 * i) (4 * j))
    | .DXT3Compressor => bytesDXT3 (image.blocks.dxt3 (4 * i) (4 * j))

def pixelFormatBytes (p : DDSPixelFormat) : List Int8 :=
  intBytes .littleEndian DDS_PIXEL_FORMAT_SIZE ++
    (intBytes .littleEndian p.flags ++ (intBytes .littleEndian p.fourCC ++
    (intBytes .littleEndian p.rgbBitCount ++
      (intBytes .littleEndian p.rBitMask ++ (intBytes .littleEndian p.gBitMask ++
      (intBytes .littleEndian p.bBitMask ++ intBytes .littleEndian p.aBitMask))))))

def fieldBytes (h : DDSHeader) : List Int8 :=
  intBytes .littleEndian h.flags ++ (intBytes .littleEndian h.height ++ (intBytes .littleEndian h.width ++
    (intBytes .littleEndian h.linearSize ++
      (intBytes .littleEndian h.depth ++ (intBytes .littleEndian h.mipMapCount ++
      (List.replicate 44 0 ++ (pixelFormatBytes h.pixelFormat ++ (intBytes .littleEndian h.caps ++
        (intBytes .littleEndian h.caps2 ++ (intBytes .littleEndian h.caps3 ++ (intBytes .littleEndian h.caps4 ++
          List.replicate 4 0)))))))))))

/-- The file: signature, header and levels. -/
def fileBytes (c : DXTCompressor) (header : DDSHeader) (levels : List Image) : List Int8 :=
  intBytes .littleEndian MAGIC ++ ((intBytes .littleEndian DDS_HEADER_SIZE ++ fieldBytes header) ++
    levels.flatMap (levelBytes c))

theorem appends_putBlockDXT1 (block : BlockDXT1) :
    Appends .littleEndian (DXTCompressor.putBlockDXT1 block) (bytesDXT1 block) :=
  (appends_putShort _).bind ((appends_putShort _).bind (appends_putInt _))

theorem appends_compressImage (c : DXTCompressor) (image : Image) :
    Appends .littleEndian (fun b => c.compressImage image b) (levelBytes c image) := by
  refine Appends.foldlM (fun cell => ?_) _
  cases c with
  | DXT1Compressor => exact appends_putBlockDXT1 _
  | DXT3Compressor => exact (appends_putLong _).bind (appends_putBlockDXT1 _)

theorem pixelFormatBytes_length (p : DDSPixelFormat) : (pixelFormatBytes p).length = 32 := by
  simp only [pixelFormatBytes, List.length_append, intBytes_length]

theorem fieldBytes_length (h : DDSHeader) : (fieldBytes h).length = 120 := by
  simp only [fieldBytes, List.length_append, intBytes_length, List.length_replicate, pixelFormatBytes_length]

theorem appends_writeDDSPixelFormat (p : DDSPixelFormat) :
    Appends .littleEndian (writeDDSPixelFormat p) (pixelFormatBytes p) :=
  Appends.setPosition (k := 32) (x := pixelFormatBytes p) ((appends_putInt _).bind ((appends_putInt _).bind
    ((appends_putInt _).bind ((appends_putInt _).bind ((appends_putInt _).bind ((appends_putInt _).bind
      ((appends_putInt _).bind (appends_putInt _)))))))) (pixelFormatBytes_length p)

theorem appends_writeDDSHeader (h : DDSHeader) :
    Appends .littleEndian (writeDDSHeader h) (intBytes .littleEndian DDS_HEADER_SIZE ++ fieldBytes h) :=
  Appends.setPosition (k := 124) (x := intBytes .littleEndian DDS_HEADER_SIZE ++ fieldBytes h)
    ((appends_putInt _).bind ((appends_putInt _).bind ((appends_putInt _).bind ((appends_putInt _).bind
      ((appends_putInt _).bind ((appends_putInt _).bind ((appends_putInt _).bind ((appends_skip 44).bind
        ((appends_writeDDSPixelFormat _).bind ((appends_putInt _).bind ((appends_putInt _).bind
          ((appends_putInt _).bind ((appends_putInt _).bind (appends_skip 4))))))))))))))
    (by rw [List.length_append, intBytes_length, fieldBytes_length])

/-- The file is written if it fits in the size that was predicted. -/
theorem writeFile_spec (c : DXTCompressor) (header : DDSHeader) (levels : List Image) :
    writeFile c header levels = if ((fileBytes c header levels).length : Int) ≤ fileSize c levels then
      some (filled .littleEndian (fileSize c levels).toNat (fileBytes c header levels)) else none := by
  have happends : Appends .littleEndian (fun b => (b.putInt MAGIC).bind fun b =>
      (writeDDSHeader header b).bind fun b =>
      levels.foldlM (fun b image => c.compressImage image b) b) (fileBytes c header levels) :=
    (appends_putInt _).bind ((appends_writeDDSHeader header).bind (Appends.foldlM (appends_compressImage c) levels))
  rw [writeFile, allocate]
  by_cases h0 : fileSize c levels < 0
  · rw [if_pos h0, Option.bind_none, if_neg (by omega)]
  · rw [if_neg h0, Option.bind_some]
    refine (happends (fileSize c levels).toNat [] (Nat.zero_le _)).trans ?_
    rw [List.nil_append]
    by_cases h : ((fileBytes c header levels).length : Int) ≤ fileSize c levels
    · rw [if_pos h, if_pos (by omega)]
    · rw [if_neg h, if_neg (by omega)]

/-! ## What is read -/

/-- The fields of a header are ints. -/
structure DDSPixelFormat.IsInts (p : DDSPixelFormat) : Prop where
  ints : ∀ x ∈ [p.flags, p.fourCC, p.rgbBitCount, p.rBitMask, p.gBitMask, p.bBitMask, p.aBitMask],
    -2 ^ 31 ≤ x ∧ x < 2 ^ 31

structure DDSHeader.IsInts (h : DDSHeader) : Prop where
  ints : ∀ x ∈ [h.flags, h.width, h.height, h.linearSize, h.depth, h.mipMapCount, h.caps, h.caps2, h.caps3, h.caps4],
    -2 ^ 31 ≤ x ∧ x < 2 ^ 31
  pixelFormat : h.pixelFormat.IsInts

theorem reads_pixelFormat {p : DDSPixelFormat} (h : p.IsInts) (q : Nat) :
    Reads .littleEndian q readPixelFormat (pixelFormatBytes p) p := by
  have hint : ∀ x ∈ [p.flags, p.fourCC, p.rgbBitCount, p.rBitMask, p.gBitMask, p.bBitMask, p.aBitMask], ∀ q,
      Reads .littleEndian q getInt (intBytes .littleEndian x) x :=
        fun x hx _ => reads_getInt (h.ints x hx).1 (h.ints x hx).2
  have hsize : Reads .littleEndian q getInt (intBytes .littleEndian DDS_PIXEL_FORMAT_SIZE) DDS_PIXEL_FORMAT_SIZE :=
    reads_getInt (by decide) (by decide)
  exact hsize.bind (Reads.guard (not_not.2 rfl) ((hint p.flags (by simp) _).bind ((hint p.fourCC (by simp) _).bind
    ((hint p.rgbBitCount (by simp) _).bind ((hint p.rBitMask (by simp) _).bind ((hint p.gBitMask (by simp) _).bind
      ((hint p.bBitMask (by simp) _).bind ((hint p.aBitMask (by simp) _).result fun _ => rfl))))))))

theorem reads_fields {h : DDSHeader} (hh : h.IsInts) : Reads .littleEndian 8 readFields (fieldBytes h) h := by
  have hint : ∀ x ∈ [h.flags, h.width, h.height, h.linearSize, h.depth, h.mipMapCount, h.caps, h.caps2, h.caps3,
      h.caps4], ∀ q, Reads .littleEndian q getInt (intBytes .littleEndian x) x := fun x hx _ =>
    reads_getInt (hh.ints x hx).1 (hh.ints x hx).2
  have hzero : intBytes .littleEndian 0 = List.replicate 4 0 := by decide
  have hlast : ∀ q, Reads .littleEndian q getInt (List.replicate 4 0) 0 := fun q => by
    rw [← hzero]
    exact reads_getInt (by decide) (by decide)
  exact (hint h.flags (by simp) _).bind ((hint h.height (by simp) _).bind ((hint h.width (by simp) _).bind
    ((hint h.linearSize (by simp) _).bind ((hint h.depth (by simp) _).bind ((hint h.mipMapCount (by simp) _).bind
      (Reads.skip (by simp only [intBytes_length, List.length_replicate]; rfl)
        ((reads_pixelFormat hh.pixelFormat _).bind ((hint h.caps (by simp) _).bind ((hint h.caps2 (by simp) _).bind
          ((hint h.caps3 (by simp) _).bind ((hint h.caps4 (by simp) _).bind ((hlast _).result fun _ => rfl))))))))))))

/-- A header reads back from the file. -/
theorem readFrom_spec {h : DDSHeader} (hh : h.IsInts) {b : ByteBuffer} (hb : b.Valid) (hp : b.position = 0)
    {rest : List Int8} (hr : b.remaining = intBytes .littleEndian MAGIC ++
      ((intBytes .littleEndian DDS_HEADER_SIZE ++ fieldBytes h) ++ rest)) :
    ∃ c, readFrom b = some (h, c) := by
  have hmagic : Reads .littleEndian 0 getInt (intBytes .littleEndian MAGIC) MAGIC :=
    reads_getInt (by decide) (by decide)
  have hsize : Reads .littleEndian 4 getInt (intBytes .littleEndian DDS_HEADER_SIZE) DDS_HEADER_SIZE :=
    reads_getInt (by decide) (by decide)
  have hbody := Reads.bind (g := fun r => if r.1 ≠ DDS_HEADER_SIZE then none else readFields r.2) hsize
    (Reads.guard (P := DDS_HEADER_SIZE ≠ DDS_HEADER_SIZE) (not_not.2 rfl) (reads_fields hh))
  have hreads := Reads.bind (g := fun r => if MAGIC ≠ r.1 then none
    else r.2.getInt.bind fun s => if s.1 ≠ DDS_HEADER_SIZE then none else readFields s.2) hmagic
    (Reads.guard (P := MAGIC ≠ MAGIC) (not_not.2 rfl) hbody)
  obtain ⟨c, hread, -⟩ := hreads { b with order := .littleEndian } rest hb.withOrder rfl hp (by
    rw [List.append_assoc, ← hr]
    rfl)
  have hlen := remaining_length hb
  simp only [hr, List.length_append, intBytes_length, fieldBytes_length] at hlen
  refine ⟨c, ?_⟩
  rw [← hread, readFrom]
  exact if_neg (by simp only [DDS_SIGNATURE_SIZE, DDS_HEADER_SIZE]; omega)

/-! ## Sizes -/

/-- The number of bytes of a block. -/
def blockSize : DXTCompressor → Nat
  | .DXT1Compressor => 8
  | .DXT3Compressor => 16

theorem levelBytes_length (c : DXTCompressor) (image : Image) :
    (levelBytes c image).length = ((image.height + 3) / 4) * ((image.width + 3) / 4) * blockSize c := by
  have hblock : ∀ cell ∈ cells ((image.height + 3) / 4) ((image.width + 3) / 4), (match c with
      | .DXT1Compressor => bytesDXT1 (image.blocks.dxt1 (4 * cell.2) (4 * cell.1))
      | .DXT3Compressor => bytesDXT3 (image.blocks.dxt3 (4 * cell.2) (4 * cell.1))).length = blockSize c := by
    intro cell _
    cases c <;> simp [bytesDXT1, bytesDXT3, blockSize]
  rw [levelBytes, List.length_flatMap, List.map_congr_left hblock, List.map_const', List.sum_replicate_nat,
    length_cells]

/-- The blocks along a side that is a power of two. -/
theorem blocks_two_pow (p : Nat) : (2 ^ p + 3) / 4 = 2 ^ (p - 2) ∧ max (2 ^ p) 4 = 4 * 2 ^ (p - 2) := by
  rcases Nat.lt_or_ge p 2 with hp | hp
  · obtain rfl | rfl : p = 0 ∨ p = 1 := by omega
    all_goals exact ⟨rfl, rfl⟩
  · obtain ⟨q, rfl⟩ := Nat.exists_eq_add_of_le hp
    have hpos : 0 < 2 ^ q := by positivity
    rw [pow_add, Nat.add_sub_cancel_left]
    omega

/-- An image whose sides are powers of two. -/
structure Image.Sides (image : Image) (a b : Nat) : Prop where
  width : image.width = 2 ^ a
  height : image.height = 2 ^ b

/-- The number of bytes of an image with sides `2 ^ a` and `2 ^ b`. -/
def levelSize (c : DXTCompressor) (a b : Nat) : Nat := 2 ^ (b - 2) * 2 ^ (a - 2) * blockSize c

theorem Image.Sides.levelBytes_length {image : Image} {a b : Nat} (h : image.Sides a b) (c : DXTCompressor) :
    (levelBytes c image).length = levelSize c a b := by
  rw [Dds.levelBytes_length, h.width, h.height, (blocks_two_pow a).1, (blocks_two_pow b).1, levelSize]

/-- The size that the compressor predicts is the one it writes. -/
theorem Image.Sides.getCompressedSize {image : Image} {a b : Nat} (h : image.Sides a b)
    (hle : 2 ^ (b - 2) * 2 ^ (a - 2) ≤ 2 ^ 26) (c : DXTCompressor) :
    c.getCompressedSize image = levelSize c a b := by
  have hproduct : 4 * 2 ^ (a - 2) * (4 * 2 ^ (b - 2)) = 16 * (2 ^ (b - 2) * 2 ^ (a - 2)) := by ring
  unfold DXTCompressor.getCompressedSize levelSize
  rw [h.width, h.height, (blocks_two_pow a).2, (blocks_two_pow b).2]
  simp only [hproduct]
  generalize 2 ^ (b - 2) * 2 ^ (a - 2) = blocks at *
  rw [int_eq (by omega) (by omega)]
  cases c with
  | DXT1Compressor =>
    show ((16 * blocks : Nat) : Int).tdiv 2 = ((blocks * 8 : Nat) : Int)
    rw [show ((16 * blocks : Nat) : Int) = (blocks * 8 : Nat) * 2 by omega, Int.mul_tdiv_cancel _ (by decide)]
  | DXT3Compressor =>
    show ((16 * blocks : Nat) : Int) = ((blocks * 16 : Nat) : Int)
    omega

/-- A mip map has sides that are powers of two, too. -/
theorem Image.Sides.mipMapLevel {image : Image} {a b : Nat} (h : image.Sides a b) (blocks : Nat → Blocks) (k : Nat) :
    (mipMapLevel image blocks k).Sides (a - k) (b - k) := by
  have hside : ∀ p, max (2 ^ p >>> k) 1 = 2 ^ (p - k) := by
    intro p
    rw [Nat.shiftRight_eq_div_pow]
    rcases Nat.le_total k p with hk | hk
    · rw [Nat.pow_div hk two_pos, max_eq_left (Nat.one_le_two_pow)]
    · rw [Nat.sub_eq_zero_of_le hk, pow_zero, max_eq_right]
      exact Nat.div_le_of_le_mul (by rw [Nat.mul_one]; exact Nat.pow_le_pow_right two_pos hk)
  constructor
  · show max (image.width >>> k) 1 = _
    rw [h.width, hside]
  · show max (image.height >>> k) 1 = _
    rw [h.height, hside]

/-! ## The file as a whole -/

section File

variable {c : DXTCompressor} {header : DDSHeader} {levels : List Image} {a b : Nat}

theorem fileBytes_length (c : DXTCompressor) (header : DDSHeader) (levels : List Image) :
    (fileBytes c header levels).length = 128 + (levels.map fun level => (levelBytes c level).length).sum := by
  rw [fileBytes, List.length_append, List.length_append, List.length_append, intBytes_length, intBytes_length,
    fieldBytes_length, List.length_flatMap]
  omega

theorem fileSize_lt (c : DXTCompressor) (levels : List Image) : fileSize c levels < 2 ^ 31 := by
  rw [fileSize]
  rcases List.eq_nil_or_concat levels with rfl | ⟨l, level, rfl⟩
  · rw [List.foldl_nil]
    decide
  · rw [List.concat_eq_append, List.foldl_append]
    exact int_lt _

/-- The predicted size is right if it is an `int`. -/
theorem fileSize_eq (h : ∀ level ∈ levels, c.getCompressedSize level = (levelBytes c level).length)
    (hlt : (fileBytes c header levels).length < 2 ^ 31) :
    fileSize c levels = ((fileBytes c header levels).length : Int) := by
  have hfold : ∀ (l : List Image) (n : Nat), (∀ level ∈ l, c.getCompressedSize level = (levelBytes c level).length) →
      n + (l.map fun level => (levelBytes c level).length).sum < 2 ^ 31 →
      l.foldl (fun fileSize image => int (fileSize + c.getCompressedSize image)) (n : Int) =
        (n + (l.map fun level => (levelBytes c level).length).sum : Nat) := by
    intro l
    induction l with
    | nil => simp
    | cons level l ih =>
      intro n hl hn
      rw [List.map_cons, List.sum_cons] at hn
      rw [List.foldl_cons, hl level List.mem_cons_self, int_eq (by omega) (by omega), ← Int.natCast_add,
        ih _ (fun x hx => hl x (List.mem_cons_of_mem _ hx)) (by omega), List.map_cons, List.sum_cons, Nat.add_assoc]
  rw [fileBytes_length] at hlt ⊢
  exact hfold levels 128 h hlt

/-- The file is written exactly when its size is an `int`. -/
theorem writeFile_iff (h : ∀ level ∈ levels, c.getCompressedSize level = (levelBytes c level).length) :
    writeFile c header levels = if (fileBytes c header levels).length < 2 ^ 31 then
      some ⟨fileBytes c header levels, (fileBytes c header levels).length, (fileBytes c header levels).length,
        .littleEndian⟩ else none := by
  rw [writeFile_spec]
  by_cases hlt : (fileBytes c header levels).length < 2 ^ 31
  · rw [if_pos hlt, fileSize_eq h hlt, if_pos le_rfl, Int.toNat_natCast, filled_all rfl]
  · have := fileSize_lt c levels
    rw [if_neg hlt, if_neg (by omega)]

/-- The levels have the sides of the mip maps of an image. -/
def IsChain (a b : Nat) (levels : List Image) : Prop :=
  ∀ k (level : Image), levels[k]? = some level → level.Sides (a - k) (b - k)

theorem tdiv_two_pow (p k : Nat) : ((2 ^ p : Nat) : Int).tdiv (2 ^ k) = ((2 ^ p / 2 ^ k : Nat) : Int) := by
  rw [Int.tdiv_eq_ediv_of_nonneg (Int.natCast_nonneg _), Int.natCast_ediv]
  norm_cast

/-- Where a level has a block in a direction. -/
theorem four_le_tdiv (p k : Nat) : 4 ≤ ((2 ^ p : Nat) : Int).tdiv (2 ^ k) ↔ k + 2 ≤ p := by
  have hfour : 4 ≤ 2 ^ p / 2 ^ k ↔ 2 ^ (k + 2) ≤ 2 ^ p := by
    rw [Nat.le_div_iff_mul_le (by positivity), pow_add]
    omega
  rw [tdiv_two_pow, show (4 : Int) = ((4 : Nat) : Int) from rfl, Int.ofNat_le, hfour,
    Nat.pow_le_pow_iff_right one_lt_two]

/-- The next level is a quarter. -/
theorem levelSize_succ {a b : Nat} (c : DXTCompressor) (ha : 3 ≤ a) (hb : 3 ≤ b) :
    levelSize c a b = 4 * levelSize c (a - 1) (b - 1) := by
  obtain ⟨a, rfl⟩ := Nat.exists_eq_add_of_le' ha
  obtain ⟨b, rfl⟩ := Nat.exists_eq_add_of_le' hb
  simp only [levelSize, show ∀ n, n + 3 - 2 = n + 1 by omega, show ∀ n, n + 3 - 1 - 2 = n by omega,
    pow_succ]
  ring

theorem fileBytes_take_succ (c : DXTCompressor) (header : DDSHeader) {k : Nat} {level : Image}
    (h : levels[k]? = some level) :
    (fileBytes c header (levels.take (k + 1))).length =
      (fileBytes c header (levels.take k)).length + (levelBytes c level).length := by
  rw [fileBytes_length, fileBytes_length, List.take_add_one, h, Option.toList_some, List.map_append, List.sum_append,
    List.map_singleton, List.sum_singleton]
  omega

theorem fileBytes_take_le (c : DXTCompressor) (header : DDSHeader) (levels : List Image) (k : Nat) :
    (fileBytes c header (levels.take k)).length ≤ (fileBytes c header levels).length := by
  have hsum : ((levels.take k ++ levels.drop k).map fun level => (levelBytes c level).length).sum =
      (levels.map fun level => (levelBytes c level).length).sum := by rw [List.take_append_drop]
  rw [List.map_append, List.sum_append] at hsum
  rw [fileBytes_length, fileBytes_length]
  omega

/-- The reads of the decompressor from a level on. -/
theorem mipMapReads_spec (hwidth : header.width = (2 ^ a : Nat)) (hheight : header.height = (2 ^ b : Nat))
    (hchain : IsChain a b levels) (hlt : (fileBytes c header levels).length < 2 ^ 31) (rounds : Nat) :
    ∀ k offset length, k + rounds = levels.length →
      (k + 2 ≤ a → k + 2 ≤ b → offset = ((fileBytes c header (levels.take k)).length : Int) ∧
        length = (levelSize c (a - k) (b - k) : Int)) →
      ∀ j read, (mipMapReads header rounds k offset length)[j]? = some read → ∃ level, levels[k + j]? = some level ∧
        read = ⟨((fileBytes c header (levels.take (k + j))).length : Int), level.width, level.height⟩ := by
  induction rounds with
  | zero =>
    intro k offset length _ _ j read hread
    simp [mipMapReads] at hread
  | succ rounds ih =>
    intro k offset length hk hinv j read hread
    simp only [mipMapReads] at hread
    split at hread
    · simp at hread
    · rename_i hsides
      rw [not_or, not_lt, not_lt, hwidth, hheight, four_le_tdiv, four_le_tdiv] at hsides
      obtain ⟨ha, hb⟩ := hsides
      obtain ⟨rfl, rfl⟩ := hinv ha hb
      obtain ⟨level, hget⟩ : ∃ level, levels[k]? = some level := ⟨_, List.getElem?_eq_getElem (by omega)⟩
      have hsides := hchain k level hget
      have hnext := fileBytes_take_succ c header hget
      have hle := fileBytes_take_le c header levels (k + 1)
      rw [hsides.levelBytes_length] at hnext
      cases j with
      | zero =>
        obtain rfl := Option.some.inj hread
        refine ⟨level, hget, ?_⟩
        rw [Nat.add_zero, hwidth, hheight, tdiv_two_pow, tdiv_two_pow, hsides.width, hsides.height,
          Nat.pow_div (by omega) two_pos, Nat.pow_div (by omega) two_pos]
      | succ j =>
        have hinv' : k + 1 + 2 ≤ a → k + 1 + 2 ≤ b →
            int ((fileBytes c header (levels.take k)).length + levelSize c (a - k) (b - k)) =
              ((fileBytes c header (levels.take (k + 1))).length : Int) ∧
            (levelSize c (a - k) (b - k) : Int).tdiv 4 = levelSize c (a - (k + 1)) (b - (k + 1)) := by
          intro ha hb
          have hquarter := levelSize_succ (a := a - k) (b := b - k) c (by omega) (by omega)
          rw [Nat.sub_sub, Nat.sub_sub] at hquarter
          constructor
          · rw [int_eq (by omega) (by omega), hnext, Int.natCast_add]
          · rw [hquarter, Nat.mul_comm, Int.natCast_mul]
            exact Int.mul_tdiv_cancel _ (by decide)
        obtain ⟨level', hlevel', heq⟩ := ih (k + 1) _ _ (by omega) hinv' j read hread
        rw [show k + 1 + j = k + (j + 1) by omega] at hlevel' heq
        exact ⟨level', hlevel', heq⟩

/-- The header and the levels are what is in the buffer. -/
structure Written (c : DXTCompressor) (header : DDSHeader) (levels : List Image) (full : ByteBuffer) : Prop where
  writeFile : writeFile c header levels = some full
  filled : full.position = full.bytes.length
  bytes : full.bytes = fileBytes c header levels

/-- The decompressor looks for each level it reads where that level is. -/
def ReadsLevels (c : DXTCompressor) (header : DDSHeader) (levels : List Image) (reads : List Read) : Prop :=
  ∀ k (read : Read), reads[k]? = some read → ∃ level : Image, levels[k]? = some level ∧
    read = ⟨((fileBytes c header (levels.take k)).length : Int), level.width, level.height⟩

/-- Everything fits together: the file fills its buffer, the header reads back
from it, and the decompressor finds the levels. -/
def Consistent (c : DXTCompressor) (image : Image) (buildMipmaps : Bool) (blocks : Nat → Blocks) : Prop :=
  let file := plan c image buildMipmaps blocks
  ∃ full reads, Written c file.1 file.2 full ∧ doCompressImage c image buildMipmaps blocks = some full.rewind ∧
    (∃ rest, readFrom full.rewind = some (file.1, rest)) ∧
    doDecompress file.1 = some reads ∧ reads ≠ [] ∧ ReadsLevels c file.1 file.2 reads

/-- The number of bytes of the file for an image with sides `2 ^ a` and `2 ^ b`. -/
def totalSize (c : DXTCompressor) (a b : Nat) (buildMipmaps : Bool) : Nat :=
  128 + ((List.range (if buildMipmaps then max a b + 1 else 1)).map fun k => levelSize c (a - k) (b - k)).sum

section Plan

variable (c) {image : Image} (buildMipmaps : Bool) (blocks : Nat → Blocks)

theorem plan_length (h : image.Sides a b) :
    (plan c image buildMipmaps blocks).2.length = if buildMipmaps then max a b + 1 else 1 := by
  cases buildMipmaps with
  | false => rfl
  | true =>
    show (buildMipMaps image blocks).length = max a b + 1
    rw [buildMipMaps, List.length_map, List.length_range, getMaxMipmapLevel, h.width, h.height, logBase2_two_pow,
      logBase2_two_pow]

theorem plan_isChain (h : image.Sides a b) : IsChain a b (plan c image buildMipmaps blocks).2 := by
  intro k level hlevel
  cases buildMipmaps with
  | false =>
    rcases k with _ | k
    · obtain rfl := Option.some.inj hlevel
      exact h
    · simp [plan] at hlevel
  | true =>
    change ((List.range _).map (mipMapLevel image blocks))[k]? = some level at hlevel
    rw [List.getElem?_map] at hlevel
    obtain ⟨i, hi, rfl⟩ := Option.map_eq_some_iff.1 hlevel
    obtain rfl : k = i := by simpa using (List.getElem?_eq_some_iff.1 hi).2
    exact h.mipMapLevel blocks k

/-- The two images that are too large with mip maps and DXT3. -/
def TooLarge (c : DXTCompressor) (buildMipmaps : Bool) (a b : Nat) : Prop :=
  c = .DXT3Compressor ∧ buildMipmaps = true ∧ (a = 28 ∧ b = 2 ∨ a = 2 ∧ b = 28)

instance (c : DXTCompressor) (buildMipmaps : Bool) (a b : Nat) : Decidable (TooLarge c buildMipmaps a b) :=
  inferInstanceAs (Decidable (_ ∧ _ ∧ (_ ∧ _ ∨ _ ∧ _)))

theorem totalSize_lt_iff (c : DXTCompressor) (buildMipmaps : Bool) :
    ∀ a < 29, ∀ b < 29, 2 ≤ a ∧ 2 ≤ b ∧ a + b ≤ 30 →
      (totalSize c a b buildMipmaps < 2 ^ 31 ↔ ¬ TooLarge c buildMipmaps a b) := by
  cases c <;> cases buildMipmaps <;> decide +kernel

theorem fileBytes_length_eq (h : image.Sides a b) (header : DDSHeader) :
    (fileBytes c header (plan c image buildMipmaps blocks).2).length = totalSize c a b buildMipmaps := by
  have hsizes : (plan c image buildMipmaps blocks).2.map (fun level => (levelBytes c level).length) =
      (List.range (if buildMipmaps then max a b + 1 else 1)).map fun k => levelSize c (a - k) (b - k) := by
    refine List.ext_getElem (by simp [plan_length c buildMipmaps blocks h]) fun k hk _ => ?_
    rw [List.length_map] at hk
    simp only [List.getElem_map, List.getElem_range]
    exact (plan_isChain c buildMipmaps blocks h k _ (List.getElem?_eq_getElem hk)).levelBytes_length c
  rw [fileBytes_length, hsizes, totalSize]

/-- The predicted size of every level is right. -/
theorem plan_sizes (h : image.Sides a b) (hsum : a + b ≤ 30) (ha : 2 ≤ a) (hb : 2 ≤ b) :
    ∀ level ∈ (plan c image buildMipmaps blocks).2, c.getCompressedSize level = (levelBytes c level).length := by
  intro level hlevel
  obtain ⟨k, hk, rfl⟩ := List.mem_iff_getElem.1 hlevel
  have hsides := plan_isChain c buildMipmaps blocks h k _ (List.getElem?_eq_getElem hk)
  rw [hsides.levelBytes_length, hsides.getCompressedSize]
  rw [← pow_add]
  exact Nat.pow_le_pow_right two_pos (by omega)

/-- What the header says about the image. -/
structure Describes (c : DXTCompressor) (buildMipmaps : Bool) (a b : Nat) (header : DDSHeader) : Prop where
  isInts : header.IsInts
  width : header.width = (2 ^ a : Nat)
  height : header.height = (2 ^ b : Nat)
  linearSize : header.linearSize = levelSize c a b
  fourCC : header.pixelFormat.fourCC = c.getDXTFormat
  mipMapCount : header.mipMapCount = if buildMipmaps then ((max a b + 1 : Nat) : Int) else 0

/-- The file is written exactly when it is not too large. -/
theorem writeFile_plan (h : image.Sides a b) (hsum : a + b ≤ 30) (ha : 2 ≤ a) (hb : 2 ≤ b) :
    writeFile c (plan c image buildMipmaps blocks).1 (plan c image buildMipmaps blocks).2 =
      if totalSize c a b buildMipmaps < 2 ^ 31 then
        some ⟨fileBytes c (plan c image buildMipmaps blocks).1 (plan c image buildMipmaps blocks).2,
          (fileBytes c (plan c image buildMipmaps blocks).1 (plan c image buildMipmaps blocks).2).length,
          (fileBytes c (plan c image buildMipmaps blocks).1 (plan c image buildMipmaps blocks).2).length,
          .littleEndian⟩
      else none := by
  rw [writeFile_iff (plan_sizes c buildMipmaps blocks h hsum ha hb)]
  exact if_congr (by rw [fileBytes_length_eq c buildMipmaps blocks h]) rfl rfl

theorem createDDSHeader_isInts (hwidth : image.width < 2 ^ 31) (hheight : image.height < 2 ^ 31)
    (h1 : 0 ≤ c.getCompressedSize image) (h2 : c.getCompressedSize image < 2 ^ 31) :
    (createDDSHeader c image).IsInts := by
  have hflags : DDSD_WIDTH ||| DDSD_HEIGHT ||| DDSD_LINEARSIZE ||| DDSD_PIXELFORMAT ||| DDSD_CAPS =
      0x81007 := by decide
  have hformat : -2 ^ 31 ≤ c.getDXTFormat ∧ c.getDXTFormat < 2 ^ 31 := by cases c <;> decide
  refine ⟨?_, ⟨?_⟩⟩
  · simp only [List.forall_mem_cons, createDDSHeader, hflags, DDSCAPS_TEXTURE]
    refine ⟨by omega, by omega, by omega, by omega, by omega, by omega, by omega, by omega, by omega, by omega, ?_⟩
    simp
  · simp only [List.forall_mem_cons, createDDSHeader, DDPF_FOURCC]
    refine ⟨by omega, hformat, by omega, by omega, by omega, by omega, by omega, ?_⟩
    simp

theorem withMipMaps_isInts {count : Nat} (h : (createDDSHeader c image).IsInts) (hcount : count < 2 ^ 31) :
    ((createDDSHeader c image).withMipMaps count).IsInts := by
  have hflags : ((createDDSHeader c image).withMipMaps count).flags = 0xA1007 := by
    simp only [DDSHeader.withMipMaps, createDDSHeader, Int.toNat_natCast]
    decide
  have hints := h.ints
  simp only [List.forall_mem_cons] at hints
  obtain ⟨-, hwidth, hheight, hsize, hdepth, -, hcaps⟩ := hints
  refine ⟨?_, h.pixelFormat⟩
  simp only [List.forall_mem_cons, hflags]
  exact ⟨by omega, hwidth, hheight, hsize, hdepth, by simp only [DDSHeader.withMipMaps]; omega, hcaps⟩

theorem plan_header (h : image.Sides a b) (ha : 2 ≤ a) (hb : 2 ≤ b) (hsum : a + b ≤ 30) :
    Describes c buildMipmaps a b (plan c image buildMipmaps blocks).1 := by
  have hblocks : 2 ^ (b - 2) * 2 ^ (a - 2) ≤ 2 ^ 26 := by
    rw [← pow_add]
    exact Nat.pow_le_pow_right two_pos (by omega)
  have hside : ∀ p ≤ 28, 2 ^ p < 2 ^ 31 := fun p hp => Nat.pow_lt_pow_right one_lt_two (by omega)
  have hlinear := h.getCompressedSize hblocks c
  have hle : levelSize c a b ≤ 2 ^ 30 := by
    unfold levelSize
    cases c <;> simp only [blockSize] <;> omega
  have hints : (createDDSHeader c image).IsInts :=
      createDDSHeader_isInts c (by rw [h.width]; exact hside a (by omega))
    (by rw [h.height]; exact hside b (by omega)) (by omega) (by omega)
  have hwidth : (image.width : Int) = (2 ^ a : Nat) := by rw [h.width]
  have hheight : (image.height : Int) = (2 ^ b : Nat) := by rw [h.height]
  cases buildMipmaps with
  | false => exact ⟨hints, hwidth, hheight, hlinear, rfl, rfl⟩
  | true =>
    have hcount : (buildMipMaps image blocks).length = max a b + 1 := plan_length c true blocks h
    refine ⟨withMipMaps_isInts c hints (by omega), hwidth, hheight, hlinear, rfl, ?_⟩
    show ((buildMipMaps image blocks).length : Int) = _
    rw [hcount, if_pos rfl]

end Plan

variable {image : Image} {blocks : Nat → Blocks} {buildMipmaps : Bool}

theorem doDecompress_spec (hheader : Describes c buildMipmaps a b header) (hchain : IsChain a b levels)
    (hcount : levels.length = if buildMipmaps then max a b + 1 else 1) (ha : 2 ≤ a) (hb : 2 ≤ b)
    (hlt : (fileBytes c header levels).length < 2 ^ 31) :
    ∃ reads, doDecompress header = some reads ∧ reads ≠ [] ∧ ReadsLevels c header levels reads := by
  have hpower : ¬ (¬ isPowerOfTwo header.width.toNat ∨ ¬ isPowerOfTwo header.height.toNat) := by
    rw [hheader.width, hheader.height, Int.toNat_natCast, Int.toNat_natCast, isPowerOfTwo_two_pow,
      isPowerOfTwo_two_pow]
    decide
  have hformat : header.pixelFormat.fourCC = D3DFMT_DXT3 ∨ header.pixelFormat.fourCC = D3DFMT_DXT1 := by
    rw [hheader.fourCC]
    cases c
    · exact Or.inr rfl
    · exact Or.inl rfl
  have hoffset : ((fileBytes c header (levels.take 0)).length : Int) = DDS_DATA_OFFSET := by
    rw [fileBytes_length]
    rfl
  have hdo : doDecompress header = if header.mipMapCount = 0 then some
      [⟨DDS_DATA_OFFSET, header.width, header.height⟩]
      else some (mipMapReads header header.mipMapCount.toNat 0 DDS_DATA_OFFSET header.linearSize) := by
    rw [doDecompress, if_neg hpower, if_pos hformat]
  rw [hdo, hheader.mipMapCount]
  cases buildMipmaps with
  | false =>
    refine ⟨_, rfl, List.cons_ne_nil _ _, fun k read hread => ?_⟩
    rcases k with _ | k
    · obtain rfl := Option.some.inj hread
      obtain ⟨level, hget⟩ : ∃ level, levels[0]? = some level :=
        ⟨_, List.getElem?_eq_getElem (by rw [hcount]; exact Nat.one_pos)⟩
      have hsides := hchain 0 _ hget
      refine ⟨_, hget, ?_⟩
      rw [hoffset, hheader.width, hheader.height, hsides.width, hsides.height, Nat.sub_zero, Nat.sub_zero]
    · simp at hread
  | true =>
    have hpos : ¬ ((max a b + 1 : Nat) : Int) = 0 := by omega
    simp only [if_true] at hcount ⊢
    rw [if_neg hpos, Int.toNat_natCast]
    refine ⟨_, rfl, ?_, fun k read hread => ?_⟩
    · have hfour : ¬ (header.width.tdiv (2 ^ 0) < 4 ∨ header.height.tdiv (2 ^ 0) < 4) := by
        rw [not_or, not_lt, not_lt, hheader.width, hheader.height, four_le_tdiv, four_le_tdiv]
        omega
      simp only [mipMapReads, if_neg hfour]
      exact List.cons_ne_nil _ _
    · have hspec := mipMapReads_spec hheader.width hheader.height hchain hlt (max a b + 1) 0 DDS_DATA_OFFSET
        header.linearSize (by omega) (fun _ _ => ⟨hoffset.symm, hheader.linearSize⟩) k read hread
      rwa [Nat.zero_add] at hspec

/-- Compressing is consistent for all images with mip maps or without, but two
whose file is larger than an `int`. -/
theorem consistent_iff (hwidth : image.width = 2 ^ a) (hheight : image.height = 2 ^ b) (ha : 2 ≤ a) (hb : 2 ≤ b) :
    Consistent c image buildMipmaps blocks ↔
      ¬ (c = .DXT3Compressor ∧ buildMipmaps = true ∧ (a = 28 ∧ b = 2 ∨ a = 2 ∧ b = 28)) := by
  have h : image.Sides a b := ⟨hwidth, hheight⟩
  have hsum : a + b ≤ 30 := by
    have hlt := image.isImage
    rw [hwidth, hheight, ← pow_add] at hlt
    have := (Nat.pow_lt_pow_iff_right one_lt_two).1 (hlt.trans (show 2 ^ 31 - 1 < 2 ^ 31 by omega))
    omega
  refine Iff.trans ?_ (totalSize_lt_iff c buildMipmaps a (by omega) b (by omega) ⟨ha, hb, hsum⟩)
  have hwrite := writeFile_plan c buildMipmaps blocks h hsum ha hb
  have hlength := fileBytes_length_eq c buildMipmaps blocks h (plan c image buildMipmaps blocks).1
  have hchain := plan_isChain c buildMipmaps blocks h
  have hcount := plan_length c buildMipmaps blocks h
  have hheader := plan_header c buildMipmaps blocks h ha hb hsum
  have hdo : doCompressImage c image buildMipmaps blocks =
      (writeFile c (plan c image buildMipmaps blocks).1 (plan c image buildMipmaps blocks).2).map rewind := rfl
  unfold Consistent
  generalize plan c image buildMipmaps blocks = file at *
  obtain ⟨header, levels⟩ := file
  simp only at *
  rw [← hlength] at hwrite ⊢
  constructor
  · rintro ⟨full, reads, hfull, -⟩
    by_contra hnot
    rw [if_neg hnot, hfull.writeFile] at hwrite
    cases hwrite
  · intro hlt
    rw [if_pos hlt] at hwrite
    rw [hwrite, Option.map_some] at hdo
    obtain ⟨rest, hread⟩ := readFrom_spec hheader.isInts
      (b := ⟨fileBytes c header levels, 0, (fileBytes c header levels).length, .littleEndian⟩)
      ⟨Nat.zero_le _, le_refl _⟩ rfl (by rw [remaining, content, List.take_length]; rfl)
    obtain ⟨reads, hreads, hne, hlevels⟩ := doDecompress_spec hheader hchain hcount ha hb hlt
    exact ⟨_, reads, ⟨hwrite, rfl, rfl⟩, hdo, ⟨rest, hread⟩, hreads, hne, hlevels⟩

end File

def noBlocks : Blocks := ⟨fun _ _ => ⟨0, 0, 0⟩, fun _ _ => ⟨0, 0, 0, 0⟩⟩

/-- An image of 8 by 4 pixels. -/
def smallImage : Image := ⟨8, 4, noBlocks, by decide, by decide, by decide⟩

theorem smallImage_consistent : Consistent .DXT1Compressor smallImage true fun _ => noBlocks :=
  (consistent_iff (a := 3) (b := 2) rfl rfl (by decide) le_rfl).2 (by decide)

/-- An image of `2 ^ 28` by 4 pixels. -/
def wideImage : Image := ⟨2 ^ 28, 4, noBlocks, by decide, by decide, by decide⟩

/-- With all its mip maps it would take more than `2 ^ 31` bytes, and the size
that is asked for is negative. -/
theorem wideImage_fails :
    fileSize .DXT3Compressor (plan .DXT3Compressor wideImage true fun _ => noBlocks).2 < 0 ∧
      doCompressImage .DXT3Compressor wideImage true (fun _ => noBlocks) = none ∧
      ¬ Consistent .DXT3Compressor wideImage true fun _ => noBlocks := by
  have hwrite := writeFile_plan .DXT3Compressor true (fun _ => noBlocks) (a := 28) (b := 2)
    (show wideImage.Sides 28 2 from ⟨rfl, rfl⟩) le_rfl (by decide) le_rfl
  rw [if_neg (by decide +kernel)] at hwrite
  refine ⟨by decide +kernel, ?_, ?_⟩
  · exact congrArg (Option.map rewind) hwrite
  · rintro ⟨full, reads, hfull, -⟩
    rw [hfull.writeFile] at hwrite
    cases hwrite

end WorldWind.Dds
