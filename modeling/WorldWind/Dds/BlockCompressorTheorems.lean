import WorldWind.Dds.BlockCompressor
/-!
# Which palette entries the block compressor chooses

The index of a pixel is put together from five comparisons of its distances to
the palette. If the palette were four even steps on a line, that would be the
index of a nearest entry. The thirds are cut to whole numbers, so a pixel far
off the line can be nearest to the second end although the entry next to it is
no nearer than the ones before it; then it gets the index of the first end.
-/

namespace WorldWind.Dds

open Lib.JavaInt

/-! ## Distances -/

theorem colorDistanceSquared_mem {c d : Color32} (hc : c.Bytes) (hd : d.Bytes) :
    0 ≤ colorDistanceSquared c d ∧ colorDistanceSquared c d ≤ 3 * 255 ^ 2 := by
  have hsq : ∀ x y : Int, (0 ≤ x ∧ x ≤ 255) → (0 ≤ y ∧ y ≤ 255) → 0 ≤ (x - y) * (x - y) ∧
      (x - y) * (x - y) ≤ 255 ^ 2 := by
    rintro x y ⟨hx, hx'⟩ ⟨hy, hy'⟩
    constructor <;> nlinarith
  have hr := hsq _ _ hc.r hd.r
  have hg := hsq _ _ hc.g hd.g
  have hb := hsq _ _ hc.b hd.b
  rw [colorDistanceSquared]
  omega

theorem short565ToColor32_bytes (color16 : Int) : (short565ToColor32 color16).Bytes := by
  constructor <;> simp only [short565ToColor32, expand5, expand6] <;> omega

theorem third_mem {x y : Int} (hx : 0 ≤ x ∧ x ≤ 255) (hy : 0 ≤ y ∧ y ≤ 255) :
    (0 ≤ (2 * x + y).tdiv 3 ∧ (2 * x + y).tdiv 3 ≤ 255) ∧ 0 ≤ (x + 2 * y).tdiv 3 ∧ (x + 2 * y).tdiv 3 ≤ 255 := by
  rw [Int.tdiv_eq_ediv_of_nonneg (by omega), Int.tdiv_eq_ediv_of_nonneg (by omega)]
  omega

theorem computeColorPalette4_bytes (color0 color1 : Int) (k : Fin 4) :
    (computeColorPalette4 color0 color1 k).Bytes := by
  obtain ⟨hr, hg, hb⟩ := short565ToColor32_bytes color0
  obtain ⟨hr', hg', hb'⟩ := short565ToColor32_bytes color1
  fin_cases k
  · exact ⟨hr, hg, hb⟩
  · exact ⟨hr', hg', hb'⟩
  · exact ⟨(third_mem hr hr').1, (third_mem hg hg').1, (third_mem hb hb').1⟩
  · exact ⟨(third_mem hr hr').2, (third_mem hg hg').2, (third_mem hb hb').2⟩

/-- Ends of one color make a palette of one color. -/
theorem computeColorPalette4_self (color : Int) (k : Fin 4) :
    colorDistanceSquared (computeColorPalette4 color color k) = colorDistanceSquared (short565ToColor32 color) := by
  have hthird : ∀ x : Int, (2 * x + x).tdiv 3 = x ∧ (x + 2 * x).tdiv 3 = x := by
    intro x
    rw [show 2 * x + x = x * 3 by ring, show x + 2 * x = x * 3 by ring, Int.mul_tdiv_cancel _ (by decide)]
    exact ⟨rfl, rfl⟩
  fin_cases k
  · rfl
  · rfl
  · funext c
    simp only [colorDistanceSquared, computeColorPalette4, (hthird _).1]
  · funext c
    simp only [colorDistanceSquared, computeColorPalette4, (hthird _).2]

/-! ## The index of a pixel -/

theorem greaterThan_eq {a b : Int} (ha : 0 ≤ a ∧ a ≤ 3 * 255 ^ 2) (hb : 0 ≤ b ∧ b ≤ 3 * 255 ^ 2) :
    greaterThan a b = if b < a then 1 else 0 := by
  rw [greaterThan, int_eq (by omega) (by omega)]
  by_cases h : b < a
  · rw [if_pos h, if_pos (by omega)]
  · rw [if_neg h, if_neg (by omega)]

/-- The pixel is nearest to the second end, and the entry next to it is no
nearer than the first end or the entry next to that. -/
structure Misled (d0 d1 d2 d3 : Int) : Prop where
  nearer : d1 < d0
  nearest2 : d1 ≤ d2
  nearest3 : d1 ≤ d3
  uneven : d0 ≤ d3 ∨ d2 ≤ d3

section
variable {d0 d1 d2 d3 : Int}

/-- What each index says of the distances. -/
theorem paletteIndex4_cases (h0 : 0 ≤ d0 ∧ d0 ≤ 3 * 255 ^ 2) (h1 : 0 ≤ d1 ∧ d1 ≤ 3 * 255 ^ 2)
    (h2 : 0 ≤ d2 ∧ d2 ≤ 3 * 255 ^ 2) (h3 : 0 ≤ d3 ∧ d3 ≤ 3 * 255 ^ 2) :
    (paletteIndex4 d0 d1 d2 d3 = 3 ∧ d3 < d0 ∧ d3 < d1 ∧ d3 < d2) ∨
      (paletteIndex4 d0 d1 d2 d3 = 2 ∧ d2 < d0 ∧ d2 < d1 ∧ d2 ≤ d3) ∨
      (paletteIndex4 d0 d1 d2 d3 = 1 ∧ d1 ≤ d3 ∧ d3 < d0 ∧ d3 < d2) ∨
      (paletteIndex4 d0 d1 d2 d3 = 0 ∧ (d1 ≤ d2 ∨ d0 ≤ d2) ∧ (d0 ≤ d3 ∨ d1 ≤ d3) ∧ (d0 ≤ d3 ∨ d2 ≤ d3)) := by
  rw [paletteIndex4, greaterThan_eq h0 h3, greaterThan_eq h1 h2, greaterThan_eq h0 h2, greaterThan_eq h1 h3,
    greaterThan_eq h2 h3]
  split_ifs <;> simp <;> omega

theorem paletteIndex4_lt (h0 : 0 ≤ d0 ∧ d0 ≤ 3 * 255 ^ 2) (h1 : 0 ≤ d1 ∧ d1 ≤ 3 * 255 ^ 2)
    (h2 : 0 ≤ d2 ∧ d2 ≤ 3 * 255 ^ 2) (h3 : 0 ≤ d3 ∧ d3 ≤ 3 * 255 ^ 2) : paletteIndex4 d0 d1 d2 d3 < 4 := by
  rcases paletteIndex4_cases h0 h1 h2 h3 with ⟨h, -⟩ | ⟨h, -⟩ | ⟨h, -⟩ | ⟨h, -⟩ <;> omega

end

/-- The index is that of a nearest entry, unless the pixel is misled. -/
theorem nearest_iff {d : Fin 4 → Int} (hd : ∀ k, 0 ≤ d k ∧ d k ≤ 3 * 255 ^ 2) :
    (∀ k, d (Fin.ofNat 4 (paletteIndex4 (d 0) (d 1) (d 2) (d 3))) ≤ d k) ↔ ¬ Misled (d 0) (d 1) (d 2) (d 3) := by
  have hall : ∀ x : Int, (∀ k, x ≤ d k) ↔ x ≤ d 0 ∧ x ≤ d 1 ∧ x ≤ d 2 ∧ x ≤ d 3 := by
    intro x
    constructor
    · intro h
      exact ⟨h 0, h 1, h 2, h 3⟩
    · rintro ⟨h0, h1, h2, h3⟩ k
      fin_cases k <;> assumption
  have hmisled : Misled (d 0) (d 1) (d 2) (d 3) ↔
      d 1 < d 0 ∧ d 1 ≤ d 2 ∧ d 1 ≤ d 3 ∧ (d 0 ≤ d 3 ∨ d 2 ≤ d 3) :=
    ⟨fun h => ⟨h.nearer, h.nearest2, h.nearest3, h.uneven⟩, fun h => ⟨h.1, h.2.1, h.2.2.1, h.2.2.2⟩⟩
  rw [hall, hmisled]
  rcases paletteIndex4_cases (hd 0) (hd 1) (hd 2) (hd 3) with ⟨h, hc⟩ | ⟨h, hc⟩ | ⟨h, hc⟩ | ⟨h, hc⟩
  · rw [h, show Fin.ofNat 4 3 = 3 from rfl]
    omega
  · rw [h, show Fin.ofNat 4 2 = 2 from rfl]
    omega
  · rw [h, show Fin.ofNat 4 1 = 1 from rfl]
    omega
  · rw [h, show Fin.ofNat 4 0 = 0 from rfl]
    omega

/-! ## The mask -/

theorem indexMask_succ (index : Nat → Nat) (n : Nat) :
    indexMask index (n + 1) = indexMask index n ||| index n <<< (2 * n) := by
  rw [indexMask, List.range_succ, List.foldl_append]
  rfl

theorem indexMask_lt {index : Nat → Nat} (h : ∀ i, index i < 4) (n : Nat) : indexMask index n < 2 ^ (2 * n) := by
  induction n with
  | zero => exact Nat.one_pos
  | succ n ih =>
    have hn := h n
    rw [indexMask_succ, Nat.lor_comm, ← Nat.shiftLeft_add_eq_or_of_lt ih, Nat.shiftLeft_eq, Nat.mul_succ, pow_add]
    nlinarith

/-- Each pixel's index is read back from the mask. -/
theorem indexMask_get {index : Nat → Nat} (h : ∀ i, index i < 4) {n i : Nat} (hi : i < n) :
    indexMask index n >>> (2 * i) % 4 = index i := by
  induction n with
  | zero => omega
  | succ n ih =>
    have hlt := indexMask_lt h n
    rw [indexMask_succ, Nat.lor_comm, ← Nat.shiftLeft_add_eq_or_of_lt hlt, Nat.shiftLeft_eq]
    rcases Nat.lt_succ_iff_lt_or_eq.1 hi with hlt' | rfl
    · obtain ⟨k, rfl⟩ := Nat.exists_eq_add_of_lt hlt'
      rw [← ih hlt', Nat.shiftRight_eq_div_pow, Nat.shiftRight_eq_div_pow]
      have hpow : 2 ^ (2 * (i + k + 1)) = 2 ^ (2 * i) * (4 * 4 ^ k) := by
        rw [show (4 : Nat) = 2 ^ 2 by rfl, ← pow_mul, ← pow_add, ← pow_add]
        congr 1
        omega
      rw [hpow, show index (i + k + 1) * (2 ^ (2 * i) * (4 * 4 ^ k)) =
        2 ^ (2 * i) * (4 * (4 ^ k * index (i + k + 1))) by
        ring, Nat.mul_add_div (by positivity), Nat.mul_add_mod]
    · have hi := h i
      rw [Nat.shiftRight_eq_div_pow, Nat.add_comm, Nat.add_mul_div_right _ _ (by positivity), Nat.div_eq_of_lt hlt,
        Nat.zero_add, Nat.mod_eq_of_lt hi]

/-! ## Blocks -/

/-- The index of a pixel, `(colorIndexMask >> (2 * i)) & 3`. -/
def BlockDXT1.index (block : BlockDXT1) (i : Fin 16) : Nat := block.colorIndexMask.toNat >>> (2 * i.val) % 4

namespace BlockDXT1Compressor

/-- The palette of the block: its ends are the colors the attributes choose, as
565 colors, the greater first. -/
def blockPalette (compressor : BlockDXT1Compressor) (colorBlock : ColorBlock4x4) (type : ColorBlockCompressionType) :
    Fin 4 → Color32 :=
  let ends := chooseMinMaxColors colorBlock type compressor.ends
  computeColorPalette4 (max (short565FromColor32 ends.maxColor) (short565FromColor32 ends.minColor))
    (min (short565FromColor32 ends.maxColor) (short565FromColor32 ends.minColor))

variable (compressor : BlockDXT1Compressor) (colorBlock : ColorBlock4x4) (type : ColorBlockCompressionType)

/-- What the compressor writes. -/
theorem compressBlockDXT1_eq :
    let ends := chooseMinMaxColors colorBlock type compressor.ends
    let color0 := max (short565FromColor32 ends.maxColor) (short565FromColor32 ends.minColor)
    let color1 := min (short565FromColor32 ends.maxColor) (short565FromColor32 ends.minColor)
    compressor.compressBlockDXT1 colorBlock type =
      (⟨ends, compressor.blockPalette colorBlock type⟩,
        ⟨color0, color1, computePaletteIndices4 colorBlock (compressor.blockPalette colorBlock type)⟩) := by
  simp only [compressBlockDXT1, blockPalette]
  split
  · rename_i h
    rw [max_eq_right h.le, min_eq_left h.le]
  · rename_i h
    rw [max_eq_left (not_lt.1 h), min_eq_right (not_lt.1 h)]

/-- The distances of a pixel to the palette of the block. -/
def distances (i : Fin 16) (k : Fin 4) : Int :=
  colorDistanceSquared (compressor.blockPalette colorBlock type k) (colorBlock.color i)

theorem distances_mem (i : Fin 16) (k : Fin 4) :
    0 ≤ compressor.distances colorBlock type i k ∧ compressor.distances colorBlock type i k ≤ 3 * 255 ^ 2 :=
  colorDistanceSquared_mem (computeColorPalette4_bytes _ _ k) (colorBlock.bytes i)

theorem index_eq (i : Fin 16) :
    (compressor.compressBlockDXT1 colorBlock type).2.index i =
      paletteIndex4 (compressor.distances colorBlock type i 0) (compressor.distances colorBlock type i 1)
        (compressor.distances colorBlock type i 2) (compressor.distances colorBlock type i 3) := by
  have hd := compressor.distances_mem colorBlock type
  have hget := @indexMask_get (fun j => paletteIndex4 (compressor.distances colorBlock type (Fin.ofNat 16 j) 0)
    (compressor.distances colorBlock type (Fin.ofNat 16 j) 1)
    (compressor.distances colorBlock type (Fin.ofNat 16 j) 2)
    (compressor.distances colorBlock type (Fin.ofNat 16 j) 3))
    (fun j => paletteIndex4_lt (hd _ 0) (hd _ 1) (hd _ 2) (hd _ 3)) 16 i i.isLt
  rw [compressBlockDXT1_eq, BlockDXT1.index]
  simp only [Fin.ofNat_val_eq_self] at hget
  exact hget

/-- With ends of one color every pixel has index 0. -/
theorem index_of_eq (h : (compressor.compressBlockDXT1 colorBlock type).2.color0 =
    (compressor.compressBlockDXT1 colorBlock type).2.color1) (i : Fin 16) :
    (compressor.compressBlockDXT1 colorBlock type).2.index i = 0 := by
  have hd := compressor.distances_mem colorBlock type i
  have hsame : ∀ k l, compressor.distances colorBlock type i k = compressor.distances colorBlock type i l := by
    intro k l
    rw [compressBlockDXT1_eq] at h
    simp only at h
    rw [distances, distances, blockPalette, h, computeColorPalette4_self, computeColorPalette4_self]
  have h0 := hsame 3 0
  have h1 := hsame 2 0
  have h2 := hsame 1 0
  rw [index_eq]
  rcases paletteIndex4_cases (hd 0) (hd 1) (hd 2) (hd 3) with ⟨_, hc⟩ | ⟨_, hc⟩ | ⟨_, hc⟩ | ⟨hzero, -⟩
  · omega
  · omega
  · omega
  · exact hzero

/-- The greater end is first, every pixel has the index of a nearest entry, and
ends of one color leave no pixel with the index 3. -/
structure WellChosen (colorBlock : ColorBlock4x4) (block : BlockDXT1) : Prop where
  ordered : block.color1 ≤ block.color0
  nearest : ∀ i k,
    colorDistanceSquared (computeColorPalette4 block.color0 block.color1 (Fin.ofNat 4 (block.index i)))
      (colorBlock.color i) ≤
      colorDistanceSquared (computeColorPalette4 block.color0 block.color1 k) (colorBlock.color i)
  solid_of_eq : block.color0 = block.color1 → ∀ i, block.index i ≠ 3

/-- **Every pixel gets a nearest entry exactly if no pixel is misled.** -/
theorem compressBlockDXT1_wellChosen_iff :
    WellChosen colorBlock (compressor.compressBlockDXT1 colorBlock type).2 ↔
      ∀ i, ¬ Misled (compressor.distances colorBlock type i 0) (compressor.distances colorBlock type i 1)
        (compressor.distances colorBlock type i 2) (compressor.distances colorBlock type i 3) := by
  have hpalette : computeColorPalette4 (compressor.compressBlockDXT1 colorBlock type).2.color0
      (compressor.compressBlockDXT1 colorBlock type).2.color1 = compressor.blockPalette colorBlock type := by
    rw [compressBlockDXT1_eq]
    rfl
  have hpixel : ∀ i, (∀ k, colorDistanceSquared (compressor.blockPalette colorBlock type
      (Fin.ofNat 4 ((compressor.compressBlockDXT1 colorBlock type).2.index i))) (colorBlock.color i) ≤
        colorDistanceSquared (compressor.blockPalette colorBlock type k) (colorBlock.color i)) ↔
      ¬ Misled (compressor.distances colorBlock type i 0) (compressor.distances colorBlock type i 1)
        (compressor.distances colorBlock type i 2) (compressor.distances colorBlock type i 3) := by
    intro i
    rw [← nearest_iff (compressor.distances_mem colorBlock type i), ← index_eq]
    rfl
  constructor
  · rintro ⟨-, h, -⟩ i
    rw [hpalette] at h
    exact (hpixel i).1 (h i)
  · intro h
    refine ⟨?_, fun i => ?_, fun heq i => ?_⟩
    · rw [compressBlockDXT1_eq]
      exact min_le_max
    · rw [hpalette]
      exact (hpixel i).2 (h i)
    · rw [compressor.index_of_eq colorBlock type heq i]
      decide

/-- Two end colors close to each other and a third color beside them. -/
def brownBlock : ColorBlock4x4 where
  color i := if i.val = 0 then ⟨255, 86, 115, 133⟩ else if i.val = 1 then ⟨255, 70, 119, 131⟩ else ⟨255, 82, 125, 133⟩
  bytes := by decide

/-- The third color is nearest to the entry 1 and gets the index 0. -/
theorem brownBlock_misses :
    ¬ WellChosen brownBlock (new.compressBlockDXT1 brownBlock .COLOR_BLOCK_COMPRESSION_EUCLIDEAN_DISTANCE).2 := by
  intro h
  exact absurd (h.nearest 2 1) (by decide +kernel)

end BlockDXT1Compressor

end WorldWind.Dds
