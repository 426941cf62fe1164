import WorldWind.Dds.Decompressor
import WorldWind.Dds.Theorems
import WorldWind.Lib.Bits
/-!
# Decoding images

A strip of four rows is filled tile by tile and then set in the image, so the
pixels of an image are those of its blocks (`decodeBuffer_spec`). What is written
for an image decodes to the colors that its blocks have in the decoder's table
(`decode_levelBytes`).
-/

namespace WorldWind.Dds

open Lib.Grid Lib.JavaArray Lib.JavaInt Lib.Nio ByteBuffer

/-! ## Setting a rectangle -/

/-- Reading one array to write another. -/
theorem foldlM_writes {α : Type*} {rgbArray : List Nat} {source : α → Nat} (target : α → Nat) {v : α → Nat}
    (l : List α)
    (h : ∀ c ∈ l, rgbArray[source c]? = some (v c)) (rgb : List Nat) :
    l.foldlM (fun rgb c => rgbArray[source c]?.bind fun v => write rgb (target c) v) rgb =
      writes rgb (l.map fun c => (target c, v c)) := by
  induction l generalizing rgb with
  | nil => rfl
  | cons c l ih =>
    unfold writes
    rw [List.foldlM_cons, List.map_cons, List.foldlM_cons, h c List.mem_cons_self, Option.bind_some]
    exact Option.bind_congr fun rgb _ => ih (fun d hd => h d (List.mem_cons_of_mem _ hd)) rgb

/-- An image with an array of its size. -/
structure BufferedImage.Sized (image : BufferedImage) (width height : Nat) : Prop where
  length : image.rgb.length = height * width
  width_eq : image.width = width
  height_eq : image.height = height

theorem setRGB_spec {image : BufferedImage} {width height row : Nat} (hs : image.Sized width height)
    (hrow : row * 4 + 4 ≤ height) {pixels : List Nat} {v : Nat → Nat → Nat}
    (hv : ∀ y < 4, ∀ x < width, pixels[y * width + x]? = some (v y x)) :
    ∃ result, image.setRGB 0 (row * 4) width 4 pixels 0 width = some result ∧ result.Sized width height ∧
      (∀ y < 4, ∀ x < width, result.rgb[(row * 4 + y) * width + x]? = some (v y x)) ∧
      ∀ y < row * 4, ∀ x < width, result.rgb[y * width + x]? = image.rgb[y * width + x]? := by
  obtain ⟨hlen, hwidth, hheight⟩ := hs
  have hcells : ∀ c ∈ cells 4 width, c.1 < 4 ∧ c.2 < width := fun c hc => mem_cells.1 hc
  have hsource : ∀ c ∈ cells 4 width, pixels[0 + c.1 * width + c.2]? = some (v c.1 c.2) := by
    intro c hc
    rw [Nat.zero_add]
    exact hv _ (hcells c hc).1 _ (hcells c hc).2
  have hwrites := foldlM_writes (fun c => (row * 4 + c.1) * width + (0 + c.2)) (cells 4 width) hsource image.rgb
  obtain ⟨b, hb, hblen, hvalues, hrest⟩ := writes_consistent (a := image.rgb)
    (l := (cells 4 width).map fun c => ((row * 4 + c.1) * width + (0 + c.2), v c.1 c.2))
    (by
      simp only [List.forall_mem_map]
      intro c hc
      obtain ⟨hj, hi⟩ := hcells c hc
      rw [hlen, Nat.zero_add]
      exact cell_lt (by omega) hi)
    (by
      simp only [List.forall_mem_map]
      intro c hc d hd heq
      obtain ⟨_, hi⟩ := hcells c hc
      obtain ⟨_, hi'⟩ := hcells d hd
      simp only [Nat.zero_add] at heq
      -- one cell has one row and one column
      have hrow : row * 4 + c.1 = row * 4 + d.1 := by rw [← cell_div (row * 4 + c.1) hi, heq, cell_div _ hi']
      have hcol : c.2 = d.2 := by rw [← cell_mod (row * 4 + c.1) hi, heq, cell_mod _ hi']
      rw [show c.1 = d.1 by omega, hcol])
  simp only [List.forall_mem_map] at hvalues hrest
  refine ⟨{ image with rgb := b }, ?_, ⟨hblen.trans hlen, hwidth, hheight⟩, ?_, ?_⟩
  · unfold BufferedImage.setRGB
    rw [if_pos (by omega), hwidth, hwrites, hb, Option.map_some]
  · intro y hy x hx
    have h := hvalues (y, x) (mem_cells.2 ⟨hy, hx⟩)
    rwa [Nat.zero_add] at h
  · intro y hy x hx
    apply hrest
    intro c hc heq
    have hrow := congrArg (· / width) heq
    simp only [Nat.zero_add, cell_div _ (hcells c hc).2, cell_div _ hx] at hrow
    omega

/-! ## Tiles and strips -/

/-- The pixels of the first `n` columns of tiles of a strip are there. -/
structure StripHolds (tile : Nat → Nat → Nat) (width n : Nat) (pixels : List Nat) : Prop where
  length : pixels.length = 4 * width
  tiles : ∀ y < 4, ∀ x < 4 * n, pixels[y * width + x]? = some (tile (x / 4) (4 * y + x % 4))

theorem putBlock_spec {tile : Nat → Nat → Nat} {width n : Nat} {pixels : List Nat}
    (h : StripHolds tile width n pixels) (hn : n < width / 4) :
    ∃ result, putBlock width n (tile n) pixels = some result ∧ StripHolds tile width (n + 1) result := by
  have hcol : ∀ k, n * 4 + k % 4 < width := by
    intro k
    omega
  have hrow : ∀ k ∈ (List.range 16).reverse, k / 4 < 4 := by
    intro k hk
    rw [List.mem_reverse, List.mem_range] at hk
    omega
  obtain ⟨b, hb, hblen, hvalues, hrest⟩ := writes_consistent (a := pixels)
    (l := (List.range 16).reverse.map fun k => (k / 4 * width + (n * 4 + k % 4), tile n k))
    (by
      simp only [List.forall_mem_map]
      intro k hk
      rw [h.length]
      exact cell_lt (hrow k hk) (hcol k))
    (by
      simp only [List.forall_mem_map]
      intro k _ l _ heq
      have hdiv : k / 4 = l / 4 := by rw [← cell_div (k / 4) (hcol k), heq, cell_div _ (hcol l)]
      have hmod : n * 4 + k % 4 = n * 4 + l % 4 := by rw [← cell_mod (k / 4) (hcol k), heq, cell_mod _ (hcol l)]
      rw [show k = l by omega])
  simp only [List.forall_mem_map] at hvalues hrest
  refine ⟨b, hb, hblen.trans h.length, ?_⟩
  intro y hy x hx
  by_cases hlast : x < 4 * n
  · rw [hrest, h.tiles y hy x hlast]
    intro k hk heq
    have hmod := congrArg (· % width) heq
    simp only [cell_mod _ (hcol k), cell_mod _ (show x < width by omega)] at hmod
    omega
  · have hk := hvalues (4 * y + x % 4) (by
      rw [List.mem_reverse, List.mem_range]
      omega)
    rw [show (4 * y + x % 4) / 4 = y by omega, show n * 4 + (4 * y + x % 4) % 4 = x by omega] at hk
    rw [hk, show x / 4 = n by omega]

section

variable {readBlock : ByteBuffer → Option ((Nat → Nat) × ByteBuffer)} {width : Nat}

/-- A row of tiles fills the strip. -/
theorem reads_tiles {record : Nat → List Int8} {tile : Nat → Nat → Nat}
    (hread : ∀ col p, Reads .littleEndian p readBlock (record col) (tile col)) {pixels : List Nat}
    (hlen : pixels.length = 4 * width) (p : Nat) :
    ∃ pixels', Reads .littleEndian p
      (fun b => (List.range (width / 4)).foldlM (fun r col => decodeTile readBlock width col r.1 r.2) (pixels, b))
      ((List.range (width / 4)).flatMap record) pixels' ∧ StripHolds tile width (width / 4) pixels' := by
  refine reads_range (StripHolds tile width) (fun col pixels p hcol hinv => ?_) ⟨hlen, ?_⟩ p
  · obtain ⟨result, hput, hinv'⟩ := putBlock_spec hinv hcol
    refine ⟨result, Reads.result (hread col p) fun c => ?_, hinv'⟩
    simp only [hput, Option.map_some]
  · intro y _ x hx
    omega

/-- The first `n` rows of tiles of an image are there. -/
structure RowsHold (tile : Nat → Nat → Nat → Nat) (width height n : Nat) (state : BufferedImage × List Nat) : Prop where
  sized : state.1.Sized width height
  strip : state.2.length = 4 * width
  rows : ∀ y < 4 * n, ∀ x < width,
    state.1.rgb[y * width + x]? = some (tile (y / 4) (x / 4) (4 * (y % 4) + x % 4))

theorem reads_row {record : Nat → Nat → List Int8} {tile : Nat → Nat → Nat → Nat} {height : Nat}
    (hwidth : 4 ∣ width) (hread : ∀ row col p, Reads .littleEndian p readBlock (record row col) (tile row col))
    {row : Nat} (hrow : row < height / 4) {state : BufferedImage × List Nat}
    (h : RowsHold tile width height row state) (p : Nat) :
    ∃ state', Reads .littleEndian p (decodeRow readBlock width row state)
      ((List.range (width / 4)).flatMap (record row)) state' ∧ RowsHold tile width height (row + 1) state' := by
  obtain ⟨pixels, hreads, hstrip⟩ := reads_tiles (hread row) h.strip p
  have hfour : 4 * (width / 4) = width := Nat.mul_div_cancel' hwidth
  obtain ⟨result, hset, hsized, hnew, hold⟩ := setRGB_spec h.sized (show row * 4 + 4 ≤ height by omega)
    (v := fun y x => tile row (x / 4) (4 * y + x % 4)) fun y hy x hx => hstrip.tiles y hy x (by omega)
  refine ⟨(result, pixels), Reads.result hreads fun c => ?_, hsized, hstrip.length, ?_⟩
  · simp only [hset, Option.map_some]
  · intro y hy x hx
    by_cases hlast : y < row * 4
    · rw [hold y hlast x hx]
      exact h.rows y (by omega) x hx
    · have hy' := hnew (y - row * 4) (by omega) x hx
      rw [show row * 4 + (y - row * 4) = y by omega] at hy'
      rw [hy', show y / 4 = row by omega, show y - row * 4 = y % 4 by omega]

/-- An image with whole blocks has the pixels of its blocks. -/
theorem decodeBuffer_spec {record : Nat → Nat → List Int8} {tile : Nat → Nat → Nat → Nat} {height : Nat}
    (hread : ∀ row col p, Reads .littleEndian p readBlock (record row col) (tile row col))
    (hwidth : 4 ∣ width) (hheight : 4 ∣ height) (hw : 4 ≤ width) (hh : 4 ≤ height) {b : ByteBuffer} (hb : b.Valid)
    {rest : List Int8}
    (hr : b.remaining = (cells (height / 4) (width / 4)).flatMap (fun c => record c.1 c.2) ++ rest) :
    ∃ image, decodeBuffer readBlock b width height = some image ∧ image.width = width ∧ image.height = height ∧
      ∀ x < width, ∀ y < height, image.getRGB x y = some (tile (y / 4) (x / 4) (4 * (y % 4) + x % 4)) := by
  have hfour : 4 * (height / 4) = height := Nat.mul_div_cancel' hheight
  have hstart : RowsHold tile width height 0 (BufferedImage.new width height, List.replicate (4 * width) 0) := by
    refine ⟨⟨?_, rfl, rfl⟩, List.length_replicate, fun y hy => by omega⟩
    rw [BufferedImage.new, List.length_replicate, Nat.mul_comm]
  have hbytes : (cells (height / 4) (width / 4)).flatMap (fun c => record c.1 c.2) =
      (List.range (height / 4)).flatMap fun row => (List.range (width / 4)).flatMap (record row) := by
    unfold cells
    rw [List.flatMap_assoc]
    simp only [List.flatMap_map]
  obtain ⟨state, hreads, hinv⟩ := reads_range (RowsHold tile width height)
    (fun row state p hrow hinv => reads_row hwidth hread hrow hinv p) hstart b.position
  obtain ⟨c, hc, -⟩ := hreads { b with order := .littleEndian } rest hb.withOrder rfl rfl (by rw [← hbytes, ← hr]; rfl)
  refine ⟨state.1, ?_, hinv.sized.width_eq, hinv.sized.height_eq, ?_⟩
  · unfold decodeBuffer
    rw [if_neg (by omega)]
    simp only [Int.toNat_natCast, hc, Option.map_some]
  · intro x hx y hy
    unfold BufferedImage.getRGB
    rw [if_pos (by rw [hinv.sized.width_eq, hinv.sized.height_eq]; exact ⟨hx, hy⟩), hinv.sized.width_eq]
    exact hinv.rows y (by omega) x hx

end

end WorldWind.Dds
