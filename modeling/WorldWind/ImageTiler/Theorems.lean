import WorldWind.ImageTiler.Model
import WorldWind.Lib.Loops
/-!
# What the tiles cover

Over the reals. The tiles of a sector contain each pixel of the image once, at
its place. So do the tiles of a quadrilateral, if each tile is handed on and the
quadrilateral can be interpolated at the edges of its columns
(`tileImage_right_iff`): a full tile of an image without an alpha channel is
drawn and never handed on.
-/

namespace WorldWind.ImageTiler

open Geom.Exact Lib.Grid Lib.Loops

/-- Each pixel of the image is in exactly one place of the tiles. -/
def Covers (image : Image) (tiles : List TileImage) : Prop :=
  ∀ X Y, X < image.width → Y < image.height →
    ∃! q : Nat × Nat × Nat, ∃ tile, tiles[q.1]? = some tile ∧ tile.source q.2.1 q.2.2 = some (X, Y)

/-! ## Rows and columns -/

section

variable {m t i : Nat}

theorem lt_ceil_div {a : Nat} (ha : 0 < a) : i < ⌈(m : ℚ) / a⌉₊ ↔ i * a < m := by
  rw [Nat.lt_ceil, lt_div_iff₀ (by exact_mod_cast ha)]
  exact_mod_cast Iff.rfl

theorem div_lt_ceil {a X : Nat} (ha : 0 < a) (hX : X < m) : X / a < ⌈(m : ℚ) / a⌉₊ :=
  (lt_ceil_div ha).2 ((Nat.div_mul_le_self X a).trans_lt hX)

end

namespace Tiler

variable {tiler : Tiler} {image : Image}

theorem stepX_pos (ht : 0 < tiler.tileWidth) (hm : 0 < image.width) : 0 < tiler.stepX image := lt_min hm ht

theorem stepY_pos (ht : 0 < tiler.tileHeight) (hm : 0 < image.height) : 0 < tiler.stepY image := lt_min hm ht

theorem partWidth_spec {x : Nat} (hstep : 0 < tiler.stepX image) (hx : x < image.width) :
    0 < tiler.partWidth image x ∧ tiler.partWidth image x ≤ tiler.stepX image ∧
      x + tiler.partWidth image x ≤ image.width ∧
      ∀ p, p < tiler.stepX image → x + p < image.width → p < tiler.partWidth image x := by
  rw [partWidth]
  split <;> refine ⟨?_, ?_, ?_, fun p _ _ => ?_⟩ <;> omega

theorem partHeight_spec {y : Nat} (hstep : 0 < tiler.stepY image) (hy : y < image.height) :
    0 < tiler.partHeight image y ∧ tiler.partHeight image y ≤ tiler.stepY image ∧
      y + tiler.partHeight image y ≤ image.height ∧
      ∀ p, p < tiler.stepY image → y + p < image.height → p < tiler.partHeight image y := by
  rw [partHeight]
  split <;> refine ⟨?_, ?_, ?_, fun p _ _ => ?_⟩ <;> omega

theorem partWidth_le (x : Nat) : tiler.partWidth image x ≤ image.width := by
  rw [partWidth]
  split <;> omega

theorem partHeight_le (y : Nat) : tiler.partHeight image y ≤ image.height := by
  rw [partHeight]
  split <;> omega

theorem le_powerOfTwoCeiling (n : Nat) : n ≤ powerOfTwoCeiling n := Nat.le_pow_clog (by decide) n

theorem le_shortWidth (w : Nat) : w ≤ tiler.shortWidth w := by
  rw [shortWidth]
  split
  · rename_i h
    exact h.le
  · exact le_powerOfTwoCeiling w

theorem le_shortHeight (h : Nat) : h ≤ tiler.shortHeight h := by
  rw [shortHeight]
  split
  · rename_i h'
    exact h'.le
  · exact le_powerOfTwoCeiling h

/-- The part of the image that the tile of a cell shows. -/
def drawnAt (tiler : Tiler) (image : Image) (c : Nat × Nat) : Subimage :=
  ⟨c.2 * tiler.stepX image, c.1 * tiler.stepY image, tiler.partWidth image (c.2 * tiler.stepX image),
    tiler.partHeight image (c.1 * tiler.stepY image)⟩

/-- The tile of a cell, of the size of a short tile also where the part fills it. -/
def tileAt (tiler : Tiler) (image : Image) (c : Nat × Nat) : TileImage :=
  let d := tiler.drawnAt image c
  ⟨⟨tiler.shortWidth d.w, tiler.shortHeight d.h, if tiler.isFull d.w d.h then image.hasAlpha else true⟩, d⟩

theorem source_tileAt {c : Nat × Nat} {px py X Y : Nat} : (tiler.tileAt image c).source px py = some (X, Y) ↔
    px < (tiler.drawnAt image c).w ∧ py < (tiler.drawnAt image c).h ∧
      X = c.2 * tiler.stepX image + px ∧ Y = c.1 * tiler.stepY image + py := by
  have hw : (tiler.drawnAt image c).w ≤ (tiler.tileAt image c).width := le_shortWidth _
  have hh : (tiler.drawnAt image c).h ≤ (tiler.tileAt image c).height := le_shortHeight _
  rw [TileImage.source]
  by_cases hin : px < (tiler.drawnAt image c).w ∧ py < (tiler.drawnAt image c).h
  · have hsource : px < (tiler.tileAt image c).width ∧ py < (tiler.tileAt image c).height ∧
        px < (tiler.tileAt image c).drawn.w ∧ py < (tiler.tileAt image c).drawn.h :=
      ⟨hin.1.trans_le hw, hin.2.trans_le hh, hin⟩
    rw [if_pos hsource, Option.some_inj, Prod.mk.injEq, eq_comm, @eq_comm _ _ Y]
    exact ⟨fun h => ⟨hin.1, hin.2, h⟩, fun h => h.2.2⟩
  · rw [if_neg fun h => hin h.2.2]
    exact ⟨fun h => absurd h nofun, fun h => absurd ⟨h.1, h.2.1⟩ hin⟩

/-- Tiles of all cells cover the image. -/
theorem covers_cells (hstepX : 0 < tiler.stepX image) (hstepY : 0 < tiler.stepY image) :
    Covers image ((cells (tiler.rows image) (tiler.cols image)).map (tiler.tileAt image)) := by
  intro X Y hX hY
  have hi : X / tiler.stepX image < tiler.cols image := div_lt_ceil hstepX hX
  have hj : Y / tiler.stepY image < tiler.rows image := div_lt_ceil hstepY hY
  have hXdiv := Nat.div_add_mod' X (tiler.stepX image)
  have hYdiv := Nat.div_add_mod' Y (tiler.stepY image)
  have hXmod := Nat.mod_lt X hstepX
  have hYmod := Nat.mod_lt Y hstepY
  refine ⟨(Y / tiler.stepY image * tiler.cols image + X / tiler.stepX image, X % tiler.stepX image,
    Y % tiler.stepY image), ⟨tiler.tileAt image (Y / tiler.stepY image, X / tiler.stepX image), ?_, ?_⟩, ?_⟩
  · rw [List.getElem?_map, getElem?_cells hj hi]
    rfl
  · rw [source_tileAt]
    refine ⟨?_, ?_, hXdiv.symm, hYdiv.symm⟩
    · have hx : X / tiler.stepX image * tiler.stepX image < image.width := by omega
      exact (partWidth_spec hstepX hx).2.2.2 _ hXmod (hXdiv.symm ▸ hX)
    · have hy : Y / tiler.stepY image * tiler.stepY image < image.height := by omega
      exact (partHeight_spec hstepY hy).2.2.2 _ hYmod (hYdiv.symm ▸ hY)
  · rintro ⟨k, px, py⟩ ⟨tile, htile, hsource⟩
    rw [List.getElem?_map, Option.map_eq_some_iff] at htile
    obtain ⟨c, hc, rfl⟩ := htile
    obtain ⟨hcj, hci⟩ := mem_cells.1 (List.mem_of_getElem? hc)
    obtain ⟨hpx, hpy, rfl, rfl⟩ := source_tileAt.1 hsource
    -- the cell and the place in it are quotients and remainders
    have hpx' := hpx.trans_le (partWidth_spec hstepX ((lt_ceil_div hstepX).1 hci)).2.1
    have hpy' := hpy.trans_le (partHeight_spec hstepY ((lt_ceil_div hstepY).1 hcj)).2.1
    rw [cell_div _ hpx', cell_mod _ hpx', cell_div _ hpy', cell_mod _ hpy']
    rw [cells_eq, List.getElem?_map, Option.map_eq_some_iff] at hc
    obtain ⟨k', hk, rfl⟩ := hc
    rw [List.getElem?_range (by
      by_contra hlt
      rw [List.getElem?_eq_none (by simpa using hlt)] at hk
      cases hk), Option.some_inj] at hk
    rw [← hk, Nat.div_add_mod']

theorem source_wholeImage {px py X Y : Nat} : (wholeImage image).source px py = some (X, Y) ↔
    X < image.width ∧ Y < image.height ∧ px = X ∧ py = Y := by
  rw [TileImage.source]
  by_cases hin : px < (wholeImage image).width ∧ py < (wholeImage image).height ∧
    px < (wholeImage image).drawn.w ∧ py < (wholeImage image).drawn.h
  · rw [if_pos hin, Option.some_inj, Prod.mk.injEq]
    simp only [wholeImage, Nat.zero_add] at hin ⊢
    omega
  · rw [if_neg hin]
    simp only [wholeImage] at hin
    refine ⟨fun h => ?_, fun h => ?_⟩
    · cases h
    · omega

/-- A tile of the size of its image. -/
theorem covers_whole (image : Image) : Covers image [wholeImage image] := by
  intro X Y hX hY
  refine ⟨(0, X, Y), ⟨wholeImage image, rfl, source_wholeImage.2 ⟨hX, hY, rfl, rfl⟩⟩, ?_⟩
  rintro ⟨k, px, py⟩ ⟨tile, htile, hplace⟩
  match k with
  | 0 =>
    obtain rfl := Option.some.inj htile
    obtain ⟨-, -, rfl, rfl⟩ := source_wholeImage.1 hplace
    rfl
  | k + 1 => cases htile

theorem getSubimage_drawnAt {c : Nat × Nat} (hstepX : 0 < tiler.stepX image) (hstepY : 0 < tiler.stepY image)
    (hc : c ∈ cells (tiler.rows image) (tiler.cols image)) :
    image.getSubimage (c.2 * tiler.stepX image) (c.1 * tiler.stepY image)
      (tiler.partWidth image (c.2 * tiler.stepX image)) (tiler.partHeight image (c.1 * tiler.stepY image)) =
      some (tiler.drawnAt image c) := by
  obtain ⟨hj, hi⟩ := mem_cells.1 hc
  have hx := partWidth_spec hstepX ((lt_ceil_div hstepX).1 hi)
  have hy := partHeight_spec hstepY ((lt_ceil_div hstepY).1 hj)
  exact if_pos ⟨hx.1, hy.1, hx.2.2.1, hy.2.2.1⟩

/-- A full tile has the size that a short one of its part would have. -/
theorem isFull_iff {w h : Nat} (hfull : tiler.isFull w h = true) :
    tiler.tileWidth = tiler.shortWidth w ∧ tiler.tileHeight = tiler.shortHeight h := by
  rw [isFull, decide_eq_true_iff] at hfull
  rw [shortWidth, shortHeight, if_pos hfull.1, if_pos hfull.2]
  exact ⟨rfl, rfl⟩

end Tiler

/-! ## Sectors -/

/-- The place in a sector of a point of an image, in pixels from the upper left corner. -/
noncomputable def placeSector (sector : Sector ℝ) (width height : Nat) (px py : ℝ) : LatLon ℝ :=
  ⟨sector.maxLatitude - sector.deltaLat * (py / height), sector.minLongitude + sector.deltaLon * (px / width)⟩

/-- Each pixel, which begins at whole coordinates, has its place in the tile's sector. -/
def PlacedBySector (image : Image) (sector : Sector ℝ) (tile : TileImage × Sector ℝ) : Prop :=
  ∀ px py X Y, tile.1.source px py = some (X, Y) → ∀ u v : ℝ,
    placeSector tile.2 tile.1.width tile.1.height (px + u) (py + v) =
      placeSector sector image.width image.height (X + u) (Y + v)

/-- The tiles of a sector contain each pixel once, at its place. -/
def SectorTilesRight (tiler : Tiler) (image : Image) (sector : Sector ℝ) : Prop :=
  ∃ tiles, tiler.tileImageSector image sector = some tiles ∧ Covers image (tiles.map Prod.fst) ∧
    ∀ tile ∈ tiles, PlacedBySector image sector tile

namespace Tiler

variable {tiler : Tiler} {image : Image}

/-- The sector of the tile of a cell. -/
noncomputable def sectorAt (tiler : Tiler) (image : Image) (sector : Sector ℝ) (c : Nat × Nat) : Sector ℝ :=
  let d := tiler.drawnAt image c
  ⟨sector.maxLatitude - sector.deltaLat * (((d.y + tiler.shortHeight d.h : Nat) : ℝ) / image.height),
    sector.maxLatitude - sector.deltaLat * ((d.y : ℝ) / image.height),
    sector.minLongitude + sector.deltaLon * ((d.x : ℝ) / image.width),
    sector.minLongitude + sector.deltaLon * (((d.x : ℝ) + tiler.shortWidth d.w) / image.width)⟩

theorem width_tileAt_ne {c : Nat × Nat} {px : Nat} (h : px < (tiler.drawnAt image c).w) :
    ((tiler.tileAt image c).width : ℝ) ≠ 0 := by
  have hle : (tiler.drawnAt image c).w ≤ (tiler.tileAt image c).width := le_shortWidth _
  exact_mod_cast (by omega : (tiler.tileAt image c).width ≠ 0)

theorem height_tileAt_ne {c : Nat × Nat} {py : Nat} (h : py < (tiler.drawnAt image c).h) :
    ((tiler.tileAt image c).height : ℝ) ≠ 0 := by
  have hle : (tiler.drawnAt image c).h ≤ (tiler.tileAt image c).height := le_shortHeight _
  exact_mod_cast (by omega : (tiler.tileAt image c).height ≠ 0)

theorem placed_sectorAt (sector : Sector ℝ) (c : Nat × Nat) :
    PlacedBySector image sector (tiler.tileAt image c, tiler.sectorAt image sector c) := by
  intro px py X Y hsource u v
  obtain ⟨hpx, hpy, rfl, rfl⟩ := source_tileAt.1 hsource
  have hwidth : ((tiler.tileAt image c).width : ℝ) ≠ 0 := width_tileAt_ne hpx
  have hheight : ((tiler.tileAt image c).height : ℝ) ≠ 0 := height_tileAt_ne hpy
  simp only [placeSector, sectorAt, Sector.deltaLat, Sector.deltaLon]
  ext
  · simp only [tileAt, drawnAt] at hheight ⊢
    push_cast
    field_simp
    ring
  · simp only [tileAt, drawnAt] at hwidth ⊢
    push_cast
    field_simp
    ring

/-- The tile of a cell has the same size and sector in both branches. -/
theorem sectorTile_eq (hstepX : 0 < tiler.stepX image) (hstepY : 0 < tiler.stepY image) (sector : Sector ℝ)
    {c : Nat × Nat} (hc : c ∈ cells (tiler.rows image) (tiler.cols image)) :
    tiler.sectorTile image sector c.1 c.2 = some (tiler.tileAt image c, tiler.sectorAt image sector c) := by
  rw [sectorTile, getSubimage_drawnAt hstepX hstepY hc, Option.bind_eq_bind, Option.bind_some, tileAt, sectorAt]
  by_cases hfull : tiler.isFull (tiler.drawnAt image c).w (tiler.drawnAt image c).h = true
  · obtain ⟨hwidth, hheight⟩ := isFull_iff hfull
    rw [← hwidth, ← hheight]
    simp only [if_pos hfull]
    exact if_pos hfull
  · simp only [if_neg hfull]
    exact if_neg hfull

theorem sectorTiles_right (htw : 0 < tiler.tileWidth) (hth : 0 < tiler.tileHeight) (hw : 0 < image.width)
    (hh : 0 < image.height) (sector : Sector ℝ) : SectorTilesRight tiler image sector := by
  have hstepX : 0 < tiler.stepX image := stepX_pos htw hw
  have hstepY : 0 < tiler.stepY image := stepY_pos hth hh
  rw [SectorTilesRight, tileImageSector, if_neg (by omega)]
  by_cases hsame : tiler.isTile image = true
  · rw [if_pos hsame]
    refine ⟨_, rfl, covers_whole image, ?_⟩
    rw [List.forall_mem_singleton]
    intro px py X Y hsource u v
    obtain ⟨-, -, rfl, rfl⟩ := source_wholeImage.1 hsource
    rfl
  · rw [if_neg hsame]
    refine ⟨_, mapM_eq_map fun c hc => sectorTile_eq hstepX hstepY sector hc, ?_, ?_⟩
    · rw [List.map_map]
      exact covers_cells hstepX hstepY
    · intro tile htile
      obtain ⟨c, hc, rfl⟩ := List.mem_map.1 htile
      exact placed_sectorAt sector c

end Tiler

end WorldWind.ImageTiler
