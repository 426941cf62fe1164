import WorldWind.ImageTiler.Theorems
/-!
# Tiles of a quadrilateral

Over the reals. The tiles contain each pixel of the image once, at its place, if
and only if each tile is handed on and the quadrilateral can be interpolated at
the edges of its columns: a full tile of an image without an alpha channel is
drawn and never handed on, and there is no line between two equal points.
-/

namespace WorldWind.ImageTiler

open Geom.Exact Lib.Grid Lib.Loops

/-! ## Interpolation -/

/-- The point at `s` of the edge from `p` to `q`. -/
noncomputable def edge (p q : LatLon ℝ) (s : ℝ) : LatLon ℝ :=
  ⟨p.latitude + (q.latitude - p.latitude) * s, p.longitude + (q.longitude - p.longitude) * s⟩

/-- The point of a quadrilateral, from south to north by `t` and from west to east by `s`. -/
noncomputable def bilinear (sw se ne nw : LatLon ℝ) (t s : ℝ) : LatLon ℝ := edge (edge sw se s) (edge nw ne s) t

/-- The line from `p` to `q`. -/
noncomputable def lineOf (p q : LatLon ℝ) : Line ℝ :=
  ⟨vector p, ⟨q.longitude - p.longitude, q.latitude - p.latitude, 0⟩⟩

theorem getPointAt_lineOf (p q : LatLon ℝ) (s : ℝ) : (lineOf p q).getPointAt s = vector (edge p q s) := by
  simp [lineOf, Line.getPointAt, vector, edge]

/-- There is a line between two points if they differ. -/
theorem fromSegment_vector (p q : LatLon ℝ) :
    Line.fromSegment Real.sqrt (vector p) (vector q) = if p = q then none else some (lineOf p q) := by
  have hdirection : (⟨(vector q).x - (vector p).x, (vector q).y - (vector p).y, (vector q).z - (vector p).z⟩ :
      Vec4 ℝ) = (lineOf p q).direction := by simp [vector, lineOf]
  have hlength : (lineOf p q).direction.getLength3 Real.sqrt ≤ 0 ↔ p = q := by
    rw [Vec4.getLength3, Real.sqrt_le_left le_rfl, LatLon.ext_iff]
    simp only [Vec4.getLengthSquared3, lineOf]
    constructor
    · intro h
      have hlat : (q.latitude - p.latitude) ^ 2 ≤ 0 := by nlinarith [sq_nonneg (q.longitude - p.longitude)]
      have hlon : (q.longitude - p.longitude) ^ 2 ≤ 0 := by nlinarith [sq_nonneg (q.latitude - p.latitude)]
      rw [sq_nonpos_iff, sub_eq_zero] at hlat hlon
      exact ⟨hlat.symm, hlon.symm⟩
    · rintro ⟨hlat, hlon⟩
      simp [hlat, hlon]
  rw [Line.fromSegment, hdirection, Line.new]
  by_cases h : p = q
  · rw [if_pos (hlength.2 h), if_pos h]
  · rw [if_neg (hlength.not.2 h), if_neg h]
    rfl

/-- The quadrilateral of four corners. -/
noncomputable def quadOf (sw se ne nw : LatLon ℝ) : GeoQuad ℝ := ⟨lineOf nw ne, lineOf sw se⟩

theorem new_quad (sw se ne nw : LatLon ℝ) : GeoQuad.new Real.sqrt [sw, se, ne, nw] =
    if nw ≠ ne ∧ sw ≠ se ∧ se ≠ ne ∧ sw ≠ nw then some (quadOf sw se ne nw) else none := by
  simp only [GeoQuad.new, fromSegment_vector]
  by_cases hnorth : nw = ne
  · simp [hnorth]
  by_cases hsouth : sw = se
  · simp [hnorth, hsouth]
  by_cases heast : se = ne
  · simp [hnorth, heast]
  by_cases hwest : sw = nw
  · simp [hnorth, heast, hwest]
  simp [hnorth, hsouth, heast, hwest, quadOf]

/-- The points at `s` of the south and of the north edge differ. -/
def Apart (sw se ne nw : LatLon ℝ) (s : ℝ) : Prop := edge sw se s ≠ edge nw ne s

variable {sw se ne nw : LatLon ℝ}

theorem interpolate_apart {s : ℝ} (h : Apart sw se ne nw s) (t : ℝ) :
    (quadOf sw se ne nw).interpolate Real.sqrt t s = some (bilinear sw se ne nw t s) := by
  simp only [GeoQuad.interpolate, quadOf, getPointAt_lineOf, fromSegment_vector]
  rw [if_neg h]
  simp only [Option.bind_eq_bind, Option.bind_some, getPointAt_lineOf]
  rfl

theorem interpolate_not_apart {s : ℝ} (h : ¬Apart sw se ne nw s) (t : ℝ) :
    (quadOf sw se ne nw).interpolate Real.sqrt t s = none := by
  rw [Apart, ne_eq, not_not] at h
  simp only [GeoQuad.interpolate, quadOf, getPointAt_lineOf, fromSegment_vector]
  rw [if_pos h]
  rfl

/-- Interpolation in a part between two parallels and two meridians of the coordinates. -/
theorem bilinear_part (sw se ne nw : LatLon ℝ) (t₀ t₁ s₀ s₁ t s : ℝ) :
    bilinear (bilinear sw se ne nw t₀ s₀) (bilinear sw se ne nw t₀ s₁) (bilinear sw se ne nw t₁ s₁)
      (bilinear sw se ne nw t₁ s₀) t s = bilinear sw se ne nw (t₀ + (t₁ - t₀) * t) (s₀ + (s₁ - s₀) * s) := by
  ext <;> simp only [bilinear, edge] <;> ring

/-! ## One tile -/

/-- The place in a quadrilateral of a point of an image, in pixels from the upper left corner. -/
noncomputable def placeCorners (sw se ne nw : LatLon ℝ) (width height : Nat) (px py : ℝ) : LatLon ℝ :=
  bilinear sw se ne nw (1 - py / height) (px / width)

/-- Each pixel, which begins at whole coordinates, has its place in the tile's quadrilateral. -/
def PlacedByCorners (image : Image) (sw se ne nw : LatLon ℝ) (tile : TileImage × List (LatLon ℝ)) : Prop :=
  ∃ sw' se' ne' nw', tile.2 = [sw', se', ne', nw'] ∧ ∀ px py X Y, tile.1.source px py = some (X, Y) →
    ∀ u v : ℝ, placeCorners sw' se' ne' nw' tile.1.width tile.1.height (px + u) (py + v) =
      placeCorners sw se ne nw image.width image.height (X + u) (Y + v)

/-- The tiles of a quadrilateral contain each pixel once, at its place. -/
def CornersTilesRight (tiler : Tiler) (image : Image) (sw se ne nw : LatLon ℝ) : Prop :=
  ∃ tiles, tiler.tileImageCorners Real.sqrt image [sw, se, ne, nw] = some tiles ∧
    Covers image (tiles.map Prod.fst) ∧ ∀ tile ∈ tiles, PlacedByCorners image sw se ne nw tile

namespace Tiler

variable {tiler : Tiler} {image : Image}

/-- Where the tiles of a column begin. -/
noncomputable def westOf (tiler : Tiler) (image : Image) (i : Nat) : ℝ :=
    ((i * tiler.stepX image : Nat) : ℝ) / image.width

/-- Where the tiles of a column end. -/
noncomputable def eastOf (tiler : Tiler) (image : Image) (i : Nat) : ℝ :=
  (((i * tiler.stepX image : Nat) : ℝ) + tiler.shortWidth
    (tiler.partWidth image (i * tiler.stepX image))) / image.width

/-- The corners of the tile of a cell. -/
noncomputable def cornersAt (tiler : Tiler) (image : Image) (sw se ne nw : LatLon ℝ) (c : Nat × Nat) :
    List (LatLon ℝ) :=
  let d := tiler.drawnAt image c
  let t0 : ℝ := 1 - ((d.y + tiler.shortHeight d.h : Nat) : ℝ) / image.height
  let t1 : ℝ := 1 - (d.y : ℝ) / image.height
  [bilinear sw se ne nw t0 (tiler.westOf image c.2), bilinear sw se ne nw t0 (tiler.eastOf image c.2),
    bilinear sw se ne nw t1 (tiler.eastOf image c.2), bilinear sw se ne nw t1 (tiler.westOf image c.2)]

theorem placed_cornersAt (sw se ne nw : LatLon ℝ) (c : Nat × Nat) :
    PlacedByCorners image sw se ne nw (tiler.tileAt image c, tiler.cornersAt image sw se ne nw c) := by
  refine ⟨_, _, _, _, rfl, fun px py X Y hsource u v => ?_⟩
  obtain ⟨hpx, hpy, rfl, rfl⟩ := source_tileAt.1 hsource
  have hwidth : ((tiler.tileAt image c).width : ℝ) ≠ 0 := width_tileAt_ne hpx
  have hheight : ((tiler.tileAt image c).height : ℝ) ≠ 0 := height_tileAt_ne hpy
  rw [placeCorners, placeCorners, bilinear_part]
  congr 1
  · simp only [tileAt, drawnAt] at hheight ⊢
    push_cast
    field_simp
    ring
  · simp only [tileAt, drawnAt, westOf, eastOf] at hwidth ⊢
    push_cast
    field_simp
    ring

/-- The turn of a cell ends early. -/
def Dropped (tiler : Tiler) (image : Image) (c : Nat × Nat) : Prop :=
  tiler.isFull (tiler.drawnAt image c).w (tiler.drawnAt image c).h = true ∧ image.hasAlpha = false

/-- The edges of a column can be interpolated. -/
def ColumnApart (tiler : Tiler) (image : Image) (sw se ne nw : LatLon ℝ) (i : Nat) : Prop :=
  Apart sw se ne nw (tiler.westOf image i) ∧ Apart sw se ne nw (tiler.eastOf image i)

section

variable (hstepX : 0 < tiler.stepX image) (hstepY : 0 < tiler.stepY image) {c : Nat × Nat}
  (hc : c ∈ cells (tiler.rows image) (tiler.cols image))

include hstepX hstepY hc

theorem cornersTile_dropped (h : tiler.Dropped image c) (quad : GeoQuad ℝ) :
    tiler.cornersTile Real.sqrt image quad c.1 c.2 = some none := by
  rw [cornersTile, getSubimage_drawnAt hstepX hstepY hc, Option.bind_eq_bind, Option.bind_some]
  refine (if_pos h.1).trans (if_pos ?_)
  rw [h.2]
  decide

/-- A turn that does not end early, in both branches. -/
theorem cornersTile_drawn (h : ¬tiler.Dropped image c) (quad : GeoQuad ℝ) :
    tiler.cornersTile Real.sqrt image quad c.1 c.2 = (do
      let d := tiler.drawnAt image c
      let t0 : ℝ := 1 - ((d.y + tiler.shortHeight d.h : Nat) : ℝ) / image.height
      let t1 : ℝ := 1 - (d.y : ℝ) / image.height
      let sw ← quad.interpolate Real.sqrt t0 (tiler.westOf image c.2)
      let se ← quad.interpolate Real.sqrt t0 (tiler.eastOf image c.2)
      let ne ← quad.interpolate Real.sqrt t1 (tiler.eastOf image c.2)
      let nw ← quad.interpolate Real.sqrt t1 (tiler.westOf image c.2)
      return some (tiler.tileAt image c, [sw, se, ne, nw])) := by
  rw [cornersTile, getSubimage_drawnAt hstepX hstepY hc, Option.bind_eq_bind, Option.bind_some]
  by_cases hfull : tiler.isFull (tiler.drawnAt image c).w (tiler.drawnAt image c).h = true
  · obtain ⟨hwidth, hheight⟩ := isFull_iff hfull
    have halpha : image.hasAlpha = true := by
      rw [← Bool.not_eq_false]
      exact fun hno => h ⟨hfull, hno⟩
    refine (if_pos hfull).trans ((if_neg (by rw [halpha]; decide)).trans ?_)
    have hpart : tiler.shortWidth (tiler.partWidth image (c.2 * tiler.stepX image)) = tiler.tileWidth := hwidth.symm
    simp only [tileAt, eastOf, if_pos hfull, halpha, hpart, ← hheight, ← hwidth]
    rfl
  · refine (if_neg hfull).trans ?_
    simp only [tileAt, if_neg hfull]
    rfl

theorem cornersTile_apart (h : ¬tiler.Dropped image c) (hapart : tiler.ColumnApart image sw se ne nw c.2) :
    tiler.cornersTile Real.sqrt image (quadOf sw se ne nw) c.1 c.2 =
      some (some (tiler.tileAt image c, tiler.cornersAt image sw se ne nw c)) := by
  rw [cornersTile_drawn hstepX hstepY hc h]
  simp only [interpolate_apart hapart.1, interpolate_apart hapart.2]
  rfl

theorem columnApart_of_cornersTile (h : ¬tiler.Dropped image c) {r : Option (TileImage × List (LatLon ℝ))}
    (hr : tiler.cornersTile Real.sqrt image (quadOf sw se ne nw) c.1 c.2 = some r) :
    tiler.ColumnApart image sw se ne nw c.2 := by
  rw [cornersTile_drawn hstepX hstepY hc h] at hr
  by_cases hwest : Apart sw se ne nw (tiler.westOf image c.2)
  · by_cases heast : Apart sw se ne nw (tiler.eastOf image c.2)
    · exact ⟨hwest, heast⟩
    · simp only [interpolate_apart hwest, interpolate_not_apart heast] at hr
      cases hr
  · simp only [interpolate_not_apart hwest] at hr
    cases hr

end

/-- Each tile is handed on. -/
def Handed (tiler : Tiler) (image : Image) : Prop :=
  image.hasAlpha = true ∨ image.width < tiler.tileWidth ∨ image.height < tiler.tileHeight

/-- The quadrilateral has edges, and can be interpolated at the edges of the columns of tiles. -/
structure Interpolable (tiler : Tiler) (image : Image) (sw se ne nw : LatLon ℝ) : Prop where
  north : nw ≠ ne
  south : sw ≠ se
  east : se ≠ ne
  west : sw ≠ nw
  column : ∀ i < tiler.cols image, tiler.ColumnApart image sw se ne nw i

theorem not_dropped_of_handed (h : tiler.Handed image) (c : Nat × Nat) : ¬tiler.Dropped image c := by
  rintro ⟨hfull, halpha⟩
  rw [isFull, decide_eq_true_iff] at hfull
  have hw : (tiler.drawnAt image c).w ≤ image.width := partWidth_le _
  have hh : (tiler.drawnAt image c).h ≤ image.height := partHeight_le _
  rcases h with h | h | h
  · rw [halpha] at h
    cases h
  · omega
  · omega

/-- The first tile of an image at least as large as a tile fills it. -/
theorem dropped_first (h : ¬tiler.Handed image) : tiler.Dropped image (0, 0) := by
  rw [Handed, not_or, not_or, not_lt, not_lt] at h
  obtain ⟨halpha, hw, hh⟩ := h
  refine ⟨?_, by simpa using halpha⟩
  rw [isFull, decide_eq_true_iff]
  simp only [drawnAt, partWidth, partHeight, stepX, stepY, Nat.zero_mul, Nat.zero_add]
  rw [if_pos (min_le_left _ _), if_pos (min_le_left _ _)]
  omega

section

variable (hstepX : 0 < tiler.stepX image) (hstepY : 0 < tiler.stepY image)

include hstepX hstepY

/-- The tiles cover the image only if none is left out: the first pixel is in no other tile than the first. -/
theorem handed_of_covers {quad : GeoQuad ℝ} {results : List (Option (TileImage × List (LatLon ℝ)))}
    (hm : ((cells (tiler.rows image) (tiler.cols image)).mapM fun c =>
      tiler.cornersTile Real.sqrt image quad c.1 c.2) = some results) (hw : 0 < image.width) (hh : 0 < image.height)
    (hcovers : Covers image (results.reduceOption.map Prod.fst)) : tiler.Handed image := by
  by_contra hno
  obtain ⟨⟨k, px, py⟩, ⟨tile, htile, hsource⟩, -⟩ := hcovers 0 0 hw hh
  obtain ⟨⟨tile, corners⟩, hmem, rfl⟩ := List.mem_map.1 (List.mem_of_getElem? htile)
  obtain ⟨c, hc, hresult⟩ := (mapM_eq_some hm).2 _ (List.reduceOption_mem_iff.1 hmem)
  have hdrawn : ¬tiler.Dropped image c := by
    intro hdropped
    rw [cornersTile_dropped hstepX hstepY hc hdropped] at hresult
    cases hresult
  rw [cornersTile_drawn hstepX hstepY hc hdrawn] at hresult
  have htile : tile = tiler.tileAt image c := by
    simp only [Option.bind_eq_bind, Option.bind_eq_some_iff] at hresult
    obtain ⟨_, -, _, -, _, -, _, -, hresult⟩ := hresult
    cases hresult
    rfl
  obtain ⟨-, -, hX, hY⟩ := source_tileAt.1 (htile ▸ hsource)
  have hfirst : c = (0, 0) := by
    refine Prod.ext ?_ ?_
    · exact (Nat.mul_eq_zero.1 (by omega : c.1 * tiler.stepY image = 0)).resolve_right hstepY.ne'
    · exact (Nat.mul_eq_zero.1 (by omega : c.2 * tiler.stepX image = 0)).resolve_right hstepX.ne'
  exact hdrawn (hfirst ▸ dropped_first hno)

end

theorem reduceOption_map_some {α β : Type*} (g : α → β) (l : List α) :
    (l.map fun x => some (g x)).reduceOption = l.map g := by
  rw [List.reduceOption, List.filterMap_map]
  exact congrFun (List.filterMap_eq_map (f := g)) l

/-- Corners, for an image that is not of the size of a tile. -/
theorem cornersTiles_right (htw : 0 < tiler.tileWidth) (hth : 0 < tiler.tileHeight) (hw : 0 < image.width)
    (hh : 0 < image.height) (hsize : ¬tiler.isTile image = true) :
    CornersTilesRight tiler image sw se ne nw ↔ tiler.Handed image ∧ tiler.Interpolable image sw se ne nw := by
  have hstepX : 0 < tiler.stepX image := stepX_pos htw hw
  have hstepY : 0 < tiler.stepY image := stepY_pos hth hh
  rw [CornersTilesRight, tileImageCorners, if_neg (by omega), if_neg hsize, if_neg (by simp), new_quad]
  by_cases hedges : nw ≠ ne ∧ sw ≠ se ∧ se ≠ ne ∧ sw ≠ nw
  · rw [if_pos hedges, Option.bind_some]
    constructor
    · rintro ⟨tiles, htiles, hcovers, -⟩
      obtain ⟨results, hm, rfl⟩ := Option.map_eq_some_iff.1 htiles
      have hhanded := handed_of_covers hstepX hstepY hm hw hh hcovers
      refine ⟨hhanded, ⟨hedges.1, hedges.2.1, hedges.2.2.1, hedges.2.2.2, fun i hi => ?_⟩⟩
      have hrow : 0 < tiler.rows image := (Nat.zero_le _).trans_lt (div_lt_ceil hstepY hh)
      have hc : (0, i) ∈ cells (tiler.rows image) (tiler.cols image) := mem_cells.2 ⟨hrow, hi⟩
      obtain ⟨r, hr⟩ := (mapM_eq_some hm).1 _ hc
      exact columnApart_of_cornersTile hstepX hstepY hc (not_dropped_of_handed hhanded _) hr
    · rintro ⟨hhanded, hquad⟩
      have hm := mapM_eq_map (f :=
          fun c => tiler.cornersTile Real.sqrt image (quadOf sw se ne nw) c.1 c.2) fun c hc =>
        cornersTile_apart hstepX hstepY hc (not_dropped_of_handed hhanded c) (hquad.column c.2 (mem_cells.1 hc).2)
      refine ⟨_, congrArg _ hm, ?_, ?_⟩
      · rw [reduceOption_map_some, List.map_map]
        exact covers_cells hstepX hstepY
      · intro tile htile
        rw [reduceOption_map_some] at htile
        obtain ⟨c, hc, rfl⟩ := List.mem_map.1 htile
        exact placed_cornersAt sw se ne nw c
  · rw [if_neg hedges, Option.bind_none]
    constructor
    · rintro ⟨tiles, htiles, -⟩
      cases htiles
    · rintro ⟨-, hquad⟩
      exact absurd ⟨hquad.north, hquad.south, hquad.east, hquad.west⟩ hedges

theorem corners_whole (hw : 0 < image.width) (hh : 0 < image.height) (hsize : tiler.isTile image = true) :
    CornersTilesRight tiler image sw se ne nw := by
  refine ⟨[(wholeImage image, [sw, se, ne, nw])], ?_, covers_whole image, ?_⟩
  · rw [tileImageCorners, if_neg (by omega), if_pos hsize]
  · rw [List.forall_mem_singleton]
    refine ⟨sw, se, ne, nw, rfl, fun px py X Y hsource u v => ?_⟩
    obtain ⟨-, -, rfl, rfl⟩ := source_wholeImage.1 hsource
    rfl

end Tiler

/-- Both overloads hand on tiles that contain each pixel once, at its place, if and
only if the image is of the size of a tile, or each tile is handed on and the
quadrilateral can be interpolated where it has to be. -/
theorem tileImage_right_iff (tiler : Tiler) (image : Image) (htw : 0 < tiler.tileWidth) (hth : 0 < tiler.tileHeight)
    (hw : 0 < image.width) (hh : 0 < image.height) (sector : Sector ℝ) (sw se ne nw : LatLon ℝ) :
    SectorTilesRight tiler image sector ∧ CornersTilesRight tiler image sw se ne nw ↔
      tiler.isTile image = true ∨ tiler.Handed image ∧ tiler.Interpolable image sw se ne nw := by
  rw [and_iff_right (Tiler.sectorTiles_right htw hth hw hh sector)]
  by_cases hsize : tiler.isTile image = true
  · exact ⟨fun _ => .inl hsize, fun _ => Tiler.corners_whole hw hh hsize⟩
  · rw [Tiler.cornersTiles_right htw hth hw hh hsize]
    exact ⟨fun h => .inr h, fun h => h.resolve_left hsize⟩

/-! ## Runs -/

/-- The image with an alpha channel, 2 pixels wide, in tiles of one pixel over a square. -/
theorem twoTiles_right : SectorTilesRight ⟨1, 1⟩ ⟨2, 1, true⟩ ⟨0, 2, 0, 2⟩ ∧
    CornersTilesRight ⟨1, 1⟩ ⟨2, 1, true⟩ ⟨0, 0⟩ ⟨0, 2⟩ ⟨2, 2⟩ ⟨2, 0⟩ := by
  refine (tileImage_right_iff ⟨1, 1⟩ ⟨2, 1, true⟩ (by decide) (by decide) (by decide) (by decide) _ _ _ _ _).2
    (.inr ⟨.inl rfl, ⟨?_, ?_, ?_, ?_, fun i _ => ⟨?_, ?_⟩⟩⟩)
  · simp
  · simp
  · simp
  · simp
  · simp [Apart, edge]
  · simp [Apart, edge]

/-- Without an alpha channel the tiler hands on no tile of it. -/
theorem twoTiles_lost : ¬(SectorTilesRight ⟨1, 1⟩ ⟨2, 1, false⟩ ⟨0, 2, 0, 2⟩ ∧
    CornersTilesRight ⟨1, 1⟩ ⟨2, 1, false⟩ ⟨0, 0⟩ ⟨0, 2⟩ ⟨2, 2⟩ ⟨2, 0⟩) := by
  rintro ⟨-, h⟩
  have := ((Tiler.cornersTiles_right (by decide) (by decide) (by decide) (by decide) (by decide)).1 h).1
  revert this
  simp [Tiler.Handed]

end WorldWind.ImageTiler
