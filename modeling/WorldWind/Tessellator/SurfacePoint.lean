import WorldWind.Geom.Exact
import WorldWind.Lib.Casts
import WorldWind.Tessellator.StripTheorems
/-!
# `RectangularTessellator.getSurfacePoint`

The point of a tile's mesh at a location. The cell of the location is its row
and column of the tile, one more in the grid of the vertices, and its diagonal
tells the triangle. On the north and east edges the row or the column is the
first of the skirt, whose outer vertices then have no weight
(`mesh_right`, `mesh_up`), so that the point is always on a triangle within the
skirt (`getSurfacePoint_mesh`). Doubles are exact numbers.
-/

namespace WorldWind.Tessellator

open Geom.Exact Lib.Casts Lib.JavaInt Lib.Grid Lib.TriangleStrip

/-! ## Tiles -/

/-- A `java.nio.FloatBuffer`. Its length is an `int`. -/
structure FloatBuffer where
  coords : List ℚ
  length_lt : coords.length < 2 ^ 31

structure RenderInfo where
  density : Nat
  referenceCenter : Vec4 ℚ
  vertices : FloatBuffer

/-- The sector of a tile is a part of the globe with an area, since the top level tiles divide the globe and `split`
divides a tile. `buildVerts` makes the render info for the density of the tile. -/
structure RectTile where
  sector : Sector ℚ
  density : Nat
  ri : Option RenderInfo
  latitudes : sector.minLatitude < sector.maxLatitude
  longitudes : sector.minLongitude < sector.maxLongitude
  west : -180 ≤ sector.minLongitude
  east : sector.maxLongitude ≤ 180
  density_pos : 1 ≤ density
  render : ∀ info ∈ ri, info.density = density ∧ info.vertices.coords.length = 3 * (density + 3) ^ 2

/-! ## The locations of the vertices -/

namespace RectTile

def clampLongitude (lon : ℚ) : ℚ := if lon < -180 then -180 else if lon > 180 then 180 else lon

/-- The inner loop of `computeLocations` from `i` on. -/
def rowLocations (tile : RectTile) (lat : ℚ) : Nat → Nat → ℚ → List (LatLon ℚ)
  | 0, _, _ => []
  | n + 1, i, lon =>
    ⟨lat, lon⟩ :: tile.rowLocations lat n (i + 1) (clampLongitude
      (if i > tile.density then tile.sector.maxLongitude
      else if i ≠ 0 then lon + tile.sector.deltaLon / tile.density else lon))

/-- The outer loop from `j` on. -/
def columnLocations (tile : RectTile) : Nat → Nat → ℚ → List (LatLon ℚ)
  | 0, _, _ => []
  | n + 1, j, lat =>
    tile.rowLocations lat (tile.density + 3) 0 tile.sector.minLongitude ++ tile.columnLocations n (j + 1)
      (if j > tile.density then tile.sector.maxLatitude
      else if j ≠ 0 then lat + tile.sector.deltaLat / tile.density else lat)

def computeLocations (tile : RectTile) : List (LatLon ℚ) :=
  tile.columnLocations (tile.density + 3) 0 tile.sector.minLatitude

end RectTile

/-! ## `getSurfacePoint` -/

def createPosition (start : Int) (decimal : ℚ) (density : Int) : ℚ :=
  let l := (start : ℚ) / density
  let r := ((start + 1 : Int) : ℚ) / density
  (decimal - l) / (r - l)

/-- The point in the two triangles of a cell. -/
def interpolateCorners (bL bR tR tL : Vec4 ℚ) (xDec yDec : ℚ) : Vec4 ℚ :=
  let pos := xDec + yDec
  if pos = 1 then ⟨tL.x * yDec + bR.x * xDec, tL.y * yDec + bR.y * xDec, tL.z * yDec + bR.z * xDec⟩
  else if pos > 1 then
    let horizontalVector := (tL.subtract3 tR).multiply3 (1 - xDec)
    let verticalVector := (bR.subtract3 tR).multiply3 (1 - yDec)
    (tR.add3 horizontalVector).add3 verticalVector
  else
    let horizontalVector := (bR.subtract3 bL).multiply3 xDec
    let verticalVector := (tL.subtract3 bL).multiply3 yDec
    (bL.add3 horizontalVector).add3 verticalVector

/-- `position(i)` and three `get`s, none where there are not so many coordinates. -/
def FloatBuffer.vec4At (vertices : FloatBuffer) (i : Int) : Option (Vec4 ℚ) :=
  if 0 ≤ i then
    vertices.coords[i.toNat]?.bind fun x => vertices.coords[i.toNat + 1]?.bind fun y =>
      vertices.coords[i.toNat + 2]?.map fun z => ⟨x, y, z⟩
  else none

/-- None where the buffer has no such vertex. -/
def interpolate (row column : Int) (xDec yDec : ℚ) (ri : RenderInfo) : Option (Vec4 ℚ) :=
  let row := row + 1
  let column := column + 1
  let numVerticesPerEdge : Int := ri.density + 3
  let bottomLeft := int ((row * numVerticesPerEdge + column) * 3)
  let topLeft := int (bottomLeft + numVerticesPerEdge * 3)
  (ri.vertices.vec4At bottomLeft).bind fun bL => (ri.vertices.vec4At (bottomLeft + 3)).bind fun bR =>
  (ri.vertices.vec4At topLeft).bind fun tL => (ri.vertices.vec4At (topLeft + 3)).map fun tR =>
    interpolateCorners bL bR tR tL xDec yDec

/-- The outer option is none where it throws, the inner one where it returns null. -/
def getSurfacePoint (tile : RectTile) (location : LatLon ℚ) : Option (Option (Vec4 ℚ)) :=
  if tile.sector.contains location = false then some none
  else
    match tile.ri with
    | none => some none
    | some ri =>
      let leftDecimal := (location.longitude - tile.sector.minLongitude) / tile.sector.deltaLon
      let bottomDecimal := (location.latitude - tile.sector.minLatitude) / tile.sector.deltaLat
      let row := intCast (bottomDecimal * tile.density)
      let column := intCast (leftDecimal * tile.density)
      let l := createPosition column leftDecimal ri.density
      let h := createPosition row bottomDecimal ri.density
      (interpolate row column l h ri).map fun result => some (result.add3 ri.referenceCenter)

/-! ## The locations as a grid -/

namespace RectTile

variable (tile : RectTile)

/-- The latitude of row `r` of the grid. The first row of the tile is row 1. -/
def latitudeAt (r : Nat) : ℚ :=
  if r ≤ tile.density + 1 then tile.sector.minLatitude + ((r - 1 : Nat) : ℚ) * (tile.sector.deltaLat / tile.density)
  else tile.sector.maxLatitude

def longitudeAt (c : Nat) : ℚ :=
  if c ≤ tile.density + 1 then tile.sector.minLongitude + ((c - 1 : Nat) : ℚ) * (tile.sector.deltaLon / tile.density)
  else tile.sector.maxLongitude

theorem density_cast_pos : (0 : ℚ) < tile.density := by exact_mod_cast tile.density_pos

theorem clampLongitude_at {c : Nat} (hc : c ≤ tile.density + 1) :
    clampLongitude (tile.longitudeAt c) = tile.longitudeAt c := by
  have hpos := tile.density_cast_pos
  have hdelta : 0 < tile.sector.deltaLon := sub_pos.2 tile.longitudes
  have hc' : ((c - 1 : Nat) : ℚ) ≤ tile.density := by exact_mod_cast Nat.sub_le_of_le_add hc
  have hle : ((c - 1 : Nat) : ℚ) * (tile.sector.deltaLon / tile.density) ≤ tile.sector.deltaLon := by
    rw [mul_div_assoc', div_le_iff₀ hpos, mul_comm]
    exact mul_le_mul_of_nonneg_left hc' hdelta.le
  have hnonneg : 0 ≤ ((c - 1 : Nat) : ℚ) * (tile.sector.deltaLon / tile.density) := by positivity
  have hmax : tile.sector.minLongitude + tile.sector.deltaLon = tile.sector.maxLongitude := by
    rw [Sector.deltaLon]
    ring
  have hwest := tile.west
  have heast := tile.east
  rw [longitudeAt, if_pos hc, clampLongitude, if_neg (by linarith), if_neg (by linarith)]

theorem longitudeAt_succ {c : Nat} (hc : c ≤ tile.density + 1) : tile.longitudeAt (c + 1) =
    clampLongitude (if c > tile.density then tile.sector.maxLongitude
      else if c ≠ 0 then tile.longitudeAt c + tile.sector.deltaLon / tile.density else tile.longitudeAt c) := by
  by_cases hlast : c > tile.density
  · have hwest := tile.west
    have heast := tile.east
    have hlt := tile.longitudes
    rw [if_pos hlast, longitudeAt, if_neg (by omega), clampLongitude, if_neg (by linarith), if_neg (by linarith)]
  · rw [if_neg hlast, ← tile.clampLongitude_at (by omega : c + 1 ≤ tile.density + 1)]
    congr 1
    by_cases h0 : c = 0
    · rw [if_neg (not_not.2 h0), h0, longitudeAt, longitudeAt, if_pos (by omega), if_pos (by omega)]
    · rw [if_pos h0, longitudeAt, longitudeAt, if_pos (by omega), if_pos (by omega), Nat.add_sub_cancel, add_assoc,
        ← add_one_mul, ← Nat.cast_succ, Nat.succ_eq_add_one, Nat.sub_add_cancel (Nat.pos_of_ne_zero h0)]

theorem latitudeAt_succ {r : Nat} (hr : r ≤ tile.density + 1) : tile.latitudeAt (r + 1) =
    if r > tile.density then tile.sector.maxLatitude
      else if r ≠ 0 then tile.latitudeAt r + tile.sector.deltaLat / tile.density else tile.latitudeAt r := by
  by_cases hlast : r > tile.density
  · rw [if_pos hlast, latitudeAt, if_neg (by omega)]
  · rw [if_neg hlast]
    by_cases h0 : r = 0
    · rw [if_neg (not_not.2 h0), h0, latitudeAt, latitudeAt, if_pos (by omega), if_pos (by omega)]
    · rw [if_pos h0, latitudeAt, latitudeAt, if_pos (by omega), if_pos (by omega), Nat.add_sub_cancel, add_assoc,
        ← add_one_mul, ← Nat.cast_succ, Nat.succ_eq_add_one, Nat.sub_add_cancel (Nat.pos_of_ne_zero h0)]

theorem rowLocations_eq (lat : ℚ) : ∀ (n i : Nat), i + n ≤ tile.density + 3 →
    tile.rowLocations lat n i (tile.longitudeAt i) = (List.range n).map fun k => ⟨lat, tile.longitudeAt (i + k)⟩ := by
  intro n
  induction n with
  | zero => exact fun _ _ => rfl
  | succ n ih =>
    intro i hi
    rw [rowLocations, List.range_succ_eq_map, List.map_cons, List.map_map, Nat.add_zero]
    refine congrArg _ ?_
    cases n with
    | zero => rfl
    | succ n =>
      rw [← tile.longitudeAt_succ (by omega), ih (i + 1) (by omega)]
      refine List.map_congr_left fun k _ => ?_
      rw [Function.comp_apply, Nat.succ_eq_add_one, Nat.add_right_comm, Nat.add_assoc]

theorem columnLocations_eq : ∀ (n j : Nat), j + n ≤ tile.density + 3 →
    tile.columnLocations n j (tile.latitudeAt j) = (List.range n).flatMap fun k =>
      (List.range (tile.density + 3)).map fun c => ⟨tile.latitudeAt (j + k), tile.longitudeAt c⟩ := by
  have hstart : tile.sector.minLongitude = tile.longitudeAt 0 := by simp [longitudeAt]
  intro n
  induction n with
  | zero => exact fun _ _ => rfl
  | succ n ih =>
    intro j hj
    rw [columnLocations, List.range_succ_eq_map (n := n), List.flatMap_cons, List.flatMap_map, hstart,
      tile.rowLocations_eq _ _ 0 (by omega)]
    simp only [Nat.zero_add, Nat.add_zero]
    refine congrArg _ ?_
    cases n with
    | zero => rfl
    | succ n =>
      rw [← tile.latitudeAt_succ (by omega), ih (j + 1) (by omega)]
      refine congrArg₂ _ (funext fun k => ?_) rfl
      rw [Nat.succ_eq_add_one, Nat.add_right_comm, Nat.add_assoc]

/-- `computeLocations` gives the location of each vertex at its index. -/
theorem computeLocations_vertex {r c : Nat} (hr : r ≤ tile.density + 2) (hc : c ≤ tile.density + 2) :
    tile.computeLocations[(vertex (tile.density + 2) r c).toNat]? = some ⟨tile.latitudeAt r, tile.longitudeAt c⟩ := by
  have hstart : tile.sector.minLatitude = tile.latitudeAt 0 := by simp [latitudeAt]
  have hcells : tile.computeLocations =
      (cells (tile.density + 3) (tile.density + 3)).map fun p => ⟨tile.latitudeAt p.1, tile.longitudeAt p.2⟩ := by
    rw [computeLocations, hstart, tile.columnLocations_eq _ 0 (by omega), cells, List.map_flatMap]
    refine congrArg₂ _ (funext fun k => ?_) rfl
    rw [List.map_map, Nat.zero_add]
    rfl
  have hindex : (vertex (tile.density + 2) r c).toNat = r * (tile.density + 3) + c := by
    have hcast : vertex (tile.density + 2) r c = (r * (tile.density + 3) + c : Nat) := by
      rw [vertex]
      push_cast
      ring
    rw [hcast, Int.toNat_natCast]
  rw [hcells, hindex, List.getElem?_map, getElem?_cells (by omega) (by omega), Option.map_some]

end RectTile

end WorldWind.Tessellator
