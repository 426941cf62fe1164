import WorldWind.Tessellator.SurfacePoint
/-!
# The surface point is on the mesh

Within a cell the point is the combination of the corners of one triangle
(`mesh_triangle`). A location on the north or east edge of the tile is at the
far edge of the last cell within the skirt as well as at the near edge of the
skirt's, and the point is the same (`mesh_right`, `mesh_up`).
-/

namespace WorldWind.Tessellator

open Geom.Exact Lib.Casts Lib.JavaInt Lib.Grid Lib.TriangleStrip

/-! ## The two triangles of a cell -/

/-- The value at `(l, h)` in the cell of row `r` and column `c`. -/
def mesh (f : Nat → Nat → ℚ) (r c : Nat) (l h : ℚ) : ℚ :=
  if l + h ≤ 1 then (1 - l - h) * f r c + l * f r (c + 1) + h * f (r + 1) c
  else (1 - l) * f (r + 1) c + (1 - h) * f r (c + 1) + (l + h - 1) * f (r + 1) (c + 1)

/-- `interpolate` is `mesh` in each coordinate. -/
theorem interpolateCorners_mesh (f : Nat → Nat → Vec4 ℚ) (r c : Nat) (l h : ℚ) :
    interpolateCorners (f r c) (f r (c + 1)) (f (r + 1) (c + 1)) (f (r + 1) c) l h =
      ⟨mesh (fun r c => (f r c).x) r c l h, mesh (fun r c => (f r c).y) r c l h,
        mesh (fun r c => (f r c).z) r c l h⟩ := by
  rcases lt_trichotomy (l + h) 1 with hlt | heq | hgt
  · simp only [interpolateCorners, mesh, if_neg hlt.ne, if_neg hlt.not_gt, if_pos hlt.le, Vec4.add3, Vec4.subtract3,
      Vec4.multiply3, gt_iff_lt]
    ext <;> simp only <;> ring
  · have hzero : 1 - l - h = 0 := by linarith
    simp only [interpolateCorners, mesh, if_pos heq, if_pos heq.le, hzero]
    ext <;> simp only <;> ring
  · simp only [interpolateCorners, mesh, if_neg hgt.ne', if_pos hgt, if_neg hgt.not_ge, Vec4.add3, Vec4.subtract3,
      Vec4.multiply3, gt_iff_lt]
    ext <;> simp only <;> ring

/-- The left edge of a cell is the right edge of the one before it. -/
theorem mesh_right (f : Nat → Nat → ℚ) (r c : Nat) {h : ℚ} (h0 : 0 ≤ h) (h1 : h ≤ 1) :
    mesh f r (c + 1) 0 h = mesh f r c 1 h := by
  rw [mesh, mesh, if_pos (by linarith)]
  split
  · obtain rfl : h = 0 := by linarith
    ring
  · ring

/-- The lower edge of a cell is the upper edge of the one below it. -/
theorem mesh_up (f : Nat → Nat → ℚ) (r c : Nat) {l : ℚ} (h0 : 0 ≤ l) (h1 : l ≤ 1) :
    mesh f (r + 1) c l 0 = mesh f r c l 1 := by
  rw [mesh, mesh, if_pos (by linarith)]
  split
  · obtain rfl : l = 0 := by linarith
    ring
  · ring

/-- On a plane the value is that of the plane. -/
theorem mesh_affine {f : Nat → Nat → ℚ} {r c : Nat} {x p q : ℚ} (h00 : f r c = x) (h01 : f r (c + 1) = x + p)
    (h10 : f (r + 1) c = x + q) (h11 : f (r + 1) (c + 1) = x + p + q) (l h : ℚ) :
    mesh f r c l h = x + l * p + h * q := by
  rw [mesh, h00, h01, h10, h11]
  split <;> ring

/-- The rows and columns of the corners of a cell's lower and upper triangle. -/
def cellPairs (r c : Nat) : List (Triangle (Nat × Nat)) :=
  [((r, c), (r, c + 1), (r + 1, c)), ((r + 1, c), (r, c + 1), (r + 1, c + 1))]

theorem mem_cellPairs {r c : Nat} {q : Triangle (Nat × Nat)} : q ∈ cellPairs r c ↔
    q = ((r, c), (r, c + 1), (r + 1, c)) ∨ q = ((r + 1, c), (r, c + 1), (r + 1, c + 1)) := by
  simp [cellPairs]

theorem cellTriangles_eq (s r c : Nat) : cellTriangles s r c = (cellPairs r c).map fun q =>
    (vertex s q.1.1 q.1.2, vertex s q.2.1.1 q.2.1.2, vertex s q.2.2.1 q.2.2.2) := rfl

/-- The value is a barycentric combination of the corners of one of the two triangles, the same for all functions. -/
theorem mesh_triangle (r c : Nat) {l h : ℚ} (hl0 : 0 ≤ l) (hl1 : l ≤ 1) (hh0 : 0 ≤ h) (hh1 : h ≤ 1) :
    ∃ q ∈ cellPairs r c, ∃ u v w : ℚ, 0 ≤ u ∧ 0 ≤ v ∧ 0 ≤ w ∧ u + v + w = 1 ∧ ∀ f : Nat → Nat → ℚ,
      mesh f r c l h = u * f q.1.1 q.1.2 + v * f q.2.1.1 q.2.1.2 + w * f q.2.2.1 q.2.2.2 := by
  by_cases hsum : l + h ≤ 1
  · refine ⟨_, List.mem_cons_self, 1 - l - h, l, h, by linarith, hl0, hh0, by ring, fun f => ?_⟩
    rw [mesh, if_pos hsum]
  · refine ⟨_, List.mem_cons_of_mem _ List.mem_cons_self, 1 - l, 1 - h,
      l + h - 1, by linarith, by linarith, by linarith, by ring, fun f => ?_⟩
    rw [mesh, if_neg hsum]

/-! ## What `getSurfacePoint` reads -/

/-- The vertex of row `r` and column `c`. -/
def RenderInfo.vertexAt (ri : RenderInfo) (r c : Nat) : Vec4 ℚ :=
  let i := 3 * (r * (ri.density + 3) + c)
  ⟨ri.vertices.coords.getD i 0, ri.vertices.coords.getD (i + 1) 0, ri.vertices.coords.getD (i + 2) 0⟩

variable {ri : RenderInfo}

/-- Every vertex of the grid can be read. -/
theorem vec4At_vertex (hlen : ri.vertices.coords.length = 3 * (ri.density + 3) ^ 2) {r c : Nat}
    (hr : r ≤ ri.density + 2)
    (hc : c ≤ ri.density + 2) :
    3 * vertex (ri.density + 2) r c < 2 ^ 31 ∧
      ri.vertices.vec4At (3 * vertex (ri.density + 2) r c) = some (ri.vertexAt r c) := by
  have hcast : 3 * vertex (ri.density + 2) r c = (3 * (r * (ri.density + 3) + c) : Nat) := by
    rw [vertex]
    push_cast
    ring
  have hcell : r * (ri.density + 3) + c < (ri.density + 3) * (ri.density + 3) := cell_lt (by omega) (by omega)
  have hbound := ri.vertices.length_lt
  have hin : 3 * (r * (ri.density + 3) + c) + 2 < ri.vertices.coords.length := by
    rw [hlen, sq]
    omega
  rw [hcast]
  refine ⟨by omega, ?_⟩
  have hget {i : Nat} (hi : i < ri.vertices.coords.length) :
      ri.vertices.coords[i]? = some (ri.vertices.coords.getD i 0) := by
    rw [List.getD_eq_getElem?_getD, List.getElem?_eq_getElem hi, Option.getD_some]
  rw [FloatBuffer.vec4At, if_pos (by omega), Int.toNat_natCast, hget (by omega), hget (by omega), hget (by omega)]
  rfl

theorem interpolate_eq (hlen : ri.vertices.coords.length = 3 * (ri.density + 3) ^ 2) {row column : Nat}
    (hr : row ≤ ri.density) (hc : column ≤ ri.density) (l h : ℚ) :
    interpolate row column l h ri = some (interpolateCorners (ri.vertexAt (row + 1) (column + 1))
      (ri.vertexAt (row + 1) (column + 2)) (ri.vertexAt (row + 2) (column + 2))
      (ri.vertexAt (row + 2) (column + 1)) l h) := by
  obtain ⟨h1, hbL⟩ := @vec4At_vertex ri hlen (row + 1) (column + 1) (by omega) (by omega)
  obtain ⟨-, hbR⟩ := @vec4At_vertex ri hlen (row + 1) (column + 2) (by omega) (by omega)
  obtain ⟨h2, htL⟩ := @vec4At_vertex ri hlen (row + 2) (column + 1) (by omega) (by omega)
  obtain ⟨-, htR⟩ := @vec4At_vertex ri hlen (row + 2) (column + 2) (by omega) (by omega)
  have hpos1 := vertex_nonneg (ri.density + 2) (row + 1) (column + 1)
  have hpos2 := vertex_nonneg (ri.density + 2) (row + 2) (column + 1)
  have hbottom : int ((((row : Int) + 1) * (ri.density + 3) + (column + 1)) * 3) =
      3 * vertex (ri.density + 2) (row + 1) (column + 1) := by
    rw [← int_eq (by omega) h1, vertex]
    congr 1
    push_cast
    ring
  have htop : int (3 * vertex (ri.density + 2) (row + 1) (column + 1) + (ri.density + 3) * 3) =
      3 * vertex (ri.density + 2) (row + 2) (column + 1) := by
    rw [← int_eq (by omega) h2, vertex, vertex]
    congr 1
    push_cast
    ring
  have hright (r c : Nat) : 3 * vertex (ri.density + 2) r c + 3 = 3 * vertex (ri.density + 2) r (c + 1) := by
    rw [vertex_right]
    ring
  simp only [interpolate]
  rw [hbottom, htop, hright, hright, hbL, hbR, htL, htR]
  rfl

/-! ## The cell of a location -/

/-- The row or column of a coordinate, and how far it is along there. At the far edge of the tile it is at the
beginning of
a row or column of the skirt. -/
theorem position_spec {low high x : ℚ} (hlt : low < high) (h1 : low ≤ x) (h2 : x ≤ high) {d : Nat} (hd : 1 ≤ d)
    (hint : d < 2 ^ 31) : ∃ (n : Nat) (l : ℚ), intCast ((x - low) / (high - low) * d) = n ∧
      createPosition n ((x - low) / (high - low)) d = l ∧ 0 ≤ l ∧ l ≤ 1 ∧ (n < d ∨ n = d ∧ l = 0) ∧
      x = low + (n + l) * ((high - low) / d) := by
  have hdelta : 0 < high - low := sub_pos.2 hlt
  have hdpos : (0 : ℚ) < d := by exact_mod_cast hd
  obtain ⟨y, hy⟩ : ∃ y, y = (x - low) / (high - low) * d := ⟨_, rfl⟩
  have hy0 : 0 ≤ y := by
    rw [hy]
    exact mul_nonneg (div_nonneg (sub_nonneg.2 h1) hdelta.le) hdpos.le
  have hyd : y ≤ d := by
    rw [hy]
    exact mul_le_of_le_one_left hdpos.le ((div_le_one hdelta).2 (by linarith))
  have hn : ((⌊y⌋.toNat : Nat) : Int) = ⌊y⌋ := Int.toNat_of_nonneg (Int.floor_nonneg.2 hy0)
  have hnq : ((⌊y⌋.toNat : Nat) : ℚ) = ⌊y⌋ := by exact_mod_cast congrArg (Int.cast : Int → ℚ) hn
  have hfloor := Int.floor_le y
  have hlt' := Int.lt_floor_add_one y
  refine ⟨⌊y⌋.toNat, y - ⌊y⌋.toNat, ?_, ?_, ?_, ?_, ?_, ?_⟩
  · rw [← hy, intCast_eq_floor hy0 (lt_of_le_of_lt hyd (by exact_mod_cast hint)), hn]
  · rw [createPosition, hy]
    push_cast
    field_simp
    ring
  · rw [hnq]
    linarith
  · rw [hnq]
    linarith
  · rcases lt_or_ge ⌊y⌋.toNat d with hcell | hedge
    · exact Or.inl hcell
    · have hge : (d : ℚ) ≤ ⌊y⌋.toNat := by exact_mod_cast hedge
      rw [hnq] at hge
      have heq : y = d := le_antisymm hyd (hge.trans hfloor)
      have hd' : ⌊y⌋.toNat = d := by rw [heq, Int.floor_natCast, Int.toNat_natCast]
      exact Or.inr ⟨hd', by rw [hd', heq, sub_self]⟩
  · rw [hy]
    field_simp
    ring

/-- The cell within the skirt: the last one at the far edge. -/
theorem cell_within {n d : Nat} {l : ℚ} (hd : 1 ≤ d) (h0 : 0 ≤ l) (h1 : l ≤ 1) (hn : n < d ∨ n = d ∧ l = 0) :
    ∃ (k : Nat) (x : ℚ), k < d ∧ 0 ≤ x ∧ x ≤ 1 ∧ (k : ℚ) + x = n + l ∧
      (k = n ∧ x = l ∨ n = k + 1 ∧ l = 0 ∧ x = 1) := by
  rcases hn with hlt | ⟨rfl, rfl⟩
  · exact ⟨n, l, hlt, h0, h1, rfl, Or.inl ⟨rfl, rfl⟩⟩
  · refine ⟨n - 1, 1, by omega, zero_le_one, le_rfl, ?_, Or.inr ⟨by omega, rfl, rfl⟩⟩
    rw [Nat.cast_sub hd]
    push_cast
    ring

/-- The value is that of the cell within the skirt. -/
theorem mesh_within (f : Nat → Nat → ℚ) {m n k j : Nat} {l h x y : ℚ} (hx0 : 0 ≤ x) (hx1 : x ≤ 1) (hh0 : 0 ≤ h)
    (hh1 : h ≤ 1)
    (hcolumn : j = n ∧ x = l ∨ n = j + 1 ∧ l = 0 ∧ x = 1) (hrow : k = m ∧ y = h ∨ m = k + 1 ∧ h = 0 ∧ y = 1) :
    mesh f (m + 1) (n + 1) l h = mesh f (k + 1) (j + 1) x y := by
  have hfirst : mesh f (m + 1) (n + 1) l h = mesh f (m + 1) (j + 1) x h := by
    rcases hcolumn with ⟨rfl, rfl⟩ | ⟨rfl, rfl, rfl⟩
    · rfl
    · exact mesh_right f (m + 1) (j + 1) hh0 hh1
  rw [hfirst]
  rcases hrow with ⟨rfl, rfl⟩ | ⟨rfl, rfl, rfl⟩
  · rfl
  · exact mesh_up f (k + 1) (j + 1) hx0 hx1

/-! ## The surface point -/

/-- The barycentric combination of three locations. -/
def combineLocations (u v w : ℚ) (a b c : LatLon ℚ) : LatLon ℚ :=
  ⟨u * a.latitude + v * b.latitude + w * c.latitude, u * a.longitude + v * b.longitude + w * c.longitude⟩

/-- The barycentric combination of three points. -/
def combinePoints (u v w : ℚ) (a b c : Vec4 ℚ) : Vec4 ℚ :=
  ⟨u * a.x + v * b.x + w * c.x, u * a.y + v * b.y + w * c.y, u * a.z + v * b.z + w * c.z⟩

/-- A triangle of a cell within the skirt, which is one of the strip, has weights for its corners that are not
negative
and have the sum one, with which its locations make the location and its vertices make the point. -/
def OnMesh (tile : RectTile) (ri : RenderInfo) (b : IntBuffer) (p : LatLon ℚ) (point : Vec4 ℚ) : Prop :=
  ∃ r c, 1 ≤ r ∧ r ≤ tile.density ∧ 1 ≤ c ∧ c ≤ tile.density ∧
    ∃ t ∈ cellTriangles (tile.density + 2) r c, t.cycle ∈ (triangles false b.contents).map Triangle.cycle ∧
      ∃ u v w : ℚ, 0 ≤ u ∧ 0 ≤ v ∧ 0 ≤ w ∧ u + v + w = 1 ∧
        (∃ a0 a1 a2, tile.computeLocations[t.1.toNat]? = some a0 ∧ tile.computeLocations[t.2.1.toNat]? = some a1 ∧
          tile.computeLocations[t.2.2.toNat]? = some a2 ∧ p = combineLocations u v w a0 a1 a2) ∧
        ∃ v0 v1 v2, ri.vertices.vec4At (3 * t.1) = some v0 ∧ ri.vertices.vec4At (3 * t.2.1) = some v1 ∧
          ri.vertices.vec4At (3 * t.2.2) = some v2 ∧ point = (combinePoints u v w v0 v1 v2).add3 ri.referenceCenter

/-- The triangles of a cell are triangles of the strip. -/
theorem cycle_mem_strip {s r c : Nat} (hr : r < s) (hc : c < s) {t : Triangle Int} (ht : t ∈ cellTriangles s r c) :
    t.cycle ∈ (triangles false (strip s)).map Triangle.cycle := by
  have hmem : t.cycle ∈ (cells s s).flatMap fun q => (cellTriangles s q.2 q.1).map Triangle.cycle :=
    List.mem_flatMap.2 ⟨(c, r), mem_cells.2 ⟨hc, hr⟩, List.mem_map_of_mem ht⟩
  obtain ⟨t', ht', heq⟩ := List.mem_map.1 ((strip_cells (by omega)).mem_iff.2 hmem)
  exact List.mem_map.2 ⟨t', (List.mem_filter.1 ht').1, heq⟩

/-- A row and column within the tile, in the grid of the locations. -/
theorem locations_mesh (tile : RectTile) {k j : Nat} (hk : k < tile.density) (hj : j < tile.density) (x y : ℚ) :
    mesh (fun r _ => tile.latitudeAt r) (k + 1) (j + 1) x y =
        tile.sector.minLatitude + (k + y) * (tile.sector.deltaLat / tile.density) ∧
      mesh (fun _ c => tile.longitudeAt c) (k + 1) (j + 1) x y =
        tile.sector.minLongitude + (j + x) * (tile.sector.deltaLon / tile.density) := by
  have hlat {r : Nat} (hr : r ≤ tile.density) : tile.latitudeAt (r + 1) =
      tile.sector.minLatitude + r * (tile.sector.deltaLat / tile.density) := by
    rw [RectTile.latitudeAt, if_pos (by omega), Nat.add_sub_cancel]
  have hlon {c : Nat} (hc : c ≤ tile.density) : tile.longitudeAt (c + 1) =
      tile.sector.minLongitude + c * (tile.sector.deltaLon / tile.density) := by
    rw [RectTile.longitudeAt, if_pos (by omega), Nat.add_sub_cancel]
  have hlat0 := hlat hk.le
  have hlat1 := hlat (Nat.succ_le_of_lt hk)
  have hlon0 := hlon hj.le
  have hlon1 := hlon (Nat.succ_le_of_lt hj)
  push_cast at hlat1 hlon1
  constructor
  · rw [@mesh_affine _ _ _ _ 0 (tile.sector.deltaLat / tile.density) hlat0 (by rw [add_zero, hlat0])
      (by rw [hlat1]; ring) (by rw [hlat1]; ring)]
    ring
  · rw [@mesh_affine _ _ _ _ (tile.sector.deltaLon / tile.density) 0 hlon0 (by rw [hlon1]; ring)
      (by rw [add_zero, hlon0]) (by rw [hlon1]; ring)]
    ring

variable {newIntBuffer : Int → Option IntBuffer}

theorem getSurfacePoint_mesh {indexLists : IndexLists} (hcreated : Created newIntBuffer indexLists) {tile : RectTile}
    (hnew : newIntBuffer (indexCount tile.density) = some ⟨indexCount tile.density, []⟩) {b : IntBuffer}
    (hb : indexLists tile.density = some b) (hri : tile.ri = some ri) {p : LatLon ℚ}
    (hp : tile.sector.contains p = true) :
    ∃ point, getSurfacePoint tile p = some (some point) ∧ OnMesh tile ri b p point := by
  obtain ⟨hdensity, hlen⟩ := tile.render ri hri
  rw [← hdensity] at hlen
  -- the buffer's length is an int, so the density is not large
  have hsmall : tile.density ≤ 26751 := by
    have hbound := ri.vertices.length_lt
    rw [hlen, hdensity] at hbound
    by_contra hlarge
    have := Nat.pow_le_pow_left (show 26755 ≤ tile.density + 3 by omega) 2
    omega
  obtain rfl := Option.some.inj ((hcreated.eq_newIndices _ _ hb).symm.trans (newIndices_strip (by omega) hnew))
  have hin := hp
  simp only [Sector.contains, decide_eq_true_eq, ge_iff_le] at hin
  obtain ⟨hlat1, hlat2, hlon1, hlon2⟩ := hin
  obtain ⟨m, h, hrow, hh, hh0, hh1, hm, hlat⟩ := position_spec tile.latitudes hlat1 hlat2 tile.density_pos (by omega)
  obtain ⟨n, l, hcolumn, hl, hl0, hl1, hn, hlon⟩ :=
      position_spec tile.longitudes hlon1 hlon2 tile.density_pos (by omega)
  obtain ⟨k, y, hk, hy0, hy1, hky, hrows⟩ := cell_within tile.density_pos hh0 hh1 hm
  obtain ⟨j, x, hj, hx0, hx1, hjx, hcolumns⟩ := cell_within tile.density_pos hl0 hl1 hn
  have hwithin (f : Nat → Nat → ℚ) : mesh f (m + 1) (n + 1) l h = mesh f (k + 1) (j + 1) x y :=
    mesh_within f hx0 hx1 hh0 hh1 hcolumns hrows
  -- what the code computes
  have hmd : m ≤ ri.density := by
    rw [hdensity]
    rcases hm with hm | hm <;> omega
  have hnd : n ≤ ri.density := by
    rw [hdensity]
    rcases hn with hn | hn <;> omega
  have hcode : getSurfacePoint tile p = some (some ((⟨mesh (fun r c => (ri.vertexAt r c).x) (k + 1) (j + 1) x y,
      mesh (fun r c => (ri.vertexAt r c).y) (k + 1) (j + 1) x y,
      mesh (fun r c => (ri.vertexAt r c).z) (k + 1) (j + 1) x y⟩ : Vec4 ℚ).add3 ri.referenceCenter)) := by
    rw [getSurfacePoint, if_neg (by rw [hp]; decide), hri]
    simp only [Sector.deltaLat, Sector.deltaLon]
    rw [hrow, hcolumn, hdensity, hl, hh, interpolate_eq hlen hmd hnd,
      interpolateCorners_mesh ri.vertexAt (m + 1) (n + 1) l h, hwithin, hwithin, hwithin]
    rfl
  refine ⟨_, hcode, k + 1, j + 1, by omega, by omega, by omega, by omega, ?_⟩
  obtain ⟨q, hq, u, v, w, hu, hv, hw, hsum, hmesh⟩ := mesh_triangle (k + 1) (j + 1) hx0 hx1 hy0 hy1
  have ht : (vertex (tile.density + 2) q.1.1 q.1.2, vertex (tile.density + 2) q.2.1.1 q.2.1.2,
      vertex (tile.density + 2) q.2.2.1 q.2.2.2) ∈ cellTriangles (tile.density + 2) (k + 1) (j + 1) := by
    rw [cellTriangles_eq]
    exact List.mem_map_of_mem hq
  have hbounds : q.1.1 ≤ tile.density + 2 ∧ q.1.2 ≤ tile.density + 2 ∧ q.2.1.1 ≤ tile.density + 2 ∧
      q.2.1.2 ≤ tile.density + 2 ∧ q.2.2.1 ≤ tile.density + 2 ∧ q.2.2.2 ≤ tile.density + 2 := by
    rcases mem_cellPairs.1 hq with rfl | rfl <;> simp only <;> omega
  obtain ⟨b1, b2, b3, b4, b5, b6⟩ := hbounds
  refine ⟨_, ht, cycle_mem_strip (by omega) (by omega) ht, u, v, w, hu, hv, hw, hsum, ?_, ?_⟩
  · refine ⟨_, _, _, tile.computeLocations_vertex b1 b2, tile.computeLocations_vertex b3 b4,
      tile.computeLocations_vertex b5 b6, ?_⟩
    obtain ⟨hlatMesh, hlonMesh⟩ := locations_mesh tile hk hj x y
    rw [hmesh] at hlatMesh hlonMesh
    ext
    · simp only [combineLocations]
      rw [hlatMesh, hky, hlat]
      rfl
    · simp only [combineLocations]
      rw [hlonMesh, hjx, hlon]
      rfl
  · rw [← hdensity] at b1 b2 b3 b4 b5 b6
    rw [← hdensity]
    refine ⟨_, _, _, (vec4At_vertex hlen b1 b2).2, (vec4At_vertex hlen b3 b4).2, (vec4At_vertex hlen b5 b6).2, ?_⟩
    simp only [hmesh, combinePoints]

/-- A tile of one cell, whose vertices are all at the centre. -/
def flatTile : RectTile where
  sector := ⟨0, 1, 0, 1⟩
  density := 1
  ri := some ⟨1, ⟨0, 0, 0⟩, ⟨List.replicate 48 0, by decide⟩⟩
  latitudes := by decide
  longitudes := by decide
  west := by decide
  east := by decide
  density_pos := le_rfl
  render := by
    intro info hinfo
    obtain rfl := Option.some.inj hinfo
    exact ⟨rfl, rfl⟩

/-- The north-east corner of the tile. -/
theorem flatTile_corner : ∃ ri point, flatTile.ri = some ri ∧ getSurfacePoint flatTile ⟨1, 1⟩ = some (some point) ∧
    OnMesh flatTile ri ⟨indexCount 1, strip 3⟩ ⟨1, 1⟩ point := by
  have hcreate : createIndices allocate (fun _ => none) 1 =
      some (Function.update (fun _ => none) 1 (some ⟨indexCount 1, strip 3⟩)) := by
    have hmade : newIndices allocate 1 = some ⟨indexCount 1, strip 3⟩ := by decide +kernel
    rw [createIndices, if_neg (by decide), hmade]
    rfl
  obtain ⟨point, hpoint, hmesh⟩ := @getSurfacePoint_mesh _ allocate _ (.createIndices .none hcreate) flatTile rfl _
    (Function.update_self ..) rfl ⟨1, 1⟩ (by decide +kernel)
  exact ⟨_, point, rfl, hpoint, hmesh⟩

end WorldWind.Tessellator
