import WorldWind.GeometryBuilder.Solids
import WorldWind.GeometryBuilder.SubdivideTheorems
/-!
# The buffers of cylinders and wedges

The points of a solid are its two centers and those of its two rims; some have more
than one vertex. The loops write the vertices of caps and core, then those of the
wrap or of the sides, and the triangles of two caps and the core, then those of the
sides. Each cell of a buffer is written, so a buffer is a function of the number of
the vertex or the triangle (`cylinder_buffers`, `wedge_buffers`).
-/

namespace WorldWind.GeometryBuilder

open Geom.Exact Lib.JavaArray Lib.Triples Lib.TriangleStrip Lib.TrianglePrimitives Lib.TriangleMesh

/-! ## The points of a solid -/

/-- A center, or a point of a rim by its slice, at the top or at the bottom. -/
inductive SolidPoint where
  | center (top : Bool)
  | rim (i : Nat) (top : Bool)
  deriving DecidableEq, Repr

open SolidPoint

section

variable {K : Type} [Field K] (sin cos : K → K)

def height (top : Bool) : K := if top then 1 else -1

/-- The coordinates that the loops write, before all are multiplied by the radius. -/
def place (radius da : K) : SolidPoint → K × K × K
  | .center top => (0, 0, height top)
  | .rim i top => (sin (i * da) * radius, cos (i * da) * radius, height top)

end

/-! ## Vertices -/

/-- The vertices of a slice, where the rims have `n` points each. -/
def rimWrites (n i : Nat) : List (Nat × SolidPoint) :=
  [(i + 1, rim i true), (n + 2 + i, rim i false), (2 * n + 2 + 2 * i, rim i true), (2 * n + 3 + 2 * i, rim i false)]

/-- The points of all vertices with their numbers, in the order of the assignments; `extra` comes last. -/
def solidWrites (n : Nat) (extra : List SolidPoint) : List (Nat × SolidPoint) :=
  [(0, center true), (n + 1, center false)] ++ (List.range n).flatMap (rimWrites n) ++
    extra.zipIdx.map fun c => (4 * n + 2 + c.2, c.1)

/-- The point of a vertex of caps and core. -/
def baseVertex (n v : Nat) : SolidPoint :=
  if v = 0 then center true
  else if v ≤ n then rim (v - 1) true
  else if v = n + 1 then center false
  else if v ≤ 2 * n + 1 then rim (v - (n + 2)) false
  else rim ((v - (2 * n + 2)) / 2) ((v - (2 * n + 2)) % 2 = 0)

def solidVertex (n : Nat) (extra : List SolidPoint) (v : Nat) : SolidPoint :=
  if v < 4 * n + 2 then baseVertex n v else extra.getD (v - (4 * n + 2)) (center true)

theorem baseVertex_upper {n i : Nat} (hi : i < n) : baseVertex n (i + 1) = rim i true := by
  rw [baseVertex, if_neg (by omega), if_pos (by omega), Nat.add_sub_cancel]

theorem baseVertex_lower {n i : Nat} (hi : i < n) : baseVertex n (n + 2 + i) = rim i false := by
  rw [baseVertex, if_neg (by omega), if_neg (by omega), if_neg (by omega), if_pos (by omega), Nat.add_sub_cancel_left]

theorem baseVertex_coreUpper (n i : Nat) : baseVertex n (2 * n + 2 + 2 * i) = rim i true := by
  rw [baseVertex, if_neg (by omega), if_neg (by omega), if_neg (by omega), if_neg (by omega), Nat.add_sub_cancel_left,
    Nat.mul_div_cancel_left i Nat.two_pos]
  simp

theorem baseVertex_coreLower (n i : Nat) : baseVertex n (2 * n + 3 + 2 * i) = rim i false := by
  have hsub : 2 * n + 3 + 2 * i - (2 * n + 2) = 1 + 2 * i := by omega
  rw [baseVertex, if_neg (by omega), if_neg (by omega), if_neg (by omega), if_neg (by omega), hsub,
    Nat.add_mul_div_left 1 i Nat.two_pos]
  simp

theorem mem_solidWrites {n : Nat} {extra : List SolidPoint} {c : Nat × SolidPoint} (hc : c ∈ solidWrites n extra) :
    c.1 < 4 * n + 2 + extra.length ∧ c.2 = solidVertex n extra c.1 := by
  simp only [solidWrites, rimWrites, List.mem_append, List.mem_cons, List.not_mem_nil, or_false, List.mem_flatMap,
    List.mem_range] at hc
  rcases hc with ((rfl | rfl) | ⟨i, hi, rfl | rfl | rfl | rfl⟩) | hc
  · exact ⟨by simp only; omega, rfl⟩
  · refine ⟨by simp only; omega, ?_⟩
    rw [solidVertex, if_pos (by omega), baseVertex, if_neg (by omega), if_neg (by omega), if_pos rfl]
  · refine ⟨by simp only; omega, ?_⟩
    rw [solidVertex, if_pos (by omega), baseVertex_upper hi]
  · refine ⟨by simp only; omega, ?_⟩
    rw [solidVertex, if_pos (by omega), baseVertex_lower hi]
  · refine ⟨by simp only; omega, ?_⟩
    rw [solidVertex, if_pos (by omega), baseVertex_coreUpper]
  · refine ⟨by simp only; omega, ?_⟩
    rw [solidVertex, if_pos (by omega), baseVertex_coreLower]
  · obtain ⟨⟨x, k⟩, hk, rfl⟩ := List.mem_map.1 hc
    have hget := List.mk_mem_zipIdx_iff_getElem?.1 hk
    have hlt := (List.getElem?_eq_some_iff.1 hget).1
    refine ⟨Nat.add_lt_add_left hlt _, ?_⟩
    rw [solidVertex, if_neg (by omega), Nat.add_sub_cancel_left, List.getD_eq_getElem?_getD, hget, Option.getD_some]

theorem solidWrites_cover {n v : Nat} {extra : List SolidPoint} (hv : v < 4 * n + 2 + extra.length) :
    ∃ c ∈ solidWrites n extra, c.1 = v := by
  have hrim : ∀ i < n, ∀ c ∈ rimWrites n i, c ∈ solidWrites n extra := fun i hi c hc =>
    List.mem_append_left _ (List.mem_append_right _ (List.mem_flatMap.2 ⟨i, List.mem_range.2 hi, hc⟩))
  by_cases h1 : v ≤ n
  · by_cases h0 : v = 0
    · exact ⟨(0, center true), by simp [solidWrites], h0.symm⟩
    · exact ⟨(v - 1 + 1, rim (v - 1) true), hrim (v - 1) (by omega) _ (by simp [rimWrites]),
        Nat.sub_add_cancel (by omega)⟩
  · by_cases h2 : v = n + 1
    · exact ⟨(n + 1, center false), by simp [solidWrites], h2.symm⟩
    · by_cases h3 : v ≤ 2 * n + 1
      · exact ⟨(n + 2 + (v - (n + 2)), rim (v - (n + 2)) false), hrim (v - (n + 2))
          (by omega) _ (by simp [rimWrites]), Nat.add_sub_cancel' (by omega)⟩
      · by_cases h4 : v < 4 * n + 2
        · rcases Nat.even_or_odd' v with ⟨k, hk | hk⟩
          · exact ⟨(2 * n + 2 + 2 * (k - (n + 1)), rim (k - (n + 1)) true),
              hrim (k - (n + 1)) (by omega) _ (by simp [rimWrites]), by simp only; omega⟩
          · exact ⟨(2 * n + 3 + 2 * (k - (n + 1)), rim (k - (n + 1)) false),
              hrim (k - (n + 1)) (by omega) _ (by simp [rimWrites]), by simp only; omega⟩
        · have hlt : v - (4 * n + 2) < extra.length := by omega
          refine ⟨(4 * n + 2 + (v - (4 * n + 2)), extra[v - (4 * n + 2)]), ?_, Nat.add_sub_cancel' (by omega)⟩
          exact List.mem_append_right _ (List.mem_map.2
            ⟨(extra[v - (4 * n + 2)], v - (4 * n + 2)), List.mk_mem_zipIdx_iff_getElem?.2
              (List.getElem?_eq_getElem hlt), rfl⟩)

section

variable {K : Type} [Field K] {sin cos : K → K} {radius da : K}

/-- Vertices as triples of coordinates. -/
def placed (sin cos : K → K) (radius da : K) (l : List (Nat × SolidPoint)) : List (Nat × (K × K × K)) :=
  l.map fun c => (c.1, place sin cos radius da c.2)

/-- All vertices are assigned, each to its point. -/
theorem writes_solid (n : Nat) (extra : List SolidPoint) :
    writes (List.replicate (4 * n + 2 + extra.length) (0, 0, 0)) (placed sin cos radius da (solidWrites n extra)) =
      some ((List.range (4 * n + 2 + extra.length)).map fun v =>
        place sin cos radius da (solidVertex n extra v)) := by
  refine writes_range List.length_replicate (fun c hc => ?_) fun v hv => ?_
  · obtain ⟨d, hd, rfl⟩ := List.mem_map.1 hc
    obtain ⟨hlt, heq⟩ := mem_solidWrites hd
    exact ⟨hlt, congrArg (place sin cos radius da) heq⟩
  · obtain ⟨c, hc, heq⟩ := solidWrites_cover hv
    exact ⟨_, List.mem_map.2 ⟨c, hc, rfl⟩, heq⟩

theorem cylinderRim_eq (slices : Nat) (T : List (Triangle K)) (i : Nat) :
    cylinderRim sin cos radius da slices (vertices T) i =
      (writes T (placed sin cos radius da (rimWrites slices i))).map vertices := by
  rw [← foldlM_put3, cylinderRim]
  have h1 : 3 * i + 3 = 3 * (i + 1) := by ring
  have h2 : 3 * (i + 1) + 3 + 3 * slices = 3 * (slices + 2 + i) := by ring
  have h3 : 3 * (i + 1) + 3 + (6 * slices + 3 * i) = 3 * (2 * slices + 2 + 2 * i) := by ring
  have h4 : 3 * (2 * slices + 2 + 2 * i) + 3 = 3 * (2 * slices + 3 + 2 * i) := by ring
  simp only [h1, h2, h3, h4, placed, rimWrites, List.map_cons, List.map_nil, List.foldlM_cons, List.foldlM_nil,
    place, height, if_true, Bool.false_eq_true, if_false, bind_pure]

theorem wedgeRim_eq (slices : Nat) (T : List (Triangle K)) (i : Nat) :
    wedgeRim sin cos radius da slices (vertices T) i =
      (writes T (placed sin cos radius da (rimWrites (slices + 1) i))).map vertices := by
  rw [← foldlM_put3, wedgeRim]
  have h1 : 3 * i + 3 = 3 * (i + 1) := by ring
  have h2 : 3 * (i + 1) + 3 + 3 * (slices + 1) = 3 * (slices + 1 + 2 + i) := by ring
  have h3 : 3 * (2 * slices + 4 + 2 * i) = 3 * (2 * (slices + 1) + 2 + 2 * i) := by ring
  have h4 : 3 * (2 * (slices + 1) + 2 + 2 * i) + 3 = 3 * (2 * (slices + 1) + 3 + 2 * i) := by ring
  simp only [h1, h2, h3, h4, placed, rimWrites, List.map_cons, List.map_nil, List.foldlM_cons, List.foldlM_nil,
    place, height, if_true, Bool.false_eq_true, if_false, bind_pure]

end

/-! ## Triangles -/

/-- The triangles of a slice with their numbers; `next` is the number in a cap's rim of the
vertex behind the slice. -/
def sliceWrites (slices n : Nat) (next : Nat → Nat) (i : Nat) : List (Nat × Triangle Nat) :=
  [(i, (0, next i, i + 1)), (slices + i, (n + 1, n + 1 + next i, n + 1 + i + 1)),
    (2 * (slices + i), (2 * n + 2 + 2 * i, 2 * n + 2 + 2 * i + 1, 2 * n + 2 + 2 * i + 2)),
    (2 * (slices + i) + 1, (2 * n + 2 + 2 * i + 2, 2 * n + 2 + 2 * i + 1, 2 * n + 2 + 2 * i + 3))]

theorem cylinderSlice_eq (slices : Nat) (T : List (Triangle Nat)) (i : Nat) :
    cylinderSlice slices (vertices T, 2 * slices + 2 + 2 * i) i =
      (writes T (sliceWrites slices slices (fun i => if i < slices - 1 then i + 2 else 1) i)).map
        fun T => (vertices T, 2 * slices + 2 + 2 * (i + 1)) := by
  have h1 : 6 * (slices + i) = 3 * (2 * (slices + i)) := by ring
  have h2 : 3 * (2 * (slices + i)) + 3 = 3 * (2 * (slices + i) + 1) := by ring
  have h3 : (if i < slices - 1 then (slices + 1) + i + 2 else (slices + 1) + 1) =
      slices + 1 + if i < slices - 1 then i + 2 else 1 := by
    split <;> rfl
  have hmap : ∀ x : Option (List (Triangle Nat)), x.map (fun T => (vertices T, 2 * slices + 2 + 2 * (i + 1))) =
      (x.map vertices).bind fun b => some (b, 2 * slices + 2 + 2 * (i + 1)) := by
    rintro (- | T) <;> rfl
  rw [hmap, ← foldlM_put3]
  simp only [cylinderSlice, h1, h2, h3, sliceWrites, List.foldlM_cons, List.foldlM_nil, bind_pure,
    Option.bind_eq_bind, Option.bind_assoc]
  rfl

theorem wedgeSlice_eq (slices : Nat) (T : List (Triangle Nat)) (i : Nat) :
    wedgeSlice slices (vertices T, 2 * (slices + 1) + 2 + 2 * i) i =
      (writes T (sliceWrites slices (slices + 1) (fun i => i + 2) i)).map
        fun T => (vertices T, 2 * (slices + 1) + 2 + 2 * (i + 1)) := by
  have h1 : 6 * (slices + i) = 3 * (2 * (slices + i)) := by ring
  have h2 : 3 * (2 * (slices + i)) + 3 = 3 * (2 * (slices + i) + 1) := by ring
  have hmap : ∀ x : Option (List (Triangle Nat)), x.map (fun T => (vertices T, 2 * (slices + 1) + 2 + 2 * (i + 1))) =
      (x.map vertices).bind fun b => some (b, 2 * (slices + 1) + 2 + 2 * (i + 1)) := by
    rintro (- | T) <;> rfl
  rw [hmap, ← foldlM_put3]
  simp only [wedgeSlice, h1, h2, sliceWrites, List.foldlM_cons, List.foldlM_nil, bind_pure, Option.bind_eq_bind,
    Option.bind_assoc]
  rfl

/-- A triangle of caps or core by its number. -/
def baseTriangle (slices n : Nat) (next : Nat → Nat) (m : Nat) : Triangle Nat :=
  if m < slices then (0, next m, m + 1)
  else if m < 2 * slices then (n + 1, n + 1 + next (m - slices), n + 1 + (m - slices) + 1)
  else
    let core := 2 * n + 2 + 2 * ((m - 2 * slices) / 2)
    if (m - 2 * slices) % 2 = 0 then (core, core + 1, core + 2) else (core + 2, core + 1, core + 3)

/-- The triangle at a number, with `extra` behind caps and core. -/
def solidTriangle (slices n : Nat) (next : Nat → Nat) (extra : List (Triangle Nat)) (m : Nat) : Triangle Nat :=
  if m < 4 * slices then baseTriangle slices n next m else extra.getD (m - 4 * slices) (0, 0, 0)

def triangleWrites (slices n : Nat) (next : Nat → Nat) (extra : List (Triangle Nat)) : List (Nat × Triangle Nat) :=
  (List.range slices).flatMap (sliceWrites slices n next) ++ extra.zipIdx.map fun c => (4 * slices + c.2, c.1)

theorem mem_triangleWrites {slices n : Nat} {next : Nat → Nat} {extra : List (Triangle Nat)} {c : Nat × Triangle Nat}
    (hc : c ∈ triangleWrites slices n next extra) :
    c.1 < 4 * slices + extra.length ∧ c.2 = solidTriangle slices n next extra c.1 := by
  simp only [triangleWrites, sliceWrites, List.mem_append, List.mem_cons, List.not_mem_nil, or_false,
    List.mem_flatMap, List.mem_range] at hc
  rcases hc with ⟨i, hi, rfl | rfl | rfl | rfl⟩ | hc
  · refine ⟨by simp only; omega, ?_⟩
    rw [solidTriangle, if_pos (by omega), baseTriangle, if_pos hi]
  · refine ⟨by simp only; omega, ?_⟩
    rw [solidTriangle, if_pos (by omega), baseTriangle, if_neg (by omega), if_pos (by omega), Nat.add_sub_cancel_left]
  · refine ⟨by simp only; omega, ?_⟩
    have hsub : 2 * (slices + i) - 2 * slices = 2 * i := by omega
    rw [solidTriangle, if_pos (by omega), baseTriangle, if_neg (by omega), if_neg (by omega), hsub,
      Nat.mul_div_cancel_left i Nat.two_pos, Nat.mul_mod_right, if_pos rfl]
  · refine ⟨by simp only; omega, ?_⟩
    have hsub : 2 * (slices + i) + 1 - 2 * slices = 1 + 2 * i := by omega
    rw [solidTriangle, if_pos (by omega), baseTriangle, if_neg (by omega), if_neg (by omega), hsub,
      Nat.add_mul_div_left 1 i Nat.two_pos, Nat.add_mul_mod_self_left, if_neg (by decide)]
    simp
  · obtain ⟨⟨t, k⟩, hk, rfl⟩ := List.mem_map.1 hc
    have hget := List.mk_mem_zipIdx_iff_getElem?.1 hk
    have hlt := (List.getElem?_eq_some_iff.1 hget).1
    refine ⟨Nat.add_lt_add_left hlt _, ?_⟩
    rw [solidTriangle, if_neg (by omega), Nat.add_sub_cancel_left, List.getD_eq_getElem?_getD, hget, Option.getD_some]

theorem triangleWrites_cover {slices n m : Nat} {next : Nat → Nat} {extra : List (Triangle Nat)}
    (hm : m < 4 * slices + extra.length) : ∃ c ∈ triangleWrites slices n next extra, c.1 = m := by
  have hslice : ∀ i < slices, ∀ c ∈ sliceWrites slices n next i, c ∈ triangleWrites slices n next extra :=
    fun i hi c hc => List.mem_append_left _ (List.mem_flatMap.2 ⟨i, List.mem_range.2 hi, hc⟩)
  by_cases h1 : m < slices
  · exact ⟨_, hslice m h1 _ (by rw [sliceWrites]; exact List.mem_cons_self), rfl⟩
  · by_cases h2 : m < 2 * slices
    · refine ⟨_, hslice (m - slices) (by omega) _ (by
        rw [sliceWrites]; exact List.mem_cons_of_mem _ List.mem_cons_self), ?_⟩
      simp only
      omega
    · by_cases h3 : m < 4 * slices
      · rcases Nat.even_or_odd' m with ⟨k, hk | hk⟩
        · refine ⟨_, hslice (k - slices) (by omega) _ (by
            rw [sliceWrites]; exact List.mem_cons_of_mem _ (List.mem_cons_of_mem _ List.mem_cons_self)), ?_⟩
          simp only
          omega
        · refine ⟨_, hslice (k - slices) (by omega) _ (by
            rw [sliceWrites]
            exact List.mem_cons_of_mem _ (List.mem_cons_of_mem _ (List.mem_cons_of_mem _ List.mem_cons_self))), ?_⟩
          simp only
          omega
      · have hlt : m - 4 * slices < extra.length := by omega
        refine ⟨(4 * slices + (m - 4 * slices), extra[m - 4 * slices]), ?_, Nat.add_sub_cancel' (by omega)⟩
        exact List.mem_append_right _ (List.mem_map.2
          ⟨(extra[m - 4 * slices], m - 4 * slices), List.mk_mem_zipIdx_iff_getElem?.2
            (List.getElem?_eq_getElem hlt), rfl⟩)

theorem writes_triangles (slices n : Nat) (next : Nat → Nat) (extra : List (Triangle Nat)) :
    writes (List.replicate (4 * slices + extra.length) (0, 0, 0)) (triangleWrites slices n next extra) =
      some ((List.range (4 * slices + extra.length)).map (solidTriangle slices n next extra)) :=
  writes_range List.length_replicate (fun _ hc => mem_triangleWrites hc) fun _ hm => triangleWrites_cover hm

/-! ## Both methods -/

section

variable {K : Type} [Field K] [LinearOrder K] {sin cos : K → K} {pi radius : K}

/-- The points behind those of caps and core: the wrap of a cylinder. -/
def cylinderExtra : List SolidPoint := [rim 0 true, rim 0 false]

/-- The points of the two sides of a wedge. -/
def wedgeExtra (slices : Nat) : List SolidPoint :=
  (List.range 2).flatMap fun i => [center true, center false, rim (i * slices) true, rim (i * slices) false]

/-- The triangles of the two sides. -/
def wedgeSides (slices : Nat) : List (Triangle Nat) :=
  (List.range 2).flatMap fun i =>
    let coreIndex := 4 * (slices + 1) + 2 + i * 4
    [(coreIndex, coreIndex + 2, coreIndex + 1), (coreIndex + 1, coreIndex + 2, coreIndex + 3)]

def cylinderNext (slices i : Nat) : Nat := if i < slices - 1 then i + 2 else 1

/-- The buffers of a solid before the end of the method. -/
def solidVertices (sin cos : K → K) (radius da : K) (n : Nat) (extra : List SolidPoint) : List (K × K × K) :=
  (List.range (4 * n + 2 + extra.length)).map fun v => place sin cos radius da (solidVertex n extra v)

def solidTriangles (slices n : Nat) (next : Nat → Nat) (extra : List (Triangle Nat)) : List (Triangle Nat) :=
  (List.range (4 * slices + extra.length)).map (solidTriangle slices n next extra)

theorem cylinder_buffers (orientation : Orientation) (hradius : 0 ≤ radius) (subdivisions : Nat) :
    tessellateCylinderBuffer sin cos pi orientation radius subdivisions =
      orientAndScale orientation radius (12 * sliceCount subdivisions)
        (vertices (solidTriangles (sliceCount subdivisions) (sliceCount subdivisions)
          (cylinderNext (sliceCount subdivisions)) []))
        (4 * sliceCount subdivisions + 4)
        (vertices (solidVertices sin cos radius (2 * pi / sliceCount subdivisions) (sliceCount subdivisions)
          cylinderExtra)) := by
  rw [tessellateCylinderBuffer, if_neg (not_lt.2 hradius)]
  generalize sliceCount subdivisions = slices
  dsimp only
  have hloop : ∀ T, (List.range slices).foldlM (cylinderRim sin cos radius (2 * pi / slices) slices) (vertices T) =
      (writes T ((List.range slices).flatMap fun i =>
        placed sin cos radius (2 * pi / slices) (rimWrites slices i))).map vertices :=
    fun T => foldlM_writes (fun _ => vertices) (fun T i => cylinderRim_eq slices T i) T slices
  have hfirst : put3 (List.replicate (3 * (4 * slices + 4)) (0 : K)) 0 (0, 0, 1) =
      (writes (List.replicate (4 * slices + 4) (0, 0, 0)) [(0, (0, 0, 1))]).map vertices := by
    rw [vertices_replicate]
    exact put3_writes _ 0 _
  have hlast : 3 * (4 * slices + 2) + 3 = 3 * (4 * slices + 3) := by ring
  have hwrites : [(0, ((0, 0, 1) : K × K × K))] ++ [(slices + 1, (0, 0, -1))] ++
      (List.range slices).flatMap (fun i => placed sin cos radius (2 * pi / slices) (rimWrites slices i)) ++
      [(4 * slices + 2, (sin 0 * radius, cos 0 * radius, 1))] ++
      [(4 * slices + 3, (sin 0 * radius, cos 0 * radius, -1))] =
      placed sin cos radius (2 * pi / slices) (solidWrites slices cylinderExtra) := by
    simp [placed, solidWrites, cylinderExtra, place, height, List.map_flatMap]
  have hindices : (List.range slices).foldlM (cylinderSlice slices) (List.replicate (12 * slices) 0, 2 * slices + 2) =
      some (vertices (solidTriangles slices slices (cylinderNext slices) []), 2 * slices + 2 + 2 * slices) := by
    have hrun := foldlM_writes (fun i T => (vertices T, 2 * slices + 2 + 2 * i)) (cylinderSlice_eq slices)
      (List.replicate (4 * slices) (0, 0, 0)) slices
    have hall := writes_triangles slices slices (cylinderNext slices) []
    rw [triangleWrites, List.zipIdx_nil, List.map_nil, List.append_nil, List.length_nil, Nat.add_zero] at hall
    rw [show 12 * slices = 3 * (4 * slices) by ring, vertices_replicate]
    exact hrun.trans (congrArg (Option.map _) hall)
  simp only [Option.bind_eq_bind]
  rw [hfirst, bind_writes fun T => put3_writes T (slices + 1) (0, 0, -1), bind_writes hloop,
    bind_writes fun T => put3_writes T (4 * slices + 2) (sin 0 * radius, cos 0 * radius, 1), hlast,
    bind_writes fun T => put3_writes T (4 * slices + 3) (sin 0 * radius, cos 0 * radius, -1), hwrites,
    hindices]
  have hall : writes _ (placed sin cos radius (2 * pi / slices) _) = _ := writes_solid slices cylinderExtra
  rw [show 4 * slices + 4 = 4 * slices + 2 + cylinderExtra.length from rfl, hall]
  rfl

omit [LinearOrder K] in
theorem wedgeSide_eq {slices : Nat} (hslices : (slices : K) ≠ 0) (angle : K) (T : List (Triangle K)) (i : Nat) :
    wedgeSide sin cos radius angle slices (vertices T) i =
      (writes T (placed sin cos radius (angle / slices)
        [(4 * (slices + 1 + i) + 2, center true), (4 * (slices + 1 + i) + 3, center false),
          (4 * (slices + 1 + i) + 4, rim (i * slices) true), (4 * (slices + 1 + i) + 5, rim (i * slices) false)])).map
        vertices := by
  rw [← foldlM_put3, wedgeSide]
  have h1 : 3 * (4 * (slices + 1 + i) + 2) + 3 = 3 * (4 * (slices + 1 + i) + 3) := by ring
  have h2 : 3 * (4 * (slices + 1 + i) + 2) + 6 = 3 * (4 * (slices + 1 + i) + 4) := by ring
  have h3 : 3 * (4 * (slices + 1 + i) + 2) + 9 = 3 * (4 * (slices + 1 + i) + 5) := by ring
  have hangle : ((i * slices : Nat) : K) * (angle / slices) = i * angle := by
    rw [Nat.cast_mul, mul_assoc, mul_div_cancel₀ _ hslices]
  simp only [h1, h2, h3, placed, List.map_cons, List.map_nil, List.foldlM_cons, List.foldlM_nil, place, height,
    hangle, if_true, Bool.false_eq_true, if_false, bind_pure]

theorem wedgeSideIndices_eq (slices : Nat) (T : List (Triangle Nat)) (i : Nat) :
    wedgeSideIndices slices (vertices T) i =
      (writes T [(4 * slices + 2 * i, (4 * (slices + 1) + 2 + i * 4, 4 * (slices + 1) + 2 + i * 4 + 2,
          4 * (slices + 1) + 2 + i * 4 + 1)),
        (4 * slices + 2 * i + 1, (4 * (slices + 1) + 2 + i * 4 + 1, 4 * (slices + 1) + 2 + i * 4 + 2,
          4 * (slices + 1) + 2 + i * 4 + 3))]).map vertices := by
  rw [← foldlM_put3, wedgeSideIndices]
  have h1 : 3 * (4 * slices) + 6 * i = 3 * (4 * slices + 2 * i) := by ring
  have h2 : 3 * (4 * slices + 2 * i) + 3 = 3 * (4 * slices + 2 * i + 1) := by ring
  simp only [h1, h2, List.foldlM_cons, List.foldlM_nil, bind_pure]

theorem wedge_buffers {angle : K} {subdivisions : Nat} (hslices : (sliceCount subdivisions : K) ≠ 0)
    (orientation : Orientation) (hradius : 0 ≤ radius) (hlow : 0 ≤ angle) (hhigh : angle ≤ 2 * pi) :
    tessellateWedgeBuffer sin cos pi orientation radius subdivisions angle =
      orientAndScale orientation radius (12 * sliceCount subdivisions + 12)
        (vertices (solidTriangles (sliceCount subdivisions) (sliceCount subdivisions + 1) (fun i => i + 2)
          (wedgeSides (sliceCount subdivisions))))
        (4 * (sliceCount subdivisions + 1) + 2 + 8)
        (vertices (solidVertices sin cos radius (angle / sliceCount subdivisions) (sliceCount subdivisions + 1)
          (wedgeExtra (sliceCount subdivisions)))) := by
  rw [tessellateWedgeBuffer, if_neg (not_lt.2 hradius), if_neg (not_or.2 ⟨not_lt.2 hlow, not_lt.2 hhigh⟩)]
  generalize sliceCount subdivisions = slices at hslices ⊢
  dsimp only
  have hloop : ∀ T, (List.range (slices + 1)).foldlM (wedgeRim sin cos radius (angle / slices) slices) (vertices T) =
      (writes T ((List.range (slices + 1)).flatMap fun i =>
        placed sin cos radius (angle / slices) (rimWrites (slices + 1) i))).map vertices :=
    fun T => foldlM_writes (fun _ => vertices) (fun T i => wedgeRim_eq slices T i) T (slices + 1)
  have hsides : ∀ T, (List.range 2).foldlM (wedgeSide sin cos radius angle slices) (vertices T) = _ :=
    fun T => foldlM_writes (fun _ => vertices) (fun T i => wedgeSide_eq hslices angle T i) T 2
  have hfirst : put3 (List.replicate (3 * (4 * (slices + 1) + 2 + 8)) (0 : K)) 0 (0, 0, 1) =
      (writes (List.replicate (4 * (slices + 1) + 2 + 8) (0, 0, 0)) [(0, (0, 0, 1))]).map vertices := by
    rw [vertices_replicate]
    exact put3_writes _ 0 _
  have hwrites : [(0, ((0, 0, 1) : K × K × K))] ++ [(slices + 2, (0, 0, -1))] ++
      (List.range (slices + 1)).flatMap (fun i => placed sin cos radius (angle / slices)
        (rimWrites (slices + 1) i)) ++
      (List.range 2).flatMap (fun i => placed sin cos radius (angle / slices)
        [(4 * (slices + 1 + i) + 2, center true), (4 * (slices + 1 + i) + 3, center false),
          (4 * (slices + 1 + i) + 4, rim (i * slices) true), (4 * (slices + 1 + i) + 5, rim (i * slices) false)]) =
      placed sin cos radius (angle / slices) (solidWrites (slices + 1) (wedgeExtra slices)) := by
    simp [placed, solidWrites, wedgeExtra, List.range_succ, place, height, List.map_flatMap, Nat.mul_add]
  have hindices : (List.range slices).foldlM (wedgeSlice slices)
      (vertices (List.replicate (4 * slices + 4) (0, 0, 0)), 2 * (slices + 1) + 2) =
      (writes (List.replicate (4 * slices + 4) (0, 0, 0)) ((List.range slices).flatMap
        (sliceWrites slices (slices + 1) fun i => i + 2))).map
          fun T => (vertices T, 2 * (slices + 1) + 2 + 2 * slices) :=
    foldlM_writes (fun i T => (vertices T, 2 * (slices + 1) + 2 + 2 * i)) (wedgeSlice_eq slices) _ slices
  have hsideIndices : ∀ T, (List.range 2).foldlM (wedgeSideIndices slices) (vertices T) = _ :=
    fun T => foldlM_writes (fun _ => vertices) (wedgeSideIndices_eq slices) T 2
  have hbuffer : List.replicate (12 * slices + 12) 0 = vertices (List.replicate (4 * slices + 4) (0, 0, 0)) := by
    rw [show 12 * slices + 12 = 3 * (4 * slices + 4) by ring, vertices_replicate]
  have hpair : ∀ (x : Option (List (Triangle Nat))) (g : List Nat → Option (IndexedTriangleBuffer K)),
      (x.map fun T => (vertices T, 2 * (slices + 1) + 2 + 2 * slices)).bind
        (fun p => ((List.range 2).foldlM (wedgeSideIndices slices) p.1).bind g) =
      (x.map vertices).bind fun b => ((List.range 2).foldlM (wedgeSideIndices slices) b).bind g := by
    rintro (- | T) g <;> rfl
  have htriangles : (List.range slices).flatMap (sliceWrites slices (slices + 1) fun i => i + 2) ++
      (List.range 2).flatMap (fun i =>
        [(4 * slices + 2 * i, (4 * (slices + 1) + 2 + i * 4, 4 * (slices + 1) + 2 + i * 4 + 2,
          4 * (slices + 1) + 2 + i * 4 + 1)),
        (4 * slices + 2 * i + 1, (4 * (slices + 1) + 2 + i * 4 + 1, 4 * (slices + 1) + 2 + i * 4 + 2,
          4 * (slices + 1) + 2 + i * 4 + 3))]) =
      triangleWrites slices (slices + 1) (fun i => i + 2) (wedgeSides slices) := by
    simp [triangleWrites, wedgeSides, List.range_succ]
  simp only [Option.bind_eq_bind]
  rw [hfirst, bind_writes fun T => put3_writes T (slices + 2) (0, 0, -1), bind_writes hloop, bind_writes hsides,
    hwrites]
  have hall : writes _ (placed sin cos radius (angle / slices) _) = _ := writes_solid (slices + 1) (wedgeExtra slices)
  rw [show 4 * (slices + 1) + 2 + 8 = 4 * (slices + 1) + 2 + (wedgeExtra slices).length from rfl, hall, hbuffer,
    hindices, Option.map_some, Option.bind_some, hpair, bind_writes hsideIndices, htriangles]
  have hallTriangles : writes _ (triangleWrites slices (slices + 1) _ _) = _ :=
    writes_triangles slices (slices + 1) (fun i => i + 2) (wedgeSides slices)
  rw [show 4 * slices + 4 = 4 * slices + (wedgeSides slices).length from rfl, hallTriangles]
  rfl

end

end WorldWind.GeometryBuilder
