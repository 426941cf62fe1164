import WorldWind.GeometryBuilder.SolidBuffers
/-!
# The surfaces of cylinders and wedges

The triangles of a solid are two caps, the core between the rims, and two sides of a
wedge. The top turns one way and the core the other: the edge of the top between two
slices is in both in the same direction, so neither solid is consistently oriented
(`solids_wrong`). The coordinates of the rims have the radius twice, so they are
right for radius 1 only.
-/

namespace WorldWind.GeometryBuilder

open Geom.Exact Lib.JavaArray Lib.Triples Lib.TriangleStrip Lib.TrianglePrimitives Lib.TriangleMesh SolidPoint

/-! ## The end of the methods -/

section

variable {K : Type} [Field K] [LinearOrder K] {radius : K}

theorem reverseWinding_eq (l : List (Triangle Nat)) (t : Triangle Nat) (r : List (Triangle Nat)) :
    reverseWinding (vertices (l ++ t :: r)) (3 * l.length) = some (vertices (l ++ turn t :: r)) := by
  rw [← length_vertices, vertices_append, vertices_cons, vertices_append, vertices_cons]
  simp [reverseWinding, write, Lib.TriangleMesh.turn]

def multiplied (radius : K) (t : K × K × K) : K × K × K := (t.1 * radius, t.2.1 * radius, t.2.2 * radius)

omit [LinearOrder K] in
theorem mul3AndSet_eq (l : List (K × K × K)) (t : K × K × K) (r : List (K × K × K)) :
    mul3AndSet (vertices (l ++ t :: r)) (3 * l.length) radius = some (vertices (l ++ multiplied radius t :: r)) := by
  rw [← length_vertices, vertices_append, vertices_cons, vertices_append, vertices_cons]
  simp [mul3AndSet, write, multiplied]

def oriented {α : Type} (orientation : Orientation) (T : List (Triangle α)) : List (Triangle α) :=
  match orientation with
  | .inside => T.map turn
  | .outside => T

theorem orientAndScale_eq (orientation : Orientation) (I : List (Triangle Nat)) (V : List (K × K × K)) :
    orientAndScale orientation radius (3 * I.length) (vertices I) V.length (vertices V) =
      some ⟨3 * I.length, vertices (oriented orientation I), V.length, vertices (V.map (multiplied radius))⟩ := by
  have hscale : (List.range V.length).foldlM (fun buffer vertex => mul3AndSet buffer (3 * vertex) radius)
      (vertices V) =
      some (vertices (V.map (multiplied radius))) := foldlM_inPlace mul3AndSet_eq V
  have hone : radius = 1 → V.map (multiplied radius) = V := by
    rintro rfl
    have hid : multiplied (1 : K) = id := by
      funext t
      rw [multiplied, mul_one, mul_one, mul_one]
      rfl
    rw [hid, List.map_id]
  have hreverse : (List.range I.length).foldlM (fun buffer m => reverseWinding buffer (3 * m)) (vertices I) =
      some (vertices (I.map turn)) := foldlM_inPlace reverseWinding_eq I
  have hturns : (3 * I.length + 2) / 3 = I.length := by omega
  unfold orientAndScale
  by_cases h : radius = 1
  · rw [hone h]
    cases orientation with
    | inside =>
      simp only [hturns, hreverse, Option.bind_eq_bind, Option.bind_some, if_neg (not_not.2 h)]
      rfl
    | outside =>
      simp only [Option.bind_eq_bind, Option.bind_some, if_neg (not_not.2 h)]
      rfl
  · cases orientation with
    | inside =>
      simp only [hturns, hreverse, Option.bind_eq_bind, Option.bind_some, if_pos (show radius ≠ 1 from h), hscale]
      rfl
    | outside =>
      simp only [Option.bind_eq_bind, Option.bind_some, if_pos (show radius ≠ 1 from h), hscale]
      rfl

end

/-! ## The triangles by their points -/

/-- A cap: each slice from its center; `next` is the slice behind. -/
def capTriangles (slices : Nat) (next : Nat → Nat) (top : Bool) : List (Triangle SolidPoint) :=
  (List.range slices).map fun i => (center top, rim (next i) top, rim i top)

def coreTriangles (slices : Nat) (next : Nat → Nat) : List (Triangle SolidPoint) :=
  (List.range slices).flatMap fun i =>
    [(rim i true, rim i false, rim (next i) true), (rim (next i) true, rim i false, rim (next i) false)]

/-- The side of a wedge at a slice. -/
def sideTriangles (i : Nat) : List (Triangle SolidPoint) :=
  [(center true, rim i true, center false), (center false, rim i true, rim i false)]

def cylinderMesh (slices : Nat) : List (Triangle SolidPoint) :=
  capTriangles slices (fun i => (i + 1) % slices) true ++ capTriangles slices (fun i => (i + 1) % slices) false ++
    coreTriangles slices fun i => (i + 1) % slices

def wedgeMesh (slices : Nat) : List (Triangle SolidPoint) :=
  capTriangles slices (fun i => i + 1) true ++ capTriangles slices (fun i => i + 1) false ++
    (coreTriangles slices fun i => i + 1) ++ (sideTriangles 0 ++ sideTriangles slices)

/-- The triangles of the index buffer in their order. -/
theorem solidTriangles_eq (slices n : Nat) (next : Nat → Nat) (extra : List (Triangle Nat)) :
    solidTriangles slices n next extra = (List.range slices).map (fun i => (0, next i, i + 1)) ++
      (List.range slices).map (fun i => (n + 1, n + 1 + next i, n + 1 + i + 1)) ++
      (List.range slices).flatMap (fun i => [(2 * n + 2 + 2 * i, 2 * n + 2 + 2 * i + 1, 2 * n + 2 + 2 * i + 2),
        (2 * n + 2 + 2 * i + 2, 2 * n + 2 + 2 * i + 1, 2 * n + 2 + 2 * i + 3)]) ++ extra := by
  have htop : ∀ i < slices, solidTriangle slices n next extra i = (0, next i, i + 1) := fun i hi => by
    rw [solidTriangle, if_pos (by omega), baseTriangle, if_pos hi]
  have hbottom : ∀ i < slices,
      solidTriangle slices n next extra (slices + i) = (n + 1, n + 1 + next i, n + 1 + i + 1) := fun i hi => by
    rw [solidTriangle, if_pos (by omega), baseTriangle, if_neg (by omega), if_pos (by omega), Nat.add_sub_cancel_left]
  have hcore : ∀ m < 2 * slices, solidTriangle slices n next extra (slices + (slices + m)) =
      if m % 2 = 0 then (2 * n + 2 + 2 * (m / 2), 2 * n + 2 + 2 * (m / 2) + 1, 2 * n + 2 + 2 * (m / 2) + 2)
      else (2 * n + 2 + 2 * (m / 2) + 2, 2 * n + 2 + 2 * (m / 2) + 1, 2 * n + 2 + 2 * (m / 2) + 3) := fun m hm => by
    have hsub : slices + (slices + m) - 2 * slices = m := by omega
    rw [solidTriangle, if_pos (by omega), baseTriangle, if_neg (by omega), if_neg (by omega), hsub]
  have hextra : (List.range extra.length).map
      (fun k => solidTriangle slices n next extra (slices + (slices + (2 * slices + k)))) = extra := by
    refine Eq.trans (List.map_congr_left fun k _ => ?_) (range_getD extra (0, 0, 0))
    have hsub : slices + (slices + (2 * slices + k)) - 4 * slices = k := by omega
    rw [solidTriangle, if_neg (by omega), hsub]
  have hlength : 4 * slices + extra.length = slices + (slices + (2 * slices + extra.length)) := by omega
  rw [solidTriangles, hlength, List.range_add, List.range_add, List.range_add]
  simp only [List.map_append, List.map_map, Function.comp_def]
  rw [hextra, List.map_congr_left fun i hi => htop i (List.mem_range.1 hi),
    List.map_congr_left fun i hi => hbottom i (List.mem_range.1 hi),
    List.map_congr_left fun m hm => hcore m (List.mem_range.1 hm), range_pairs]
  have hpairs : ∀ j, [if 2 * j % 2 = 0 then (2 * n + 2 + 2 * (2 * j / 2), 2 * n + 2 + 2 * (2 * j / 2) + 1,
      2 * n + 2 + 2 * (2 * j / 2) + 2) else (2 * n + 2 + 2 * (2 * j / 2) + 2, 2 * n + 2 + 2 * (2 * j / 2) + 1,
      2 * n + 2 + 2 * (2 * j / 2) + 3), if (2 * j + 1) % 2 = 0 then (2 * n + 2 + 2 * ((2 * j + 1) / 2),
      2 * n + 2 + 2 * ((2 * j + 1) / 2) + 1, 2 * n + 2 + 2 * ((2 * j + 1) / 2) + 2) else
      (2 * n + 2 + 2 * ((2 * j + 1) / 2) + 2, 2 * n + 2 + 2 * ((2 * j + 1) / 2) + 1,
      2 * n + 2 + 2 * ((2 * j + 1) / 2) + 3)] =
      [(2 * n + 2 + 2 * j, 2 * n + 2 + 2 * j + 1, 2 * n + 2 + 2 * j + 2),
        (2 * n + 2 + 2 * j + 2, 2 * n + 2 + 2 * j + 1, 2 * n + 2 + 2 * j + 3)] := fun j => by
    rw [if_pos (by omega), if_neg (by omega), show 2 * j / 2 = j by omega, show (2 * j + 1) / 2 = j by omega]
  rw [List.flatMap_congr fun j _ => hpairs j]
  simp only [List.append_assoc]

section

variable {slices n : Nat} {extra : List SolidPoint}

theorem solidVertex_upper {i : Nat} (hi : i < n) : solidVertex n extra (i + 1) = rim i true := by
  rw [solidVertex, if_pos (by omega), baseVertex_upper hi]

theorem solidVertex_lower {i : Nat} (hi : i < n) : solidVertex n extra (n + 2 + i) = rim i false := by
  rw [solidVertex, if_pos (by omega), baseVertex_lower hi]

theorem solidVertex_coreUpper {i : Nat} (hi : i < n) : solidVertex n extra (2 * n + 2 + 2 * i) = rim i true := by
  rw [solidVertex, if_pos (by omega), baseVertex_coreUpper]

theorem solidVertex_coreLower {i : Nat} (hi : i < n) : solidVertex n extra (2 * n + 3 + 2 * i) = rim i false := by
  rw [solidVertex, if_pos (by omega), baseVertex_coreLower]

theorem solidVertex_extra (k : Nat) : solidVertex n extra (4 * n + 2 + k) = extra.getD k (center true) := by
  rw [solidVertex, if_neg (by omega), Nat.add_sub_cancel_left]

theorem solidVertex_centers (n : Nat) (extra : List SolidPoint) : solidVertex n extra 0 = center true ∧
    solidVertex n extra (n + 1) = center false := by
  constructor
  · rw [solidVertex, if_pos (by omega), baseVertex, if_pos rfl]
  · rw [solidVertex, if_pos (by omega), baseVertex, if_neg (by omega), if_neg (by omega), if_pos rfl]

/-- The points of the triangles, where the vertices behind a slice are those of slice `p i`. -/
theorem points_solidTriangles {next p : Nat → Nat} {sides : List (Triangle Nat)} (hn : slices ≤ n)
    (hnext : ∀ i < slices, next i = p i + 1 ∧ p i < n)
    (hcore : ∀ i < slices, solidVertex n extra (2 * n + 2 + 2 * i + 2) = rim (p i) true ∧
      solidVertex n extra (2 * n + 2 + 2 * i + 3) = rim (p i) false) :
    (solidTriangles slices n next sides).map (Triangle.map (solidVertex n extra)) =
      capTriangles slices p true ++ capTriangles slices p false ++ coreTriangles slices p ++
        sides.map (Triangle.map (solidVertex n extra)) := by
  obtain ⟨htop, hbottom⟩ := solidVertex_centers n extra
  rw [solidTriangles_eq, List.map_append, List.map_append, List.map_append, List.map_map, List.map_map,
    List.map_flatMap]
  refine congrArg₂ _ (congrArg₂ _ (congrArg₂ _ ?_ ?_) ?_) rfl
  · refine List.map_congr_left fun i hi => ?_
    obtain ⟨h1, h2⟩ := hnext i (List.mem_range.1 hi)
    rw [Function.comp_apply, Triangle.map, htop, h1, solidVertex_upper h2,
      solidVertex_upper ((List.mem_range.1 hi).trans_le hn)]
  · refine List.map_congr_left fun i hi => ?_
    obtain ⟨h1, h2⟩ := hnext i (List.mem_range.1 hi)
    have hlower : n + 1 + next i = n + 2 + p i := by omega
    have hhere : n + 1 + i + 1 = n + 2 + i := by omega
    rw [Function.comp_apply, Triangle.map]
    simp only [hbottom, hlower, hhere, solidVertex_lower h2, solidVertex_lower ((List.mem_range.1 hi).trans_le hn)]
  · refine List.flatMap_congr fun i hi => ?_
    obtain ⟨h1, h2⟩ := hcore i (List.mem_range.1 hi)
    have hi := (List.mem_range.1 hi).trans_le hn
    have hlower : 2 * n + 2 + 2 * i + 1 = 2 * n + 3 + 2 * i := by omega
    simp only [List.map_cons, List.map_nil, Triangle.map, h1, h2, hlower, solidVertex_coreUpper hi,
      solidVertex_coreLower hi]

end

theorem cylinder_points {slices : Nat} (hslices : 2 ≤ slices) :
    (solidTriangles slices slices (cylinderNext slices) []).map (Triangle.map (solidVertex slices cylinderExtra)) =
      cylinderMesh slices := by
  have hmod : ∀ i < slices, (i + 1) % slices = if i < slices - 1 then i + 1 else 0 := fun i hi => by
    split
    · exact Nat.mod_eq_of_lt (by omega)
    · rw [show i + 1 = slices by omega, Nat.mod_self]
  rw [points_solidTriangles le_rfl (p := fun i => (i + 1) % slices), List.map_nil, List.append_nil, cylinderMesh]
  · intro i hi
    rw [hmod i hi, cylinderNext]
    split
    · exact ⟨rfl, by omega⟩
    · exact ⟨rfl, by omega⟩
  · intro i hi
    rw [hmod i hi]
    split
    · rw [show 2 * slices + 2 + 2 * i + 2 = 2 * slices + 2 + 2 * (i + 1) by omega,
        show 2 * slices + 2 + 2 * i + 3 = 2 * slices + 3 + 2 * (i + 1) by omega]
      exact ⟨solidVertex_coreUpper (by omega), solidVertex_coreLower (by omega)⟩
    · rw [show 2 * slices + 2 + 2 * i + 2 = 4 * slices + 2 + 0 by omega,
        show 2 * slices + 2 + 2 * i + 3 = 4 * slices + 2 + 1 by omega]
      exact ⟨solidVertex_extra 0, solidVertex_extra 1⟩

theorem wedge_points (slices : Nat) :
    (solidTriangles slices (slices + 1) (fun i => i + 2) (wedgeSides slices)).map
      (Triangle.map (solidVertex (slices + 1) (wedgeExtra slices))) = wedgeMesh slices := by
  rw [points_solidTriangles (Nat.le_succ slices) (p := fun i => i + 1), wedgeMesh]
  · refine congrArg _ ?_
    have hside : ∀ k, solidVertex (slices + 1) (wedgeExtra slices) (4 * (slices + 1) + 2 + k) =
        (wedgeExtra slices).getD k (center true) := solidVertex_extra
    have hsides : (wedgeSides slices).map (Triangle.map (solidVertex (slices + 1) (wedgeExtra slices))) =
        [0, 4].flatMap fun k =>
          [((wedgeExtra slices).getD k (center true), (wedgeExtra slices).getD (k + 2) (center true),
            (wedgeExtra slices).getD (k + 1) (center true)),
          ((wedgeExtra slices).getD (k + 1) (center true), (wedgeExtra slices).getD (k + 2) (center true),
            (wedgeExtra slices).getD (k + 3) (center true))] := by
      simp only [← hside]
      rfl
    rw [hsides]
    simp [wedgeExtra, sideTriangles, List.range_succ]
  · intro i hi
    exact ⟨rfl, by omega⟩
  · intro i hi
    have hlower : 2 * (slices + 1) + 2 + 2 * i + 3 = 2 * (slices + 1) + 3 + 2 * (i + 1) := by omega
    rw [hlower]
    exact ⟨solidVertex_coreUpper (Nat.succ_lt_succ hi), solidVertex_coreLower (Nat.succ_lt_succ hi)⟩

/-- The numbers of the triangles are those of vertices. -/
theorem solidTriangles_lt {slices n N : Nat} {next : Nat → Nat} {sides : List (Triangle Nat)}
    (hN : 2 * n + 2 * slices + 3 < N) (hnext : ∀ i < slices, next i ≤ n)
    (hsides : ∀ t ∈ sides, t.1 < N ∧ t.2.1 < N ∧ t.2.2 < N) :
    ∀ t ∈ solidTriangles slices n next sides, t.1 < N ∧ t.2.1 < N ∧ t.2.2 < N := by
  intro t ht
  rw [solidTriangles_eq, List.mem_append, List.mem_append, List.mem_append, List.mem_map, List.mem_map,
    List.mem_flatMap] at ht
  rcases ht with ((⟨i, hi, rfl⟩ | ⟨i, hi, rfl⟩) | ⟨i, hi, ht⟩) | ht
  · have := hnext i (List.mem_range.1 hi)
    have := List.mem_range.1 hi
    simp only
    omega
  · have := hnext i (List.mem_range.1 hi)
    have := List.mem_range.1 hi
    simp only
    omega
  · have := List.mem_range.1 hi
    simp only [List.mem_cons, List.not_mem_nil, or_false] at ht
    rcases ht with rfl | rfl
    · simp only
      omega
    · simp only
      omega
  · exact hsides t ht

/-! ## Surfaces -/

section

variable {K : Type} [Field K] [DecidableEq K]

/-- The coordinates of a vertex. -/
def position (vertices : List K) (v : Nat) : Vec4 K := (vertexAt vertices v).getD zero

/-- The triangles of a buffer by the positions of their vertices, where degenerate ones are dropped. -/
def surface (itb : IndexedTriangleBuffer K) : List (Triangle (Vec4 K)) :=
  (itb.triangles.map (Triangle.map (position itb.vertices))).filter fun t => ¬t.Degenerate

def ofTriple (t : K × K × K) : Vec4 K := ⟨t.1, t.2.1, t.2.2⟩

omit [Field K] [DecidableEq K] in
theorem vertexAt_vertices (V : List (K × K × K)) (v : Nat) : vertexAt (vertices V) v = V[v]?.map ofTriple := by
  by_cases h : v < V.length
  · obtain ⟨l, t, r, rfl, rfl⟩ := exists_split h
    have hl : 3 * l.length = (vertices l).length := (length_vertices l).symm
    rw [vertexAt, hl, vertices_append, vertices_cons]
    simp [ofTriple]
  · rw [List.getElem?_eq_none (by omega), vertexAt, List.getElem?_eq_none (by rw [length_vertices]; omega)]
    rfl

/-- The position of a point in a solid of a radius. -/
def solidPosition (sin cos : K → K) (radius da : K) (p : SolidPoint) : Vec4 K :=
  (ofTriple (place sin cos radius da p)).multiply3 radius

/-- What a method gives for the triangles `I` of `N` vertices. -/
def solidBuffer (sin cos : K → K) (orientation : Orientation) (radius da : K) (I : List (Triangle Nat)) (N : Nat)
    (point : Nat → SolidPoint) : IndexedTriangleBuffer K :=
  ⟨3 * I.length, vertices (oriented orientation I), N,
    vertices (((List.range N).map fun v => place sin cos radius da (point v)).map (multiplied radius))⟩

variable {sin cos : K → K} {radius da : K} {I : List (Triangle Nat)} {N : Nat} {point : Nat → SolidPoint}

omit [DecidableEq K] in
theorem vertexAt_solidBuffer (orientation : Orientation) {v : Nat} (hv : v < N) :
    vertexAt (solidBuffer sin cos orientation radius da I N point).vertices v =
      some (solidPosition sin cos radius da (point v)) := by
  rw [solidBuffer, vertexAt_vertices, List.getElem?_map, List.getElem?_map, List.getElem?_range hv]
  rfl

theorem surface_solidBuffer (orientation : Orientation)
    (hI : ∀ t ∈ I, t.1 < N ∧ t.2.1 < N ∧ t.2.2 < N) :
    surface (solidBuffer sin cos orientation radius da I N point) =
      (oriented orientation ((I.map (Triangle.map point)).map
        (Triangle.map (solidPosition sin cos radius da)))).filter fun t => ¬t.Degenerate := by
  have hposition : ∀ v < N, position (solidBuffer sin cos orientation radius da I N point).vertices v =
      solidPosition sin cos radius da (point v) := fun v hv => by
    rw [position, vertexAt_solidBuffer orientation hv, Option.getD_some]
  have hmap : I.map (Triangle.map (position (solidBuffer sin cos orientation radius da I N point).vertices)) =
      (I.map (Triangle.map point)).map (Triangle.map (solidPosition sin cos radius da)) := by
    rw [List.map_map]
    refine List.map_congr_left fun t ht => ?_
    obtain ⟨h1, h2, h3⟩ := hI t ht
    rw [Triangle.map, hposition _ h1, hposition _ h2, hposition _ h3]
    rfl
  have htriangles : (solidBuffer sin cos orientation radius da I N point).triangles = oriented orientation I := by
    have hlength : 3 * I.length = (vertices (oriented orientation I)).length := by
      rw [length_vertices]
      cases orientation with
      | inside => rw [oriented, List.length_map]
      | outside => rfl
    rw [IndexedTriangleArray.triangles, solidBuffer]
    simp only [hlength, List.take_length, triples_vertices]
  rw [surface, htriangles, ← hmap]
  cases orientation with
  | inside =>
    rw [oriented, oriented, List.map_map, List.map_map]
    rfl
  | outside => rfl

end

/-- The same mesh turned is as closed. -/
theorem closed_oriented_iff {α : Type} (orientation : Orientation) (T : List (Triangle α)) :
    Closed (oriented orientation T) ↔ Closed T := by
  cases orientation with
  | inside => exact closed_turn_iff
  | outside => exact Iff.rfl

/-- A surface is closed where the mesh of its points is, if different points have different positions. -/
theorem closed_surface_iff {f : SolidPoint → Vec4 ℝ} {M : List (Triangle SolidPoint)}
    (hinj : Set.InjOn f {v | ∃ t ∈ M, v ∈ corners t}) (hproper : ∀ t ∈ M, Proper t) (orientation : Orientation) :
    Closed ((oriented orientation (M.map (Triangle.map f))).filter fun t => ¬t.Degenerate) ↔ Closed M := by
  have hkept : (oriented orientation (M.map (Triangle.map f))).filter (fun t => ¬t.Degenerate) =
      oriented orientation (M.map (Triangle.map f)) := by
    rw [List.filter_eq_self]
    intro t ht
    have hnot : ∀ u ∈ M, ¬(Triangle.map f u).Degenerate := by
      intro u hu hdegenerate
      obtain ⟨h1, h2, h3⟩ := hproper u hu
      have ha : u.1 ∈ {v | ∃ t ∈ M, v ∈ corners t} := ⟨u, hu, by simp [corners]⟩
      have hb : u.2.1 ∈ {v | ∃ t ∈ M, v ∈ corners t} := ⟨u, hu, by simp [corners]⟩
      have hc : u.2.2 ∈ {v | ∃ t ∈ M, v ∈ corners t} := ⟨u, hu, by simp [corners]⟩
      rcases hdegenerate with heq | heq | heq
      · exact h1 (hinj ha hb heq)
      · exact h3 (hinj hc ha heq.symm)
      · exact h2 (hinj hb hc heq)
    refine decide_eq_true fun hdegenerate => ?_
    cases orientation with
    | inside =>
      rw [oriented, List.map_map] at ht
      obtain ⟨u, hu, rfl⟩ := List.mem_map.1 ht
      refine hnot u hu ?_
      rcases hdegenerate with heq | heq | heq
      · exact .inr (.inr heq.symm)
      · exact .inr (.inl heq.symm)
      · exact .inl heq.symm
    | outside =>
      obtain ⟨u, hu, rfl⟩ := List.mem_map.1 ht
      exact hnot u hu hdegenerate
  rw [hkept, closed_oriented_iff, closed_map_iff hinj]

/-! ## Positions of different points -/

theorem sin_cos_inj {a b : ℝ} (ha : 0 ≤ a) (ha' : a < 2 * Real.pi) (hb : 0 ≤ b) (hb' : b < 2 * Real.pi)
    (hsin : Real.sin a = Real.sin b) (hcos : Real.cos a = Real.cos b) : a = b := by
  have hangle : (a : Real.Angle) = b := Real.Angle.cos_sin_inj hcos hsin
  obtain ⟨k, hk⟩ := Real.Angle.angle_eq_iff_two_pi_dvd_sub.1 hangle
  have hpi := Real.pi_pos
  have hlow : (-1 : ℝ) < k := by
    by_contra hle
    nlinarith [not_lt.1 hle]
  have hhigh : (k : ℝ) < 1 := by
    by_contra hle
    nlinarith [not_lt.1 hle]
  have hzero : k = 0 := by
    have h1 : -1 < k := by exact_mod_cast hlow
    have h2 : k < 1 := by exact_mod_cast hhigh
    omega
  rw [hzero, Int.cast_zero, mul_zero] at hk
  linarith

/-- The slice of a point; a center counts to the first. -/
def SolidPoint.slice : SolidPoint → Nat
  | center _ => 0
  | rim i _ => i

theorem solidPosition_injOn {radius da : ℝ} (hradius : 0 < radius) (hda : 0 < da) {m : Nat}
    (hm : m * da < 2 * Real.pi) : Set.InjOn (solidPosition Real.sin Real.cos radius da) {p | p.slice ≤ m} := by
  have hheight : ∀ top top' : Bool, height top * radius = height top' * radius → top = top' := by
    intro top top' heq
    have h := mul_right_cancel₀ hradius.ne' heq
    revert h
    cases top <;> cases top' <;> simp [height] <;> norm_num
  have hcancel : ∀ x y : ℝ, x * radius * radius = y * radius * radius → x = y := fun x y heq =>
    mul_right_cancel₀ hradius.ne' (mul_right_cancel₀ hradius.ne' heq)
  -- no rim point has the coordinates of a center
  have hcenter : ∀ a : ℝ, Real.sin a * radius * radius = 0 → Real.cos a * radius * radius = 0 → False := by
    intro a hsin hcos
    have h1 := hcancel _ 0 (by rw [hsin]; ring)
    have h2 := hcancel _ 0 (by rw [hcos]; ring)
    have := Real.sin_sq_add_cos_sq a
    rw [h1, h2] at this
    norm_num at this
  have hbound : ∀ i ≤ m, 0 ≤ (i : ℝ) * da ∧ (i : ℝ) * da < 2 * Real.pi := by
    intro i hi
    have hle : (i : ℝ) ≤ m := by exact_mod_cast hi
    exact ⟨by positivity, (mul_le_mul_of_nonneg_right hle hda.le).trans_lt hm⟩
  intro p hp q hq heq
  simp only [solidPosition, ofTriple, Vec4.multiply3, Vec4.mk.injEq] at heq
  obtain ⟨hx, hy, hz⟩ := heq
  cases p with
  | center top =>
    cases q with
    | center top' => rw [hheight _ _ hz]
    | rim j top' =>
      simp only [place, zero_mul] at hx hy
      exact (hcenter _ hx.symm hy.symm).elim
  | rim i top =>
    cases q with
    | center top' =>
      simp only [place, zero_mul] at hx hy
      exact (hcenter _ hx hy).elim
    | rim j top' =>
      obtain ⟨hi0, hi⟩ := hbound i hp
      obtain ⟨hj0, hj⟩ := hbound j hq
      have hangle := sin_cos_inj hi0 hi hj0 hj (hcancel _ _ hx) (hcancel _ _ hy)
      have hij : (i : ℝ) = j := mul_right_cancel₀ hda.ne' hangle
      rw [hheight _ _ hz, Nat.cast_injective hij]

/-! ## The two meshes -/

/-- Where the first slice of a cap's top and of the core are in a mesh, the edge between them has
one direction in both. -/
theorem not_closed_of_first {M : List (Triangle SolidPoint)} {j : Nat}
    (htop : (center true, rim j true, rim 0 true) ∈ M) (hcore : (rim 0 true, rim 0 false, rim j true) ∈ M) :
    ¬Closed M := by
  intro h
  have hsame := h.eq_of_side htop hcore (d := (rim j true, rim 0 true)) (mem_sides.2 (.inr (.inl rfl)))
    (mem_sides.2 (.inr (.inr rfl)))
  cases hsame

theorem cap_mem {slices i : Nat} (hi : i < slices) (next : Nat → Nat) (top : Bool) :
    (center top, rim (next i) top, rim i top) ∈ capTriangles slices next top :=
  List.mem_map.2 ⟨i, List.mem_range.2 hi, rfl⟩

theorem core_mem {slices i : Nat} (hi : i < slices) (next : Nat → Nat) :
    (rim i true, rim i false, rim (next i) true) ∈ coreTriangles slices next :=
  List.mem_flatMap.2 ⟨i, List.mem_range.2 hi, List.mem_cons_self⟩

theorem cylinderMesh_not_closed {slices : Nat} (h : 0 < slices) : ¬Closed (cylinderMesh slices) :=
  not_closed_of_first (List.mem_append_left _ (List.mem_append_left _ (cap_mem h _ true)))
    (List.mem_append_right _ (core_mem h _))

theorem wedgeMesh_not_closed {slices : Nat} (h : 0 < slices) : ¬Closed (wedgeMesh slices) :=
  not_closed_of_first
    (List.mem_append_left _ (List.mem_append_left _ (List.mem_append_left _ (cap_mem h _ true))))
    (List.mem_append_left _ (List.mem_append_right _ (core_mem h _)))

/-- What holds of the triangles of caps and core, for slices whose next one is another. -/
theorem forall_base {slices m : Nat} {next : Nat → Nat} (hnext : ∀ i < slices, next i ≠ i ∧ next i ≤ m)
    (hm : slices ≤ m + 1) :
    ∀ t ∈ capTriangles slices next true ++ capTriangles slices next false ++ coreTriangles slices next,
      Proper t ∧ ∀ v ∈ corners t, v.slice ≤ m := by
  have hcap : ∀ top, ∀ t ∈ capTriangles slices next top, Proper t ∧ ∀ v ∈ corners t, v.slice ≤ m := by
    intro top t ht
    obtain ⟨i, hi, rfl⟩ := List.mem_map.1 ht
    have hi := List.mem_range.1 hi
    obtain ⟨hne, hle⟩ := hnext i hi
    refine ⟨⟨nofun, ?_, nofun⟩, ?_⟩
    · simpa using hne
    · rintro v (rfl | rfl | rfl)
      · exact Nat.zero_le _
      · exact hle
      · exact Nat.le_of_lt_succ (hi.trans_le hm)
  intro t ht
  rcases List.mem_append.1 ht with ht | ht
  · rcases List.mem_append.1 ht with ht | ht
    · exact hcap true t ht
    · exact hcap false t ht
  · obtain ⟨i, hi, ht⟩ := List.mem_flatMap.1 ht
    have hi := List.mem_range.1 hi
    obtain ⟨hne, hle⟩ := hnext i hi
    have hi' : i ≤ m := Nat.le_of_lt_succ (hi.trans_le hm)
    simp only [List.mem_cons, List.not_mem_nil, or_false] at ht
    rcases ht with rfl | rfl
    · refine ⟨⟨by simp, by simp, by simpa using hne⟩, ?_⟩
      rintro v (rfl | rfl | rfl)
      · exact hi'
      · exact hi'
      · exact hle
    · refine ⟨⟨by simp, by simpa using hne.symm, by simp⟩, ?_⟩
      rintro v (rfl | rfl | rfl)
      · exact hle
      · exact hi'
      · exact hle

/-! ## Both solids -/

/-- The mesh is a closed, consistently oriented surface. -/
def SurfaceRight (tessellate : ℝ → Option (IndexedTriangleBuffer ℝ)) (radius : ℝ) : Prop :=
  ∃ itb, tessellate radius = some itb ∧ Closed (surface itb)

/-- The vertices are those for radius 1, multiplied by the radius. -/
def ScaleRight (tessellate : ℝ → Option (IndexedTriangleBuffer ℝ)) (radius : ℝ) : Prop :=
  ∃ itb unit, tessellate radius = some itb ∧ tessellate 1 = some unit ∧ itb.vertexCount = unit.vertexCount ∧
    ∀ v < itb.vertexCount, vertexAt itb.vertices v = (vertexAt unit.vertices v).map fun p => p.multiply3 radius

section

variable {tessellate : ℝ → Option (IndexedTriangleBuffer ℝ)} {radius da : ℝ} {orientation : Orientation}
  {I : List (Triangle Nat)} {N m : Nat} {point : Nat → SolidPoint}

theorem scaleRight_iff (htessellate : ∀ r > 0,
      tessellate r = some (solidBuffer Real.sin Real.cos orientation r da I N point))
    (hradius : 0 < radius) (hN : 1 < N) (hpoint : point 1 = rim 0 true) :
    ScaleRight tessellate radius ↔ radius = 1 := by
  constructor
  · rintro ⟨itb, unit, hitb, hunit, -, hvertices⟩
    rw [htessellate radius hradius, Option.some_inj] at hitb
    rw [htessellate 1 one_pos, Option.some_inj] at hunit
    subst hitb hunit
    have hfirst := hvertices 1 hN
    rw [vertexAt_solidBuffer orientation hN, vertexAt_solidBuffer orientation hN, hpoint, Option.map_some,
      Option.some_inj] at hfirst
    have hy := congrArg Vec4.y hfirst
    simp only [solidPosition, ofTriple, Vec4.multiply3, place, Nat.cast_zero, zero_mul, Real.cos_zero, one_mul] at hy
    exact mul_right_cancel₀ hradius.ne' (hy.trans (one_mul radius).symm)
  · rintro rfl
    refine ⟨_, _, htessellate 1 one_pos, htessellate 1 one_pos, rfl, fun v _ => ?_⟩
    have hone : (fun p : Vec4 ℝ => p.multiply3 1) = id := by
      funext p
      rw [Vec4.multiply3, mul_one, mul_one, mul_one]
      rfl
    rw [hone, Option.map_id]
    rfl

theorem surfaceRight_iff (htessellate : ∀ r > 0,
      tessellate r = some (solidBuffer Real.sin Real.cos orientation r da I N point))
    (hradius : 0 < radius) (hI : ∀ t ∈ I, t.1 < N ∧ t.2.1 < N ∧ t.2.2 < N) (hda : 0 < da) (hm : m * da < 2 * Real.pi)
    (hmesh : ∀ t ∈ I.map (Triangle.map point), Proper t ∧ ∀ v ∈ corners t, v.slice ≤ m) :
    SurfaceRight tessellate radius ↔ Closed (I.map (Triangle.map point)) := by
  have hinj : Set.InjOn (solidPosition Real.sin Real.cos radius da)
      {v | ∃ t ∈ I.map (Triangle.map point), v ∈ corners t} := by
    refine (solidPosition_injOn hradius hda hm).mono ?_
    rintro v ⟨t, ht, hv⟩
    exact (hmesh t ht).2 v hv
  have hclosed := closed_surface_iff hinj (fun t ht => (hmesh t ht).1) orientation
  rw [← surface_solidBuffer orientation hI] at hclosed
  constructor
  · rintro ⟨itb, hitb, hsurface⟩
    rw [htessellate radius hradius, Option.some_inj] at hitb
    subst hitb
    exact hclosed.1 hsurface
  · exact fun h => ⟨_, htessellate radius hradius, hclosed.2 h⟩

end

theorem two_le_sliceCount (subdivisions : Nat) : 2 ≤ sliceCount subdivisions := by
  rw [sliceCount, Nat.pow_add]
  have := Nat.two_pow_pos subdivisions
  omega

/-- What a cylinder is. -/
theorem cylinder_solid (orientation : Orientation) (subdivisions : Nat) {radius : ℝ} (hradius : 0 < radius) :
    tessellateCylinderBuffer Real.sin Real.cos Real.pi orientation radius subdivisions =
      some (solidBuffer Real.sin Real.cos orientation radius (2 * Real.pi / sliceCount subdivisions)
        (solidTriangles (sliceCount subdivisions) (sliceCount subdivisions) (cylinderNext (sliceCount subdivisions))
          [])
        (4 * sliceCount subdivisions + 4) (solidVertex (sliceCount subdivisions) cylinderExtra)) := by
  rw [cylinder_buffers orientation hradius.le]
  generalize sliceCount subdivisions = slices
  have hI : 12 * slices = 3 * (solidTriangles slices slices (cylinderNext slices) []).length := by
    rw [solidTriangles, List.length_map, List.length_range, List.length_nil]
    ring
  have hV : 4 * slices + 4 =
      (solidVertices Real.sin Real.cos radius (2 * Real.pi / slices) slices cylinderExtra).length := by
    rw [solidVertices, List.length_map, List.length_range]
    rfl
  rw [hI, hV, orientAndScale_eq, ← hV]
  rfl

theorem wedge_solid (orientation : Orientation) (subdivisions : Nat) {radius angle : ℝ} (hradius : 0 < radius)
    (hlow : 0 < angle) (hhigh : angle < 2 * Real.pi) :
    tessellateWedgeBuffer Real.sin Real.cos Real.pi orientation radius subdivisions angle =
      some (solidBuffer Real.sin Real.cos orientation radius (angle / sliceCount subdivisions)
        (solidTriangles (sliceCount subdivisions) (sliceCount subdivisions + 1) (fun i => i + 2)
          (wedgeSides (sliceCount subdivisions)))
        (4 * (sliceCount subdivisions + 1) + 2 + 8)
        (solidVertex (sliceCount subdivisions + 1) (wedgeExtra (sliceCount subdivisions)))) := by
  have hslices : (sliceCount subdivisions : ℝ) ≠ 0 := by
    have := two_le_sliceCount subdivisions
    exact_mod_cast (by omega : sliceCount subdivisions ≠ 0)
  rw [wedge_buffers hslices orientation hradius.le hlow.le hhigh.le]
  generalize sliceCount subdivisions = slices
  have hI : 12 * slices + 12 =
      3 * (solidTriangles slices (slices + 1) (fun i => i + 2) (wedgeSides slices)).length := by
    rw [solidTriangles, List.length_map, List.length_range, show (wedgeSides slices).length = 4 from rfl]
    ring
  have hV : 4 * (slices + 1) + 2 + 8 =
      (solidVertices Real.sin Real.cos radius (angle / slices) (slices + 1) (wedgeExtra slices)).length := by
    rw [solidVertices, List.length_map, List.length_range]
    rfl
  rw [hI, hV, orientAndScale_eq, ← hV]
  rfl

theorem cylinder_wrong (orientation : Orientation) (subdivisions : Nat) {radius : ℝ} (hradius : 0 < radius) :
    ¬SurfaceRight (fun r => tessellateCylinderBuffer Real.sin Real.cos Real.pi orientation r subdivisions) radius ∧
    (ScaleRight (fun r => tessellateCylinderBuffer Real.sin Real.cos Real.pi orientation r subdivisions) radius ↔
      radius = 1) := by
  have hsolid := fun r (hr : r > (0 : ℝ)) => cylinder_solid orientation subdivisions hr
  have htwo := two_le_sliceCount subdivisions
  generalize sliceCount subdivisions = slices at hsolid htwo
  have hpos : (0 : ℝ) < slices := by exact_mod_cast (by omega : 0 < slices)
  have hda : 0 < 2 * Real.pi / slices := div_pos Real.two_pi_pos hpos
  have hmod : ∀ i < slices, (i + 1) % slices ≠ i ∧ (i + 1) % slices ≤ slices - 1 := by
    intro i hi
    have hlt := Nat.mod_lt (i + 1) (show slices > 0 by omega)
    refine ⟨?_, by omega⟩
    by_cases hlast : i + 1 < slices
    · rw [Nat.mod_eq_of_lt hlast]
      omega
    · rw [show i + 1 = slices by omega, Nat.mod_self]
      omega
  refine ⟨?_, scaleRight_iff hsolid hradius (by omega) (solidVertex_upper (by omega))⟩
  rw [surfaceRight_iff (m := slices - 1) hsolid hradius ?_ hda ?_ ?_, cylinder_points htwo]
  · exact cylinderMesh_not_closed (by omega)
  · refine solidTriangles_lt (by omega) (fun i hi => ?_) (by simp)
    rw [cylinderNext]
    split
    · omega
    · omega
  · -- the last slice is not yet all the way round
    have hlt : ((slices - 1 : Nat) : ℝ) < slices := by exact_mod_cast (by omega : slices - 1 < slices)
    calc ((slices - 1 : Nat) : ℝ) * (2 * Real.pi / slices) < slices * (2 * Real.pi / slices) :=
          mul_lt_mul_of_pos_right hlt hda
      _ = 2 * Real.pi := mul_div_cancel₀ _ hpos.ne'
  · rw [cylinder_points htwo]
    exact forall_base hmod (by omega)

theorem wedge_wrong (orientation : Orientation) (subdivisions : Nat) {radius angle : ℝ} (hradius : 0 < radius)
    (hlow : 0 < angle) (hhigh : angle < 2 * Real.pi) :
    ¬SurfaceRight (fun r => tessellateWedgeBuffer Real.sin Real.cos Real.pi orientation r subdivisions angle) radius ∧
    (ScaleRight (fun r => tessellateWedgeBuffer Real.sin Real.cos Real.pi orientation r subdivisions angle) radius ↔
      radius = 1) := by
  have hsolid := fun r (hr : r > (0 : ℝ)) => wedge_solid orientation subdivisions hr hlow hhigh
  have htwo := two_le_sliceCount subdivisions
  generalize sliceCount subdivisions = slices at hsolid htwo
  have hpos : (0 : ℝ) < slices := by exact_mod_cast (by omega : 0 < slices)
  have hda : 0 < angle / slices := div_pos hlow hpos
  refine ⟨?_, scaleRight_iff hsolid hradius (by omega) (solidVertex_upper (by omega))⟩
  rw [surfaceRight_iff (m := slices) hsolid hradius ?_ hda ?_ ?_, wedge_points]
  · exact wedgeMesh_not_closed (by omega)
  · refine solidTriangles_lt (by omega) (fun i hi => by omega) fun t ht => ?_
    simp only [wedgeSides, List.mem_flatMap, List.mem_range, List.mem_cons, List.not_mem_nil, or_false] at ht
    obtain ⟨i, hi, rfl | rfl⟩ := ht
    · simp only
      omega
    · simp only
      omega
  · rw [mul_div_cancel₀ _ hpos.ne']
    exact hhigh
  · rw [wedge_points, wedgeMesh]
    intro t ht
    rcases List.mem_append.1 ht with ht | ht
    · exact forall_base (fun i hi => ⟨by omega, by omega⟩) (by omega) t ht
    · have hside : ∀ j ≤ slices, ∀ t ∈ sideTriangles j, Proper t ∧ ∀ v ∈ corners t, v.slice ≤ slices := by
        intro j hj t ht
        simp only [sideTriangles, List.mem_cons, List.not_mem_nil, or_false] at ht
        rcases ht with rfl | rfl
        · refine ⟨⟨by simp, by simp, by simp⟩, ?_⟩
          rintro v (rfl | rfl | rfl)
          · exact Nat.zero_le _
          · exact hj
          · exact Nat.zero_le _
        · refine ⟨⟨by simp, by simp, by simp⟩, ?_⟩
          rintro v (rfl | rfl | rfl)
          · exact Nat.zero_le _
          · exact hj
          · exact hj
      rcases List.mem_append.1 ht with ht | ht
      · exact hside 0 (Nat.zero_le _) t ht
      · exact hside slices le_rfl t ht

/-- No cylinder and no wedge is a closed, consistently oriented surface, and the radius is right
for radius 1 only. -/
theorem solids_wrong (orientation : Orientation) (subdivisions : Nat) (radius : ℝ) (hradius : 0 < radius) :
    ¬SurfaceRight (fun r => tessellateCylinderBuffer Real.sin Real.cos Real.pi orientation r subdivisions) radius ∧
    (ScaleRight (fun r => tessellateCylinderBuffer Real.sin Real.cos Real.pi orientation r subdivisions) radius ↔
      radius = 1) ∧
    ∀ angle, 0 < angle → angle < 2 * Real.pi →
      ¬SurfaceRight (fun r =>
        tessellateWedgeBuffer Real.sin Real.cos Real.pi orientation r subdivisions angle) radius ∧
      (ScaleRight (fun r => tessellateWedgeBuffer Real.sin Real.cos Real.pi orientation r subdivisions angle) radius ↔
        radius = 1) := by
  obtain ⟨hsurface, hscale⟩ := cylinder_wrong orientation subdivisions hradius
  exact ⟨hsurface, hscale, fun angle hlow hhigh => wedge_wrong orientation subdivisions hradius hlow hhigh⟩

/-- Seen from outside, without subdivisions, and a quarter of the way round. -/
theorem solids_wrong_two :
    ¬SurfaceRight (fun r => tessellateCylinderBuffer Real.sin Real.cos Real.pi .outside r 0) 2 ∧
    (ScaleRight (fun r => tessellateWedgeBuffer Real.sin Real.cos Real.pi .outside r 0 (Real.pi / 2)) 2 ↔
      (2 : ℝ) = 1) := by
  obtain ⟨hsurface, -, hwedge⟩ := solids_wrong .outside 0 2 two_pos
  have hpi := Real.pi_pos
  exact ⟨hsurface, (hwedge (Real.pi / 2) (by linarith) (by linarith)).2⟩

/-- The cylinder of radius 2 with four slices. -/
theorem cylinderTwo_wrong :
    ¬(SurfaceRight (fun r => tessellateCylinderBuffer Real.sin Real.cos Real.pi .outside r 0) 2 ∧
      ScaleRight (fun r => tessellateCylinderBuffer Real.sin Real.cos Real.pi .outside r 0) 2) ∧
    ¬SurfaceRight (fun r => tessellateCylinderBuffer Real.sin Real.cos Real.pi .outside r 0) 2 ∧
    ¬ScaleRight (fun r => tessellateCylinderBuffer Real.sin Real.cos Real.pi .outside r 0) 2 := by
  obtain ⟨hsurface, hscale⟩ := cylinder_wrong .outside 0 (two_pos : (0 : ℝ) < 2)
  exact ⟨fun h => hsurface h.1, hsurface, fun h => absurd (hscale.1 h) (by norm_num)⟩

end WorldWind.GeometryBuilder
