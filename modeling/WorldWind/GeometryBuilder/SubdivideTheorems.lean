import WorldWind.GeometryBuilder.Subdivide
import WorldWind.GeometryBuilder.PolygonTheorems
import WorldWind.Lib.TriangleMesh
/-!
# What subdivision keeps

A closed, consistently oriented surface stays one, with a new vertex in the
middle of each edge, if no two of its triangles have the same vertices
(`subdivide_surface`). Two triangles back to back have the same three edges, and
so the same inner triangle, whose sides then occur twice.
-/

namespace WorldWind.GeometryBuilder

open Geom.Exact Lib.GrowingArray Lib.Grid Lib.JavaArray Lib.Loops Lib.TriangleStrip Lib.TrianglePrimitives
  Lib.TriangleMesh
open scoped Lib.Numerals

variable {K : Type} [Field K]

theorem copies_bufferCopyOf {F : Type} (zero : F) : Copies (bufferCopyOf zero) := by
  intro a n h
  refine ⟨_, if_pos h, ?_, ?_⟩
  · rw [blit_zero]
    exact List.prefix_append _ _
  · rw [length_blit (by simpa using h), List.length_replicate]

/-! ## New vertices -/

theorem vertexAt_congr {F : Type} {vertices vertices' : List F} {v : Nat}
    (h : ∀ i, 3 * v ≤ i → i ≤ 3 * v + 2 → vertices[i]? = vertices'[i]?) :
    vertexAt vertices v = vertexAt vertices' v := by
  rw [vertexAt, vertexAt, h _ (by omega) (by omega), h _ (by omega) (by omega), h _ (by omega) (by omega)]

theorem vertexAt_of_isPrefix {F : Type} {vertices vertices' : List F} (h : vertices <+: vertices') {v : Nat}
    (hv : 3 * v + 2 < vertices.length) : vertexAt vertices' v = vertexAt vertices v := by
  refine vertexAt_congr fun i _ hi => ?_
  rw [List.prefix_iff_getElem?.1 h i (by omega), List.getElem?_eq_getElem (by omega)]

def midpoint (p q : Vec4 K) : Vec4 K := ⟨(p.x + q.x) / 2, (p.y + q.y) / 2, (p.z + q.z) / 2⟩

theorem midpoint_comm (p q : Vec4 K) : midpoint p q = midpoint q p := by
  simp only [midpoint, add_comm]

/-- A vertex is added behind the others, which stay. -/
structure Added (ita ita' : IndexedTriangleArray K) (p : Vec4 K) : Prop where
  indices : ita'.indices = ita.indices
  indexCount : ita'.indexCount = ita.indexCount
  vertexCount : ita'.vertexCount = ita.vertexCount + 1
  room : 3 * (ita.vertexCount + 1) ≤ ita'.vertices.length
  kept : ∀ v < ita.vertexCount, vertexAt ita'.vertices v = vertexAt ita.vertices v
  added : vertexAt ita'.vertices ita.vertexCount = some p

theorem vertexAt_eq_some {F : Type} {vertices : List F} {v : Nat} {p : Vec4 F} : vertexAt vertices v = some p ↔
    vertices[3 * v]? = some p.x ∧ vertices[3 * v + 1]? = some p.y ∧ vertices[3 * v + 2]? = some p.z := by
  simp only [vertexAt, Option.bind_eq_bind, Option.bind_eq_some_iff]
  constructor
  · rintro ⟨x, hx, y, hy, z, hz, h⟩
    cases h
    exact ⟨hx, hy, hz⟩
  · rintro ⟨hx, hy, hz⟩
    exact ⟨_, hx, _, hy, _, hz, rfl⟩

theorem average_eq {vertices : List K} {i ia ib : Nat} {x y : K} (hi : i < vertices.length)
    (ha : vertices[ia]? = some x) (hb : vertices[ib]? = some y) :
    average vertices i ia ib = some (vertices.set i ((x + y) / 2)) := by
  rw [average, ha, hb]
  exact if_pos hi

theorem splitVertex_spec {copy : List K → Nat → Option (List K)} (hcopy : Copies copy) {ita : IndexedTriangleArray K}
    (hroom : 3 * ita.vertexCount ≤ ita.vertices.length) {a b : Nat} {p q : Vec4 K} (ha : a < ita.vertexCount)
    (hb : b < ita.vertexCount) (hp : vertexAt ita.vertices a = some p) (hq : vertexAt ita.vertices b = some q) :
    ∃ ita', splitVertex copy ita a b = some (ita', ita.vertexCount) ∧ Added ita ita' (midpoint p q) := by
  obtain ⟨vs, hvs, hpre, hmin⟩ := grow_all hcopy (3 * (ita.vertexCount + 1)) (a := ita.vertices) (by omega)
  have hold : ∀ v < ita.vertexCount, vertexAt vs v = vertexAt ita.vertices v := fun v hv =>
    vertexAt_of_isPrefix hpre (by omega)
  rw [← hold a ha, vertexAt_eq_some] at hp
  rw [← hold b hb, vertexAt_eq_some] at hq
  obtain ⟨px, py, pz⟩ := hp
  obtain ⟨qx, qy, qz⟩ := hq
  let m := midpoint p q
  -- the three assignments write behind what they read
  have h0 : average vs (3 * ita.vertexCount) (3 * a) (3 * b) = some (vs.set (3 * ita.vertexCount) m.x) :=
    average_eq (by omega) px qx
  have h1 : average (vs.set (3 * ita.vertexCount) m.x) (3 * ita.vertexCount + 1) (3 * a + 1) (3 * b + 1) =
      some ((vs.set (3 * ita.vertexCount) m.x).set (3 * ita.vertexCount + 1) m.y) := by
    refine average_eq ?_ ?_ ?_
    · rw [List.length_set]
      omega
    · rw [List.getElem?_set_ne (by omega), py]
    · rw [List.getElem?_set_ne (by omega), qy]
  have h2 : average ((vs.set (3 * ita.vertexCount) m.x).set (3 * ita.vertexCount + 1) m.y) (3 * ita.vertexCount + 2)
      (3 * a + 2) (3 * b + 2) =
      some (((vs.set (3 * ita.vertexCount) m.x).set (3 * ita.vertexCount + 1) m.y).set
        (3 * ita.vertexCount + 2) m.z) := by
    refine average_eq ?_ ?_ ?_
    · rw [List.length_set, List.length_set]
      omega
    · rw [List.getElem?_set_ne (by omega), List.getElem?_set_ne (by omega), pz]
    · rw [List.getElem?_set_ne (by omega), List.getElem?_set_ne (by omega), qz]
  refine ⟨⟨ita.indexCount, ita.indices, ita.vertexCount + 1,
    ((vs.set (3 * ita.vertexCount) m.x).set (3 * ita.vertexCount + 1) m.y).set (3 * ita.vertexCount + 2) m.z⟩, ?_,
    ⟨rfl, rfl, rfl, ?_, fun v hv => ?_, ?_⟩⟩
  · rw [splitVertex, hvs]
    simp only [Option.bind_eq_bind, Option.bind_some, h0, h1, h2]
    rfl
  · simp only [List.length_set]
    exact hmin
  · rw [← hold v hv]
    refine vertexAt_congr fun i _ hi => ?_
    rw [List.getElem?_set_ne (by omega), List.getElem?_set_ne (by omega), List.getElem?_set_ne (by omega)]
  · refine vertexAt_eq_some.2 ⟨?_, ?_, ?_⟩
    · rw [List.getElem?_set_ne (by omega), List.getElem?_set_ne (by omega), List.getElem?_set_self (by omega)]
    · rw [List.getElem?_set_ne (by omega), List.getElem?_set_self (by rw [List.length_set]; omega)]
    · rw [List.getElem?_set_self (by rw [List.length_set, List.length_set]; omega)]

/-! ## The map of the edges -/

/-- The edge of a key. -/
def Edge.sym (e : Edge) : Sym2 Nat := s(e.a, e.b)

theorem Edge.equals_iff {e e' : Edge} : e.equals e' = true ↔ e.sym = e'.sym := by
  rw [equals, decide_eq_true_iff, sym, sym, Sym2.eq_iff]

namespace EdgeMap

/-- The edges that are split. -/
def keys (edgeMap : EdgeMap) : List (Sym2 Nat) := edgeMap.map fun p => p.1.sym

/-- The vertex of a split edge. -/
def splitOf (edgeMap : EdgeMap) (z : Sym2 Nat) : Nat := ((edgeMap.find? fun p => p.1.sym = z).map Prod.snd).getD 0

theorem get_eq (edgeMap : EdgeMap) (e : Edge) :
    edgeMap.get e = (edgeMap.find? fun p => p.1.sym = e.sym).map Prod.snd := by
  rw [get]
  refine congrArg _ (congrArg (List.find? · edgeMap) (funext fun p => ?_))
  rw [Bool.eq_iff_iff, Edge.equals_iff, decide_eq_true_iff]

theorem get_eq_none {edgeMap : EdgeMap} {e : Edge} : edgeMap.get e = none ↔ e.sym ∉ edgeMap.keys := by
  rw [get_eq, Option.map_eq_none_iff, List.find?_eq_none, keys, List.mem_map, not_exists]
  simp

theorem get_splitOf {edgeMap : EdgeMap} {e : Edge} (h : e.sym ∈ edgeMap.keys) :
    edgeMap.get e = some (edgeMap.splitOf e.sym) := by
  rw [splitOf, ← get_eq]
  cases hget : edgeMap.get e with
  | none => exact absurd h (get_eq_none.1 hget)
  | some split => rfl

/-- An edge in the map has an entry with its vertex. -/
theorem exists_entry {edgeMap : EdgeMap} {z : Sym2 Nat} (h : z ∈ edgeMap.keys) :
    ∃ p ∈ edgeMap, p.1.sym = z ∧ p.2 = edgeMap.splitOf z := by
  rw [splitOf]
  cases hfind : edgeMap.find? fun p => p.1.sym = z with
  | none =>
    obtain ⟨p, hp, hz⟩ := List.mem_map.1 h
    exact absurd hz (by simpa using List.find?_eq_none.1 hfind p hp)
  | some p => exact ⟨p, List.mem_of_find?_eq_some hfind, by simpa using List.find?_some hfind, rfl⟩

theorem splitOf_eq {edgeMap : EdgeMap} (hnodup : edgeMap.keys.Nodup) {p : Edge × Nat} (hp : p ∈ edgeMap) :
    edgeMap.splitOf p.1.sym = p.2 := by
  obtain ⟨p', hp', hsym, hsplit⟩ := exists_entry (List.mem_map_of_mem hp : p.1.sym ∈ edgeMap.keys)
  rw [← hsplit, List.inj_on_of_nodup_map hnodup hp' hp hsym]

end EdgeMap

/-! ## The first loop -/

/-- The edges of `done` are split, each once, at the vertices behind those of `ita`. -/
structure Splitting (ita : IndexedTriangleArray K) (done : List (Nat × Nat)) (s : IndexedTriangleArray K × EdgeMap) :
    Prop where
  indices : s.1.indices = ita.indices
  indexCount : s.1.indexCount = ita.indexCount
  vertexCount : s.1.vertexCount = ita.vertexCount + s.2.length
  room : 3 * s.1.vertexCount ≤ s.1.vertices.length
  kept : ∀ v < ita.vertexCount, vertexAt s.1.vertices v = vertexAt ita.vertices v
  nodup : s.2.keys.Nodup
  keys : ∀ z, z ∈ s.2.keys ↔ ∃ d ∈ done, edge d = z
  numbers : s.2.map Prod.snd = (List.range' ita.vertexCount s.2.length).reverse
  midpoints : ∀ e ∈ s.2, ∃ p q, vertexAt ita.vertices e.1.a = some p ∧ vertexAt ita.vertices e.1.b = some q ∧
    vertexAt s.1.vertices e.2 = some (midpoint p q)

variable {copyVertices : List K → Nat → Option (List K)} {copyIndices : List Nat → Nat → Option (List Nat)}
  {ita : IndexedTriangleArray K} {done : List (Nat × Nat)} {s : IndexedTriangleArray K × EdgeMap}

theorem Splitting.number_lt (h : Splitting ita done s) {e : Edge × Nat} (he : e ∈ s.2) :
    ita.vertexCount ≤ e.2 ∧ e.2 < s.1.vertexCount := by
  have hmem : e.2 ∈ s.2.map Prod.snd := List.mem_map_of_mem he
  rw [h.numbers, List.mem_reverse, List.mem_range'_1] at hmem
  rwa [h.vertexCount]

theorem exists_vertexAt (hroom : 3 * ita.vertexCount ≤ ita.vertices.length) {v : Nat} (hv : v < ita.vertexCount) :
    ∃ p, vertexAt ita.vertices v = some p :=
  ⟨_, vertexAt_eq (by omega)⟩

/-- An edge that is not in the map is put there with a new vertex in its middle. -/
theorem splitEdge_spec (hcopy : Copies copyVertices) (hroom : 3 * ita.vertexCount ≤ ita.vertices.length)
    (h : Splitting ita done s) {d : Nat × Nat} (h1 : d.1 < ita.vertexCount) (h2 : d.2 < ita.vertexCount) :
    ∃ s', splitEdge copyVertices s d = some s' ∧ Splitting ita (done ++ [d]) s' := by
  have hmem : ∀ z, (∃ d' ∈ done ++ [d], edge d' = z) ↔ z ∈ s.2.keys ∨ edge d = z := by
    intro z
    rw [h.keys]
    simp only [List.mem_append, List.mem_singleton, or_and_right, exists_or, exists_eq_left]
  by_cases hkey : edge d ∈ s.2.keys
  · refine ⟨s, ?_, { h with keys := fun z => ?_ }⟩
    · have hget : s.2.get ⟨d.1, d.2⟩ = some (s.2.splitOf (edge d)) := EdgeMap.get_splitOf hkey
      rw [splitEdge]
      simp only [hget]
    · rw [hmem]
      refine ⟨.inl, ?_⟩
      rintro (hz | rfl)
      · exact hz
      · exact hkey
  · obtain ⟨p, hp⟩ := exists_vertexAt hroom h1
    obtain ⟨q, hq⟩ := exists_vertexAt hroom h2
    have hV := h.vertexCount
    obtain ⟨ita', hsplit, hadded⟩ := splitVertex_spec hcopy h.room (a := d.1) (b := d.2) (by omega) (by omega)
      ((h.kept _ h1).trans hp) ((h.kept _ h2).trans hq)
    have hget : s.2.get ⟨d.1, d.2⟩ = none := EdgeMap.get_eq_none.2 hkey
    refine ⟨(ita', s.2.put ⟨d.1, d.2⟩ s.1.vertexCount), ?_, ?_⟩
    · rw [splitEdge]
      simp only [hget, hsplit]
      rfl
    · refine ⟨hadded.indices.trans h.indices, hadded.indexCount.trans h.indexCount, ?_, ?_, fun v hv => ?_, ?_,
        fun z => ?_, ?_, fun e he => ?_⟩
      · rw [hadded.vertexCount, hV, Nat.add_assoc]
        rfl
      · rw [hadded.vertexCount]
        exact hadded.room
      · rw [hadded.kept v (by omega), h.kept v hv]
      · exact List.nodup_cons.2 ⟨hkey, h.nodup⟩
      · rw [hmem, EdgeMap.put, EdgeMap.keys, List.map_cons, List.mem_cons, or_comm, @eq_comm _ z]
        rfl
      · have hnumbers : (List.range' ita.vertexCount (s.2.length + 1)).reverse =
            s.1.vertexCount :: s.2.map Prod.snd := by
          rw [List.range'_1_concat, List.reverse_append, h.numbers, hV]
          rfl
        exact hnumbers.symm
      · rcases List.mem_cons.1 he with rfl | he
        · exact ⟨p, q, hp, hq, hadded.added⟩
        · obtain ⟨p', q', hp', hq', hmid⟩ := h.midpoints e he
          exact ⟨p', q', hp', hq', (hadded.kept _ (h.number_lt he).2).trans hmid⟩

theorem splitEdges_spec (hcopy : Copies copyVertices) (hroom : 3 * ita.vertexCount ≤ ita.vertices.length)
    {ds : List (Nat × Nat)} (hds : ∀ d ∈ ds, d.1 < ita.vertexCount ∧ d.2 < ita.vertexCount)
    (h : Splitting ita done s) :
    ∃ s', ds.foldlM (splitEdge copyVertices) s = some s' ∧ Splitting ita (done ++ ds) s' := by
  induction ds generalizing done s with
  | nil => exact ⟨s, rfl, by rwa [List.append_nil]⟩
  | cons d ds ih =>
    obtain ⟨h1, h2⟩ := hds d List.mem_cons_self
    obtain ⟨s', hs', hsplitting⟩ := splitEdge_spec hcopy hroom h h1 h2
    obtain ⟨s'', hs'', hall⟩ := ih (fun d' hd' => hds d' (List.mem_cons_of_mem d hd')) hsplitting
    refine ⟨s'', ?_, by rwa [List.append_assoc] at hall⟩
    rw [List.foldlM_cons, hs', Option.bind_eq_bind, Option.bind_some, hs'']

/-- The side that the loop reads at a place. -/
def sideAt (T : List (Triangle Nat)) (c : Nat × Nat) : Nat × Nat :=
  (sides (T.getD c.1 (0, 0, 0))).getD c.2 (0, 0)

theorem map_sideAt (T : List (Triangle Nat)) : (cells T.length 3).map (sideAt T) = meshSides T := by
  rw [cells, List.map_flatMap]
  conv_rhs => rw [meshSides, ← range_getD T (0, 0, 0), List.flatMap_map]
  refine List.flatMap_congr fun m _ => ?_
  rw [List.map_map]
  rfl

/-- The indices of a triangle of the list. -/
theorem getElem?_vertices {indices : List Nat} {T : List (Triangle Nat)} (h : vertices T <+: indices) {m : Nat}
    (hm : m < T.length) : indices[3 * m]? = some (T.getD m (0, 0, 0)).1 ∧
      indices[3 * m + 1]? = some (T.getD m (0, 0, 0)).2.1 ∧ indices[3 * m + 2]? = some (T.getD m (0, 0, 0)).2.2 := by
  have hsplit : T = T.take m ++ T.getD m (0, 0, 0) :: T.drop (m + 1) := by
    rw [List.getD_eq_getElem?_getD, List.getElem?_eq_getElem hm, Option.getD_some, ← List.drop_eq_getElem_cons hm,
      List.take_append_drop]
  generalize T.getD m (0, 0, 0) = t at hsplit ⊢
  have hlen : (vertices (T.take m)).length = 3 * m := by
    rw [length_vertices, List.length_take, Nat.min_eq_left hm.le]
  rw [hsplit, vertices_append, vertices_cons] at h
  obtain ⟨rest, rfl⟩ := h
  refine ⟨?_, ?_, ?_⟩ <;> rw [List.append_assoc, List.getElem?_append_right (by omega), hlen]
  · simp
  · simp
  · simp

theorem readSide_eq {indices : List Nat} {T : List (Triangle Nat)} (h : vertices T <+: indices) {c : Nat × Nat}
    (hc : c ∈ cells T.length 3) : readSide indices c.1 c.2 = some (sideAt T c) := by
  obtain ⟨m, j⟩ := c
  obtain ⟨hm, hj⟩ := mem_cells.1 hc
  obtain ⟨h0, h1, h2⟩ := getElem?_vertices h hm
  rw [readSide, sideAt]
  simp only at hj ⊢
  interval_cases j
  · simp only [Nat.add_zero]
    rw [h0, if_pos (by decide), h1]
    rfl
  · rw [h1, if_pos (by decide), show 3 * m + 1 + 1 = 3 * m + 2 from rfl, h2]
    rfl
  · rw [h2, if_neg (by decide), h0]
    rfl

theorem splitEdge_indices {s' : IndexedTriangleArray K × EdgeMap} {d : Nat × Nat}
    (h : splitEdge copyVertices s d = some s') : s'.1.indices = s.1.indices := by
  rw [splitEdge] at h
  cases hget : s.2.get ⟨d.1, d.2⟩ with
  | some split =>
    simp only [hget] at h
    cases h
    rfl
  | none =>
    simp only [hget, splitVertex, Option.bind_eq_bind, Option.bind_eq_some_iff, Option.pure_def] at h
    obtain ⟨r, ⟨_, -, _, -, _, -, _, -, hr⟩, hs'⟩ := h
    cases hr
    cases hs'
    rfl

/-- The indices stay while the edges are split, so the loop goes through the sides of the triangles. -/
theorem firstLoop_eq {T : List (Triangle Nat)} {cs : List (Nat × Nat)} (hcs : ∀ c ∈ cs, c ∈ cells T.length 3)
    (h : vertices T <+: s.1.indices) :
    cs.foldlM (fun s c => do
      let d ← readSide s.1.indices c.1 c.2
      splitEdge copyVertices s d) s = (cs.map (sideAt T)).foldlM (splitEdge copyVertices) s := by
  induction cs generalizing s with
  | nil => rfl
  | cons c cs ih =>
    rw [List.foldlM_cons, List.map_cons, List.foldlM_cons, readSide_eq h (hcs c List.mem_cons_self),
      Option.bind_eq_bind, Option.bind_eq_bind, Option.bind_some]
    cases hs' : splitEdge copyVertices s (sideAt T c) with
    | none => rfl
    | some s' => exact ih (fun c' hc' => hcs c' (List.mem_cons_of_mem c hc')) ((splitEdge_indices hs').symm ▸ h)

/-! ## The second loop -/

/-- The triangle that replaces the original. -/
def firstQuarter (split : Sym2 Nat → Nat) (t : Triangle Nat) : Triangle Nat :=
  (t.1, split s(t.1, t.2.1), split s(t.2.2, t.1))

/-- The triangles behind the others. -/
def otherQuarters (split : Sym2 Nat → Nat) (t : Triangle Nat) : List (Triangle Nat) :=
  let ab := split s(t.1, t.2.1)
  let bc := split s(t.2.1, t.2.2)
  let ca := split s(t.2.2, t.1)
  [(ab, bc, ca), (ab, t.2.1, bc), (ca, bc, t.2.2)]

theorem quarters_eq (split : Sym2 Nat → Nat) (t : Triangle Nat) :
    quarters split t = firstQuarter split t :: otherQuarters split t := rfl

/-- The triangles `P` are divided, the triangles `R` are not yet. -/
structure Divided (split : Sym2 Nat → Nat) (P R : List (Triangle Nat)) (ita : IndexedTriangleArray K) : Prop where
  indices : vertices (P.map (firstQuarter split) ++ R ++ P.flatMap (otherQuarters split)) <+: ita.indices
  indexCount : ita.indexCount = 3 * (P.map (firstQuarter split) ++ R ++ P.flatMap (otherQuarters split)).length

omit [Field K] in
/-- One triangle is replaced, and three are written behind the others. -/
theorem indexSplitTriangle_spec (hcopy : Copies copyIndices) {A S : List Nat} {x y z : Nat}
    (h : A ++ x :: y :: z :: S <+: ita.indices) (hcount : ita.indexCount = (A ++ x :: y :: z :: S).length)
    (a b c ab bc ca : Nat) :
    ∃ indices, indexSplitTriangle copyIndices ita A.length a b c ab bc ca =
      some { ita with indices, indexCount := ita.indexCount + 9 } ∧
      A ++ a :: ab :: ca :: S ++ [ab, bc, ca, ab, b, bc, ca, bc, c] <+: indices := by
  have hpos : 0 < ita.indices.length := by
    have := h.length_le
    simp only [List.length_append, List.length_cons] at this
    omega
  obtain ⟨i0, hi0, hpre, hmin⟩ := grow_all hcopy (ita.indexCount + 9) hpos
  obtain ⟨i1, hi1, hp1, hl1⟩ := write_inside (h.trans hpre) a
  obtain ⟨i2, hi2, hp2, hl2⟩ := write_inside (l := A ++ [a]) (x := y) (r := z :: S) (by simpa using hp1) ab
  obtain ⟨i3, hi3, hp3, hl3⟩ := write_inside (l := A ++ [a, ab]) (x := z) (r := S) (by simpa using hp2) ca
  have hlen : (A ++ [a, ab] ++ ca :: S).length = ita.indexCount := by
    rw [hcount]
    simp only [List.length_append, List.length_cons, List.length_nil]
    omega
  obtain ⟨i4, hi4, hp4, -⟩ := appendAll_spec hp3 [ab, bc, ca, ab, b, bc, ca, bc, c] (by
    simp only [List.length_cons, List.length_nil]
    omega)
  rw [hlen, List.length_append, hlen] at hi4
  rw [List.length_append] at hi2 hi3
  refine ⟨i4, ?_, by simpa using hp4⟩
  rw [indexSplitTriangle]
  simp only [hi0, hi1, Option.bind_eq_bind, Option.bind_some]
  simp only [List.length_cons, List.length_nil, Nat.zero_add] at hi2 hi3 hi4
  simp only [hi2, hi3, hi4, Option.bind_some]
  rfl

omit [Field K] in
theorem splitTriangle_spec (hcopy : Copies copyIndices) {edgeMap : EdgeMap} {P R : List (Triangle Nat)}
    {t : Triangle Nat} (ht : ∀ d ∈ sides t, edge d ∈ edgeMap.keys) (h : Divided edgeMap.splitOf P (t :: R) ita) :
    ∃ ita', splitTriangle copyIndices edgeMap ita P.length = some ita' ∧ ita'.vertexCount = ita.vertexCount ∧
      ita'.vertices = ita.vertices ∧ Divided edgeMap.splitOf (P ++ [t]) R ita' := by
  obtain ⟨a, b, c⟩ := t
  have hget : ∀ d ∈ sides (a, b, c), edgeMap.get ⟨d.1, d.2⟩ = some (edgeMap.splitOf s(d.1, d.2)) := fun d hd =>
    EdgeMap.get_splitOf (ht d hd)
  have hab := hget (a, b) (mem_sides.2 (.inl rfl))
  have hbc := hget (b, c) (mem_sides.2 (.inr (.inl rfl)))
  have hca := hget (c, a) (mem_sides.2 (.inr (.inr rfl)))
  obtain ⟨hindices, hindexCount⟩ := h
  generalize edgeMap.splitOf = split at *
  have hlist : vertices (P.map (firstQuarter split) ++ (a, b, c) :: R ++ P.flatMap (otherQuarters split)) =
      vertices (P.map (firstQuarter split)) ++ a :: b :: c ::
        (vertices R ++ vertices (P.flatMap (otherQuarters split))) := by
    simp
  rw [← length_vertices, hlist] at hindexCount
  rw [hlist] at hindices
  have hA : (vertices (P.map (firstQuarter split))).length = 3 * P.length := by simp
  -- what the loop reads
  have h0 : ita.indices[3 * P.length]? = some a := by
    rw [← hA]
    exact getElem?_inside hindices
  have h1 : ita.indices[3 * P.length + 1]? = some b := by
    have hl : (vertices (P.map (firstQuarter split)) ++ [a]).length = 3 * P.length + 1 := by simp
    rw [← hl]
    exact getElem?_inside (by simpa using hindices)
  have h2 : ita.indices[3 * P.length + 2]? = some c := by
    have hl : (vertices (P.map (firstQuarter split)) ++ [a, b]).length = 3 * P.length + 2 := by simp
    rw [← hl]
    exact getElem?_inside (by simpa using hindices)
  obtain ⟨indices, hrun, hpre⟩ :=
    indexSplitTriangle_spec hcopy hindices hindexCount a b c (split s(a, b)) (split s(b, c)) (split s(c, a))
  refine ⟨{ ita with indices, indexCount := ita.indexCount + 9 }, ?_, rfl, rfl, ⟨?_, ?_⟩⟩
  · rw [splitTriangle]
    simp only [h0, h1, h2, hab, hbc, hca, Option.bind_eq_bind, Option.bind_some]
    rw [← hA]
    exact hrun
  · simpa [firstQuarter, otherQuarters] using hpre
  · rw [hindexCount, ← length_vertices]
    simp [firstQuarter, otherQuarters]
    omega

omit [Field K] in
theorem splitTriangles_spec (hcopy : Copies copyIndices) {edgeMap : EdgeMap} {P R : List (Triangle Nat)}
    (hR : ∀ t ∈ R, ∀ d ∈ sides t, edge d ∈ edgeMap.keys) (h : Divided edgeMap.splitOf P R ita) :
    ∃ ita', (List.range' P.length R.length).foldlM (splitTriangle copyIndices edgeMap) ita = some ita' ∧
      ita'.vertexCount = ita.vertexCount ∧ ita'.vertices = ita.vertices ∧
        Divided edgeMap.splitOf (P ++ R) [] ita' := by
  induction R generalizing P ita with
  | nil => exact ⟨ita, rfl, rfl, rfl, by rwa [List.append_nil]⟩
  | cons t R ih =>
    obtain ⟨ita', hrun, hcount, hvertices, hdivided⟩ := splitTriangle_spec hcopy (hR t List.mem_cons_self) h
    obtain ⟨ita'', hrun', hcount', hvertices', hdivided'⟩ :=
      ih (fun t' ht' => hR t' (List.mem_cons_of_mem t ht')) hdivided
    refine ⟨ita'', ?_, hcount'.trans hcount, hvertices'.trans hvertices, by rwa [List.append_assoc] at hdivided'⟩
    rw [List.length_cons, List.range'_succ, List.foldlM_cons, hrun, Option.bind_eq_bind, Option.bind_some]
    rwa [List.length_append] at hrun'

/-! ## One subdivision -/

def IndexedTriangleArray.triangles {F : Type} (ita : IndexedTriangleArray F) : List (Triangle Nat) :=
  triples (ita.indices.take ita.indexCount)

/-- The undirected edges of a mesh. -/
def edges (T : List (Triangle Nat)) : Finset (Sym2 Nat) := ((meshSides T).map edge).toFinset

theorem mem_edges {T : List (Triangle Nat)} {z : Sym2 Nat} : z ∈ edges T ↔ IsEdge T z := by
  rw [edges, List.mem_toFinset, List.mem_map, IsEdge]

/-- A closed, consistently oriented surface, whose arrays hold its indices and vertices. -/
structure IsSurface {F : Type} (ita : IndexedTriangleArray F) : Prop where
  whole : ita.indexCount % 3 = 0
  indices_le : ita.indexCount ≤ ita.indices.length
  vertices_le : 3 * ita.vertexCount ≤ ita.vertices.length
  below : ∀ t ∈ ita.triangles, t.1 < ita.vertexCount ∧ t.2.1 < ita.vertexCount ∧ t.2.2 < ita.vertexCount
  closed : Closed ita.triangles

/-- What one subdivision does: each edge is split at one new vertex in its middle, and
each triangle is divided in four at the new vertices. -/
structure Subdivides (ita ita' : IndexedTriangleArray K) (split : Sym2 Nat → Nat) : Prop where
  indexCount : ita'.indexCount = 4 * ita.indexCount
  vertexCount : ita'.vertexCount = ita.vertexCount + (edges ita.triangles).card
  kept : ∀ v < ita.vertexCount, vertexAt ita'.vertices v = vertexAt ita.vertices v
  new : Set.BijOn split (edges ita.triangles) (Set.Ico ita.vertexCount ita'.vertexCount)
  middle : ∀ d ∈ meshSides ita.triangles, ∃ p q, vertexAt ita.vertices d.1 = some p ∧
    vertexAt ita.vertices d.2 = some q ∧ vertexAt ita'.vertices (split (edge d)) = some (midpoint p q)
  divided : ita'.triangles.Perm (ita.triangles.flatMap (quarters split))

theorem IsSurface.vertices_triangles {F : Type} {ita : IndexedTriangleArray F} (h : IsSurface ita) :
    vertices ita.triangles = ita.indices.take ita.indexCount := by
  refine vertices_triples ?_
  rw [List.length_take, Nat.min_eq_left h.indices_le]
  exact h.whole

theorem IsSurface.length_triangles {F : Type} {ita : IndexedTriangleArray F} (h : IsSurface ita) :
    ita.indexCount = 3 * ita.triangles.length := by
  rw [← length_vertices, h.vertices_triangles, List.length_take, Nat.min_eq_left h.indices_le]

theorem IsSurface.side_lt {F : Type} {ita : IndexedTriangleArray F} (h : IsSurface ita) {d : Nat × Nat}
    (hd : d ∈ meshSides ita.triangles) : d.1 < ita.vertexCount ∧ d.2 < ita.vertexCount := by
  obtain ⟨t, ht, hd⟩ := mem_meshSides.1 hd
  obtain ⟨h1, h2, h3⟩ := h.below t ht
  rcases mem_sides.1 hd with rfl | rfl | rfl
  · exact ⟨h1, h2⟩
  · exact ⟨h2, h3⟩
  · exact ⟨h3, h1⟩

/-- The vertices of the split edges are the new ones. -/
theorem Splitting.bijOn (h : Splitting ita done s) :
    Set.BijOn s.2.splitOf {z | z ∈ s.2.keys} (Set.Ico ita.vertexCount s.1.vertexCount) := by
  refine ⟨fun z hz => ?_, fun z hz z' hz' heq => ?_, fun n hn => ?_⟩
  · obtain ⟨e, he, -, hsplit⟩ := EdgeMap.exists_entry hz
    rw [← hsplit]
    exact h.number_lt he
  · obtain ⟨e, he, rfl, hsplit⟩ := EdgeMap.exists_entry hz
    obtain ⟨e', he', rfl, hsplit'⟩ := EdgeMap.exists_entry hz'
    have hnodup : (s.2.map Prod.snd).Nodup := by
      rw [h.numbers, List.nodup_reverse]
      exact List.nodup_range'
    rw [List.inj_on_of_nodup_map hnodup he he' (by rw [hsplit, hsplit', heq])]
  · have hmem : n ∈ s.2.map Prod.snd := by
      rw [h.numbers, List.mem_reverse, List.mem_range'_1, ← h.vertexCount]
      exact hn
    obtain ⟨e, he, rfl⟩ := List.mem_map.1 hmem
    exact ⟨e.1.sym, (List.mem_map_of_mem he : e.1.sym ∈ s.2.keys), EdgeMap.splitOf_eq h.nodup he⟩

theorem Splitting.keys_eq {T : List (Triangle Nat)} (h : Splitting ita (meshSides T) s) :
    {z | z ∈ s.2.keys} = (edges T : Set (Sym2 Nat)) := by
  ext z
  rw [Set.mem_ofPred_eq, h.keys, Finset.mem_coe, mem_edges]
  rfl

theorem Splitting.card {T : List (Triangle Nat)} (h : Splitting ita (meshSides T) s) :
    (edges T).card = s.2.length := by
  have hkeys : s.2.keys.toFinset = edges T := by
    ext z
    rw [List.mem_toFinset, ← Finset.mem_coe, ← h.keys_eq]
    rfl
  rw [← hkeys, List.toFinset_card_of_nodup h.nodup, EdgeMap.keys, List.length_map]

theorem length_otherQuarters (split : Sym2 Nat → Nat) (T : List (Triangle Nat)) :
    (T.flatMap (otherQuarters split)).length = 3 * T.length := by
  induction T with
  | nil => rfl
  | cons t T ih =>
    rw [List.flatMap_cons, List.length_append, ih]
    simp only [otherQuarters, List.length_cons, List.length_nil]
    omega

theorem perm_quarters (split : Sym2 Nat → Nat) (T : List (Triangle Nat)) :
    (T.map (firstQuarter split) ++ T.flatMap (otherQuarters split)).Perm (T.flatMap (quarters split)) := by
  rw [List.map_eq_flatMap]
  exact List.flatMap_append_perm T _ _

/-- The vertex in the map is the middle of the edge, in either direction. -/
theorem Splitting.middle {T : List (Triangle Nat)} (h : Splitting ita (meshSides T) s) {d : Nat × Nat}
    (hd : d ∈ meshSides T) : ∃ p q, vertexAt ita.vertices d.1 = some p ∧ vertexAt ita.vertices d.2 = some q ∧
      vertexAt s.1.vertices (s.2.splitOf (edge d)) = some (midpoint p q) := by
  obtain ⟨e, he, hsym, hsplit⟩ := EdgeMap.exists_entry ((h.keys _).2 ⟨d, hd, rfl⟩)
  obtain ⟨p, q, hp, hq, hmid⟩ := h.midpoints e he
  rw [← hsplit]
  rcases Sym2.eq_iff.1 hsym with ⟨ha, hb⟩ | ⟨ha, hb⟩
  · exact ⟨p, q, ha ▸ hp, hb ▸ hq, hmid⟩
  · exact ⟨q, p, hb ▸ hq, ha ▸ hp, by rw [hmid, midpoint_comm]⟩

/-- The two loops on any surface. -/
theorem subdivide_spec (hindices : Copies copyIndices) (hvertices : Copies copyVertices) (h : IsSurface ita) :
    ∃ ita' split, subdivide copyIndices copyVertices ita = some ita' ∧ Subdivides ita ita' split ∧
      ita'.indexCount ≤ ita'.indices.length ∧ 3 * ita'.vertexCount ≤ ita'.vertices.length := by
  have hstart : Splitting ita [] (ita, []) := by
    refine ⟨rfl, rfl, rfl, h.vertices_le, fun _ _ => rfl, List.nodup_nil, fun z => ?_, rfl, fun e he => ?_⟩
    · simp [EdgeMap.keys]
    · cases he
  have hpre : vertices ita.triangles <+: ita.indices := h.vertices_triangles ▸ List.take_prefix _ _
  obtain ⟨⟨ita₁, edgeMap⟩, hfirst, hsplitting⟩ :=
    splitEdges_spec hvertices h.vertices_le (fun d hd => h.side_lt hd) hstart
  rw [List.nil_append] at hsplitting
  have hkeys : ∀ t ∈ ita.triangles, ∀ d ∈ sides t, edge d ∈ edgeMap.keys := fun t ht d hd =>
    (hsplitting.keys _).2 ⟨d, mem_meshSides.2 ⟨t, ht, hd⟩, rfl⟩
  have hdivided : Divided edgeMap.splitOf [] ita.triangles ita₁ := by
    refine ⟨?_, ?_⟩
    · rw [hsplitting.indices]
      simpa using hpre
    · rw [hsplitting.indexCount, h.length_triangles]
      simp
  obtain ⟨ita', hsecond, hvertexCount, hvertices', hall⟩ := splitTriangles_spec hindices hkeys hdivided
  have hturns : (ita.indexCount + 2) / 3 = ita.triangles.length := by
    have := h.length_triangles
    omega
  have htriangles : ita'.triangles =
      ita.triangles.map (firstQuarter edgeMap.splitOf) ++ ita.triangles.flatMap (otherQuarters edgeMap.splitOf) := by
    obtain ⟨hindices', hcount'⟩ := hall
    rw [List.nil_append, List.append_nil] at hindices' hcount'
    rw [IndexedTriangleArray.triangles, hcount', ← length_vertices, ← List.prefix_iff_eq_take.1 hindices',
      triples_vertices]
  refine ⟨ita', edgeMap.splitOf, ?_, ⟨?_, ?_, fun v hv => ?_, ?_, fun d hd => ?_, ?_⟩, ?_, ?_⟩
  · rw [subdivide, hturns, firstLoop_eq (fun c hc => hc) hpre, map_sideAt, hfirst, Option.bind_eq_bind,
      Option.bind_some, List.range_eq_range']
    exact hsecond
  · rw [hall.indexCount, h.length_triangles]
    simp only [List.nil_append, List.append_nil, List.length_append, List.length_map, length_otherQuarters]
    omega
  · rw [hvertexCount, hsplitting.vertexCount, hsplitting.card]
  · rw [hvertices', hsplitting.kept v hv]
  · rw [hvertexCount, ← hsplitting.keys_eq]
    exact hsplitting.bijOn
  · rw [hvertices']
    exact hsplitting.middle hd
  · rw [htriangles]
    exact perm_quarters _ _
  · have hle := hall.indices.length_le
    rwa [length_vertices, ← hall.indexCount] at hle
  · rw [hvertexCount, hvertices']
    exact hsplitting.room

/-! ## Surfaces -/

variable {ita' : IndexedTriangleArray K} {split : Sym2 Nat → Nat}

theorem IsSurface.corner_lt {F : Type} {ita : IndexedTriangleArray F} (h : IsSurface ita) {t : Triangle Nat}
    (ht : t ∈ ita.triangles) {v : Nat} (hv : v ∈ corners t) : v < ita.vertexCount := by
  obtain ⟨h1, h2, h3⟩ := h.below t ht
  rcases hv with rfl | rfl | rfl
  · exact h1
  · exact h2
  · exact h3

/-- The new vertices are fit to divide the triangles. -/
theorem Subdivides.splits (h : Subdivides ita ita' split) (hsurface : IsSurface ita) :
    Splits ita.triangles split := by
  refine ⟨fun z z' hz hz' heq => ?_, fun z hz t ht hcorner => ?_⟩
  · exact h.new.injOn (mem_edges.2 hz) (mem_edges.2 hz') heq
  · have hnew := h.new.mapsTo (mem_edges.2 hz)
    have hlt := hsurface.corner_lt ht hcorner
    exact absurd hlt (not_lt.2 hnew.1)

theorem Subdivides.below (h : Subdivides ita ita' split) (hsurface : IsSurface ita) {q : Triangle Nat}
    (hq : q ∈ ita'.triangles) : q.1 < ita'.vertexCount ∧ q.2.1 < ita'.vertexCount ∧ q.2.2 < ita'.vertexCount := by
  obtain ⟨⟨a, b, c⟩, ht, hq⟩ := List.mem_flatMap.1 (h.divided.mem_iff.1 hq)
  have hle : ita.vertexCount ≤ ita'.vertexCount := by
    rw [h.vertexCount]
    exact Nat.le_add_right _ _
  have hold : ∀ v ∈ corners (a, b, c), v < ita'.vertexCount := fun v hv => (hsurface.corner_lt ht hv).trans_le hle
  have hnew : ∀ d ∈ sides (a, b, c), split (edge d) < ita'.vertexCount := fun d hd =>
    (h.new.mapsTo (mem_edges.2 ⟨d, mem_meshSides.2 ⟨_, ht, hd⟩, rfl⟩)).2
  have ha := hold a (by simp [corners])
  have hb := hold b (by simp [corners])
  have hc := hold c (by simp [corners])
  have hab := hnew (a, b) (mem_sides.2 (.inl rfl))
  have hbc := hnew (b, c) (mem_sides.2 (.inr (.inl rfl)))
  have hca := hnew (c, a) (mem_sides.2 (.inr (.inr rfl)))
  simp only [quarters, List.mem_cons, List.not_mem_nil, or_false] at hq
  rcases hq with rfl | rfl | rfl | rfl
  · exact ⟨ha, hab, hca⟩
  · exact ⟨hab, hbc, hca⟩
  · exact ⟨hab, hb, hbc⟩
  · exact ⟨hca, hbc, hc⟩

/-- A subdivided surface is a surface, if no two of its triangles have the same vertices. -/
theorem Subdivides.isSurface (h : Subdivides ita ita' split) (hsurface : IsSurface ita)
    (htwins : NoTwins ita.triangles)
    (hindices : ita'.indexCount ≤ ita'.indices.length) (hvertices : 3 * ita'.vertexCount ≤ ita'.vertices.length) :
    IsSurface ita' ∧ NoTwins ita'.triangles := by
  have hsplits := h.splits hsurface
  refine ⟨⟨?_, hindices, hvertices, fun q hq => h.below hsurface hq, ?_⟩, fun q hq q' hq' heq => ?_⟩
  · have hwhole := hsurface.whole
    rw [h.indexCount]
    omega
  · exact (hsurface.closed.quarters hsplits htwins).perm h.divided.symm
  · exact htwins.quarters hsurface.closed hsplits q (h.divided.mem_iff.1 hq) q' (h.divided.mem_iff.1 hq') heq

/-- `k` subdivisions, one after the other. -/
def subdivideTimes (f : IndexedTriangleArray K → Option (IndexedTriangleArray K)) :
    Nat → IndexedTriangleArray K → Option (IndexedTriangleArray K)
  | 0, ita => some ita
  | k + 1, ita => (subdivideTimes f k ita).bind f

/-- After `k` subdivisions the mesh is a surface with the old vertices and `4 ^ k` times the
indices, and the next one divides it again. -/
def StaysSurface (f : IndexedTriangleArray K → Option (IndexedTriangleArray K)) (ita : IndexedTriangleArray K)
    (k : Nat) : Prop :=
  ∃ ita', subdivideTimes f k ita = some ita' ∧ IsSurface ita' ∧ ita'.indexCount = 4 ^ k * ita.indexCount ∧
    (∀ v < ita.vertexCount, vertexAt ita'.vertices v = vertexAt ita.vertices v) ∧
    ∃ ita'' split, f ita' = some ita'' ∧ Subdivides ita' ita'' split

theorem subdivide_stays (hindices : Copies copyIndices) (hvertices : Copies copyVertices) (h : IsSurface ita)
    (htwins : NoTwins ita.triangles) (k : Nat) : StaysSurface (subdivide copyIndices copyVertices) ita k := by
  have hrun : ∃ ita', subdivideTimes (subdivide copyIndices copyVertices) k ita = some ita' ∧ IsSurface ita' ∧
      NoTwins ita'.triangles ∧ ita'.indexCount = 4 ^ k * ita.indexCount ∧ ita.vertexCount ≤ ita'.vertexCount ∧
      ∀ v < ita.vertexCount, vertexAt ita'.vertices v = vertexAt ita.vertices v := by
    induction k with
    | zero => exact ⟨ita, rfl, h, htwins, by rw [Nat.pow_zero, Nat.one_mul], le_rfl, fun _ _ => rfl⟩
    | succ k ih =>
      obtain ⟨ita₁, hita₁, hsurface, htwins₁, hcount, hle, hkept⟩ := ih
      obtain ⟨ita₂, split, hita₂, hsub, hindices₂, hvertices₂⟩ := subdivide_spec hindices hvertices hsurface
      obtain ⟨hsurface₂, htwins₂⟩ := hsub.isSurface hsurface htwins₁ hindices₂ hvertices₂
      refine ⟨ita₂, ?_, hsurface₂, htwins₂, ?_, ?_, fun v hv => ?_⟩
      · rw [subdivideTimes, hita₁, Option.bind_some, hita₂]
      · rw [hsub.indexCount, hcount, Nat.pow_succ, ← Nat.mul_assoc, Nat.mul_comm 4]
      · rw [hsub.vertexCount]
        exact hle.trans (Nat.le_add_right _ _)
      · rw [hsub.kept v (hv.trans_le hle), hkept v hv]
  obtain ⟨ita', hita', hsurface, -, hcount, -, hkept⟩ := hrun
  obtain ⟨ita'', split, hita'', hsub, -, -⟩ := subdivide_spec hindices hvertices hsurface
  exact ⟨ita', hita', hsurface, hcount, hkept, ita'', split, hita'', hsub⟩

/-- A tetrahedron. -/
def tetrahedron : IndexedTriangleArray ℚ :=
  ⟨12, [0, 1, 2, 0, 3, 1, 1, 3, 2, 2, 3, 0], 4, [0, 0, 0, 1, 0, 0, 0, 1, 0, 0, 0, 1]⟩

/-- Two triangles back to back. -/
def backToBack : IndexedTriangleArray ℚ := ⟨6, [0, 1, 2, 0, 2, 1], 3, [0, 0, 0, 1, 0, 0, 0, 1, 0]⟩

end WorldWind.GeometryBuilder
