import WorldWind.GeometryBuilder.Polygon
import WorldWind.Lib.Loops
/-!
# The triangles of a tessellated polygon

For any tessellator whose vertices have the data objects of the contour, the
array holds the triangles of its primitives in order. Their indices count from
the first vertex of the input, but the array has only as many vertices as the
contour: the result is right if and only if no triangle has a vertex that is not
among the first `count` vertices of the input (`tessellatePolygon_right_iff`).
-/

namespace WorldWind.GeometryBuilder

open Geom.Exact Lib.GrowingArray Lib.TriangleStrip Lib.TrianglePrimitives Lib.Loops

variable {F : Type}

/-! ## What the primitives denote -/

/-- The triangles of a primitive, with the tessellator's winding. -/
def Primitive.triangles (p : Primitive) : List (Triangle Nat) :=
  match p.type with
  | .triangles => triples p.data
  | .triangleStrip => Lib.TriangleStrip.triangles false p.data
  | .triangleFan => fan p.data
  | .points => []

/-- The indices of a triangle, in the winding of the orientation. -/
def Orientation.corners (orientation : Orientation) (t : Triangle Nat) : List Nat :=
  match orientation with
  | .inside => [t.1, t.2.2, t.2.1]
  | .outside => [t.1, t.2.1, t.2.2]

@[simp] theorem Orientation.length_corners (orientation : Orientation) (t : Triangle Nat) :
    (orientation.corners t).length = 3 := by
  cases orientation <;> rfl

theorem Orientation.mem_corners {orientation : Orientation} {t : Triangle Nat} {v : Nat} :
    v ∈ orientation.corners t ↔ v = t.1 ∨ v = t.2.1 ∨ v = t.2.2 := by
  cases orientation
  · simp only [corners, List.mem_cons, List.not_mem_nil, or_false]
    rw [or_comm (a := v = t.2.2)]
  · simp only [corners, List.mem_cons, List.not_mem_nil, or_false]

/-- The indices of all triangles of the primitives, in order. -/
def denoted (orientation : Orientation) (primitives : List Primitive) : List Nat :=
  primitives.flatMap fun p => p.triangles.flatMap orientation.corners

/-- The triangles that `end` adds, by the places of their vertices in the primitive. -/
def indexTriangles (type : PrimitiveType) (n : Nat) : List (Triangle Nat) :=
  match type with
  | .triangles => ((List.range (n - 2)).filter fun i => i % 3 = 0).map fun i => (i, i + 1, i + 2)
  | .triangleStrip => (List.range (n - 2)).map fun i => triangle (i % 2 == 1) i (i + 1) (i + 2)
  | .triangleFan => (List.range (n - 2)).map fun i => (0, i + 1, i + 2)
  | .points => []

theorem Triangle.map_triangle (f : Nat → Nat) (turned : Bool) (a b c : Nat) :
    Triangle.map f (triangle turned a b c) = triangle turned (f a) (f b) (f c) := by
  cases turned <;> rfl

theorem strip_range (f : Nat → Nat) (n : Nat) : Lib.TriangleStrip.triangles false ((List.range n).map f) =
    (List.range (n - 2)).map fun i => triangle (i % 2 == 1) (f i) (f (i + 1)) (f (i + 2)) := by
  match n with
  | 0 => rfl
  | 1 => rfl
  | n + 2 =>
    rw [triangles_range, Nat.add_sub_cancel]
    simp only [Bool.false_bne]

/-- The triangles of a primitive are those of the places. -/
theorem Primitive.triangles_eq (p : Primitive) :
    p.triangles = (indexTriangles p.type p.data.length).map (Triangle.map (p.data.getD · 0)) := by
  obtain ⟨type, data⟩ := p
  conv_lhs => rw [triangles, ← range_getD data 0]
  cases type with
  | points => rfl
  | triangles =>
    simp only [indexTriangles, triples_range, List.map_map]
    rfl
  | triangleStrip =>
    simp only [indexTriangles, strip_range, List.map_map]
    refine List.map_congr_left fun i _ => ?_
    rw [Function.comp_apply, Triangle.map_triangle]
  | triangleFan =>
    simp only [indexTriangles, fan_range, List.map_map]
    rfl

theorem indexTriangles_lt {type : PrimitiveType} {n : Nat} {t : Triangle Nat} (h : t ∈ indexTriangles type n) :
    t.1 < n ∧ t.2.1 < n ∧ t.2.2 < n := by
  cases type with
  | points => cases h
  | triangles =>
    obtain ⟨i, hi, rfl⟩ := List.mem_map.1 h
    have := List.mem_range.1 (List.mem_filter.1 hi).1
    refine ⟨?_, ?_, ?_⟩ <;> simp only <;> omega
  | triangleStrip =>
    obtain ⟨i, hi, rfl⟩ := List.mem_map.1 h
    have := List.mem_range.1 hi
    rw [triangle]
    split <;> refine ⟨?_, ?_, ?_⟩ <;> simp only <;> omega
  | triangleFan =>
    obtain ⟨i, hi, rfl⟩ := List.mem_map.1 h
    have := List.mem_range.1 hi
    refine ⟨?_, ?_, ?_⟩ <;> simp only <;> omega

/-! ## The callback -/

namespace TessellatorCallback

variable (orientation : Orientation) {count : Nat} {vertices : List F} {out prim : List Nat}
  {cb : TessellatorCallback F}

/-- The callback has collected `out`, and `prim` of the primitive; its arrays have room. -/
structure Holds (count : Nat) (vertices : List F) (out prim : List Nat) (cb : TessellatorCallback F) : Prop where
  vertexCount : cb.vertexCount = count
  vertices : cb.vertices = vertices
  indices : out <+: cb.indices
  indexCount : cb.indexCount = out.length
  primIndices : prim <+: cb.primIndices
  primIndexCount : cb.primIndexCount = prim.length
  room : 3 ≤ cb.indices.length
  primRoom : 0 < cb.primIndices.length

theorem Holds.primIndices_getElem? (h : Holds count vertices out prim cb) {i : Nat} (hi : i < prim.length) :
    cb.primIndices[i]? = some (prim.getD i 0) := by
  rw [List.getD_eq_getElem?_getD, List.getElem?_eq_getElem hi, Option.getD_some]
  exact List.prefix_iff_getElem?.1 h.primIndices i hi

/-- One doubling is enough for a triangle. -/
theorem addTriangle_spec (h : Holds count vertices out prim cb) {t : Triangle Nat} (h1 : t.1 < prim.length)
    (h2 : t.2.1 < prim.length) (h3 : t.2.2 < prim.length) :
    ∃ cb', addTriangle orientation cb t.1 t.2.1 t.2.2 = some cb' ∧ cb'.type = cb.type ∧
      Holds count vertices (out ++ orientation.corners (Triangle.map (prim.getD · 0) t)) prim cb' := by
  obtain ⟨a, ha, hout, hroom, hlen⟩ : ∃ a, (if cb.indexCount + 3 > cb.indices.length then
      copyOf 0 cb.indices (2 * cb.indices.length) else cb.indices) = a ∧ out <+: a ∧ out.length + 3 ≤ a.length ∧
      3 ≤ a.length := by
    have hle := h.indices.length_le
    have hroom := h.room
    refine ⟨_, rfl, ?_⟩
    by_cases hmin : cb.indexCount + 3 > cb.indices.length
    · rw [if_pos hmin, length_copyOf]
      exact ⟨h.indices.trans (isPrefix_copyOf 0 (by omega)), by omega, by omega⟩
    · rw [if_neg hmin]
      rw [h.indexCount] at hmin
      exact ⟨h.indices, by omega, by omega⟩
  obtain ⟨b, hb, hpre, hblen⟩ :=
    appendAll_spec hout (orientation.corners (Triangle.map (prim.getD · 0) t)) (by simpa using hroom)
  refine ⟨{ cb with indices := b, indexCount :=
    (out ++ orientation.corners (Triangle.map (prim.getD · 0) t)).length },
    ?_, rfl, ⟨h.vertexCount, h.vertices, hpre, rfl, h.primIndices, h.primIndexCount,
      hlen.trans_eq hblen.symm, h.primRoom⟩⟩
  rw [addTriangle, h.primIndices_getElem? h1, h.primIndices_getElem? h2, h.primIndices_getElem? h3, ha]
  simp only [Option.bind_eq_bind, Option.bind_some]
  rw [h.indexCount]
  cases orientation <;> exact congrArg (Option.bind · _) hb

theorem addTriangles_spec {l : List (Triangle Nat)}
    (hl : ∀ t ∈ l, t.1 < prim.length ∧ t.2.1 < prim.length ∧ t.2.2 < prim.length)
    (h : Holds count vertices out prim cb) :
    ∃ cb', l.foldlM (fun cb t => addTriangle orientation cb t.1 t.2.1 t.2.2) cb = some cb' ∧
      Holds count vertices (out ++ (l.map (Triangle.map (prim.getD · 0))).flatMap orientation.corners) prim cb' := by
  induction l generalizing out cb with
  | nil => exact ⟨cb, rfl, by simpa using h⟩
  | cons t l ih =>
    obtain ⟨h1, h2, h3⟩ := hl t List.mem_cons_self
    obtain ⟨cb', hcb', -, hholds⟩ := addTriangle_spec orientation h h1 h2 h3
    obtain ⟨cb'', hcb'', hholds'⟩ := ih (fun t' ht' => hl t' (List.mem_cons_of_mem t ht')) hholds
    refine ⟨cb'', ?_, ?_⟩
    · rw [List.foldlM_cons, hcb', Option.bind_eq_bind, Option.bind_some, hcb'']
    · rwa [List.map_cons, List.flatMap_cons, ← List.append_assoc]

/-- `end` adds the triangles of the type one after the other. -/
theorem endPrimitive_eq (cb : TessellatorCallback F) : cb.endPrimitive orientation =
    (indexTriangles cb.type cb.primIndexCount).foldlM (fun cb t =>
      addTriangle orientation cb t.1 t.2.1 t.2.2) cb := by
  rw [endPrimitive, List.range'_eq_map_range]
  cases cb.type with
  | points => rfl
  | triangles =>
    simp only [indexTriangles, List.foldlM_map, List.foldlM_filter]
    refine congrArg (fun f => List.foldlM f cb _) (funext fun cb => funext fun i => ?_)
    rw [show 2 + i - 2 = i by omega, show 2 + i - 1 = i + 1 by omega, show 2 + i = i + 2 by omega]
    by_cases h3 : i % 3 = 0
    · rw [if_pos (by omega), if_pos (by simpa using h3)]
    · rw [if_neg (by omega), if_neg (by simpa using h3)]
      rfl
  | triangleStrip =>
    simp only [indexTriangles, List.foldlM_map]
    refine congrArg (fun f => List.foldlM f cb _) (funext fun cb => funext fun i => ?_)
    rw [show 2 + i - 2 = i by omega, show 2 + i - 1 = i + 1 by omega, show 2 + i = i + 2 by omega]
    rcases Nat.mod_two_eq_zero_or_one i with heven | hodd
    · rw [if_pos (by omega), heven]
      rfl
    · rw [if_neg (by omega), hodd]
      rfl
  | triangleFan =>
    simp only [indexTriangles, List.foldlM_map]
    refine congrArg (fun f => List.foldlM f cb _) (funext fun cb => funext fun i => ?_)
    rw [show 2 + i - 1 = i + 1 by omega, show 2 + i = i + 2 by omega]

theorem vertex_spec (h : Holds count vertices out prim cb) (v : Nat) :
    ∃ cb', cb.vertex v = some cb' ∧ cb'.type = cb.type ∧ Holds count vertices out (prim ++ [v]) cb' := by
  obtain ⟨a, ha, hgrow, hmin⟩ := grow_all (copies_copyOf 0) (cb.primIndexCount + 1) h.primRoom
  rw [h.primIndexCount] at hmin
  obtain ⟨b, hb, hpre, hlen⟩ := appendAll_spec (h.primIndices.trans hgrow) [v] (by simpa using hmin)
  refine ⟨{ cb with primIndices := b, primIndexCount := (prim ++ [v]).length }, ?_, rfl,
    ⟨h.vertexCount, h.vertices, h.indices, h.indexCount, hpre, rfl, h.room,
      (Nat.succ_pos _).trans_le (hmin.trans_eq hlen.symm)⟩⟩
  rw [vertex, ha, Option.bind_eq_bind, Option.bind_some, h.primIndexCount, hb]
  rfl

theorem vertices_spec (l : List Nat) (h : Holds count vertices out prim cb) :
    ∃ cb', l.foldlM vertex cb = some cb' ∧ cb'.type = cb.type ∧ Holds count vertices out (prim ++ l) cb' := by
  induction l generalizing prim cb with
  | nil => exact ⟨cb, rfl, rfl, by simpa using h⟩
  | cons v l ih =>
    obtain ⟨cb', hcb', htype, hholds⟩ := vertex_spec h v
    obtain ⟨cb'', hcb'', htype', hholds'⟩ := ih hholds
    refine ⟨cb'', ?_, htype'.trans htype, by simpa using hholds'⟩
    rw [List.foldlM_cons, hcb', Option.bind_eq_bind, Option.bind_some, hcb'']

theorem primitive_spec (h : Holds count vertices out prim cb) (p : Primitive) :
    ∃ cb', cb.primitive orientation p = some cb' ∧
      Holds count vertices (out ++ p.triangles.flatMap orientation.corners) p.data cb' := by
  have hbegin : Holds count vertices out [] (cb.beginPrimitive p.type) :=
    ⟨h.vertexCount, h.vertices, h.indices, h.indexCount, List.nil_prefix, rfl, h.room, h.primRoom⟩
  obtain ⟨cb', hcb', htype, hholds⟩ := vertices_spec p.data hbegin
  obtain ⟨cb'', hcb'', hholds'⟩ :=
    addTriangles_spec orientation (l := indexTriangles p.type p.data.length) (fun t ht => indexTriangles_lt ht) hholds
  refine ⟨cb'', ?_, ?_⟩
  · rw [primitive, hcb', Option.bind_eq_bind, Option.bind_some, endPrimitive_eq, htype, hholds.primIndexCount]
    exact hcb''
  · rw [Primitive.triangles_eq]
    exact hholds'

theorem primitives_spec (l : List Primitive) (h : Holds count vertices out prim cb) :
    ∃ cb' prim', l.foldlM (primitive orientation) cb = some cb' ∧
      Holds count vertices (out ++ denoted orientation l) prim' cb' := by
  induction l generalizing out prim cb with
  | nil => exact ⟨cb, prim, rfl, by simpa [denoted] using h⟩
  | cons p l ih =>
    obtain ⟨cb', hcb', hholds⟩ := primitive_spec orientation h p
    obtain ⟨cb'', prim', hcb'', hholds'⟩ := ih hholds
    refine ⟨cb'', prim', ?_, ?_⟩
    · rw [List.foldlM_cons, hcb', Option.bind_eq_bind, Option.bind_some, hcb'']
    · rwa [List.append_assoc] at hholds'

end TessellatorCallback

/-! ## The array of triangles -/

theorem le_powerOfTwoFrom {n turns i : Nat} (h : n ≤ i * 2 ^ turns) : n ≤ powerOfTwoFrom n turns i := by
  induction turns generalizing i with
  | zero => rwa [Nat.pow_zero, Nat.mul_one] at h
  | succ turns ih =>
    rw [powerOfTwoFrom]
    split
    · exact ih (by rw [Nat.pow_succ] at h; linarith)
    · omega

theorem le_nextPowerOfTwo (n : Nat) : n ≤ nextPowerOfTwo n :=
  le_powerOfTwoFrom (by rw [Nat.one_mul]; exact Nat.lt_two_pow_self.le)

theorem TessellatorCallback.new_holds {count : Nat} (hcount : 3 ≤ count) (zero : F) (vertices : List F) :
    Holds count (copyOf zero vertices (nextPowerOfTwo (3 * count))) [] [] (new zero count vertices) := by
  have hcapacity := le_nextPowerOfTwo (3 * count)
  refine ⟨rfl, rfl, List.nil_prefix, rfl, List.nil_prefix, rfl, ?_, ?_⟩
  · rw [new, List.length_replicate]
    omega
  · rw [new, List.length_replicate]
    omega

variable [Zero F] [One F]

omit [One F] in
theorem vertexAt_eq {vertices : List F} {v : Nat} (h : 3 * v + 2 < vertices.length) : vertexAt vertices v =
    some ⟨vertices.getD (3 * v) 0, vertices.getD (3 * v + 1) 0, vertices.getD (3 * v + 2) 0⟩ := by
  have hget : ∀ i, i ≤ 3 * v + 2 → vertices[i]? = some (vertices.getD i 0) := by
    intro i hi
    rw [List.getD_eq_getElem?_getD, List.getElem?_eq_getElem (by omega), Option.getD_some]
  rw [vertexAt, hget _ (by omega), hget _ (by omega), hget _ (by omega)]
  rfl

/-- Vertices `pos` to `pos + count - 1` with their numbers. -/
def inputContour (pos count : Nat) (vertices : List F) : List (Vec4 F × Nat) :=
  (List.range count).map fun i =>
    (⟨vertices.getD (3 * (pos + i)) 0, vertices.getD (3 * (pos + i) + 1) 0, vertices.getD (3 * (pos + i) + 2) 0⟩,
      pos + i)

omit [One F] in
theorem contour_eq {pos count : Nat} {vertices : List F} (h : 3 * (pos + count) ≤ vertices.length) :
    contour pos count vertices = some (inputContour pos count vertices) := by
  rw [contour]
  refine mapM_eq_map fun i hi => ?_
  rw [List.mem_range] at hi
  rw [vertexAt_eq (by omega)]
  rfl

omit [One F] in
/-- The copy has the coordinates of the first vertices. -/
theorem vertexAt_copyOf {vertices : List F} {v capacity : Nat} (h : 3 * v + 2 < vertices.length)
    (hcapacity : 3 * v + 2 < capacity) : vertexAt (copyOf 0 vertices capacity) v = vertexAt vertices v := by
  rw [vertexAt, vertexAt, getElem?_copyOf 0 (by omega) (by omega), getElem?_copyOf 0 (by omega) (by omega),
    getElem?_copyOf 0 h hcapacity]

/-- The array holds the triangles of the primitives, and its indices name vertices of
its own with the coordinates of the input. -/
def TessellationRight (orientation : Orientation) (vertices : List F) (primitives : List Primitive)
    (result : Option (IndexedTriangleArray F)) : Prop :=
  ∃ ita, result = some ita ∧ ita.indexCount ≤ ita.indices.length ∧
    ita.indices.take ita.indexCount = denoted orientation primitives ∧
    ∀ v ∈ ita.indices.take ita.indexCount, v < ita.vertexCount ∧
      ∃ p, vertexAt ita.vertices v = some p ∧ vertexAt vertices v = some p

/-- The triangles have only vertices among the first `count` of the input. -/
def InFirst (count : Nat) (primitives : List Primitive) : Prop :=
  ∀ p ∈ primitives, ∀ t ∈ p.triangles, t.1 < count ∧ t.2.1 < count ∧ t.2.2 < count

instance (count : Nat) (primitives : List Primitive) : Decidable (InFirst count primitives) :=
  inferInstanceAs (Decidable (∀ p ∈ primitives, ∀ t ∈ p.triangles, t.1 < count ∧ t.2.1 < count ∧ t.2.2 < count))

theorem mem_denoted {orientation : Orientation} {primitives : List Primitive} {v : Nat} :
    v ∈ denoted orientation primitives ↔ ∃ p ∈ primitives, ∃ t ∈ p.triangles, v = t.1 ∨ v = t.2.1 ∨ v = t.2.2 := by
  simp only [denoted, List.mem_flatMap, Orientation.mem_corners]

theorem inFirst_iff (orientation : Orientation) {count : Nat} {primitives : List Primitive} :
    InFirst count primitives ↔ ∀ v ∈ denoted orientation primitives, v < count := by
  constructor
  · intro h v hv
    obtain ⟨p, hp, t, ht, hcorner⟩ := mem_denoted.1 hv
    obtain ⟨h1, h2, h3⟩ := h p hp t ht
    rcases hcorner with rfl | rfl | rfl
    · exact h1
    · exact h2
    · exact h3
  · intro h p hp t ht
    exact ⟨h _ (mem_denoted.2 ⟨p, hp, t, ht, .inl rfl⟩), h _ (mem_denoted.2 ⟨p, hp, t, ht, .inr (.inl rfl)⟩),
      h _ (mem_denoted.2 ⟨p, hp, t, ht, .inr (.inr rfl)⟩)⟩

variable (glu : Tessellator F) (orientation : Orientation) {pos count : Nat} {vertices : List F}
  (normal : Option (Vec4 F))

/-- The result, with as many vertices as the contour. -/
theorem tessellatePolygon_eq (hcount : 3 ≤ count) (hlen : 3 * (pos + count) ≤ vertices.length) :
    ∃ ita, tessellatePolygon glu orientation pos count vertices normal = some ita ∧
      denoted orientation (glu (normal.getD ⟨0, 0, 1⟩) (inputContour pos count vertices)) <+: ita.indices ∧
      ita.indexCount =
        (denoted orientation (glu (normal.getD ⟨0, 0, 1⟩) (inputContour pos count vertices))).length ∧
      ita.vertexCount = count ∧ ita.vertices = copyOf 0 vertices (nextPowerOfTwo (3 * count)) := by
  obtain ⟨cb, prim, hcb, hholds⟩ := TessellatorCallback.primitives_spec orientation
    (glu (normal.getD ⟨0, 0, 1⟩) (inputContour pos count vertices)) (TessellatorCallback.new_holds hcount 0 vertices)
  rw [List.nil_append] at hholds
  refine ⟨⟨cb.indexCount, cb.indices, cb.vertexCount, cb.vertices⟩, ?_, hholds.indices, hholds.indexCount,
    hholds.vertexCount, hholds.vertices⟩
  rw [tessellatePolygon, if_neg (by omega), contour_eq hlen]
  simp only [Option.bind_eq_bind, Option.bind_some, hcb]
  rfl

theorem tessellation_right_iff (hcount : 3 ≤ count) (hlen : 3 * (pos + count) ≤ vertices.length)
    {primitives : List Primitive}
    (hglu : glu (normal.getD ⟨0, 0, 1⟩) (inputContour pos count vertices) = primitives) :
    TessellationRight orientation vertices primitives
      (tessellatePolygon glu orientation pos count vertices normal) ↔ InFirst count primitives := by
  obtain ⟨ita, hita, hindices, hindexCount, hvertexCount, hvertices⟩ :=
    tessellatePolygon_eq glu orientation normal hcount hlen
  rw [hglu] at hindices hindexCount
  have htake : ita.indices.take ita.indexCount = denoted orientation primitives := by
    rw [hindexCount]
    exact (List.prefix_iff_eq_take.1 hindices).symm
  rw [TessellationRight, inFirst_iff orientation]
  constructor
  · rintro ⟨ita', hita', -, -, hright⟩ v hv
    obtain rfl := Option.some.inj (hita.symm.trans hita')
    rw [← hvertexCount]
    exact (hright v (htake ▸ hv)).1
  · intro hfirst
    refine ⟨ita, hita, hindexCount.trans_le hindices.length_le, htake, fun v hv => ?_⟩
    have hlt : v < count := hfirst v (htake ▸ hv)
    have hcapacity := le_nextPowerOfTwo (3 * count)
    refine ⟨hvertexCount.symm ▸ hlt, _, ?_, vertexAt_eq (by omega)⟩
    rw [hvertices, vertexAt_copyOf (by omega) (by omega), vertexAt_eq (by omega)]

/-! ## Polygons at the start of the array -/

/-- The vertices of the primitives have data objects of the contour. -/
def KeepsData (glu : Tessellator F) : Prop :=
  ∀ normal points, ∀ p ∈ glu normal points, ∀ v ∈ p.data, v ∈ points.map Prod.snd

theorem Primitive.mem_data {p : Primitive} {t : Triangle Nat} (h : t ∈ p.triangles) :
    t.1 ∈ p.data ∧ t.2.1 ∈ p.data ∧ t.2.2 ∈ p.data := by
  rw [Primitive.triangles_eq] at h
  obtain ⟨places, hplaces, rfl⟩ := List.mem_map.1 h
  obtain ⟨h1, h2, h3⟩ := indexTriangles_lt hplaces
  have hmem : ∀ i, i < p.data.length → p.data.getD i 0 ∈ p.data := by
    intro i hi
    rw [List.getD_eq_getElem?_getD, List.getElem?_eq_getElem hi, Option.getD_some]
    exact List.getElem_mem hi
  exact ⟨hmem _ h1, hmem _ h2, hmem _ h3⟩

/-- A polygon that begins with the first vertex of the array is right. -/
theorem tessellatePolygon_zero (hglu : KeepsData glu) (hcount : 3 ≤ count)
    (hlen : 3 * (0 + count) ≤ vertices.length) :
    TessellationRight orientation vertices (glu (normal.getD ⟨0, 0, 1⟩) (inputContour 0 count vertices))
      (tessellatePolygon glu orientation 0 count vertices normal) := by
  refine (tessellation_right_iff glu orientation normal hcount hlen rfl).2 fun p hp t ht => ?_
  have hlt : ∀ v ∈ p.data, v < count := by
    intro v hv
    obtain ⟨c, hc, rfl⟩ := List.mem_map.1 (hglu _ _ p hp v hv)
    obtain ⟨i, hi, rfl⟩ := List.mem_map.1 hc
    rw [Nat.zero_add]
    exact List.mem_range.1 hi
  obtain ⟨h1, h2, h3⟩ := Primitive.mem_data ht
  exact ⟨hlt _ h1, hlt _ h2, hlt _ h3⟩

/-! ## The condition -/

end WorldWind.GeometryBuilder
