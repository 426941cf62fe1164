import WorldWind.GeometryBuilder.Normals
import WorldWind.Lib.GrowingArray
import WorldWind.Lib.TrianglePrimitives
/-!
# `tessellatePolygon`

The vertices of a contour go to the tessellator, each with its number in the
vertex array, and a callback collects the primitives that come back into one
array of triangles. The tessellator is a parameter: a normal and a contour give
a list of primitives. Ints are exact.
-/

namespace WorldWind.GeometryBuilder

open Geom.Exact Lib.GrowingArray Lib.TriangleStrip Lib.TrianglePrimitives

/-- The types of `begin`; `points` is the value before the first one. -/
inductive PrimitiveType where
  | points
  | triangles
  | triangleStrip
  | triangleFan
  deriving DecidableEq, Repr

/-- The calls from `begin` to `end`: a type, and the data object of each vertex. -/
structure Primitive where
  type : PrimitiveType
  data : List Nat
  deriving DecidableEq, Repr

structure IndexedTriangleArray (F : Type) where
  indexCount : Nat
  indices : List Nat
  vertexCount : Nat
  vertices : List F
  deriving DecidableEq, Repr

structure TessellatorCallback (F : Type) where
  type : PrimitiveType
  indexCount : Nat
  primIndexCount : Nat
  vertexCount : Nat
  indices : List Nat
  primIndices : List Nat
  vertices : List F

/-- The loop of `nextPowerOfTwo`, for so many turns. -/
def powerOfTwoFrom (n : Nat) : Nat → Nat → Nat
  | 0, i => i
  | turns + 1, i => if i < n then powerOfTwoFrom n turns (2 * i) else i

def nextPowerOfTwo (n : Nat) : Nat := powerOfTwoFrom n n 1

namespace TessellatorCallback

variable {F : Type}

def new (zero : F) (vertexCount : Nat) (vertices : List F) : TessellatorCallback F :=
  let initialCapacity := nextPowerOfTwo (3 * vertexCount)
  { type := .points, indexCount := 0, primIndexCount := 0, vertexCount
    indices := List.replicate initialCapacity 0
    primIndices := List.replicate initialCapacity 0
    vertices := copyOf zero vertices initialCapacity }

def addTriangle (orientation : Orientation) (cb : TessellatorCallback F) (i1 i2 i3 : Nat) :
    Option (TessellatorCallback F) := do
  let minCapacity := cb.indexCount + 3
  -- `oldCapacity = minCapacity` ends the loop after its first turn
  let indices :=
    if minCapacity > cb.indices.length then copyOf 0 cb.indices (2 * cb.indices.length) else cb.indices
  let v1 ← cb.primIndices[i1]?
  let v2 ← cb.primIndices[i2]?
  let v3 ← cb.primIndices[i3]?
  let corners :=
    match orientation with
    | .inside => [v1, v3, v2]
    | .outside => [v1, v2, v3]
  let (indices, indexCount) ← appendAll indices cb.indexCount corners
  return { cb with indices, indexCount }

/-- `begin`. -/
def beginPrimitive (cb : TessellatorCallback F) (type : PrimitiveType) : TessellatorCallback F :=
  { cb with type, primIndexCount := 0 }

def vertex (cb : TessellatorCallback F) (vertexData : Nat) : Option (TessellatorCallback F) := do
  let minCapacity := cb.primIndexCount + 1
  let primIndices ← grow (fun a n => some (copyOf 0 a n)) minCapacity minCapacity cb.primIndices
  let (primIndices, primIndexCount) ← appendAll primIndices cb.primIndexCount [vertexData]
  return { cb with primIndices, primIndexCount }

/-- `end`. -/
def endPrimitive (orientation : Orientation) (cb : TessellatorCallback F) : Option (TessellatorCallback F) :=
  let loop := List.range' 2 (cb.primIndexCount - 2)
  match cb.type with
  | .triangles =>
    loop.foldlM (fun cb i => if (i + 1) % 3 = 0 then cb.addTriangle orientation (i - 2) (i - 1) i else some cb) cb
  | .triangleStrip =>
    loop.foldlM (fun cb i =>
      if i % 2 = 0 then cb.addTriangle orientation (i - 2) (i - 1) i
      else cb.addTriangle orientation (i - 1) (i - 2) i) cb
  | .triangleFan => loop.foldlM (fun cb i => cb.addTriangle orientation 0 (i - 1) i) cb
  | .points => some cb

def primitive (orientation : Orientation) (cb : TessellatorCallback F) (p : Primitive) :
    Option (TessellatorCallback F) := do
  let cb ← p.data.foldlM vertex (cb.beginPrimitive p.type)
  cb.endPrimitive orientation

end TessellatorCallback

variable {F : Type} [Zero F] [One F]

/-- Vertex number `v` of an array of coordinates. -/
def vertexAt (vertices : List F) (v : Nat) : Option (Vec4 F) := do
  let x ← vertices[3 * v]?
  let y ← vertices[3 * v + 1]?
  let z ← vertices[3 * v + 2]?
  return ⟨x, y, z⟩

/-- The tessellator's primitives for a normal and a contour of vertices with their data objects. -/
abbrev Tessellator (F : Type) := Vec4 F → List (Vec4 F × Nat) → List Primitive

/-- The contour that is handed to the tessellator. -/
def contour (pos count : Nat) (vertices : List F) : Option (List (Vec4 F × Nat)) :=
  (List.range count).mapM fun i => (vertexAt vertices (pos + i)).map fun v => (v, pos + i)

def tessellatePolygon (glu : Tessellator F) (orientation : Orientation) (pos count : Nat) (vertices : List F)
    (normal : Option (Vec4 F)) : Option (IndexedTriangleArray F) := do
  if vertices.length < pos + count then none
  else
    let normal := normal.getD ⟨0, 0, 1⟩
    let cb := TessellatorCallback.new 0 count vertices
    let points ← contour pos count vertices
    let cb ← (glu normal points).foldlM (TessellatorCallback.primitive orientation) cb
    return ⟨cb.indexCount, cb.indices, cb.vertexCount, cb.vertices⟩

end WorldWind.GeometryBuilder
