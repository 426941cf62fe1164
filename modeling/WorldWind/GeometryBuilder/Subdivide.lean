import WorldWind.GeometryBuilder.Polygon
import WorldWind.Lib.Grid
import WorldWind.Lib.Numerals
/-!
# Subdivision of indexed triangles

`subdivideIndexedTriangleArray` and `subdivideIndexedTriangleBuffer`: every edge
is split once, at a new vertex that is found again by a map of the edges, and
every triangle becomes four, one in its place and three behind the others. The
arrays and buffers grow by copies; a buffer's limit is its capacity.
-/

namespace WorldWind.GeometryBuilder

open Lib.GrowingArray Lib.Grid Lib.JavaArray
open scoped Lib.Numerals

structure Edge where
  a : Nat
  b : Nat
  deriving DecidableEq, Repr

/-- The same edge in either direction. -/
def Edge.equals (e that : Edge) : Bool := (e.a = that.a ∧ e.b = that.b) ∨ (e.a = that.b ∧ e.b = that.a)

/-- The entries of the map, the last one first. -/
abbrev EdgeMap := List (Edge × Nat)

def EdgeMap.get (edgeMap : EdgeMap) (e : Edge) : Option Nat := (edgeMap.find? fun p => p.1.equals e).map Prod.snd

/-- `put`, for an edge that is not in the map. -/
def EdgeMap.put (edgeMap : EdgeMap) (e : Edge) (split : Nat) : EdgeMap := (e, split) :: edgeMap

variable {K : Type} [Field K]

/-- `copyOf` of a buffer: `put` throws where the original does not fit. -/
def bufferCopyOf {F : Type} (zero : F) (original : List F) (newLength : Nat) : Option (List F) :=
  if original.length ≤ newLength then some (blit (List.replicate newLength zero) 0 original) else none

/-- One of the three assignments of `splitVertex`. -/
def average (vertices : List K) (i ia ib : Nat) : Option (List K) := do
  let x ← vertices[ia]?
  let y ← vertices[ib]?
  write vertices i ((x + y) / 2)

def splitVertex (copy : List K → Nat → Option (List K)) (ita : IndexedTriangleArray K) (a b : Nat) :
    Option (IndexedTriangleArray K × Nat) := do
  let minCapacity := 3 * (ita.vertexCount + 1)
  let vertices ← grow copy minCapacity minCapacity ita.vertices
  let s := ita.vertexCount
  let is := 3 * s
  let ia := 3 * a
  let ib := 3 * b
  let vertices ← average vertices is ia ib
  let vertices ← average vertices (is + 1) (ia + 1) (ib + 1)
  let vertices ← average vertices (is + 2) (ia + 2) (ib + 2)
  return ({ ita with vertices, vertexCount := ita.vertexCount + 1 }, s)

/-- What the first loop does with an edge. -/
def splitEdge (copy : List K → Nat → Option (List K)) (s : IndexedTriangleArray K × EdgeMap) (d : Nat × Nat) :
    Option (IndexedTriangleArray K × EdgeMap) :=
  let e : Edge := ⟨d.1, d.2⟩
  match s.2.get e with
  | some _ => some s
  | none => do
    let (ita, split) ← splitVertex copy s.1 d.1 d.2
    return (ita, s.2.put e split)

/-- Side `j` of the triangle that begins at index `3 * m`. -/
def readSide (indices : List Nat) (m j : Nat) : Option (Nat × Nat) := do
  let i := 3 * m
  let a ← indices[i + j]?
  let b ← indices[if j < 2 then i + j + 1 else i]?
  return (a, b)

def indexSplitTriangle (copy : List Nat → Nat → Option (List Nat)) (ita : IndexedTriangleArray K)
    (original a b c ab bc ca : Nat) : Option (IndexedTriangleArray K) := do
  let minCapacity := ita.indexCount + 9
  let indices ← grow copy minCapacity minCapacity ita.indices
  -- the lower left triangle replaces the original
  let indices ← write indices original a
  let indices ← write indices (original + 1) ab
  let indices ← write indices (original + 2) ca
  let (indices, indexCount) ← appendAll indices ita.indexCount [ab, bc, ca, ab, b, bc, ca, bc, c]
  return { ita with indices, indexCount }

/-- One turn of the second loop: a missing edge is a `null` that is unboxed. -/
def splitTriangle (copy : List Nat → Nat → Option (List Nat)) (edgeMap : EdgeMap) (ita : IndexedTriangleArray K)
    (m : Nat) : Option (IndexedTriangleArray K) := do
  let i := 3 * m
  let a ← ita.indices[i]?
  let b ← ita.indices[i + 1]?
  let c ← ita.indices[i + 2]?
  let ab ← edgeMap.get ⟨a, b⟩
  let bc ← edgeMap.get ⟨b, c⟩
  let ca ← edgeMap.get ⟨c, a⟩
  indexSplitTriangle copy ita i a b c ab bc ca

/-- Both methods, with the copies that they grow by. -/
def subdivide (copyIndices : List Nat → Nat → Option (List Nat)) (copyVertices : List K → Nat → Option (List K))
    (ita : IndexedTriangleArray K) : Option (IndexedTriangleArray K) := do
  -- the turns of `for (i = 0; i < indexCount; i += 3)`
  let turns := (ita.indexCount + 2) / 3
  let (ita, edgeMap) ← (cells turns 3).foldlM (fun s c => do
    let d ← readSide s.1.indices c.1 c.2
    splitEdge copyVertices s d) (ita, [])
  (List.range turns).foldlM (splitTriangle copyIndices edgeMap) ita

def subdivideIndexedTriangleArray : IndexedTriangleArray K → Option (IndexedTriangleArray K) :=
  subdivide (fun a n => some (copyOf 0 a n)) fun a n => some (copyOf 0 a n)

/-- The fields of the array, as buffers. -/
abbrev IndexedTriangleBuffer := IndexedTriangleArray

def subdivideIndexedTriangleBuffer : IndexedTriangleBuffer K → Option (IndexedTriangleBuffer K) :=
  subdivide (bufferCopyOf 0) (bufferCopyOf 0)

end WorldWind.GeometryBuilder
