import WorldWind.GeometryBuilder.Subdivide
import WorldWind.Lib.Triples
/-!
# Cylinders and wedges

`tessellateCylinderBuffer` and `tessellateWedgeBuffer`, for all faces at once: top
and bottom with their centers, the core with vertices of its own, and the sides of
a wedge, in one pair of buffers. Sine, cosine and `Math.PI` are parameters, and
ints are exact.
-/

namespace WorldWind.GeometryBuilder

open Lib.JavaArray Lib.Triples
open scoped Lib.Numerals

variable {K : Type} [Field K] [LinearOrder K]

def mul3AndSet (src : List K) (srcPos : Nat) (c : K) : Option (List K) := do
  let x ← src[srcPos]?
  let src ← write src srcPos (x * c)
  let y ← src[srcPos + 1]?
  let src ← write src (srcPos + 1) (y * c)
  let z ← src[srcPos + 2]?
  write src (srcPos + 2) (z * c)

/-- What is done to each triangle for `INSIDE`. -/
def reverseWinding (indexBuffer : List Nat) (index : Nat) : Option (List Nat) := do
  let tmp ← indexBuffer[index]?
  let last ← indexBuffer[index + 2]?
  let indexBuffer ← write indexBuffer index last
  write indexBuffer (index + 2) tmp

/-- The end of both methods. -/
def orientAndScale (orientation : Orientation) (radius : K) (indexCount : Nat) (indexBuffer : List Nat)
    (vertexCount : Nat) (vertexBuffer : List K) : Option (IndexedTriangleBuffer K) := do
  let indexBuffer ←
    match orientation with
    | .inside => (List.range ((indexCount + 2) / 3)).foldlM (fun buffer m =>
        reverseWinding buffer (3 * m)) indexBuffer
    | .outside => some indexBuffer
  let vertexBuffer ←
    if radius ≠ 1 then
      (List.range vertexCount).foldlM (fun buffer vertex => mul3AndSet buffer (3 * vertex) radius) vertexBuffer
    else some vertexBuffer
  return ⟨indexCount, indexBuffer, vertexCount, vertexBuffer⟩

/-- `(int) Math.pow(2, 2 + subdivisions)`. -/
def sliceCount (subdivisions : Nat) : Nat := 2 ^ (2 + subdivisions)

variable (sin cos : K → K) (pi : K)

/-! ## Cylinders -/

/-- The rim points of a slice. -/
def cylinderRim (radius da : K) (slices : Nat) (vertexBuffer : List K) (i : Nat) : Option (List K) := do
  let a := i * da
  let x := sin a
  let y := cos a
  let z := 1
  let index := 3 * i + 3
  let vertexBuffer ← put3 vertexBuffer index (x * radius, y * radius, z)
  -- one further for the second center point
  let index := index + 3
  let vertexBuffer ← put3 vertexBuffer (index + 3 * slices) (x * radius, y * radius, -z)
  let index := index + (6 * slices + 3 * i)
  let vertexBuffer ← put3 vertexBuffer index (x * radius, y * radius, z)
  put3 vertexBuffer (index + 3) (x * radius, y * radius, -z)

/-- The indices of a slice, and the next `coreIndex`. -/
def cylinderSlice (slices : Nat) (s : List Nat × Nat) (i : Nat) : Option (List Nat × Nat) := do
  let coreIndex := s.2
  let index := 3 * i
  let indexBuffer ← put3 s.1 index (0, if i < slices - 1 then i + 2 else 1, i + 1)
  let index := 3 * (slices + i)
  let indexBuffer ← put3 indexBuffer index
    (slices + 1, if i < slices - 1 then (slices + 1) + i + 2 else (slices + 1) + 1, (slices + 1) + i + 1)
  let index := 6 * (slices + i)
  let indexBuffer ← put3 indexBuffer index (coreIndex, coreIndex + 1, coreIndex + 2)
  let indexBuffer ← put3 indexBuffer (index + 3) (coreIndex + 2, coreIndex + 1, coreIndex + 3)
  return (indexBuffer, coreIndex + 2)

def tessellateCylinderBuffer (orientation : Orientation) (radius : K) (subdivisions : Nat) :
    Option (IndexedTriangleBuffer K) :=
  if radius < 0 then none
  else do
    let slices := sliceCount subdivisions
    let da := 2 * pi / slices
    let cylinderIndexCount := 12 * slices
    let cylinderVertexCount := 4 * slices + 4
    let indexBuffer := List.replicate cylinderIndexCount 0
    let vertexBuffer := List.replicate (3 * cylinderVertexCount) 0
    let vertexBuffer ← put3 vertexBuffer 0 (0, 0, 1)
    let vertexBuffer ← put3 vertexBuffer (3 * (slices + 1)) (0, 0, -1)
    let vertexBuffer ← (List.range slices).foldlM (cylinderRim sin cos radius da slices) vertexBuffer
    -- extra vertices for seamless texture mapping
    let wrapIndex := 3 * (4 * slices + 2)
    let x := sin 0
    let y := cos 0
    let z := 1
    let vertexBuffer ← put3 vertexBuffer wrapIndex (x * radius, y * radius, z)
    let vertexBuffer ← put3 vertexBuffer (wrapIndex + 3) (x * radius, y * radius, -z)
    let (indexBuffer, _) ← (List.range slices).foldlM (cylinderSlice slices) (indexBuffer, 2 * slices + 2)
    orientAndScale orientation radius cylinderIndexCount indexBuffer cylinderVertexCount vertexBuffer

/-! ## Wedges -/

def wedgeRim (radius da : K) (slices : Nat) (vertexBuffer : List K) (i : Nat) : Option (List K) := do
  let a := i * da
  let x := sin a
  let y := cos a
  let z := 1
  let index := 3 * i + 3
  let vertexBuffer ← put3 vertexBuffer index (x * radius, y * radius, z)
  let index := index + 3
  let vertexBuffer ← put3 vertexBuffer (index + 3 * (slices + 1)) (x * radius, y * radius, -z)
  let index := 3 * (2 * slices + 4 + 2 * i)
  let vertexBuffer ← put3 vertexBuffer index (x * radius, y * radius, z)
  put3 vertexBuffer (index + 3) (x * radius, y * radius, -z)

/-- The four vertices of a side. -/
def wedgeSide (radius angle : K) (slices : Nat) (vertexBuffer : List K) (i : Nat) : Option (List K) := do
  let x := sin (i * angle)
  let y := cos (i * angle)
  let z := 1
  let index := 3 * (4 * (slices + 1 + i) + 2)
  let vertexBuffer ← put3 vertexBuffer index (0, 0, z)
  let vertexBuffer ← put3 vertexBuffer (index + 3) (0, 0, -z)
  let vertexBuffer ← put3 vertexBuffer (index + 6) (x * radius, y * radius, z)
  put3 vertexBuffer (index + 9) (x * radius, y * radius, -z)

def wedgeSlice (slices : Nat) (s : List Nat × Nat) (i : Nat) : Option (List Nat × Nat) := do
  let coreIndex := s.2
  let index := 3 * i
  let indexBuffer ← put3 s.1 index (0, i + 2, i + 1)
  let index := 3 * (slices + i)
  let indexBuffer ← put3 indexBuffer index (slices + 2, (slices + 2) + i + 2, (slices + 2) + i + 1)
  let index := 6 * (slices + i)
  let indexBuffer ← put3 indexBuffer index (coreIndex, coreIndex + 1, coreIndex + 2)
  let indexBuffer ← put3 indexBuffer (index + 3) (coreIndex + 2, coreIndex + 1, coreIndex + 3)
  return (indexBuffer, coreIndex + 2)

/-- The two triangles of a side. -/
def wedgeSideIndices (slices : Nat) (indexBuffer : List Nat) (i : Nat) : Option (List Nat) := do
  let index := 3 * (4 * slices) + 6 * i
  let coreIndex := 4 * (slices + 1) + 2 + i * 4
  let indexBuffer ← put3 indexBuffer index (coreIndex, coreIndex + 2, coreIndex + 1)
  put3 indexBuffer (index + 3) (coreIndex + 1, coreIndex + 2, coreIndex + 3)

/-- `angle` in radians. -/
def tessellateWedgeBuffer (orientation : Orientation) (radius : K) (subdivisions : Nat) (angle : K) :
    Option (IndexedTriangleBuffer K) :=
  if radius < 0 then none
  else if angle < 0 ∨ angle > 2 * pi then none
  else do
    let slices := sliceCount subdivisions
    let da := angle / slices
    let wedgeIndexCount := 12 * slices + 12
    let wedgeVertexCount := 4 * (slices + 1) + 2 + 8
    let indexBuffer := List.replicate wedgeIndexCount 0
    let vertexBuffer := List.replicate (3 * wedgeVertexCount) 0
    let vertexBuffer ← put3 vertexBuffer 0 (0, 0, 1)
    let vertexBuffer ← put3 vertexBuffer (3 * (slices + 2)) (0, 0, -1)
    let vertexBuffer ← (List.range (slices + 1)).foldlM (wedgeRim sin cos radius da slices) vertexBuffer
    let vertexBuffer ← (List.range 2).foldlM (wedgeSide sin cos radius angle slices) vertexBuffer
    let (indexBuffer, _) ← (List.range slices).foldlM (wedgeSlice slices) (indexBuffer, 2 * (slices + 1) + 2)
    let indexBuffer ← (List.range 2).foldlM (wedgeSideIndices slices) indexBuffer
    orientAndScale orientation radius wedgeIndexCount indexBuffer wedgeVertexCount vertexBuffer

end WorldWind.GeometryBuilder
