import WorldWind.Geom.Barycentric
import WorldWind.Lib.JavaArray
/-!
# Vertex normals of disks

`GeometryBuilder.makeDiskVertexNormals` and `makeLongDiskVertexNormals`. An
array of coordinates is a list of vertices, three numbers each; reading or
writing outside of it throws, here `none`. The two methods number the vertices
in different ways and find a vertex's neighbours each for itself.
-/

namespace WorldWind.GeometryBuilder

open Geom.Exact Lib.JavaArray

inductive Orientation where
  | inside
  | outside
  deriving DecidableEq, Repr

variable {K : Type*} [Field K] [DecidableEq K]

def zero : Vec4 K := ⟨0, 0, 0⟩

variable (sqrt : K → K)

/-- `norm3AndSet`. -/
def norm3 (src : Vec4 K) : Vec4 K :=
  let len := src.x * src.x + src.y * src.y + src.z * src.z
  if len ≠ 0 then
    let len := sqrt len
    ⟨src.x / len, src.y / len, src.z / len⟩
  else src

def facenorm (srcVerts : List (Vec4 K)) (vertA vertB vertC : Nat) : Option (Vec4 K) := do
  let a ← srcVerts[vertA]?
  let b ← srcVerts[vertB]?
  let c ← srcVerts[vertC]?
  let ab := b.subtract3 a
  let ac := c.subtract3 a
  return norm3 sqrt (ab.cross3 ac)

/-- `norm` after the faces were added one by one. -/
def addFaces (srcVerts : List (Vec4 K)) (faces : List (Nat × Nat × Nat)) (norm : Vec4 K) : Option (Vec4 K) :=
  faces.foldlM (fun norm f => (facenorm sqrt srcVerts f.1 f.2.1 f.2.2).map norm.add3) norm

namespace Orientation

def nsign : Orientation → K
  | outside => 1
  | inside => -1

end Orientation

/-- The faces are added, and the sum is signed and normalized. -/
def facesNormal (orientation : Orientation) (srcVerts : List (Vec4 K)) (faces : List (Nat × Nat × Nat)) :
    Option (Vec4 K) := do
  let norm ← addFaces sqrt srcVerts faces zero
  return norm3 sqrt (norm.multiply3 orientation.nsign)

/-- The clockwise and the counter-clockwise face of a vertex of the first or the last loop. -/
def boundaryFaces (l index prevSlice nextSlice adjacentLoop : Nat) : List (Nat × Nat × Nat) :=
  [if l = 0 then (index, nextSlice, adjacentLoop) else (index, adjacentLoop, nextSlice),
    if l = 0 then (index, adjacentLoop, prevSlice) else (index, prevSlice, adjacentLoop)]

/-- The faces of a vertex of an internal loop, whose loops are `step` vertices apart. -/
def internalFaces (step index prevSlice nextSlice prevLoop nextLoop : Nat) : List (Nat × Nat × Nat) :=
  [(index, prevSlice, prevSlice - step), (index, prevSlice - step, prevLoop), (index, prevLoop, nextSlice - step),
    (index, nextSlice - step, nextSlice), (index, nextSlice, nextSlice + step), (index, nextSlice + step, nextLoop),
    (index, nextLoop, prevSlice + step), (index, prevSlice + step, prevSlice)]

/-- Computes and writes one normal after the other. -/
def writeNormals (n : Nat) (index : Nat → Nat) (normal : Nat → Option (Vec4 K)) (dest : List (Vec4 K)) :
    Option (List (Vec4 K)) :=
  (List.range n).foldlM (fun dest s => (normal s).bind (write dest (index s))) dest

/-! ## The disk -/

def getDiskVertexCount (slices loops : Nat) : Nat := slices * (loops + 1)

/-- The normal of the common center point. -/
def diskCenterNormal (orientation : Orientation) (slices loops : Nat) (srcVerts : List (Vec4 K)) : Option (Vec4 K) :=
  let l := 0
  facesNormal sqrt orientation srcVerts <| (List.range slices).map fun s =>
    let index := l + s * (loops + 1)
    let nextSlice := if s = slices - 1 then l else l + (s + 1) * (loops + 1)
    let adjacentLoop := index + 1
    (index, nextSlice + 1, adjacentLoop)

def diskBoundaryNormal (orientation : Orientation) (slices loops : Nat) (srcVerts : List (Vec4 K)) (l s : Nat) :
    Option (Vec4 K) :=
  let index := l + s * (loops + 1)
  let prevSlice := if s = 0 then l + (slices - 1) * (loops + 1) else l + (s - 1) * (loops + 1)
  let nextSlice := if s ≠ 0 ∧ s = slices - 1 then l else l + (s + 1) * (loops + 1)
  let adjacentLoop := if l = 0 then index + 1 else index - 1
  facesNormal sqrt orientation srcVerts (boundaryFaces l index prevSlice nextSlice adjacentLoop)

def diskInternalNormal (orientation : Orientation) (slices loops : Nat) (srcVerts : List (Vec4 K)) (l s : Nat) :
    Option (Vec4 K) :=
  let index := l + s * (loops + 1)
  let prevSlice := if s = 0 then l + (slices - 1) * (loops + 1) else l + (s - 1) * (loops + 1)
  let nextSlice := if s ≠ 0 ∧ s = slices - 1 then l else l + (s + 1) * (loops + 1)
  facesNormal sqrt orientation srcVerts (internalFaces 1 index prevSlice nextSlice (index - 1) (index + 1))

def makeDiskVertexNormals (orientation : Orientation) (innerRadius : K) (slices loops : Nat)
    (srcVerts dest : List (Vec4 K)) : Option (List (Vec4 K)) :=
  if dest.length < getDiskVertexCount slices loops then none
  else
    (List.range (loops + 1)).foldlM (fun dest l =>
      let index := fun s => l + s * (loops + 1)
      if l = 0 ∨ l = loops then
        if l = 0 ∧ innerRadius = 0 then
          (diskCenterNormal sqrt orientation slices loops srcVerts).bind fun norm =>
          writeNormals slices index (fun _ => some norm) dest
        else writeNormals slices index (diskBoundaryNormal sqrt orientation slices loops srcVerts l) dest
      else writeNormals slices index (diskInternalNormal sqrt orientation slices loops srcVerts l) dest) dest

/-! ## The long disk -/

def longDiskSlices (arcSlices lengthSlices : Nat) : Nat := 2 * (arcSlices + 1) + 2 * (lengthSlices - 1)

def getLongDiskVertexCount (arcSlices lengthSlices loops : Nat) : Nat :=
  longDiskSlices arcSlices lengthSlices * (loops + 1)

/-- The first loop of a closed long disk: the slices of an arc share a point, and so do the two sides. -/
def longDiskCenterNormals (orientation : Orientation) (arcSlices lengthSlices : Nat) (srcVerts dest : List (Vec4 K)) :
    Option (List (Vec4 K)) := do
  let slices := longDiskSlices arcSlices lengthSlices
  -- top arc
  let norm ← facesNormal sqrt orientation srcVerts <|
    (List.range (arcSlices + 1)).map (fun s => (s, s + slices + 1, s + slices)) ++
      [(arcSlices, arcSlices + 1, arcSlices + slices), (0, slices, slices - 1)]
  let dest ← writeNormals (arcSlices + 1) id (fun _ => some norm) dest
  -- right and left sides
  let dest ← (List.range' 1 (lengthSlices - 1)).foldlM (fun dest s => do
    let index := s + arcSlices
    let leftSideIndex := slices - s
    let norm ← facesNormal sqrt orientation srcVerts
      [(index, index + slices, index - 1), (index, index + 1, index + slices),
        if s = 1 then (leftSideIndex, leftSideIndex + 1 - slices, leftSideIndex + slices)
        else (leftSideIndex, leftSideIndex + 1, leftSideIndex + slices),
        (leftSideIndex, leftSideIndex + slices, leftSideIndex - 1)]
    (write dest index norm).bind fun dest => write dest leftSideIndex norm) dest
  -- bottom arc
  let first := arcSlices + lengthSlices
  let norm ← facesNormal sqrt orientation srcVerts <|
    (List.range (arcSlices + 1)).map (fun s => (s + first, s + first + slices + 1, s + first + slices)) ++
      [(first, first + slices, first - 1),
        (2 * arcSlices + lengthSlices, 2 * arcSlices + lengthSlices + 1, 2 * arcSlices + lengthSlices + slices)]
  writeNormals (arcSlices + 1) (· + first) (fun _ => some norm) dest

def longDiskBoundaryNormal (orientation : Orientation) (slices : Nat) (srcVerts : List (Vec4 K)) (l s : Nat) :
    Option (Vec4 K) :=
  let index := s + l * slices
  -- the vertex itself, where the predecessor is the last of the loop
  let prevSlice := if s = 0 then l * slices else index - 1
  -- a vertex of the first loop
  let nextSlice := if s ≠ 0 ∧ s = slices - 1 then l else index + 1
  let adjacentLoop := if l = 0 then index + slices else index - slices
  facesNormal sqrt orientation srcVerts (boundaryFaces l index prevSlice nextSlice adjacentLoop)

def longDiskInternalNormal (orientation : Orientation) (slices : Nat) (srcVerts : List (Vec4 K)) (l s : Nat) :
    Option (Vec4 K) :=
  let index := s + l * slices
  let prevSlice := if s = 0 then (slices - 1) + l * slices else index - 1
  let nextSlice := if s ≠ 0 ∧ s = slices - 1 then l * slices else index + 1
  facesNormal sqrt orientation srcVerts
    (internalFaces slices index prevSlice nextSlice (index - slices) (index + slices))

def makeLongDiskVertexNormals (orientation : Orientation) (innerRadius : K) (arcSlices lengthSlices loops : Nat)
    (srcVerts dest : List (Vec4 K)) : Option (List (Vec4 K)) :=
  if dest.length < getLongDiskVertexCount arcSlices lengthSlices loops then none
  else
    let slices := longDiskSlices arcSlices lengthSlices
    (List.range (loops + 1)).foldlM (fun dest l =>
      let index := fun s => s + l * slices
      if l = 0 ∨ l = loops then
        if l = 0 ∧ innerRadius = 0 then longDiskCenterNormals sqrt orientation arcSlices lengthSlices srcVerts dest
        else writeNormals slices index (longDiskBoundaryNormal sqrt orientation slices srcVerts l) dest
      else writeNormals slices index (longDiskInternalNormal sqrt orientation slices srcVerts l) dest) dest

end WorldWind.GeometryBuilder
