import WorldWind.GeometryBuilder.Normals
import WorldWind.Lib.GrowingArray
import WorldWind.Lib.Grid
/-!
# Vertices and indices of grids

The methods of `GeometryBuilder` that lay the vertices of cylinders, disks, walls
and bilinear surfaces out in an array, and those that write the indices of their
triangle strips. The coordinates of a vertex are one cell, and a parameter. Ints
are exact.
-/

namespace WorldWind.GeometryBuilder.GridIndices

open Lib.GrowingArray Lib.Grid Lib.JavaArray

variable {P : Type}

/-! ## Vertices -/

/-- The loops of the methods that go through the slices first. -/
def verticesBySlice (columns rows : Nat) (point : Nat → Nat → P) (dest : List P) : Option (List P) :=
  writes dest ((cells columns (rows + 1)).map fun c => (c.2 + c.1 * (rows + 1), point c.1 c.2))

/-- The loops of the methods that go through the rows first. -/
def verticesByRow (pos columns rows : Nat) (point : Nat → Nat → P) (dest : List P) : Option (List P) :=
  writes dest ((cells (rows + 1) columns).map fun c => (pos + (c.2 + c.1 * columns), point c.2 c.1))

def getCylinderVertexCount (slices numStacks : Nat) : Nat := slices * (numStacks + 1)

def makeCylinderVertices (slices numStacks : Nat) (point : Nat → Nat → P) (dest : List P) : Option (List P) :=
  if dest.length < getCylinderVertexCount slices numStacks then none else verticesBySlice slices numStacks point dest

def getPartialCylinderVertexCount (slices numStacks : Nat) : Nat := (slices + 1) * (numStacks + 1)

def makePartialCylinderVertices (slices numStacks : Nat) (point : Nat → Nat → P) (dest : List P) : Option (List P) :=
  if dest.length < getPartialCylinderVertexCount slices numStacks then none
  else verticesBySlice (slices + 1) numStacks point dest

def getDiskVertexCount (slices loops : Nat) : Nat := slices * (loops + 1)

def makeDiskVertices (slices loops : Nat) (point : Nat → Nat → P) (dest : List P) : Option (List P) :=
  if dest.length < getDiskVertexCount slices loops then none else verticesBySlice slices loops point dest

def getPartialDiskVertexCount (slices loops : Nat) : Nat := (slices + 1) * (loops + 1)

def makePartialDiskVertices (slices loops : Nat) (point : Nat → Nat → P) (dest : List P) : Option (List P) :=
  if dest.length < getPartialDiskVertexCount slices loops then none else verticesBySlice (slices + 1) loops point dest

def getRadialWallVertexCount (pillars numStacks : Nat) : Nat := (pillars + 1) * (numStacks + 1)

def makeRadialWallVertices (pillars numStacks : Nat) (point : Nat → Nat → P) (dest : List P) : Option (List P) :=
  if dest.length < getRadialWallVertexCount pillars numStacks then none
  else verticesByRow 0 (pillars + 1) numStacks point dest

def getBilinearSurfaceVertexCount (uStacks vStacks : Nat) : Nat := (uStacks + 1) * (vStacks + 1)

def makeBilinearSurfaceVertices (destPos uStacks vStacks : Nat) (point : Nat → Nat → P) (dest : List P) :
    Option (List P) :=
  if dest.length < getBilinearSurfaceVertexCount uStacks vStacks + destPos then none
  else verticesByRow destPos (uStacks + 1) vStacks point dest

/-- `slices` of the long shapes. -/
def longSlices (arcSlices lengthSlices : Nat) : Nat := 2 * (arcSlices + 1) + 2 * (lengthSlices - 1)

/-- The points of the four sides of a long shape, each by its loop's counter and the row. -/
structure LongPoints (P : Type) where
  topArc : Nat → Nat → P
  rightSide : Nat → Nat → P
  bottomArc : Nat → Nat → P
  leftSide : Nat → Nat → P

/-- One turn of the outer loop of the long shapes. -/
def longRow (arcSlices lengthSlices : Nat) (points : LongPoints P) (j : Nat) : List P :=
  (List.range (arcSlices + 1)).map (points.topArc · j) ++
    (List.range' 1 (lengthSlices - 1)).reverse.map (points.rightSide · j) ++
    (List.range (arcSlices + 1)).map (points.bottomArc · j) ++
    (List.range' 1 (lengthSlices - 1)).map (points.leftSide · j)

def longVertices (arcSlices lengthSlices rows : Nat) (points : LongPoints P) (dest : List P) : Option (List P) :=
  (appendAll dest 0 ((List.range (rows + 1)).flatMap (longRow arcSlices lengthSlices points))).map Prod.fst

def getLongCylinderVertexCount (arcSlices lengthSlices numStacks : Nat) : Nat :=
  longSlices arcSlices lengthSlices * (numStacks + 1)

def makeLongCylinderVertices (arcSlices lengthSlices numStacks : Nat) (points : LongPoints P) (dest : List P) :
    Option (List P) :=
  if dest.length < getLongCylinderVertexCount arcSlices lengthSlices numStacks then none
  else longVertices arcSlices lengthSlices numStacks points dest

def getLongDiskVertexCount (arcSlices lengthSlices loops : Nat) : Nat :=
  longSlices arcSlices lengthSlices * (loops + 1)

def makeLongDiskVertices (arcSlices lengthSlices loops : Nat) (points : LongPoints P) (dest : List P) :
    Option (List P) :=
  if dest.length < getLongDiskVertexCount arcSlices lengthSlices loops then none
  else longVertices arcSlices lengthSlices loops points dest

/-! ## Indices -/

/-- One turn of the outer loop: `link` before each row but the first, and `pair` for each of
`slices + 1` turns of the inner loop. -/
def writeRow (slices : Nat) (link : Nat → Nat × Nat) (pair : Nat → Nat → Nat × Nat) (w : List Nat × Nat) (j : Nat) :
    Option (List Nat × Nat) := do
  let w ← if j ≠ 0 then appendAll w.1 w.2 [(link j).1, (link j).2] else some w
  (List.range (slices + 1)).foldlM (fun w i => appendAll w.1 w.2 [(pair j i).1, (pair j i).2]) w

/-- The loops of a strip. -/
def writeStrip (rows slices : Nat) (link : Nat → Nat × Nat) (pair : Nat → Nat → Nat × Nat) (dest : List Nat)
    (index : Nat) : Option (List Nat) :=
  ((List.range rows).foldlM (writeRow slices link pair) (dest, index)).map Prod.fst

/-- All eight methods have the same formula for the number of indices. -/
def gridIndexCount (slices rows : Nat) : Nat := rows * 2 * (slices + 1) + 2 * (rows - 1)

def getCylinderIndexCount (slices numStacks : Nat) : Nat := gridIndexCount slices numStacks

def makeCylinderIndices (orientation : Orientation) (slices numStacks : Nat) (dest : List Nat) : Option (List Nat) :=
  if dest.length < getCylinderIndexCount slices numStacks then none
  else
    writeStrip numStacks slices
      (fun j =>
        let vertex :=
          match orientation with
          | .inside => j + 1
          | .outside => j
        (vertex, vertex))
      (fun j i =>
        let vertex := if i = slices then j else j + i * (numStacks + 1)
        match orientation with
        | .inside => (vertex + 1, vertex)
        | .outside => (vertex, vertex + 1))
      dest 0

def getPartialCylinderIndexCount (slices numStacks : Nat) : Nat := gridIndexCount slices numStacks

def makePartialCylinderIndices (orientation : Orientation) (slices numStacks : Nat) (dest : List Nat) :
    Option (List Nat) :=
  if dest.length < getPartialCylinderIndexCount slices numStacks then none
  else
    writeStrip numStacks slices
      (fun j =>
        let vertex := j + slices * (numStacks + 1)
        match orientation with
        | .inside => (vertex - 1, j + 1)
        | .outside => (vertex, j))
      (fun j i =>
        let vertex := j + i * (numStacks + 1)
        match orientation with
        | .inside => (vertex + 1, vertex)
        | .outside => (vertex, vertex + 1))
      dest 0

def getDiskIndexCount (slices loops : Nat) : Nat := gridIndexCount slices loops

def makeDiskIndices (orientation : Orientation) (slices loops : Nat) (dest : List Nat) : Option (List Nat) :=
  if dest.length < getDiskIndexCount slices loops then none
  else
    writeStrip loops slices
      (fun l =>
        match orientation with
        | .inside => (l, l)
        | .outside => (l - 1, l + 1))
      (fun l s =>
        let vertex := if s = slices then l else l + s * (loops + 1)
        match orientation with
        | .inside => (vertex, vertex + 1)
        | .outside => (vertex + 1, vertex))
      dest 0

def getPartialDiskIndexCount (slices loops : Nat) : Nat := gridIndexCount slices loops

def makePartialDiskIndices (orientation : Orientation) (slices loops : Nat) (dest : List Nat) : Option (List Nat) :=
  if dest.length < getPartialDiskIndexCount slices loops then none
  else
    writeStrip loops slices
      (fun l =>
        match orientation with
        | .inside => (l + slices * (loops + 1), l)
        | .outside => ((l - 1) + slices * (loops + 1), l + 1))
      (fun l s =>
        let vertex := l + s * (loops + 1)
        match orientation with
        | .inside => (vertex, vertex + 1)
        | .outside => (vertex + 1, vertex))
      dest 0

def getRadialWallIndexCount (pillars numStacks : Nat) : Nat := gridIndexCount pillars numStacks

def makeRadialWallIndices (orientation : Orientation) (pillars numStacks : Nat) (dest : List Nat) :
    Option (List Nat) :=
  if dest.length < getRadialWallIndexCount pillars numStacks then none
  else
    writeStrip numStacks pillars
      (fun s =>
        match orientation with
        | .inside => (pillars + s * (pillars + 1), s * (pillars + 1))
        | .outside => (pillars + (s - 1) * (pillars + 1), (s + 1) * (pillars + 1)))
      (fun s p =>
        let vertex := p + s * (pillars + 1)
        match orientation with
        | .inside => (vertex, vertex + (pillars + 1))
        | .outside => (vertex + (pillars + 1), vertex))
      dest 0

def getLongCylinderIndexCount (arcSlices lengthSlices numStacks : Nat) : Nat :=
  gridIndexCount (longSlices arcSlices lengthSlices) numStacks

def makeLongCylinderIndices (orientation : Orientation) (arcSlices lengthSlices numStacks : Nat) (dest : List Nat) :
    Option (List Nat) :=
  if dest.length < getLongCylinderIndexCount arcSlices lengthSlices numStacks then none
  else
    let slices := longSlices arcSlices lengthSlices
    writeStrip numStacks slices
      (fun j =>
        let vertex := (j - 1) * slices
        match orientation with
        | .inside => (vertex, j * slices)
        | .outside => (vertex + slices, vertex))
      (fun j i =>
        let vertex := if i = slices then j * slices else i + j * slices
        match orientation with
        | .inside => (vertex + slices, vertex)
        | .outside => (vertex, vertex + slices))
      dest 0

def getLongDiskIndexCount (arcSlices lengthSlices loops : Nat) : Nat :=
  gridIndexCount (longSlices arcSlices lengthSlices) loops

def makeLongDiskIndices (orientation : Orientation) (arcSlices lengthSlices loops : Nat) (dest : List Nat) :
    Option (List Nat) :=
  if dest.length < getLongDiskIndexCount arcSlices lengthSlices loops then none
  else
    let slices := longSlices arcSlices lengthSlices
    writeStrip loops slices
      (fun l =>
        let vertex := (l - 1) * slices
        match orientation with
        | .inside => (vertex + slices, vertex)
        | .outside => (vertex, l * slices))
      (fun l s =>
        let vertex := if s = slices then l * slices else s + l * slices
        match orientation with
        | .inside => (vertex, vertex + slices)
        | .outside => (vertex + slices, vertex))
      dest 0

def getBilinearSurfaceFillIndexCount (uStacks vStacks : Nat) : Nat := gridIndexCount uStacks vStacks

def makeBilinearSurfaceFillIndices (orientation : Orientation) (vertexPos uStacks vStacks destPos : Nat)
    (dest : List Nat) : Option (List Nat) :=
  if dest.length < getBilinearSurfaceFillIndexCount uStacks vStacks + destPos then none
  else
    writeStrip vStacks uStacks
      (fun vi =>
        match orientation with
        | .inside => (vertexPos + (uStacks + vi * (uStacks + 1)), vertexPos + vi * (uStacks + 1))
        | .outside =>
          (vertexPos + (uStacks + (vi - 1) * (uStacks + 1)), vertexPos + (vi * (uStacks + 1) + (uStacks + 1))))
      (fun vi ui =>
        let vertex := ui + vi * (uStacks + 1)
        match orientation with
        | .inside => (vertexPos + vertex, vertexPos + vertex + (uStacks + 1))
        | .outside => (vertexPos + vertex + (uStacks + 1), vertexPos + vertex))
      dest destPos

end WorldWind.GeometryBuilder.GridIndices
