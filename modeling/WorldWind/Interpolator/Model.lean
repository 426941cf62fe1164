import WorldWind.Lib.Extreme
import WorldWind.Lib.JavaFloat
import WorldWind.Lib.Numerals
/-!
# `util/ImageInterpolator.java`

A grid of locations is split into cells, and each of these again, down to cells
of a certain size. The cells of the first levels are built in advance. The
others are made when a search comes by, and are kept in a cache that may forget
them at any time.

A cell's identity is its place in the order in which the cells are created. The
coordinates may be infinite or not a number. `invertBilinear` is a parameter.
-/

namespace WorldWind.Interpolator

open Lib.Extreme Lib.JavaFloat
open scoped Lib.Numerals

/-- `Float.MAX_VALUE`. -/
def MAX_VALUE : JavaDouble := .finite ((2 - 1 / 2 ^ 23) * 2 ^ 127)

/-- `-Float.MAX_VALUE`. -/
def NEG_MAX_VALUE : JavaDouble := .finite (-((2 - 1 / 2 ^ 23) * 2 ^ 127))

/-- `a >= b`. -/
def ge (a b : JavaDouble) : Bool := a ≠ .nan && b ≠ .nan && !a.lt b

/-! ## Cells -/

/-- The columns and rows of a cell's corners. -/
structure Extent where
  m0 : Nat
  m1 : Nat
  n0 : Nat
  n1 : Nat
  m_lt : m0 < m1
  n_lt : n0 < n1
  deriving DecidableEq

namespace Extent

def split (e : Extent) : Fin 4 → Extent :=
  let mma := if e.m1 - e.m0 > 1 then e.m0 + (e.m1 - e.m0) / 2 else e.m0 + 1
  let nna := if e.n1 - e.n0 > 1 then e.n0 + (e.n1 - e.n0) / 2 else e.n0 + 1
  let mmb := if e.m1 - e.m0 > 1 then mma else e.m0
  let nnb := if e.n1 - e.n0 > 1 then nna else e.n0
  have hm := e.m_lt
  have hn := e.n_lt
  have hmma : e.m0 < mma := by grind
  have hnna : e.n0 < nna := by grind
  have hmmb : mmb < e.m1 := by grind
  have hnnb : nnb < e.n1 := by grind
  ![⟨e.m0, mma, e.n0, nna, hmma, hnna⟩, ⟨mmb, e.m1, e.n0, nna, hmmb, hnna⟩,
    ⟨e.m0, mma, nnb, e.n1, hmma, hnnb⟩, ⟨mmb, e.m1, nnb, e.n1, hmmb, hnnb⟩]

/-- The cell is not split. -/
def isSmall (e : Extent) (cellSize : Nat) : Bool := e.m1 - e.m0 ≤ cellSize ∧ e.n1 - e.n0 ≤ cellSize

end Extent

structure Bounds where
  minx : JavaDouble
  maxx : JavaDouble
  miny : JavaDouble
  maxy : JavaDouble
  deriving DecidableEq

/-- The fields of a new cell. -/
def Bounds.zero : Bounds := ⟨.finite 0, .finite 0, .finite 0, .finite 0⟩

def Bounds.intersects (b : Bounds) (x y : JavaDouble) : Bool :=
  ge x b.minx && ge b.maxx x && ge y b.miny && ge b.maxy y

/-- A cell whose children are null, or one with four children. -/
inductive Cell
  | childless (id : Nat) (extent : Extent) (bounds : Bounds)
  | parent (id : Nat) (extent : Extent) (bounds : Bounds) (children : Fin 4 → Cell)

namespace Cell

def id : Cell → Nat
  | childless id _ _ => id
  | parent id _ _ _ => id

def extent : Cell → Extent
  | childless _ extent _ => extent
  | parent _ extent _ _ => extent

def bounds : Cell → Bounds
  | childless _ _ bounds => bounds
  | parent _ _ bounds _ => bounds

def children : Cell → Option (Fin 4 → Cell)
  | childless _ _ _ => none
  | parent _ _ _ children => some children

end Cell

/-- The extents of the cells created so far, in order. -/
abbrev Created := List Extent

/-- The four cells of a split, before any of them has children or bounds. -/
def splitCells (created : Created) (e : Extent) : (Fin 4 → Cell) × Created :=
  (fun i => .childless (created.length + i) (e.split i) .zero, created ++ List.ofFn e.split)

/-- `build`, on a cell that was created. -/
def build (cellSize : Nat) : Nat → Nat → Extent → Created → Cell × Created
  | 0, id, e, created => (.childless id e .zero, created)
  | numLevels + 1, id, e, created =>
    if e.isSmall cellSize then (.childless id e .zero, created)
    else
      let (cells, created) := splitCells created e
      let (t0, created) := build cellSize numLevels (cells 0).id (e.split 0) created
      let (t1, created) := build cellSize numLevels (cells 1).id (e.split 1) created
      let (t2, created) := build cellSize numLevels (cells 2).id (e.split 2) created
      let (t3, created) := build cellSize numLevels (cells 3).id (e.split 3) created
      (.parent id e .zero ![t0, t1, t2, t3], created)

/-! ## The grid -/

/-- What the constructor accepts, and arrays that hold every location. -/
structure Grid where
  width : Nat
  height : Nat
  xs : List JavaDouble
  ys : List JavaDouble
  cellSize : Nat
  two_le_width : 2 ≤ width
  two_le_height : 2 ≤ height
  xs_length : width * height ≤ xs.length
  ys_length : width * height ≤ ys.length
  cellSize_pos : 1 ≤ cellSize

namespace Grid

variable (grid : Grid)

def index (i j : Nat) : Nat := j * grid.width + i

/-- `xs[index(i, j)]`; no location is outside of the array (`index_lt`). -/
def x (i j : Nat) : JavaDouble := grid.xs.getD (grid.index i j) .nan

def y (i j : Nat) : JavaDouble := grid.ys.getD (grid.index i j) .nan

/-- The locations of the two loops. -/
def locations (e : Extent) : List (Nat × Nat) :=
  (List.range' e.n0 (e.n1 + 1 - e.n0)).flatMap fun j => (List.range' e.m0 (e.m1 + 1 - e.m0)).map fun i => (i, j)

/-- The bounds of some values of `x` and `y`. -/
def computeExtremes (minxs maxxs minys maxys : List JavaDouble) : Bounds where
  minx := extreme JavaDouble.lt MAX_VALUE minxs
  maxx := extreme (fun a b => b.lt a) NEG_MAX_VALUE maxxs
  miny := extreme JavaDouble.lt MAX_VALUE minys
  maxy := extreme (fun a b => b.lt a) NEG_MAX_VALUE maxys

def computeExtremesFromLocations (e : Extent) : Bounds :=
  let xs := (locations e).map fun l => grid.x l.1 l.2
  let ys := (locations e).map fun l => grid.y l.1 l.2
  computeExtremes xs xs ys ys

def computeExtremesFromChildren (children : Fin 4 → Cell) : Bounds :=
  computeExtremes (List.ofFn fun i => (children i).bounds.minx) (List.ofFn fun i => (children i).bounds.maxx)
    (List.ofFn fun i => (children i).bounds.miny) (List.ofFn fun i => (children i).bounds.maxy)

def computeBounds : Cell → Cell
  | .childless id e _ => .childless id e (grid.computeExtremesFromLocations e)
  | .parent id e _ children =>
    let children := fun i => computeBounds (children i)
    .parent id e (computeExtremesFromChildren children) children

def rootExtent : Extent where
  m0 := 0
  m1 := grid.width - 1
  n0 := 0
  n1 := grid.height - 1
  m_lt := by have := grid.two_le_width; omega
  n_lt := by have := grid.two_le_height; omega

end Grid

/-! ## The search -/

/-- The static method takes the location and the four corners. -/
abbrev InvertBilinear :=
  (JavaDouble × JavaDouble) → (JavaDouble × JavaDouble) → (JavaDouble × JavaDouble) → (JavaDouble × JavaDouble) →
    (JavaDouble × JavaDouble) → Option (JavaDouble × JavaDouble)

structure ContainingCell where
  extent : Extent
  bounds : Bounds
  uv : JavaDouble × JavaDouble
  fieldIndices : List Nat
  deriving DecidableEq

abbrev KidCache := List (Nat × (Fin 4 → Cell))

/-- What the cache forgets: all but some of its entries, each time one is added. -/
structure Eviction where
  keep : Nat → KidCache → KidCache
  keep_subset : ∀ time cache, keep time cache ⊆ cache

/-- The cells created, the cache, and how often an entry was added. -/
structure State where
  created : Created
  kidCache : KidCache
  additions : Nat

def State.getObject (s : State) (id : Nat) : Option (Fin 4 → Cell) :=
  (s.kidCache.find? fun entry => entry.1 = id).map (·.2)

/-- `kidCache.add`: the old entry of the cell goes. -/
def State.add (eviction : Eviction) (s : State) (id : Nat) (kids : Fin 4 → Cell) : State :=
  { s with
    kidCache := eviction.keep s.additions ((id, kids) :: s.kidCache.filter fun entry => entry.1 ≠ id)
    additions := s.additions + 1 }

namespace Grid

variable (grid : Grid) (invertBilinear : InvertBilinear) (eviction : Eviction)

/-- The interpolator's root, and its state before the first search. -/
def new (depth : Nat) : Cell × State :=
  let (root, created) := build grid.cellSize depth 0 grid.rootExtent [grid.rootExtent]
  (grid.computeBounds root, ⟨created, [], 0⟩)

def getFieldIndices (e : Extent) : List Nat :=
  [grid.index e.m0 e.n0, grid.index e.m1 e.n0, grid.index e.m1 e.n1, grid.index e.m0 e.n1]

def computeBilinearCoordinates (x y : JavaDouble) (e : Extent) : Option (JavaDouble × JavaDouble) :=
  invertBilinear (x, y) (grid.x e.m0 e.n0, grid.y e.m0 e.n0) (grid.x e.m1 e.n0, grid.y e.m1 e.n0)
    (grid.x e.m1 e.n1, grid.y e.m1 e.n1) (grid.x e.m0 e.n1, grid.y e.m0 e.n1)

def checkContainment (x y : JavaDouble) (e : Extent) (bounds : Bounds) : Option ContainingCell :=
  match grid.computeBilinearCoordinates invertBilinear x y e with
  | none => none
  | some (u, v) =>
    if ge (.finite 1) u && ge (.finite 1) v && ge u (.finite 0) && ge v (.finite 0) then
      some ⟨e, bounds, (u, v), grid.getFieldIndices e⟩
    else none

/-- The children of a cell that is not small, or its kids from the cache, or new ones. -/
def kidsOf (cell : Cell) (s : State) : (Fin 4 → Cell) × State :=
  match cell.children with
  | some children => (children, s)
  | none =>
    match s.getObject cell.id with
    | some kids => (kids, s)
    | none =>
      let (kids, created) := splitCells s.created cell.extent
      let kids := fun i =>
        Cell.childless (kids i).id (kids i).extent (grid.computeExtremesFromLocations (kids i).extent)
      (kids, ({ s with created := created } : State).add eviction cell.id kids)

/-- The loop over the kids. -/
def findFirst (find : Cell → State → Option (Option ContainingCell × State)) :
    List Cell → State → Option (Option ContainingCell × State)
  | [], s => some (none, s)
  | t :: ts, s => do
    let (cellFound, s) ← find t s
    match cellFound with
    | some cell => some (some cell, s)
    | none => findFirst find ts s

/-- The search of a cell, to a certain depth. -/
def findContainingCell (x y : JavaDouble) : Nat → Cell → State → Option (Option ContainingCell × State)
  | 0, _, _ => none
  | fuel + 1, cell, s =>
    if !cell.bounds.intersects x y then some (none, s)
    else if cell.extent.isSmall grid.cellSize then
      some (grid.checkContainment invertBilinear x y cell.extent cell.bounds, s)
    else
      let (kids, s) := grid.kidsOf eviction cell s
      findFirst (findContainingCell x y fuel) (List.ofFn kids) s

/-- The results of several searches from the root, one after the other. -/
def findAll (fuel : Nat) (root : Cell) :
    List (JavaDouble × JavaDouble) → State → Option (List (Option ContainingCell))
  | [], _ => some []
  | (x, y) :: queries, s => do
    let (found, s) ← grid.findContainingCell invertBilinear eviction x y fuel root s
    let results ← findAll fuel root queries s
    some (found :: results)

end Grid

end WorldWind.Interpolator
