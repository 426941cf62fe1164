import WorldWind.Geom
import WorldWind.Lib.Iterators
import WorldWind.Lib.JavaInt
/-!
# `util/BitSetQuadTreeFilter.java`, `util/BasicQuadTree.java`

A quadtree over a sector has four cells at level zero and four children for
each cell. The tree keeps lists of items for its leaf cells, under the decimal
text of a cell's bit number, a set of bits for all cells with items under them,
and a map from names to items. The text of a number stands for the number here.
Coordinates are exact. No argument is null; those calls change nothing.

A call that throws leaves what it has done until then. The order of the entries
of `items` is that of insertion; nothing below depends on it.
-/

namespace WorldWind.QuadTrees

open Geom Lib.Iterators Lib.JavaInt

/-! ## Cells -/

/-- The `double[4]` of a cell or of a region. -/
structure Region where
  minLat : ℚ
  maxLat : ℚ
  minLon : ℚ
  maxLon : ℚ
  deriving DecidableEq

/-- A `double[]` of two or of four coordinates. -/
inductive ItemCoords where
  | location (latitude longitude : ℚ)
  | region (region : Region)
  deriving DecidableEq

def intersects (cellRegion : Region) : ItemCoords → Bool
  | .region itemCoords =>
    ¬ (itemCoords.maxLat < cellRegion.minLat ∨ itemCoords.minLat > cellRegion.maxLat ∨
      itemCoords.maxLon < cellRegion.minLon ∨ itemCoords.minLon > cellRegion.maxLon)
  | .location latitude longitude =>
    latitude ≥ cellRegion.minLat ∧ latitude ≤ cellRegion.maxLat ∧
      longitude ≥ cellRegion.minLon ∧ longitude ≤ cellRegion.maxLon

/-- The cells of a cell, counterclockwise from the south-west. -/
def Region.subRegions (cellRegion : Region) : List Region :=
  let latMid := (cellRegion.maxLat + cellRegion.minLat) / 2
  let lonMid := (cellRegion.maxLon + cellRegion.minLon) / 2
  [⟨cellRegion.minLat, latMid, cellRegion.minLon, lonMid⟩, ⟨cellRegion.minLat, latMid, lonMid, cellRegion.maxLon⟩,
    ⟨latMid, cellRegion.maxLat, lonMid, cellRegion.maxLon⟩, ⟨latMid, cellRegion.maxLat, cellRegion.minLon, lonMid⟩]

/-- `makeLevelZeroCells`: the sub-sectors of the sector, in the same order. -/
def makeLevelZeroCells (sector : Sector) : List Region :=
  Region.subRegions ⟨sector.minLatitude.degrees, sector.maxLatitude.degrees, sector.minLongitude.degrees,
    sector.maxLongitude.degrees⟩

/-! ## Bit numbers -/

/-- `powersOf4`, which may overflow. -/
def powersOf4 : Nat → Int
  | 0 => 1
  | i + 1 => int (4 * powersOf4 i)

/-- `levelSizes`: a cast of a `double`. -/
def levelSizes (level : Nat) : Int := min (2 ^ 31 - 1) ((List.range level).map fun i => (4 : Int) ^ (i + 1)).sum

/-- The number of the cell at a position in its parent; `path` has the
positions of the cells above it, from level zero on. -/
def computeBitPosition (path : List Nat) (position : Nat) : Int :=
  int (path.zipIdx.foldl (fun bitPosition (p, i) => int (bitPosition + int (p * powersOf4 (path.length - i))))
    (position : Int) +
    levelSizes path.length)

/-! ## Traversal -/

section
variable {S : Type*} (doOperation : List Nat → Nat → S → Except S (S × Bool)) (itemCoords : ItemCoords)

/-- `testAndDo`, with the number of levels below. An exception carries the
state it leaves. -/
def testAndDo : Nat → List Nat → Nat → Region → S → Except S S
  | 0, path, position, cellRegion, s =>
    if intersects cellRegion itemCoords then (doOperation path position s).map Prod.fst else .ok s
  | levels + 1, path, position, cellRegion, s =>
    if intersects cellRegion itemCoords then
      (doOperation path position s).bind fun (s, goOn) =>
        if goOn then
          cellRegion.subRegions.zipIdx.foldlM (fun s (subRegion, position') =>
            testAndDo levels (path ++ [position]) position' subRegion s) s
        else .ok s
    else .ok s

/-- The loop over the cells of level zero. -/
def testLevelZero (maxLevel : Nat) (levelZeroCells : List Region) (s : S) : Except S S :=
  levelZeroCells.zipIdx.foldlM (fun s (cell, i) => testAndDo doOperation itemCoords maxLevel [] i cell s) s

end

/-! ## The tree -/

/-- `maxLevel` is one less than the number of levels. -/
structure BasicQuadTree (T : Type*) where
  maxLevel : Nat
  levelZeroCells : List Region
  bits : Int → Bool
  items : List (Int × List T)
  nameMap : String → Option T

namespace BasicQuadTree

variable {T : Type*} [DecidableEq T]

/-- A new tree with a new map; the number of levels is at least one. -/
def new (maxLevel : Nat) (sector : Sector) : BasicQuadTree T :=
  ⟨maxLevel, makeLevelZeroCells sector, fun _ => false, [], fun _ => none⟩

/-- `items.get`. -/
def getItems (items : List (Int × List T)) (bitName : Int) : Option (List T) :=
  (items.find? fun entry => entry.1 = bitName).map Prod.snd

/-- The item at the end of its list, which is made if there is none. -/
def addTo : List (Int × List T) → Int → T → List (Int × List T)
  | [], bitName, item => [(bitName, [item])]
  | entry :: items, bitName, item =>
    if entry.1 = bitName then (bitName, entry.2 ++ [item]) :: items else entry :: addTo items bitName item

/-- `nameMap.put`, if there is a name. -/
def putName (nameMap : String → Option T) (item : T) : Option String → String → Option T
  | none => nameMap
  | some name => Function.update nameMap name (some item)

def setBit (tree : BasicQuadTree T) (bitNum : Int) : BasicQuadTree T :=
  { tree with bits := Function.update tree.bits bitNum true }

def putItem (tree : BasicQuadTree T) (bitNum : Int) (item : T) (name : Option String) : BasicQuadTree T :=
  { tree with items := addTo tree.items bitNum item, nameMap := putName tree.nameMap item name }

/-- `doOperation`: setting a bit with a negative number throws. -/
def doOperation (currentItem : T) (currentName : Option String) (path : List Nat) (position : Nat)
    (tree : BasicQuadTree T) : Except (BasicQuadTree T) (BasicQuadTree T × Bool) :=
  let bitNum := computeBitPosition path position
  if bitNum < 0 then .error tree
  else if path.length < tree.maxLevel then .ok (tree.setBit bitNum, true)
  else .ok ((tree.setBit bitNum).putItem bitNum currentItem currentName, false)

def addItem (tree : BasicQuadTree T) (item : T) (itemCoords : ItemCoords) (name : Option String) :
    Except (BasicQuadTree T) (BasicQuadTree T) :=
  testLevelZero (doOperation item name) itemCoords tree.maxLevel tree.levelZeroCells tree

def hasItems (tree : BasicQuadTree T) : Bool := !tree.items.isEmpty

def contains (tree : BasicQuadTree T) (item : T) : Bool := tree.items.any fun entry => entry.2.contains item

/-- Clearing a bit with a negative number throws. -/
def clearBits (tree : BasicQuadTree T) : List Int → Except (BasicQuadTree T) (BasicQuadTree T)
  | [] => .ok tree
  | bitNum :: bitsToClear =>
    if bitNum < 0 then .error tree
    else clearBits { tree with bits := Function.update tree.bits bitNum false } bitsToClear

/-- The first occurrence of the item taken from every list. -/
def removeFrom (items : List (Int × List T)) (item : T) : List (Int × List T) :=
  items.map fun entry => (entry.1, entry.2.erase item)

def remove (tree : BasicQuadTree T) (item : T) : Except (BasicQuadTree T) (BasicQuadTree T) :=
  let items := removeFrom tree.items item
  clearBits { tree with items := items } ((items.filter fun entry => entry.2.isEmpty).map Prod.fst)

def getByName (tree : BasicQuadTree T) (name : String) : Option T := tree.nameMap name

def removeByName (tree : BasicQuadTree T) (name : String) : BasicQuadTree T :=
  let item := tree.getByName name
  let tree := { tree with nameMap := Function.update tree.nameMap name none }
  match item with
  | none => tree
  | some item => { tree with items := removeFrom tree.items item }

def clear (tree : BasicQuadTree T) : BasicQuadTree T := { tree with items := [], bits := fun _ => false }

/-! ## The iterator -/

/-- The lists not yet begun, what is left of the current one, and the item that
was looked ahead. -/
structure TreeIterator (T : Type*) where
  mapIterator : List (List T)
  listIterator : List T
  nextItem : Option T

/-- The loop of `moveToNextItem`: the next list with an item. -/
def nextList : List (List T) → TreeIterator T
  | [] => ⟨[], [], none⟩
  | [] :: mapIterator => nextList mapIterator
  | (item :: listIterator) :: mapIterator => ⟨mapIterator, listIterator, some item⟩

def moveToNextItem (it : TreeIterator T) : TreeIterator T :=
  match it.listIterator with
  | item :: listIterator => { it with listIterator := listIterator, nextItem := some item }
  | [] => nextList it.mapIterator

def hasNext (it : TreeIterator T) : Bool × TreeIterator T :=
  if it.nextItem.isSome then (true, it)
  else
    let it := moveToNextItem it
    (it.nextItem.isSome, it)

def next (it : TreeIterator T) : Answer T × TreeIterator T :=
  let it := (hasNext it).2
  match it.nextItem with
  | none => (.noSuchElement, it)
  | some lastNext => (.element lastNext, { it with nextItem := none })

def iteratorCall (it : TreeIterator T) : Call → Answer T × TreeIterator T
  | .hasNext => (.has (hasNext it).1, (hasNext it).2)
  | .next => next it

def iterator (tree : BasicQuadTree T) : TreeIterator T := ⟨tree.items.map Prod.snd, [], none⟩

/-! ## Queries -/

/-- `FindIntersectingBitsOp.doOperation`. -/
def findDoOperation (bits : Int → Bool) (maxLevel : Nat) (path : List Nat) (position : Nat)
    (intersectingBits : List Int) :
    Except (List Int) (List Int × Bool) :=
  let bitNum := computeBitPosition path position
  if bitNum < 0 then .error intersectingBits
  else if ¬ bits bitNum then .ok (intersectingBits, false)
  else if path.length < maxLevel then .ok (intersectingBits, true)
  else .ok (intersectingBits ++ [bitNum], false)

/-- `getItemsInRegion` and `getItemsAtLocation` with a new set: the items in
the lists of the bits found, or nothing if a bit number is negative. -/
def getItemsIn (tree : BasicQuadTree T) (testCoords : ItemCoords) : Option (List T) :=
  match testLevelZero (findDoOperation tree.bits tree.maxLevel) testCoords tree.maxLevel tree.levelZeroCells [] with
  | .error _ => none
  | .ok bitIds => some (bitIds.flatMap fun id => (getItems tree.items id).getD [])

end BasicQuadTree

/-! ## Histories -/

inductive Operation (T : Type*) where
  | add (item : T) (itemCoords : ItemCoords) (itemName : Option String)
  | remove (item : T)
  | removeByName (name : String)
  | clear

/-- The tree after a call that may have thrown. -/
def left {S : Type*} : Except S S → S
  | .ok s => s
  | .error s => s

variable {T : Type*} [DecidableEq T]

def exec (tree : BasicQuadTree T) : Operation T → BasicQuadTree T
  | .add item itemCoords itemName => left (tree.addItem item itemCoords itemName)
  | .remove item => left (tree.remove item)
  | .removeByName name => tree.removeByName name
  | .clear => tree.clear

end WorldWind.QuadTrees
