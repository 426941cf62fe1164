import WorldWind.Lib.JavaInt
import WorldWind.Lib.Runs
/-!
# `util/TextureAtlas.java`

An atlas keeps its images under keys, and their rectangles in a rectangle packer.
The packer is not part of the repository. It holds the rectangles it is given;
while one does not fit it calls `additionFailed`, which throws or takes out the
least recently used entry. How often it calls is not ours to say, nor is the
order in which a `HashMap` lists its entries, so an `add` comes with the orders
it meets (`failures`), one for each call. Positions and pixels are left out.
-/

namespace WorldWind.Atlas

open Lib.JavaInt

variable {K : Type}

/-- A rectangle of the packer. Rectangles of the same size are told apart by their numbers. -/
structure Rect where
  id : Nat
  w : Int
  h : Int
  deriving DecidableEq

structure Entry (K : Type) where
  key : K
  rect : Rect
  imageWidth : Int
  imageHeight : Int
  lastUsed : Int
  deriving DecidableEq

def Entry.compareTo (this that : Entry K) : Int :=
  if this.lastUsed < that.lastUsed then -1 else if this.lastUsed = that.lastUsed then 0 else 1

/-- An order in which `entryMap.values()` lists the entries. -/
structure IterationOrder (K : Type) where
  values : List (Entry K) → List (Entry K)
  perm : ∀ l, (values l).Perm l

/-- The order of insertion. -/
def IterationOrder.insertion : IterationOrder K := ⟨id, fun _ => .refl _⟩

/-- Every entry of the map is under its own key. `rects` are the rectangles that the packer holds. -/
structure TextureAtlas (K : Type) where
  maxWidth : Int
  maxHeight : Int
  evictOldElements : Bool
  entryMap : List (Entry K)
  rects : List Rect
  created : Nat
  deriving DecidableEq

/-- The first entry when all are sorted by the time of their last use. The sort is stable. -/
def leastRecentlyUsed (order : IterationOrder K) (entries : List (Entry K)) : Option (Entry K) :=
  ((order.values entries).insertionSort fun a b => a.compareTo b ≤ 0).head?

variable [DecidableEq K]

/-- The entries of a map without the one under a key. -/
def removeKey (entries : List (Entry K)) (key : K) : List (Entry K) := entries.filter fun e => e.key ≠ key

namespace TextureAtlas

def new (maxWidth maxHeight : Int) (evictOldElements : Bool) : TextureAtlas K where
  maxWidth := maxWidth
  maxHeight := maxHeight
  evictOldElements := evictOldElements
  entryMap := []
  rects := []
  created := 0

def get (atlas : TextureAtlas K) (key : K) : Option (Entry K) := atlas.entryMap.find? fun e => e.key = key

def contains (atlas : TextureAtlas K) (key : K) : Bool := (atlas.get key).isSome

def getSize (atlas : TextureAtlas K) (key : K) : Option (Int × Int) :=
  (atlas.get key).map fun e => (e.imageWidth, e.imageHeight)

/-- `markUsed`, as `getSize` and `getTexCoords` call it. -/
def markUsed (atlas : TextureAtlas K) (key : K) (now : Int) : TextureAtlas K :=
  { atlas with entryMap := atlas.entryMap.map fun e => if e.key = key then { e with lastUsed := now } else e }

/-- A rectangle that the packer does not hold is not removed from it. -/
def doRemove (atlas : TextureAtlas K) (entry : Entry K) : TextureAtlas K :=
  { atlas with rects := atlas.rects.filter fun r => r ≠ entry.rect }

/-- `entryMap.remove`, and `doRemove` where there is an entry. -/
def remove (atlas : TextureAtlas K) (key : K) : TextureAtlas K :=
  match atlas.get key with
  | none => atlas
  | some entry => { atlas with entryMap := removeKey atlas.entryMap key }.doRemove entry

/-- None is the answer false. -/
def removeLeastRecentlyUsedEntry (atlas : TextureAtlas K) (order : IterationOrder K) : Option (TextureAtlas K) :=
  (leastRecentlyUsed order atlas.entryMap).map fun entryToRemove =>
    { atlas with entryMap := removeKey atlas.entryMap entryToRemove.key }.doRemove entryToRemove

/-- None is an exception. The atlas is left as it is then. -/
def additionFailed (atlas : TextureAtlas K) (order : IterationOrder K) : Option (TextureAtlas K) :=
  if atlas.evictOldElements then atlas.removeLeastRecentlyUsedEntry order else none

/-- `rectPacker.add`, and whether it returns. -/
def packerAdd (rect : Rect) : TextureAtlas K → List (IterationOrder K) → TextureAtlas K × Bool
  | atlas, [] => ({ atlas with rects := atlas.rects ++ [rect] }, true)
  | atlas, order :: failures =>
    match atlas.additionFailed order with
    | none => (atlas, false)
    | some atlas' => packerAdd rect atlas' failures

/-- The entry that an `add` makes. -/
def newEntry (atlas : TextureAtlas K) (key : K) (width height now : Int) : Entry K :=
  ⟨key, ⟨atlas.created, int (width + 2), int (height + 2)⟩, width, height, now⟩

def doAdd (atlas : TextureAtlas K) (key : K) (width height now : Int) (failures : List (IterationOrder K)) :
    TextureAtlas K × Bool :=
  let entry := atlas.newEntry key width height now
  let removed := atlas.remove key
  packerAdd entry.rect
    { removed with entryMap := removed.entryMap ++ [entry], created := removed.created + 1 } failures

def tooLarge (atlas : TextureAtlas K) (width height : Int) : Bool :=
  int (width + 2) > atlas.maxWidth || int (height + 2) > atlas.maxHeight

/-- The atlas after `add`, and whether `add` returns. -/
def add (atlas : TextureAtlas K) (key : K) (width height now : Int) (failures : List (IterationOrder K)) :
    TextureAtlas K × Bool :=
  if atlas.tooLarge width height then (atlas, false) else atlas.doAdd key width height now failures

def clear (atlas : TextureAtlas K) : TextureAtlas K := { atlas with rects := [], entryMap := [] }

end TextureAtlas

/-- The operations of an atlas. Of the queries, two mark an entry as used. -/
inductive Operation (K : Type) where
  | add (key : K) (width height now : Int) (failures : List (IterationOrder K))
  | remove (key : K)
  | clear
  | contains (key : K)
  | getSize (key : K) (now : Int)
  | getTexCoords (key : K) (now : Int)
  | setEvictOldElements (evictOldElements : Bool)

/-- An atlas, and the atlas as it was before the last operation, if that was an `add` that threw. -/
structure Moment (K : Type) where
  atlas : TextureAtlas K
  thrown : Option (TextureAtlas K)
  deriving DecidableEq

/-- The atlas after an operation. -/
def step (moment : Moment K) : Operation K → Option (Moment K)
  | .add key width height now failures =>
    let result := moment.atlas.add key width height now failures
    some ⟨result.1, if result.2 then none else some moment.atlas⟩
  | .remove key => some ⟨moment.atlas.remove key, none⟩
  | .clear => some ⟨moment.atlas.clear, none⟩
  | .contains _ => some ⟨moment.atlas, none⟩
  | .getSize key now => some ⟨moment.atlas.markUsed key now, none⟩
  | .getTexCoords key now => some ⟨moment.atlas.markUsed key now, none⟩
  | .setEvictOldElements evictOldElements =>
    some ⟨{ moment.atlas with evictOldElements := evictOldElements }, none⟩

end WorldWind.Atlas
