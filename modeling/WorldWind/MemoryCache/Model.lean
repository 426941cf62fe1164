import WorldWind.Lib.Runs
/-!
# `cache/BasicMemoryCache.java`

The cache as the code keeps it: a map from keys to entries, and next to it a
counter of the capacity in use. `long` values are `Int64`, so additions wrap.
`System.nanoTime()` is an argument of the operations that read it.

The map is a `ConcurrentHashMap`. It visits its entries in an order the code
does not control, so the model takes that order as a parameter
(`IterationOrder`), and every theorem holds for all of them.

A listener is told of each removal and returns; listeners do not appear here.
-/

namespace WorldWind.MemoryCache

variable {K V : Type} [DecidableEq K]

structure CacheEntry (K V : Type) where
  key : K
  clientObject : V
  lastUsed : Int64
  clientObjectSize : Int64
  deriving DecidableEq, Repr

structure BasicMemoryCache (K V : Type) where
  entries : List (CacheEntry K V)
  capacity : Int64
  currentUsedCapacity : Int64
  lowWater : Int64
  deriving DecidableEq, Repr

/-- The order in which the map's iterators visit its entries. -/
structure IterationOrder (K V : Type) where
  visit : List (CacheEntry K V) → List (CacheEntry K V)
  perm : ∀ l, (visit l).Perm l

/-- The order of insertion. -/
def IterationOrder.insertion : IterationOrder K V := ⟨id, fun _ => .refl _⟩

namespace BasicMemoryCache

def new (loWater capacity : Int64) : BasicMemoryCache K V :=
  ⟨[], capacity, 0, loWater⟩

/-- `entries.get(key)`. -/
def lookup (c : BasicMemoryCache K V) (key : K) : Option (CacheEntry K V) :=
  c.entries.find? (fun e => e.key = key)

def getNumObjects (c : BasicMemoryCache K V) : Nat := c.entries.length

def getFreeCapacity (c : BasicMemoryCache K V) : Int64 :=
  max (c.capacity - c.currentUsedCapacity) 0

def contains (c : BasicMemoryCache K V) (key : K) : Bool := (c.lookup key).isSome

/-- `entries.remove(entry.key)`, and the counter goes down by the entry's size
if the map held the key. -/
def removeEntry (c : BasicMemoryCache K V) (entry : CacheEntry K V) : BasicMemoryCache K V :=
  if (c.lookup entry.key).isSome then
    { c with
      entries := c.entries.filter (fun e => ¬ e.key = entry.key)
      currentUsedCapacity := c.currentUsedCapacity + -entry.clientObjectSize }
  else c

/-- The loop of `makeSpace` over the entries not yet visited. When they are
exhausted and the test still holds the code spins: no result. -/
def makeSpaceLoop (spaceRequired : Int64) :
    List (CacheEntry K V) → BasicMemoryCache K V → Option (BasicMemoryCache K V)
  | timeOrdered, c =>
    if c.getFreeCapacity < spaceRequired ∨ c.lowWater < c.currentUsedCapacity then
      match timeOrdered with
      | [] => none
      | e :: rest => makeSpaceLoop spaceRequired rest (c.removeEntry e)
    else some c

/-- The entries sorted by `lastUsed`; `Arrays.sort` is stable. -/
def timeOrderedEntries (ord : IterationOrder K V) (c : BasicMemoryCache K V) : List (CacheEntry K V) :=
  (ord.visit c.entries).mergeSort (fun a b => a.lastUsed ≤ b.lastUsed)

def makeSpace (ord : IterationOrder K V) (c : BasicMemoryCache K V) (spaceRequired : Int64) :
    Option (BasicMemoryCache K V) :=
  if c.capacity < spaceRequired ∨ spaceRequired < 0 then some c
  else makeSpaceLoop spaceRequired (c.timeOrderedEntries ord) c

/-- `entries.putIfAbsent(entry.key, entry)`. -/
def putIfAbsent (c : BasicMemoryCache K V) (entry : CacheEntry K V) : BasicMemoryCache K V :=
  if (c.lookup entry.key).isSome then c else { c with entries := c.entries ++ [entry] }

/-- The entry `add` replaces, if there is one, taken out. -/
def dropExisting (c : BasicMemoryCache K V) (key : K) : BasicMemoryCache K V :=
  match c.lookup key with
  | some existing => c.removeEntry existing
  | none => c

/-- The part of `add` behind its argument checks. -/
def store (ord : IterationOrder K V) (c : BasicMemoryCache K V) (key : K) (clientObject : V)
    (clientObjectSize now : Int64) : Option (BasicMemoryCache K V) :=
  let c := c.dropExisting key
  let room :=
    if c.capacity < c.currentUsedCapacity + clientObjectSize then c.makeSpace ord clientObjectSize else some c
  room.map fun c =>
    { c with currentUsedCapacity := c.currentUsedCapacity + clientObjectSize }.putIfAbsent
      ⟨key, clientObject, now, clientObjectSize⟩

/-- `none` for a null `key` or `clientObject`. The `Bool` is what `add` returns. -/
def add (ord : IterationOrder K V) (c : BasicMemoryCache K V) (key : Option K) (clientObject : Option V)
    (clientObjectSize now : Int64) : Option (BasicMemoryCache K V × Bool) :=
  match key, clientObject with
  | some key, some clientObject =>
    if clientObjectSize ≤ 0 ∨ c.capacity < clientObjectSize then some (c, false)
    else (c.store ord key clientObject clientObjectSize now).map (·, true)
  | _, _ => some (c, false)

def remove (c : BasicMemoryCache K V) : Option K → BasicMemoryCache K V
  | none => c
  | some key => c.dropExisting key

/-- Returns the object and marks its entry as used at `now`. -/
def getObject (c : BasicMemoryCache K V) (key : Option K) (now : Int64) : BasicMemoryCache K V × Option V :=
  match key with
  | none => (c, none)
  | some key =>
    match c.lookup key with
    | none => (c, none)
    | some entry =>
      ({ c with entries := c.entries.map fun e => if e.key = key then { e with lastUsed := now } else e },
        some entry.clientObject)

def setCapacity (c : BasicMemoryCache K V) (newCapacity : Int64) : BasicMemoryCache K V :=
  { c with capacity := newCapacity }

def setLowWater (c : BasicMemoryCache K V) (loWater : Int64) : BasicMemoryCache K V :=
  if loWater < c.capacity ∧ 0 ≤ loWater then { c with lowWater := loWater } else c

def clear (ord : IterationOrder K V) (c : BasicMemoryCache K V) : BasicMemoryCache K V :=
  (ord.visit c.entries).foldl removeEntry c

end BasicMemoryCache

/-! ## Runs -/

/-- A call of one of the public operations that change the cache. -/
inductive Op (K V : Type) where
  | add (key : Option K) (clientObject : Option V) (clientObjectSize now : Int64)
  | remove (key : Option K)
  | getObject (key : Option K) (now : Int64)
  | setCapacity (newCapacity : Int64)
  | setLowWater (loWater : Int64)
  | clear
  deriving DecidableEq, Repr

/-- The cache after the call; none if the call never returns. -/
def step (ord : IterationOrder K V) (c : BasicMemoryCache K V) : Op K V → Option (BasicMemoryCache K V)
  | .add key obj size now => (c.add ord key obj size now).map (·.1)
  | .remove key => some (c.remove key)
  | .getObject key now => some (c.getObject key now).1
  | .setCapacity n => some (c.setCapacity n)
  | .setLowWater n => some (c.setLowWater n)
  | .clear => some (c.clear ord)

end WorldWind.MemoryCache
