import WorldWind.SessionCache.Model
/-!
# `util/AbsentResourceList.java`

Resources that could not be found, with the time of the last attempt and the
number of attempts. `System.currentTimeMillis()` is an argument of the calls
that read it. Times are milliseconds since 1970, so the difference of two of
them does not wrap; the number of attempts is an `int` and may.
-/

namespace WorldWind.AbsentList

open SessionCache

structure AbsentResourceEntry where
  timeOfLastMark : Int
  numTries : Int32
  deriving DecidableEq, Repr

/-- What the constructors and setters accept. -/
structure Settings where
  maxTries : Int32
  minCheckInterval : Int
  tryAgainInterval : Int
  maxTries_pos : 1 ≤ maxTries
  minCheckInterval_nonneg : 0 ≤ minCheckInterval
  tryAgainInterval_nonneg : 0 ≤ tryAgainInterval

structure AbsentResourceList (K : Type) where
  possiblyAbsent : BoundedHashMap K AbsentResourceEntry
  settings : Settings

namespace AbsentResourceList

variable {K : Type}

def new (cacheSize : Nat) (settings : Settings) : AbsentResourceList K := ⟨.new cacheSize, settings⟩

variable [DecidableEq K]

/-- The entry is the object in the map, new or not, so its fields change
there. -/
def markResourceAbsent (l : AbsentResourceList K) (resourceID : K) (now : Int) : AbsentResourceList K :=
  let possiblyAbsent :=
    match l.possiblyAbsent.get resourceID with
    | none => l.possiblyAbsent.put resourceID ⟨0, 0⟩
    | some _ => l.possiblyAbsent
  { l with possiblyAbsent := possiblyAbsent.modify resourceID fun entry => ⟨now, entry.numTries + 1⟩ }

def isResourceAbsent (l : AbsentResourceList K) (resourceID : K) (now : Int) : AbsentResourceList K × Bool :=
  match l.possiblyAbsent.get resourceID with
  | none => (l, false)
  | some entry =>
    let timeSinceLastMark := now - entry.timeOfLastMark
    if l.settings.tryAgainInterval < timeSinceLastMark then
      ({ l with possiblyAbsent := l.possiblyAbsent.remove resourceID }, false)
    else (l, timeSinceLastMark < l.settings.minCheckInterval ∨ l.settings.maxTries < entry.numTries)

def unmarkResourceAbsent (l : AbsentResourceList K) (resourceID : K) : AbsentResourceList K :=
  { l with possiblyAbsent := l.possiblyAbsent.remove resourceID }

end AbsentResourceList

/-! ## Sequences of calls -/

inductive Op (K : Type) where
  | mark (resourceID : K)
  | unmark (resourceID : K)
  | query (resourceID : K)
  deriving DecidableEq, Repr

def Op.resource {K : Type} : Op K → K
  | .mark r | .unmark r | .query r => r

/-- A call and the time at which it is made. -/
structure Call (K : Type) where
  time : Int
  op : Op K
  deriving DecidableEq, Repr

variable {K : Type} [DecidableEq K]

def AbsentResourceList.apply (l : AbsentResourceList K) (c : Call K) : AbsentResourceList K :=
  match c.op with
  | .mark r => l.markResourceAbsent r c.time
  | .unmark r => l.unmarkResourceAbsent r
  | .query r => (l.isResourceAbsent r c.time).1

def AbsentResourceList.run (l : AbsentResourceList K) (calls : List (Call K)) : AbsentResourceList K :=
  calls.foldl apply l

end WorldWind.AbsentList
