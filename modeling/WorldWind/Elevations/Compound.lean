import Mathlib
/-!
# `terrain/CompoundElevationModel.java`

A tree of elevation models. A compound model asks its children, the last of
which has the highest resolution. The models at the leaves are parameters: what
they answer for a location, and what their batch methods do to a buffer.
Elevations are numbers, never NaN, and asking for them does not change a model.
-/

namespace WorldWind.Elevations

/-- An elevation model that is not compound, with locations `L` and sectors `S`.
The batch methods return the resolution they achieve and the buffer. -/
structure Leaf (L S : Type) where
  enabled : Bool
  missingDataFlag : ℚ
  intersects : S → Int
  contains : L → Bool
  getUnmappedElevation : L → ℚ
  getElevations : S → List L → ℚ → List ℚ → ℚ × List ℚ
  getUnmappedElevations : S → List L → ℚ → List ℚ → ℚ × List ℚ

inductive ElevationModel (L S : Type) where
  | leaf (model : Leaf L S)
  | compound (enabled : Bool) (missingDataFlag : ℚ) (elevationModels : List (ElevationModel L S))

namespace ElevationModel

variable {L S : Type}

def isEnabled : ElevationModel L S → Bool
  | .leaf model => model.enabled
  | .compound enabled _ _ => enabled

def getMissingDataSignal : ElevationModel L S → ℚ
  | .leaf model => model.missingDataFlag
  | .compound _ missingDataFlag _ => missingDataFlag

mutual
def intersects (sector : S) : ElevationModel L S → Int
  | .leaf model => model.intersects sector
  | .compound _ _ elevationModels => intersectsAny sector false elevationModels

/-- The loop of `intersects`, with the flag `intersects`. -/
def intersectsAny (sector : S) (intersect : Bool) : List (ElevationModel L S) → Int
  | [] => if intersect then 1 else -1
  | em :: rest =>
    if ¬ em.isEnabled then intersectsAny sector intersect rest
    else
      let c := em.intersects sector
      if c = 0 then 0 else intersectsAny sector (intersect || c = 1) rest
end

mutual
def contains (ll : L) : ElevationModel L S → Bool
  | .leaf model => model.contains ll
  | .compound _ _ elevationModels => containsAny ll elevationModels

def containsAny (ll : L) : List (ElevationModel L S) → Bool
  | [] => false
  | em :: rest => if ¬ em.isEnabled then containsAny ll rest else em.contains ll || containsAny ll rest
end

mutual
def getUnmappedElevation (ll : L) : ElevationModel L S → ℚ
  | .leaf model => model.getUnmappedElevation ll
  | .compound _ missingDataFlag elevationModels => (bestElevation ll elevationModels).getD missingDataFlag

/-- The loop of `getUnmappedElevation`, which begins with the last model: the
first value that is not the missing data signal of its model. -/
def bestElevation (ll : L) : List (ElevationModel L S) → Option ℚ
  | [] => none
  | em :: rest =>
    (bestElevation ll rest).or
      (if ¬ em.isEnabled then none
      else if ¬ em.contains ll then none
      else
        let emValue := em.getUnmappedElevation ll
        if emValue ≠ em.getMissingDataSignal then some emValue else none)
end

mutual
def getElevations (sector : S) (latlons : List L) (targetResolution : ℚ) (buffer : List ℚ) :
    ElevationModel L S → Option (ℚ × List ℚ)
  | .leaf model => some (model.getElevations sector latlons targetResolution buffer)
  | .compound _ _ elevationModels =>
    if buffer.length < latlons.length then none
    else doGetElevations sector latlons targetResolution false elevationModels.length (0, buffer) elevationModels

def getUnmappedElevations (sector : S) (latlons : List L) (targetResolution : ℚ) (buffer : List ℚ) :
    ElevationModel L S → Option (ℚ × List ℚ)
  | .leaf model => some (model.getUnmappedElevations sector latlons targetResolution buffer)
  | .compound _ _ elevationModels =>
    if buffer.length < latlons.length then none
    else doGetElevations sector latlons targetResolution false elevationModels.length (0, buffer) elevationModels

/-- The loop of `doGetElevations`: the resolution achieved and the buffer. -/
def doGetElevations (sector : S) (latlons : List L) (targetResolution : ℚ) (mapMissingData : Bool) (size : Nat) :
    ℚ × List ℚ → List (ElevationModel L S) → Option (ℚ × List ℚ)
  | s, [] => some s
  | s, em :: rest =>
    if ¬ em.isEnabled then doGetElevations sector latlons targetResolution mapMissingData size s rest
    else if em.intersects sector < 0 then doGetElevations sector latlons targetResolution mapMissingData size s rest
    else
      (if mapMissingData || size = 1 then em.getElevations sector latlons targetResolution s.2
        else em.getUnmappedElevations sector latlons targetResolution s.2).bind fun r =>
      doGetElevations sector latlons targetResolution mapMissingData size
        (if r.1 < s.1 ∨ s.1 = 0 then r.1 else s.1, r.2) rest
end

end ElevationModel

end WorldWind.Elevations
