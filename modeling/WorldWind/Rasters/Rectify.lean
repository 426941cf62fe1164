import WorldWind.Lib.Loops
import WorldWind.Rasters.Model
/-!
# `util/ElevationsUtil.java`, and `getExtremes` of `data/BufferWrapperRaster.java`

A raster of elevations is rectified: the value that marks a void is guessed from
the least sample, feet become metres, and the least and the greatest elevation
are put into the raster.
-/

namespace WorldWind.Rasters

open Lib.JavaArray

def DTED_DEFAULT_MISSING_SIGNAL : ℚ := -32767

def SRTM_DEFAULT_MISSING_SIGNAL : ℚ := -32768

def DEM_DEFAULT_MISSING_SIGNAL : ℚ := -9999

def knownMissingSignals : List ℚ :=
  [DTED_DEFAULT_MISSING_SIGNAL, SRTM_DEFAULT_MISSING_SIGNAL, DEM_DEFAULT_MISSING_SIGNAL]

def isKnownMissingSignal (value : ℚ) : Bool := knownMissingSignals.any fun signal => value = signal

def METERS_TO_FEET : ℚ := 3280839895 / 1000000000

def convertFeetToMeters (feet : ℚ) : ℚ := feet / METERS_TO_FEET

/-- What the text under `AVKey.ELEVATION_UNIT` is, in any case of its letters. -/
inductive ElevationUnit where
  | meter
  | foot
  | unrecognized
  deriving DecidableEq

/-- A raster with the values of its list that `rectify` uses. -/
structure ByteBufferRaster where
  width : Nat
  height : Nat
  buffer : List ℚ
  missingDataSignal : Option SignalValue
  elevationUnit : Option ElevationUnit
  elevationMin : Option ℚ
  elevationMax : Option ℚ
  deriving DecidableEq

namespace ByteBufferRaster

def getTransparentValue (raster : ByteBufferRaster) : ℚ := transparentValue raster.missingDataSignal

def setTransparentValue (raster : ByteBufferRaster) (transparentValue : ℚ) : ByteBufferRaster :=
  { raster with missingDataSignal := some (.double transparentValue) }

/-- `AVListImpl.getDoubleValue` of the missing data signal. -/
def signalValue (raster : ByteBufferRaster) : Option ℚ :=
  match raster.missingDataSignal with
  | none => none
  | some (.double value) => some value
  | some (.other parsed) => parsed

/-- The extremes with one more sample. `WWUtil.defaultMinMix` has the least double for the maximum, and conversely. -/
def addExtreme (missingDataSignal : ℚ) (extremes : Option (ℚ × ℚ)) (value : ℚ) : Option (ℚ × ℚ) :=
  if value = missingDataSignal then extremes
  else
    let e := extremes.getD (MAX_VALUE, -MAX_VALUE)
    some (if e.1 > value then value else e.1, if e.2 < value then value else e.2)

/-- The outer none is an exception, the inner one is null. -/
def getExtremes (raster : ByteBufferRaster) : Option (Option (ℚ × ℚ)) :=
  (List.range raster.height).foldlM (fun extremes (j : Nat) =>
    (getDoubles raster.buffer ((j : Int) * raster.width) raster.width).map fun buffer =>
      buffer.foldl (addExtreme raster.getTransparentValue) extremes) none

/-- A sample in the last loop: its new value, whether it is a void, and whether the row has a change. -/
def rectifyValue (missingDataSignal : Option ℚ) (needsConversion : Bool)
    (conversionValue minValue maxValue value : ℚ) :
    ℚ × Bool × Bool :=
  if missingDataSignal = some value then (value, true, false)
  else
    let converted := if needsConversion then value * conversionValue else value
    if converted < minValue ∨ converted > maxValue then
      match missingDataSignal with
      | some signal => (signal, true, true)
      | none => (converted, true, needsConversion)
    else (converted, false, needsConversion)

/-- A row of the last loop, with the samples and `rasterHasVoids`. -/
def rectifyRow (width : Nat) (rectified : ℚ → ℚ × Bool × Bool) (state : List ℚ × Bool) (j : Nat) :
    Option (List ℚ × Bool) :=
  (getDoubles state.1 ((j : Int) * width) width).bind fun array =>
    let results := array.map rectified
    let rasterHasVoids := state.2 || results.any fun r => r.2.1
    if results.any fun r => r.2.2 then
      (putDoubles state.1 ((j : Int) * width) (results.map fun r => r.1)).map fun buffer => (buffer, rasterHasVoids)
    else some (state.1, rasterHasVoids)

/-- The rest of `rectify`, when the void value and the extremes are settled. -/
def rectifySamples (raster : ByteBufferRaster) (missingDataSignal : Option ℚ) (minValue maxValue : ℚ) :
    Option ByteBufferRaster :=
  let needsConversion : Bool := raster.elevationUnit = some .foot
  let conversionValue := if needsConversion then convertFeetToMeters 1 else 1
  let minValue := if needsConversion then convertFeetToMeters minValue else minValue
  let maxValue := if needsConversion then convertFeetToMeters maxValue else maxValue
  ((List.range raster.height).foldlM
    (rectifyRow raster.width (rectifyValue missingDataSignal needsConversion conversionValue minValue maxValue))
    (raster.buffer, false)).map fun state =>
      { raster with
        buffer := state.1
        elevationUnit := if needsConversion then some .meter else raster.elevationUnit
        missingDataSignal :=
          if state.2 then (missingDataSignal.map SignalValue.double).or raster.missingDataSignal else none
        elevationMin := some minValue
        elevationMax := some maxValue }

def rectify (raster : ByteBufferRaster) : Option ByteBufferRaster :=
  if raster.width = 0 ∨ raster.height = 0 then some raster
  else
    raster.getExtremes.bind fun minmax =>
      match minmax with
      | none => some raster
      | some (minValue, maxValue) =>
        let missingDataSignal := raster.signalValue
        if isKnownMissingSignal minValue || missingDataSignal = some minValue then
          let raster := raster.setTransparentValue minValue
          raster.getExtremes.bind fun minmax =>
            let minmax := minmax.getD (minValue, maxValue)
            raster.rectifySamples (some minValue) minmax.1 minmax.2
        else raster.rectifySamples missingDataSignal minValue maxValue

end ByteBufferRaster

end WorldWind.Rasters
