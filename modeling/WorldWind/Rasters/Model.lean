import WorldWind.Geom
import WorldWind.Lib.Casts
import WorldWind.Lib.JavaArray
/-!
# `data/BufferWrapperRaster.java`

A raster of samples over a sector, rows from the maximum latitude down. One
raster is drawn onto another: each sample of the canvas is the bilinear mix of
the four samples around its location.

Doubles are exact numbers, and the test against round-off has its threshold as a
parameter. A quotient by zero is none, since no sample lies at an infinite
coordinate or at NaN. A method that throws has no result.
-/

namespace WorldWind.Rasters

open Geom Lib.Casts Lib.JavaArray

/-- `Double.MAX_VALUE`. -/
def MAX_VALUE : ℚ := (2 - 1 / 2 ^ 52) * 2 ^ 1023

/-- `Double.MIN_VALUE`. -/
def MIN_VALUE : ℚ := 1 / 2 ^ 1074

/-! ## Samples -/

/-- A value under `AVKey.MISSING_DATA_SIGNAL`: a `Double`, or another object and the double its text stands for. -/
inductive SignalValue where
  | double (value : ℚ)
  | other (parsed : Option ℚ)
  deriving DecidableEq

/-- The constructor checks the size of the buffer, whose length is an `int`. -/
structure BufferWrapperRaster where
  width : Nat
  height : Nat
  sector : Sector
  buffer : List ℚ
  missingDataSignal : Option SignalValue
  size_le : width * height ≤ buffer.length
  length_lt : buffer.length < 2 ^ 31

/-- `BufferWrapper.getDouble` of a number of samples. -/
def getDoubles (buffer : List ℚ) (index length : Int) : Option (List ℚ) :=
  if 0 ≤ index ∧ 0 ≤ length ∧ index + length ≤ buffer.length then some ((buffer.drop index.toNat).take length.toNat)
  else none

/-- `BufferWrapper.putDouble` of a number of samples. -/
def putDoubles (buffer : List ℚ) (index : Int) (values : List ℚ) : Option (List ℚ) :=
  if 0 ≤ index ∧ index + values.length ≤ buffer.length then some (blit buffer index.toNat values) else none

/-- An element of an array. -/
def element (array : List ℚ) (index : Int) : Option ℚ := if 0 ≤ index then array[index.toNat]? else none

/-- The transparent value of a raster with a missing data signal. -/
def transparentValue : Option SignalValue → ℚ
  | some (.double value) => value
  | _ => MAX_VALUE

namespace BufferWrapperRaster

def getTransparentValue (raster : BufferWrapperRaster) : ℚ := transparentValue raster.missingDataSignal

def indexFor (raster : BufferWrapperRaster) (x y : Int) : Int := x + y * raster.width

end BufferWrapperRaster

/-! ## The lookup table -/

/-- An `AffineTransform` of a translation and a scale. -/
structure Transform where
  tx : Option ℚ
  ty : Option ℚ
  sx : Option ℚ
  sy : Option ℚ

def divide (a b : ℚ) : Option ℚ := if b = 0 then none else some (a / b)

/-- From the columns and rows of a source to those of a destination. -/
def computeSourceToDestTransform (sourceWidth sourceHeight : Nat) (sourceSector : Sector)
    (destWidth destHeight : Nat) (destSector : Sector) : Transform where
  ty := divide (((destHeight : ℚ) - 1) * -(sourceSector.maxLatitude.degrees - destSector.maxLatitude.degrees))
    destSector.deltaLat.degrees
  tx := divide (((destWidth : ℚ) - 1) * (sourceSector.minLongitude.degrees - destSector.minLongitude.degrees))
    destSector.deltaLon.degrees
  sy := (divide ((destHeight : ℚ) - 1) ((sourceHeight : ℚ) - 1)).bind fun a =>
    (divide sourceSector.deltaLat.degrees destSector.deltaLat.degrees).map fun b => a * b
  sx := (divide ((destWidth : ℚ) - 1) ((sourceWidth : ℚ) - 1)).bind fun a =>
    (divide sourceSector.deltaLon.degrees destSector.deltaLon.degrees).map fun b => a * b

/-- A coordinate after a scale and a translation. -/
def transformed (s t : Option ℚ) (n : Nat) : Option ℚ := s.bind fun s => t.map fun t => s * n + t

/-- The two samples on the sides of a coordinate, and how far it is from the first. -/
structure Params where
  first : ℚ
  second : ℚ
  fraction : ℚ

/-- What the table is filled with. -/
def noParams : Params := ⟨-1, -1, -1⟩

structure InterpolantLookupTable where
  xParams : List Params
  yParams : List Params

def getInterpolant (params : List Params) (n : Nat) : Option Params :=
  let p := params.getD n noParams
  if p.first ≠ -1 then some p else none

/-- The least first sample and the greatest second sample. -/
def computeInterpolantRange (params : List Params) : ℚ × ℚ :=
  params.foldl (fun range p =>
    if p.first ≠ -1 then
      (if p.first < range.1 then p.first else range.1, if p.second > range.2 then p.second else range.2)
    else range) (MAX_VALUE, -MIN_VALUE)

/-- A coordinate of a sample of the canvas, from a first to a last one. -/
def lookupParams (threshold xMin xMax : ℚ) : Option ℚ → Params
  | none => noParams
  | some x =>
    if x - xMin > threshold ∧ xMax - x > threshold then
      let x := if x < xMin then xMin else if x > xMax then xMax else x
      ⟨⌊x⌋, ⌈x⌉, x - ⌊x⌋⟩
    else noParams

/-- No table, unless some column and some row of the canvas are inside. -/
def createLookupTable (threshold : ℚ) (width height : Nat) (xMin xMax yMin yMax : ℚ) (lookupTransform : Transform) :
    Option InterpolantLookupTable :=
  let xParams := (List.range width).map fun i =>
    lookupParams threshold xMin xMax (transformed lookupTransform.sx lookupTransform.tx i)
  let yParams := (List.range height).map fun j =>
    lookupParams threshold yMin yMax (transformed lookupTransform.sy lookupTransform.ty j)
  if (xParams.any fun p => p.first ≠ -1) && yParams.any fun p => p.first ≠ -1 then some ⟨xParams, yParams⟩ else none

/-! ## Drawing -/

def sample (source : List ℚ) (x1 x2 : Int) (xf : ℚ) (y1 y2 : Int) (yf : ℚ) (width : Int) (transparent : ℚ)
    (dest : List ℚ) (destPos : Nat) : Option (List ℚ) := do
  let ul ← element source (x1 + y1 * width)
  let ll ← element source (x1 + y2 * width)
  let lr ← element source (x2 + y2 * width)
  let ur ← element source (x2 + y1 * width)
  if ul ≠ transparent ∧ ur ≠ transparent ∧ lr ≠ transparent ∧ ll ≠ transparent then
    write dest destPos ((1 - xf) * (1 - yf) * ul + (1 - xf) * yf * ll + xf * yf * lr + xf * (1 - yf) * ur)
  else some dest

/-- A column of a row of the canvas. -/
def drawColumn (lut : InterpolantLookupTable) (thisSamples : List ℚ) (xParamMin xParamWidth : Int)
    (yf transparent : ℚ)
    (canvasSamples : List ℚ) (i : Nat) : Option (List ℚ) :=
  match getInterpolant lut.xParams i with
  | none => some canvasSamples
  | some xParams =>
    sample thisSamples (intCast xParams.first - xParamMin)
      (intCast xParams.second - xParamMin) xParams.fraction 0 1 yf
      xParamWidth transparent canvasSamples i

namespace BufferWrapperRaster

/-- A row of the canvas, whose samples so far are given. -/
def drawRow (this canvas : BufferWrapperRaster) (lut : InterpolantLookupTable) (xParamMin xParamWidth : Int)
    (samples : List ℚ) (j : Nat) : Option (List ℚ) :=
  match getInterpolant lut.yParams j with
  | none => some samples
  | some yParams => do
    let upper ← getDoubles this.buffer (this.indexFor xParamMin (intCast yParams.first)) xParamWidth
    let lower ← getDoubles this.buffer (this.indexFor xParamMin (intCast yParams.second)) xParamWidth
    let canvasSamples ← getDoubles samples (canvas.indexFor 0 j) canvas.width
    let canvasSamples ← (List.range canvas.width).foldlM
      (drawColumn lut (upper ++ lower) xParamMin xParamWidth yParams.fraction this.getTransparentValue) canvasSamples
    putDoubles samples (canvas.indexFor 0 j) canvasSamples

/-- The samples of the canvas when this raster has been drawn onto it. -/
def doDrawOnTo (threshold : ℚ) (this canvas : BufferWrapperRaster) : Option (List ℚ) :=
  if ¬this.sector.intersects canvas.sector then some canvas.buffer
  else
    let canvasToThis := computeSourceToDestTransform canvas.width canvas.height canvas.sector this.width this.height
      this.sector
    match createLookupTable threshold canvas.width canvas.height 0 ((this.width : ℚ) - 1) 0 ((this.height : ℚ) - 1)
      canvasToThis with
    | none => some canvas.buffer
    | some lut =>
      let xParams := computeInterpolantRange lut.xParams
      let xParamMin := intCast ⌊xParams.1⌋
      let xParamMax := intCast ⌈xParams.2⌉
      (List.range canvas.height).foldlM (this.drawRow canvas lut xParamMin (xParamMax - xParamMin + 1)) canvas.buffer

end BufferWrapperRaster

end WorldWind.Rasters
