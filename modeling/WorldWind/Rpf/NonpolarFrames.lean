import WorldWind.Lib.Bands
import WorldWind.Lib.JavaChar
import WorldWind.Geom.Exact
/-!
# `formats/rpf/RPFNonpolarFrameTransform.java` and what it rests on

A zone is divided into frames of 1536 rows and columns of pixels, for a map of a
scale (CADRG) or a ground distance of a pixel (CIB). `double`s are numbers of any
ordered field and `int`s wrap. A call that throws has no result. A quotient by a
resolution of zero counts as zero; with either value the pixel constants are not
positive then.
-/

namespace WorldWind.Rpf

open Lib.JavaInt Lib.JavaChar Geom.Exact
open scoped Lib.Numerals

/-! ## `RPFZone` -/

namespace RPFZone

variable (cm : CaseMap)

def isZoneCode (c : UInt16) : Bool :=
  let upperChar := (cm.toUpperCase c).toNat
  (49 ≤ upperChar ∧ upperChar ≤ 57) ∨ (65 ≤ upperChar ∧ upperChar ≤ 72) ∨ upperChar = 74

def indexFor (zoneCode : UInt16) : Int :=
  let upperChar := (cm.toUpperCase zoneCode).toNat
  if 49 ≤ upperChar ∧ upperChar ≤ 57 then 0 + upperChar - 49
  else if 65 ≤ upperChar ∧ upperChar ≤ 72 then 9 + upperChar - 65
  else if upperChar = 74 then 9 + upperChar - 65 - 1
  else -1

def isZoneInUpperHemisphere (zoneCode : UInt16) : Bool :=
  let upperChar := (cm.toUpperCase zoneCode).toNat
  49 ≤ upperChar ∧ upperChar ≤ 57

def isPolarZone (zoneCode : UInt16) : Bool :=
  let upperChar := (cm.toUpperCase zoneCode).toNat
  upperChar = 57 ∨ upperChar = 74

end RPFZone

/-! ## `RPFFrameStructure` -/

namespace RPFFrameStructure

def PIXEL_ROWS_PER_FRAME : Int := 1536

def NORTH_SOUTH_PIXEL_SPACING_CONSTANT : Int := 400384

def EAST_WEST_PIXEL_SPACING_CONSTANT : List Int := [369664, 302592, 245760, 199168, 163328, 137216, 110080, 82432]

def EQUATORWARD_NOMINAL_BOUNDARY : List Int := [0, 32, 48, 56, 64, 68, 72, 76, 80]

def POLEWARD_NOMINAL_BOUNDARY : List Int := [32, 48, 56, 64, 68, 72, 76, 80, 90]

variable (cm : CaseMap)

/-- Throws for a polar zone, which the array does not have. -/
def eastWestPixelSpacingConstant (zoneCode : UInt16) : Option Int :=
  let index := (RPFZone.indexFor cm zoneCode).tmod 9
  if index < 0 then some (-1) else EAST_WEST_PIXEL_SPACING_CONSTANT[index.toNat]?

def nominalBoundary (zoneCode : UInt16) (boundaryArray : List Int) : Option Int :=
  let index := (RPFZone.indexFor cm zoneCode).tmod 9
  if index < 0 then some (-1)
  else
    boundaryArray[index.toNat]?.map fun boundary =>
      if RPFZone.isZoneInUpperHemisphere cm zoneCode then boundary else 0 - boundary

def equatorwardNominalBoundary (zoneCode : UInt16) : Option Int :=
  nominalBoundary cm zoneCode EQUATORWARD_NOMINAL_BOUNDARY

def polewardNominalBoundary (zoneCode : UInt16) : Option Int :=
  nominalBoundary cm zoneCode POLEWARD_NOMINAL_BOUNDARY

end RPFFrameStructure

open RPFFrameStructure

namespace RPFDataSeries

variable (cm : CaseMap)

def hasCADRGDataType (rpfDataType : JavaString) : Bool := cm.equalsIgnoreCase (ascii "CADRG") rpfDataType

def hasCIBDataType (rpfDataType : JavaString) : Bool := cm.equalsIgnoreCase (ascii "CIB") rpfDataType

/-- One of `RPF_DATA_TYPES`. -/
def isRPFDataType (rpfDataType : JavaString) : Bool :=
  hasCADRGDataType cm rpfDataType || hasCIBDataType cm rpfDataType

end RPFDataSeries

/-! ## `RPFNonpolarFrameStructure` -/

section

variable {K : Type*} [Field K] [LinearOrder K] [FloorRing K]

/-- `(int)` of a `double`: towards zero, and to the nearest `int`. -/
def castInt (x : K) : Int := max (-2 ^ 31) (min (2 ^ 31 - 1) (if 0 ≤ x then ⌊x⌋ else ⌈x⌉))

/-- `Math.round`. -/
def round (x : K) : Int := ⌊x + 1 / 2⌋

def signum (x : K) : K := if 0 < x then 1 else if x < 0 then -1 else 0

def clamp (x lo hi : K) : K := if x < lo then lo else if hi < x then hi else x

structure RPFNonpolarFrameStructure (K : Type*) where
  northSouthPixelConstant : Int
  eastWestPixelConstant : Int
  polewardExtent : K
  equatorwardExtent : K
  latitudinalFrames : Int
  longitudinalFrames : Int
  deriving DecidableEq

namespace RPFNonpolarFrameStructure

def northSouthPixelConstant_CADRG (northSouthPixelConstant scale : K) : Int :=
  let S := 1000000 / scale
  let tmp := northSouthPixelConstant * S
  let tmp := 512 * (castInt (⌈tmp / 512⌉ : K) : K)
  let tmp := tmp / 4
  let tmp := tmp / (150 / 100)
  int (256 * int (round (tmp / 256)))

def eastWestPixelConstant_CADRG (eastWestPixelSpacingConstant scale : K) : Int :=
  let S := 1000000 / scale
  let tmp := eastWestPixelSpacingConstant * S
  let tmp := 512 * (castInt (⌈tmp / 512⌉ : K) : K)
  let tmp := tmp / (150 / 100)
  int (256 * int (round (tmp / 256)))

def northSouthPixelConstant_CIB (northSouthPixelSpacingConstant groundSampleDistance : K) : Int :=
  let S := 100 / groundSampleDistance
  let tmp := northSouthPixelSpacingConstant * S
  let tmp := 512 * (castInt (⌈tmp / 512⌉ : K) : K)
  let tmp := tmp / 4
  int (256 * int (round (tmp / 256)))

def eastWestPixelConstant_CIB (eastWestPixelSpacingConstant groundSampleDistance : K) : Int :=
  let S := 100 / groundSampleDistance
  let tmp := eastWestPixelSpacingConstant * S
  int (512 * castInt (⌈tmp / 512⌉ : K))

/-- The boundary in whole frames, outwards, before it is clamped. -/
def polewardFrames (polewardNominalBoundary northSouthPixelConstant pixelRowsPerFrame : K) : K :=
  let nsPixelsPerDegree := northSouthPixelConstant / 90
  (⌈nsPixelsPerDegree * |polewardNominalBoundary| / pixelRowsPerFrame⌉ : K) * pixelRowsPerFrame / nsPixelsPerDegree

def polewardExtentOf (polewardNominalBoundary northSouthPixelConstant pixelRowsPerFrame : K) : K :=
  signum polewardNominalBoundary *
    clamp (polewardFrames polewardNominalBoundary northSouthPixelConstant pixelRowsPerFrame) 0 90

/-- The boundary in whole frames, inwards, before it is clamped. -/
def equatorwardFrames (equatorwardNominalBoundary northSouthPixelConstant pixelRowsPerFrame : K) : K :=
  let nsPixelsPerDegree := northSouthPixelConstant / 90
  (castInt (nsPixelsPerDegree * |equatorwardNominalBoundary| / pixelRowsPerFrame) : K) * pixelRowsPerFrame /
    nsPixelsPerDegree

def equatorwardExtentOf (equatorwardNominalBoundary northSouthPixelConstant pixelRowsPerFrame : K) : K :=
  signum equatorwardNominalBoundary *
    clamp (equatorwardFrames equatorwardNominalBoundary northSouthPixelConstant pixelRowsPerFrame) 0 90

def latitudinalFramesOf (polewardExtentDegrees equatorwardExtentDegrees northSouthPixelConstant
    pixelRowsPerFrame : K) : Int :=
  let nsPixelsPerDegree := northSouthPixelConstant / 90
  let extent := |polewardExtentDegrees - equatorwardExtentDegrees|
  int (round (extent * nsPixelsPerDegree / pixelRowsPerFrame))

def longitudinalFramesOf (eastWestPixelConstant pixelRowsPerFrame : K) : Int :=
  castInt (⌈eastWestPixelConstant / pixelRowsPerFrame⌉ : K)

variable (cm : CaseMap)

/-- The north-south and the east-west pixel constant. -/
def pixelConstants (ewPixelSpacingConst nsPixelSpacingConst : K) (rpfDataType : JavaString) (resolution : K) :
    Int × Int :=
  if RPFDataSeries.hasCADRGDataType cm rpfDataType then
    (northSouthPixelConstant_CADRG nsPixelSpacingConst resolution,
      eastWestPixelConstant_CADRG ewPixelSpacingConst resolution)
  else if RPFDataSeries.hasCIBDataType cm rpfDataType then
    (northSouthPixelConstant_CIB nsPixelSpacingConst resolution,
      eastWestPixelConstant_CIB ewPixelSpacingConst resolution)
  else (-1, -1)

def computeStructure (zoneCode : UInt16) (rpfDataType : JavaString) (resolution : K) :
    Option (RPFNonpolarFrameStructure K) :=
  if ¬RPFZone.isZoneCode cm zoneCode ∨ ¬RPFDataSeries.isRPFDataType cm rpfDataType ∨ resolution < 0 then none
  else
    (eastWestPixelSpacingConstant cm zoneCode).bind fun ewPixelSpacingConst : Int =>
    (equatorwardNominalBoundary cm zoneCode).bind fun equatorwardNominalBound : Int =>
    (polewardNominalBoundary cm zoneCode).map fun polewardNominalBound : Int =>
      let nsPixelSpacingConst := NORTH_SOUTH_PIXEL_SPACING_CONSTANT
      let nsPixelConst :=
        (pixelConstants cm (ewPixelSpacingConst : K) (nsPixelSpacingConst : K) rpfDataType resolution).1
      let ewPixelConst :=
        (pixelConstants cm (ewPixelSpacingConst : K) (nsPixelSpacingConst : K) rpfDataType resolution).2
      let polewardExtent := polewardExtentOf (polewardNominalBound : K) nsPixelConst PIXEL_ROWS_PER_FRAME
      let equatorwardExtent := equatorwardExtentOf (equatorwardNominalBound : K) nsPixelConst PIXEL_ROWS_PER_FRAME
      let latFrames := latitudinalFramesOf polewardExtent equatorwardExtent nsPixelConst PIXEL_ROWS_PER_FRAME
      let lonFrames := longitudinalFramesOf (ewPixelConst : K) PIXEL_ROWS_PER_FRAME
      ⟨nsPixelConst, ewPixelConst, polewardExtent, equatorwardExtent, latFrames, lonFrames⟩

end RPFNonpolarFrameStructure

/-! ## `RPFPolarFrameStructure` -/

namespace RPFPolarFrameStructure

/-- The extents of a polar zone are its nominal boundaries. -/
def equatorwardExtentOf (cm : CaseMap) (zoneCode : UInt16) : Option K :=
  (equatorwardNominalBoundary cm zoneCode).map fun boundary : Int => (boundary : K)

end RPFPolarFrameStructure

/-! ## `RPFFrameTransform` -/

namespace RPFFrameTransform

def frameNumber (row column columnFrames : Int) : Int := int (column + int (row * columnFrames))

def maxFrameNumber (rowFrames columnFrames : Int) : Int := int (int (rowFrames * columnFrames) - 1)

def frameRow (K : Type*) [Field K] [LinearOrder K] [FloorRing K] (frameNumber columnFrames : Int) : Int :=
  castInt ((frameNumber : K) / (columnFrames : K))

def frameColumn (frameNumber frameRow columnFrames : Int) : Int := int (frameNumber - int (frameRow * columnFrames))

end RPFFrameTransform

open RPFFrameTransform

/-! ## `RPFNonpolarFrameTransform` -/

structure RPFNonpolarFrameTransform (K : Type*) where
  zoneCode : UInt16
  rpfDataType : JavaString
  resolution : K
  frameStructure : RPFNonpolarFrameStructure K
  deriving DecidableEq

namespace RPFNonpolarFrameTransform

def createNonpolarFrameTransform (cm : CaseMap) (zoneCode : UInt16) (rpfDataType : JavaString) (resolution : K) :
    Option (RPFNonpolarFrameTransform K) :=
  if ¬RPFZone.isZoneCode cm zoneCode ∨ ¬RPFDataSeries.isRPFDataType cm rpfDataType ∨ resolution < 0 then none
  else
    (RPFNonpolarFrameStructure.computeStructure cm zoneCode rpfDataType resolution).map fun frameStructure =>
      ⟨zoneCode, rpfDataType, resolution, frameStructure⟩

variable (t : RPFNonpolarFrameTransform K)

def getRows : Int := t.frameStructure.latitudinalFrames

def getColumns : Int := t.frameStructure.longitudinalFrames

def getFrameNumber (row column : Int) : Int := frameNumber row column t.frameStructure.longitudinalFrames

def getMaximumFrameNumber : Int :=
  maxFrameNumber t.frameStructure.latitudinalFrames t.frameStructure.longitudinalFrames

def frameOriginLatitude (row : Int) (northSouthPixelConstant pixelRowsPerFrame zoneOriginLatitude : K) : K :=
  90 / northSouthPixelConstant * pixelRowsPerFrame * (int (row + 1) : K) + zoneOriginLatitude

def frameOriginLongitude (column : Int) (eastWestPixelConstant pixelRowsPerFrame : K) : K :=
  360 / eastWestPixelConstant * pixelRowsPerFrame * (column : K) - 180

def frameDeltaLatitude (northSouthPixelConstant pixelRowsPerFrame : K) : K :=
  90 / northSouthPixelConstant * pixelRowsPerFrame

def frameDeltaLongitude (eastWestPixelConstant pixelRowsPerFrame : K) : K :=
  360 / eastWestPixelConstant * pixelRowsPerFrame

/-- Throws for a number that is no frame's. -/
def computeFrameCoverage (cm : CaseMap) (frameNumber : Int) : Option (Sector K) :=
  let fs := t.frameStructure
  let maxFrameNumber := RPFFrameTransform.maxFrameNumber fs.latitudinalFrames fs.longitudinalFrames
  if frameNumber < 0 ∨ maxFrameNumber < frameNumber then none
  else
    let row := frameRow K frameNumber fs.longitudinalFrames
    let col := frameColumn frameNumber row fs.longitudinalFrames
    let zoneLat := if RPFZone.isZoneInUpperHemisphere cm t.zoneCode then fs.equatorwardExtent else fs.polewardExtent
    let n := frameOriginLatitude row (fs.northSouthPixelConstant : K) PIXEL_ROWS_PER_FRAME zoneLat
    let s := n - frameDeltaLatitude (fs.northSouthPixelConstant : K) PIXEL_ROWS_PER_FRAME
    let w := frameOriginLongitude col (fs.eastWestPixelConstant : K) PIXEL_ROWS_PER_FRAME
    let e := w + frameDeltaLongitude (fs.eastWestPixelConstant : K) PIXEL_ROWS_PER_FRAME
    some ⟨s, n, w, e⟩

end RPFNonpolarFrameTransform

end

end WorldWind.Rpf
