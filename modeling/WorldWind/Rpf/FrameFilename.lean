import WorldWind.Lib.JavaChar
/-!
# `formats/rpf/RPFFrameFilename.java`, `RPFDataSeries.java`, `Base34Converter.java`

A frame file has a name of twelve characters: a frame number and a version in
base 34, the producer, a period, the data series and the zone. How many digits
the frame number has depends on the series. A call that throws has no result.
-/

namespace WorldWind.Rpf

open Lib.JavaInt Lib.JavaChar

/-! ## Data series -/

namespace RPFDataSeries

/-- The series code and the data type of the enum's constants, in order. -/
def enumConstants : List (String × String) :=
  [("GN", "CADRG"), ("JN", "CADRG"), ("OH", "CADRG"), ("ON", "CADRG"), ("OW", "CADRG"), ("TP", "CADRG"),
   ("LF", "CADRG"), ("L1", "CADRG"), ("L2", "CADRG"), ("L3", "CADRG"), ("L4", "CADRG"), ("L5", "CADRG"),
   ("LN", "CADRG"), ("JG", "CADRG"), ("JA", "CADRG"), ("JR", "CADRG"), ("JO", "CADRG"), ("VT", "CADRG"),
   ("F1", "CADRG"), ("F2", "CADRG"), ("F3", "CADRG"), ("F4", "CADRG"), ("F5", "CADRG"), ("AT", "CADRG"),
   ("VH", "CADRG"), ("TN", "CADRG"), ("TR", "CADRG"), ("TC", "CADRG"), ("RV", "CADRG"), ("TL", "CADRG"),
   ("UL", "CADRG"), ("TT", "CADRG"), ("TQ", "CADRG"), ("HA", "CADRG"), ("CO", "CADRG"), ("OA", "CADRG"),
   ("CG", "CADRG"), ("C1", "CADRG"), ("C2", "CADRG"), ("C3", "CADRG"), ("C4", "CADRG"), ("C5", "CADRG"),
   ("C6", "CADRG"), ("C7", "CADRG"), ("C8", "CADRG"), ("C9", "CADRG"), ("CA", "CADRG"), ("CB", "CADRG"),
   ("CC", "CADRG"), ("CD", "CADRG"), ("CE", "CADRG"), ("CF", "CADRG"), ("CH", "CADRG"), ("CJ", "CADRG"),
   ("CK", "CADRG"), ("CL", "CADRG"), ("CN", "CADRG"), ("CP", "CADRG"), ("CQ", "CADRG"), ("CR", "CADRG"),
   ("CS", "CADRG"), ("CT", "CADRG"), ("CM", "CADRG"), ("A1", "CADRG"), ("A2", "CADRG"), ("A3", "CADRG"),
   ("A4", "CADRG"), ("MI", "CADRG"), ("M1", "CADRG"), ("M2", "CADRG"), ("VN", "CADRG"), ("MM", "CADRG"),
   ("I1", "CIB"), ("I2", "CIB"), ("I3", "CIB"), ("I4", "CIB"), ("I5", "CIB"), ("IV", "CIB"), ("D1", "CDTED"),
   ("D1", "CDTED"), ("TF", "CADRG")]

/-- `enumConstantDirectory().get(seriesCode)`: the data type. Of two constants
with one code the later one is there. -/
def directory (seriesCode : JavaString) : Option JavaString :=
  (enumConstants.reverse.find? fun r => ascii r.1 = seriesCode).map fun r => ascii r.2

def isCIBDataType (cm : CaseMap) (rpfDataType : JavaString) : Bool := cm.equalsIgnoreCase (ascii "CIB") rpfDataType

/-- Throws if there is no such series. -/
def isCIBDataSeries (cm : CaseMap) (seriesCode : JavaString) : Option Bool :=
  (directory seriesCode).map fun rpfDataType => isCIBDataType cm rpfDataType

end RPFDataSeries

/-! ## Base 34 -/

namespace Base34Converter

/-- The letters I and O are left out. -/
def BASE34_ALPHABET : JavaString := ascii "0123456789ABCDEFGHJKLMNPQRSTUVWXYZ"

/-- From the last digit to the first. -/
def digits (i : Int) (dest : JavaString) (offset : Nat) : Nat → Option JavaString
  | 0 => some dest
  | count + 1 =>
    if i.tmod 34 < 0 then none
    else
      (BASE34_ALPHABET[(i.tmod 34).toNat]?).bind fun c => digits (i.tdiv 34)
      (dest.set (offset + count) c) offset count

def valueOf (i : Int) (dest : JavaString) (offset count : Nat) : Option JavaString :=
  if dest.length ≤ offset + count then none else digits i dest offset count

/-- The digit of a character in upper case. -/
def indexOf (charUpper : UInt16) : Option Int :=
  let c := charUpper.toNat
  if 48 ≤ c ∧ c ≤ 57 then some (c - 48)
  else if 65 ≤ c ∧ c ≤ 72 then some (10 + c - 65)
  else if 74 ≤ c ∧ c ≤ 78 then some (18 + c - 74)
  else if 80 ≤ c ∧ c ≤ 90 then some (23 + c - 80)
  else none

def parseChars (cm : CaseMap) (src : JavaString) (offset count : Nat) : Option Int :=
  if src.length ≤ offset + count then none
  else ((src.drop offset).take count).foldlM (fun i c => (indexOf (cm.toUpperCase c)).map fun index =>
    int (i * 34 + index)) 0

end Base34Converter

/-! ## Names -/

structure RPFFrameFilename where
  dataSeriesCode : JavaString
  frameNumber : Int
  producerId : UInt16
  version : Int
  zoneCode : UInt16
  deriving DecidableEq, Repr

namespace RPFFrameFilename

open Base34Converter RPFDataSeries

def FILENAME_LENGTH : Nat := 12

/-- The digits of the frame number: five in a CADRG name, six in a CIB one.
The version has the rest of the seven. -/
def frameChars (cib : Bool) : Nat := if cib then 6 else 5

def versionChars (cib : Bool) : Nat := if cib then 1 else 2

def parseFilename (cm : CaseMap) (filename : JavaString) : Option RPFFrameFilename :=
  if filename.length ≠ FILENAME_LENGTH then none
  else
    let dataSeriesCode := (filename.drop 9).take 2
    (isCIBDataSeries cm dataSeriesCode).bind fun cib =>
    (parseChars cm filename 0 (frameChars cib)).bind fun frameNumber =>
    (parseChars cm filename (frameChars cib) (versionChars cib)).map fun version =>
      ⟨dataSeriesCode, frameNumber, filename.getD 7 0, version, filename.getD 11 0⟩

variable (cm : CaseMap) (f : RPFFrameFilename)

/-- `toCharArray` into a new array. -/
def getFilename : Option JavaString :=
  (isCIBDataSeries cm f.dataSeriesCode).bind fun cib =>
  (valueOf f.frameNumber (List.replicate FILENAME_LENGTH 0) 0 (frameChars cib)).bind fun dest =>
  (valueOf f.version dest (frameChars cib) (versionChars cib)).map fun dest =>
    dest.take 7 ++ [f.producerId] ++ ascii "." ++ f.dataSeriesCode.take 2 ++ [f.zoneCode]

/-- `equals` of two frame file names. -/
def equals (that : RPFFrameFilename) : Bool :=
  cm.toUpperCase f.zoneCode = cm.toUpperCase that.zoneCode ∧ f.frameNumber = that.frameNumber ∧
    cm.equalsIgnoreCase f.dataSeriesCode that.dataSeriesCode ∧
    cm.toUpperCase f.producerId = cm.toUpperCase that.producerId ∧ f.version = that.version

def computeHash : Int :=
  let hash := Lib.JavaChar.hashCode f.dataSeriesCode
  let hash := int (29 * hash + f.frameNumber)
  let hash := int (29 * hash + f.producerId.toNat)
  let hash := int (29 * hash + f.version)
  int (29 * hash + f.zoneCode.toNat)

/-- What a call returns and caches, where `cached` is the field before it (-1
in a new object). -/
def hashCode (cached : Int) : Int := if cached < 0 then f.computeHash else cached

end RPFFrameFilename

end WorldWind.Rpf
