import WorldWind.Lib.JavaInt
/-!
# The number of points in a shapefile

`Shapefile.computeNumberOfPointsEstimate` and the allocation `addPoints` makes
from it when the shapefile is read from a stream. The estimate takes the record
headers and the fixed part of every record off the file's length and divides
the rest by the size of a point.

A null record has no fixed part. The bytes that are taken off for it are
missing from the points of the other records, unless part indexes and measures
make up for them. `computeNumberOfPointsEstimate_covers_iff` says when they do.
-/

namespace WorldWind.Shapefile

open Lib.JavaInt

/-! ## Shape types -/

inductive ShapeType
  | null
  | point
  | multiPoint
  | polyline
  | polygon
  | pointM
  | multiPointM
  | polylineM
  | polygonM
  | pointZ
  | multiPointZ
  | polylineZ
  | polygonZ
  | multiPatch
  deriving DecidableEq

namespace ShapeType

def measureTypes : List ShapeType :=
  [pointM, pointZ, multiPointM, multiPointZ, polylineM, polylineZ, polygonM, polygonZ]

def zTypes : List ShapeType :=
  [pointZ, multiPointZ, polylineZ, polygonZ]

def isMeasureType (t : ShapeType) : Bool :=
  measureTypes.contains t

def isZType (t : ShapeType) : Bool :=
  zTypes.contains t

def isNullType (t : ShapeType) : Bool :=
  t == null

def isPointType (t : ShapeType) : Bool :=
  t == point || t == pointZ || t == pointM

def isMultiPointType (t : ShapeType) : Bool :=
  t == multiPoint || t == multiPointZ || t == multiPointM

def isPolylineType (t : ShapeType) : Bool :=
  t == polyline || t == polylineZ || t == polylineM

def isPolygonType (t : ShapeType) : Bool :=
  t == polygon || t == polygonZ || t == polygonM

end ShapeType

/-- The type for a number in the file, or none where it is not supported. -/
def getShapeType (type : Int) : Option ShapeType :=
  if type = 0 then some .null
  else if type = 1 then some .point
  else if type = 3 then some .polyline
  else if type = 5 then some .polygon
  else if type = 8 then some .multiPoint
  else if type = 11 then some .pointZ
  else if type = 13 then some .polylineZ
  else if type = 15 then some .polygonZ
  else if type = 18 then some .multiPointZ
  else if type = 21 then some .pointM
  else if type = 23 then some .polylineM
  else if type = 25 then some .polygonM
  else if type = 28 then some .multiPointM
  else none

/-! ## The header and the index -/

def HEADER_LENGTH : Int := 100

structure Header where
  fileLength : Int
  shapeType : ShapeType

/-- The two words of a file's header that are read here: its length in 16-bit
words and its type. -/
structure HeaderWords where
  lengthInWords : Int
  type : Int

/-- None where the shape type is not supported. -/
def readHeaderFromBuffer (buffer : HeaderWords) : Option Header :=
  (getShapeType buffer.type).map fun shapeType => ⟨int (buffer.lengthInWords * 2), shapeType⟩

/-- An index file that holds at least a header, and the ints behind it. -/
structure IndexFile where
  header : HeaderWords
  values : List Int

/-- None where an exception is thrown: the header is not supported, the index
has a negative length, or it ends before its last record. Without a file there
is no index. -/
def readIndex : Option IndexFile → Option (Option (List Int))
  | none => some none
  | some shx => do
    let indexHeader ← readHeaderFromBuffer shx.header
    let numRecords := (int (indexHeader.fileLength - HEADER_LENGTH)).tdiv 8
    let numElements := int (2 * numRecords)
    let indexLength := int (8 * numRecords)
    if indexLength < 0 ∨ numElements < 0 ∨ (shx.values.length : Int) < numElements then none
    else some (some ((shx.values.take numElements.toNat).map fun v => int (v * 2)))

/-- The fields of an open `Shapefile` that are read here. -/
structure OpenShapefile where
  header : Header
  index : Option (List Int)

def openShapefile (shp : HeaderWords) (shx : Option IndexFile) : Option OpenShapefile := do
  let header ← readHeaderFromBuffer shp
  let index ← readIndex shx
  return ⟨header, index⟩

namespace OpenShapefile

def getLength (shp : OpenShapefile) : Int :=
  shp.header.fileLength

def getNumberOfRecords (shp : OpenShapefile) : Int :=
  match shp.index with
  | some index => (index.length / 2 : Nat)
  | none => -1

/-- `getLength() - (overhead + numRecords * fixed)`, divided by the size of a
point. -/
def pointsThatFit (shp : OpenShapefile) (overhead fixed size : Int) : Int :=
  (int (shp.getLength - int (overhead + int (shp.getNumberOfRecords * fixed)))).tdiv size

/-- None where the shape type has no case. -/
def computeNumberOfPointsEstimate (shp : OpenShapefile) : Option Int :=
  let numRecords := shp.getNumberOfRecords
  if numRecords < 0 then some ((int (shp.getLength - HEADER_LENGTH)).tdiv 16)
  else
    let overhead := int (HEADER_LENGTH + int (numRecords * 12))
    let shapeType := shp.header.shapeType
    if shapeType = .point ∨ shapeType = .pointM then some ((int (shp.getLength - overhead)).tdiv 16)
    else if shapeType = .multiPoint ∨ shapeType = .multiPointM then some (shp.pointsThatFit overhead (32 + 4) 16)
    else if shapeType = .polyline ∨ shapeType = .polygon ∨ shapeType = .polylineM ∨ shapeType = .polygonM then
      some (shp.pointsThatFit overhead (32 + 8) 16)
    else if shapeType = .pointZ then some ((int (shp.getLength - overhead)).tdiv 24)
    else if shapeType = .multiPointZ then some (shp.pointsThatFit overhead (48 + 4) 24)
    else if shapeType = .polylineZ ∨ shapeType = .polygonZ then some (shp.pointsThatFit overhead (48 + 8) 24)
    else none

/-- The number of doubles `addPoints` allocates at the first record with
points. A negative capacity is an exception. -/
def allocatePointBuffer (shp : OpenShapefile) : Option Int := do
  let totalPointsEstimate ← shp.computeNumberOfPointsEstimate
  let capacity := int (2 * totalPointsEstimate)
  if capacity < 0 then none else some capacity

end OpenShapefile

/-! ## Conforming files -/

/-- The types that records are read for. -/
def ShapeType.isSupported (t : ShapeType) : Bool :=
  t.isPointType || t.isMultiPointType || t.isPolylineType || t.isPolygonType

/-- A null record, or a shape of the file's type. The last field tells whether
the optional measures are there. -/
inductive Record
  | null
  | shape (numberOfParts numberOfPoints : Nat) (measures : Bool)
  deriving DecidableEq

namespace Record

def numberOfPoints : Record → Nat
  | null => 0
  | shape _ points _ => points

/-- The bytes of a record's content. After the type come a point, or a bounding
rectangle, the counts, the part indexes and the points. Z values and measures
have a range in front unless the shape is a point. -/
def contentLength (t : ShapeType) : Record → Nat
  | null => 4
  | shape parts points measures =>
    if t.isPointType then
      4 + 16 + (if t.isZType then 8 else 0) + (if t.isMeasureType && measures then 8 else 0)
    else
      4 + 32 + (if t.isMultiPointType then 4 else 8 + 4 * parts) + 16 * points
        + (if t.isZType then 16 + 8 * points else 0)
        + (if t.isMeasureType && measures then 16 + 8 * points else 0)

/-- The record header and the content. -/
def length (t : ShapeType) (r : Record) : Nat :=
  8 + r.contentLength t

end Record

/-- A shapefile of a supported type: its records are null or of that type, and
its length is an `int`. -/
structure ConformingFile where
  type : Int
  shapeType : ShapeType
  records : List Record
  type_eq : getShapeType type = some shapeType
  supported : shapeType.isSupported = true
  one_point : shapeType.isPointType = true → ∀ r ∈ records, r ≠ .null → r.numberOfPoints = 1
  length_lt : 100 + (records.map (·.length shapeType)).sum < 2 ^ 31

namespace ConformingFile

variable (f : ConformingFile)

def fileLength : Nat :=
  100 + (f.records.map (·.length f.shapeType)).sum

def totalPoints : Nat :=
  (f.records.map Record.numberOfPoints).sum

def shp : HeaderWords :=
  ⟨(f.fileLength / 2 : Nat), f.type⟩

/-- The offset and the content length of each record, in words. -/
def indexValues (t : ShapeType) : Nat → List Record → List Int
  | _, [] => []
  | offset, r :: rs =>
    (offset / 2 : Nat) :: (r.contentLength t / 2 : Nat) :: indexValues t (offset + r.length t) rs

def shx : IndexFile :=
  ⟨⟨((100 + 8 * f.records.length) / 2 : Nat), f.type⟩, indexValues f.shapeType 100 f.records⟩

/-- The estimate is at least the number of points, and the buffer for two
doubles a point is allocated. -/
def EstimateCovers : Prop :=
  ∃ shapefile est, openShapefile f.shp (some f.shx) = some shapefile ∧
    shapefile.computeNumberOfPointsEstimate = some est ∧ (f.totalPoints : Int) ≤ est ∧
    shapefile.allocatePointBuffer = some (2 * est)

end ConformingFile

/-! ## What the estimate leaves out -/

/-- The bytes of a point, with its Z value. -/
def ShapeType.pointSize (t : ShapeType) : Nat :=
  if t.isZType then 24 else 16

/-- What the estimate takes off for a record besides its header and type. -/
def ShapeType.fixedLength (t : ShapeType) : Nat :=
  if t.isPointType then 0
  else (if t.isZType then 48 else 32) + (if t.isMultiPointType then 4 else 8)

/-- The part indexes and the measures, which the estimate does not take off. -/
def Record.extraLength (t : ShapeType) : Record → Nat
  | null => 0
  | shape parts points measures =>
    (if t.isPolylineType || t.isPolygonType then 4 * parts else 0)
      + (if t.isMeasureType && measures then (if t.isPointType then 8 else 16 + 8 * points) else 0)

namespace Record

@[simp]
theorem length_null (t : ShapeType) : null.length t = 12 := rfl

@[simp]
theorem extraLength_null (t : ShapeType) : null.extraLength t = 0 := rfl

theorem contentLength_shape {t : ShapeType} (ht : t.isSupported = true) (parts : Nat) {points : Nat} (measures : Bool)
    (hp : t.isPointType = true → points = 1) :
    (shape parts points measures).contentLength t
      = 4 + t.fixedLength + t.pointSize * points + (shape parts points measures).extraLength t := by
  cases t <;> first | (exact absurd ht (by decide)) | skip
  all_goals
    simp [ShapeType.isPointType] at hp
    cases measures <;>
      simp [contentLength, extraLength, ShapeType.fixedLength, ShapeType.pointSize, ShapeType.isPointType,
        ShapeType.isMultiPointType, ShapeType.isPolylineType, ShapeType.isPolygonType, ShapeType.isZType,
        ShapeType.isMeasureType, ShapeType.zTypes, ShapeType.measureTypes, hp] <;> omega

theorem contentLength_even (t : ShapeType) (r : Record) : r.contentLength t % 2 = 0 := by
  cases r with
  | null => simp [contentLength]
  | shape parts points measures =>
    simp only [contentLength]
    split_ifs <;> omega

theorem length_ge (t : ShapeType) (r : Record) : 12 ≤ r.length t := by
  cases r with
  | null => exact le_rfl
  | shape parts points measures =>
    simp only [length, contentLength]
    split_ifs <;> omega

end Record

namespace ConformingFile

variable (f : ConformingFile)

/-- What the estimate takes off for null records. -/
def nullLength : Nat :=
  f.shapeType.fixedLength * f.records.count .null

/-- The bytes of part indexes and measures. -/
def extraLength : Nat :=
  (f.records.map (·.extraLength f.shapeType)).sum

theorem sum_length {t : ShapeType} (ht : t.isSupported = true) (rs : List Record)
    (hp : t.isPointType = true → ∀ r ∈ rs, r ≠ .null → r.numberOfPoints = 1) :
    (rs.map (·.length t)).sum + t.fixedLength * rs.count .null
      = (12 + t.fixedLength) * rs.length + t.pointSize * (rs.map Record.numberOfPoints).sum
        + (rs.map (·.extraLength t)).sum := by
  induction rs with
  | nil => simp
  | cons r rs ih =>
    have ih := ih fun h s hs => hp h s (by simp [hs])
    cases r with
    | null =>
      simp only [List.map_cons, List.sum_cons, List.count_cons_self, List.length_cons, Record.length_null,
        Record.numberOfPoints, Record.extraLength_null]
      linarith
    | shape parts points measures =>
      have hone : t.isPointType = true → points = 1 := fun h =>
        hp h (.shape parts points measures) (by simp) (by simp)
      have hcontent := Record.contentLength_shape ht parts measures hone
      have hcount : (Record.shape parts points measures :: rs).count .null = rs.count .null := by simp
      rw [hcount]
      simp only [List.map_cons, List.sum_cons, List.length_cons]
      rw [Record.length, hcontent, Record.numberOfPoints]
      linarith

theorem fileLength_eq :
    f.fileLength + f.nullLength
      = 100 + (12 + f.shapeType.fixedLength) * f.records.length + f.shapeType.pointSize * f.totalPoints
        + f.extraLength := by
  have := sum_length f.supported f.records f.one_point
  simp only [fileLength, nullLength, totalPoints, extraLength]
  omega

theorem fileLength_even : f.fileLength % 2 = 0 := by
  have h (rs : List Record) : (rs.map (·.length f.shapeType)).sum % 2 = 0 := by
    induction rs with
    | nil => rfl
    | cons r rs ih =>
      have heven := r.contentLength_even f.shapeType
      have hr : r.length f.shapeType = 8 + r.contentLength f.shapeType := rfl
      simp only [List.map_cons, List.sum_cons]
      omega
  have := h f.records
  rw [fileLength]
  omega

theorem length_indexValues (t : ShapeType) (rs : List Record) (offset : Nat) :
    (indexValues t offset rs).length = 2 * rs.length := by
  induction rs generalizing offset with
  | nil => rfl
  | cons r rs ih =>
    simp only [indexValues, List.length_cons, ih]
    omega

theorem records_le : 100 + 12 * f.records.length ≤ f.fileLength := by
  have h (rs : List Record) : 12 * rs.length ≤ (rs.map (·.length f.shapeType)).sum := by
    induction rs with
    | nil => simp
    | cons r rs ih =>
      have hr := r.length_ge f.shapeType
      simp only [List.length_cons, List.map_cons, List.sum_cons]
      omega
  have := h f.records
  rw [fileLength]
  omega

/-! ## Reading the header and the index -/

theorem readHeader_shp : readHeaderFromBuffer f.shp = some ⟨f.fileLength, f.shapeType⟩ := by
  have heven := f.fileLength_even
  have hlt : f.fileLength < 2 ^ 31 := f.length_lt
  have hlen : int (((f.fileLength / 2 : Nat) : Int) * 2) = f.fileLength := by
    rw [int_eq (by omega) (by omega)]
    omega
  simp only [readHeaderFromBuffer, shp, f.type_eq, Option.map_some, hlen]

theorem readIndex_shx : ∃ index, readIndex (some f.shx) = some (some index) ∧
    index.length = 2 * f.records.length := by
  have hlt : f.fileLength < 2 ^ 31 := f.length_lt
  have hrecords := f.records_le
  have hlen : int ((((100 + 8 * f.records.length) / 2 : Nat) : Int) * 2) = 100 + 8 * f.records.length := by
    rw [int_eq (by omega) (by omega)]
    omega
  have hnum : (int ((100 + 8 * f.records.length : Int) - HEADER_LENGTH)).tdiv 8 = f.records.length := by
    rw [HEADER_LENGTH, int_eq (by omega) (by omega), Int.tdiv_eq_ediv_of_nonneg (by omega)]
    omega
  have helems : int (2 * (f.records.length : Int)) = 2 * f.records.length := int_eq (by omega) (by omega)
  have hindex : int (8 * (f.records.length : Int)) = 8 * f.records.length := int_eq (by omega) (by omega)
  have hvalues : f.shx.values.length = 2 * f.records.length := length_indexValues f.shapeType f.records 100
  have hheader : readHeaderFromBuffer f.shx.header = some ⟨100 + 8 * f.records.length, f.shapeType⟩ := by
    simp only [readHeaderFromBuffer, shx, f.type_eq, Option.map_some, hlen]
  refine ⟨(f.shx.values.take (2 * (f.records.length : Int)).toNat).map fun v => int (v * 2), ?_, ?_⟩
  · simp only [readIndex, hheader, Option.bind_eq_bind, Option.bind_some, hnum, helems, hindex, hvalues]
    rw [if_neg (by omega)]
  · rw [List.length_map, List.length_take, hvalues]
    omega

theorem open_eq : ∃ shapefile, openShapefile f.shp (some f.shx) = some shapefile ∧
    shapefile.header = ⟨f.fileLength, f.shapeType⟩ ∧ shapefile.getNumberOfRecords = f.records.length := by
  obtain ⟨index, hindex, hlen⟩ := f.readIndex_shx
  refine ⟨⟨⟨f.fileLength, f.shapeType⟩, some index⟩, ?_, rfl, ?_⟩
  · simp only [openShapefile, f.readHeader_shp, hindex, Option.bind_eq_bind, Option.bind_some, Option.pure_def]
  · simp only [OpenShapefile.getNumberOfRecords, hlen]
    omega

/-! ## The estimate -/

/-- The bytes for null records that part indexes and measures do not make up
for. -/
def missingLength : Int :=
  f.nullLength - f.extraLength

theorem estimate_eq {shapefile : OpenShapefile} (hheader : shapefile.header = ⟨f.fileLength, f.shapeType⟩)
    (hnum : shapefile.getNumberOfRecords = f.records.length) :
    shapefile.computeNumberOfPointsEstimate
      = some ((int (f.shapeType.pointSize * f.totalPoints - f.missingLength)).tdiv f.shapeType.pointSize) := by
  have hlen := f.fileLength_eq
  have hlt : f.fileLength < 2 ^ 31 := f.length_lt
  have hrecords := f.records_le
  have hoverhead : int (HEADER_LENGTH + int ((f.records.length : Int) * 12)) = 100 + 12 * f.records.length := by
    rw [HEADER_LENGTH, int_eq (x := (f.records.length : Int) * 12) (by omega) (by omega), int_eq (by omega)
      (by omega)]
    omega
  have hsupported := f.supported
  simp only [OpenShapefile.computeNumberOfPointsEstimate, OpenShapefile.pointsThatFit, OpenShapefile.getLength,
    hheader, hnum, hoverhead, missingLength]
  rw [if_neg (by omega)]
  simp only [int_sub_int, int_sub_add_int]
  generalize f.shapeType = t at hlen hsupported
  cases t <;> first | (exact absurd hsupported (by decide)) | skip
  all_goals
    simp [ShapeType.fixedLength, ShapeType.pointSize, ShapeType.isPointType, ShapeType.isMultiPointType,
      ShapeType.isZType, ShapeType.zTypes] at hlen ⊢
    congr 2
    omega

/-! ## When it covers the points -/

/-- How the wrapped difference lies to the exact one. -/
theorem exists_int_add_eq {x : Int} (hx : x < 2 ^ 31) : ∃ k : Nat, int x = x + k * 2 ^ 32 := by
  have hlt := int_lt x
  have hle : -2 ^ 31 ≤ int x := by
    have := Int.le_bmod (x := x) (m := 2 ^ 32) (by decide)
    simpa [int] using this
  have hmod := int_mod x
  refine ⟨((int x - x) / 2 ^ 32).toNat, ?_⟩
  omega

theorem le_tdiv_iff {v size points : Int} (hs : 0 < size) (hp : 0 ≤ points) :
    points ≤ v.tdiv size ↔ size * points ≤ v ∨ points = 0 ∧ -size < v := by
  by_cases hv : 0 ≤ v
  · rw [Int.tdiv_eq_ediv_of_nonneg hv, Int.le_ediv_iff_mul_le hs, Int.mul_comm]
    constructor
    · exact Or.inl
    · rintro (h | ⟨rfl, -⟩)
      · exact h
      · simpa using hv
  · have hneg : v.tdiv size = -((-v) / size) := by
      rw [← Int.tdiv_eq_ediv_of_nonneg (by omega), Int.neg_tdiv, neg_neg]
    have hquot : 0 ≤ (-v) / size := Int.ediv_nonneg (by omega) hs.le
    have hprod : 0 ≤ size * points := Int.mul_nonneg hs.le hp
    have hzero : (-v) / size < 1 ↔ -v < 1 * size := Int.ediv_lt_iff_lt_mul hs
    rw [hneg]
    constructor
    · intro h
      have hlt := hzero.mp (by omega)
      exact Or.inr ⟨by omega, by omega⟩
    · rintro (h | ⟨rfl, h⟩)
      · omega
      · have hlt := hzero.mpr (by omega)
        omega

theorem pointSize_bounds (t : ShapeType) : 16 ≤ t.pointSize ∧ t.pointSize ≤ 24 := by
  rw [ShapeType.pointSize]
  split_ifs <;> omega

theorem difference_lt : (f.shapeType.pointSize * f.totalPoints : Int) - f.missingLength < 2 ^ 31 := by
  have hlen := f.fileLength_eq
  have hlt : f.fileLength < 2 ^ 31 := f.length_lt
  have hrecords : 0 ≤ (12 + f.shapeType.fixedLength) * f.records.length := Nat.zero_le _
  zify at hlen hlt hrecords
  rw [missingLength]
  linarith

theorem int_add_mul (x : Int) (k : Nat) : int (x + k * 2 ^ 32) = int x := by
  rw [← int_emod (x + k * 2 ^ 32), Int.add_mul_emod_self_right, int_emod]

/-- The capacity of two doubles a point is an `int` too. -/
theorem allocatePointBuffer_eq {shapefile : OpenShapefile} {est size v : Int}
    (hest : shapefile.computeNumberOfPointsEstimate = some est) (hquot : est = v.tdiv size) (hnonneg : 0 ≤ est)
    (hsize : 16 ≤ size) (hv : v < 2 ^ 31) : shapefile.allocatePointBuffer = some (2 * est) := by
  have hle : est ≤ 0 ∨ est * 16 ≤ v := by
    rcases (le_tdiv_iff (by omega : 0 < size) hnonneg).mp hquot.le with h | ⟨h, -⟩
    · exact Or.inr (by nlinarith)
    · exact Or.inl h.le
  have hcapacity : int (2 * est) = 2 * est := int_eq (by omega) (by omega)
  simp only [OpenShapefile.allocatePointBuffer, hest, Option.bind_eq_bind, Option.bind_some, hcapacity]
  rw [if_neg (by omega)]

/-- The estimate covers the points if and only if nothing is missing for null
records, or less than a point in a file without points. The difference is an
`int`, so that multiples of 2^32 do not count. -/
theorem computeNumberOfPointsEstimate_covers_iff (f : ConformingFile) :
    f.EstimateCovers ↔
      ∃ k : Nat, k * 2 ^ 32 + (f.shapeType.pointSize * f.totalPoints : Int) < 2 ^ 31 + f.missingLength ∧
        (f.missingLength ≤ k * 2 ^ 32 ∨
          f.totalPoints = 0 ∧ f.missingLength < k * 2 ^ 32 + f.shapeType.pointSize) := by
  obtain ⟨hsize, hsize'⟩ := pointSize_bounds f.shapeType
  have hprod : (0 : Int) ≤ f.shapeType.pointSize * f.totalPoints := by positivity
  have hfits : f.shapeType.pointSize * f.totalPoints - f.missingLength < 2 ^ 31 := f.difference_lt
  constructor
  · rintro ⟨shapefile, est, hopen, hest, hle, -⟩
    obtain ⟨shapefile', hopen', hheader, hnum⟩ := f.open_eq
    obtain rfl : shapefile' = shapefile := Option.some.inj (hopen'.symm.trans hopen)
    obtain rfl := Option.some.inj ((f.estimate_eq hheader hnum).symm.trans hest)
    obtain ⟨k, hk⟩ := exists_int_add_eq hfits
    have hbound := int_lt (f.shapeType.pointSize * f.totalPoints - f.missingLength)
    refine ⟨k, by omega, ?_⟩
    rcases (le_tdiv_iff (by omega) (by omega)).mp hle with h | ⟨h, hneg⟩
    · exact Or.inl (by omega)
    · have hzero : (f.shapeType.pointSize * f.totalPoints : Int) = 0 := by rw [h, Int.mul_zero]
      exact Or.inr ⟨by omega, by omega⟩
  · rintro ⟨k, hfit, hcovers⟩
    obtain ⟨shapefile, hopen, hheader, hnum⟩ := f.open_eq
    have hest := f.estimate_eq hheader hnum
    -- the estimate divides a difference that lies in the range of an int
    have hint : int (f.shapeType.pointSize * f.totalPoints - f.missingLength)
        = f.shapeType.pointSize * f.totalPoints - f.missingLength + k * 2 ^ 32 := by
      rw [← int_add_mul _ k]
      exact int_eq (by omega) (by omega)
    rw [hint] at hest
    have hle : (f.totalPoints : Int)
        ≤ (f.shapeType.pointSize * f.totalPoints - f.missingLength + k * 2 ^ 32).tdiv f.shapeType.pointSize := by
      refine (le_tdiv_iff (by omega) (by omega)).mpr ?_
      rcases hcovers with h | ⟨h, hneg⟩
      · exact Or.inl (by omega)
      · have hzero : (f.shapeType.pointSize * f.totalPoints : Int) = 0 := by rw [h]; simp
        exact Or.inr ⟨by omega, by omega⟩
    exact ⟨shapefile, _, hopen, hest, hle, allocatePointBuffer_eq hest rfl (by omega) (by omega) (by omega)⟩

end ConformingFile

/-! ## A file with null records -/

/-- Two null records in front of a multi-point of one point. -/
def twoNulls : ConformingFile where
  type := 8
  shapeType := .multiPoint
  records := [.null, .null, .shape 1 1 false]
  type_eq := rfl
  supported := rfl
  one_point := by decide
  length_lt := by decide

/-- The estimate for `twoNulls` is -3. -/
theorem twoNulls_not_covered : ¬ twoNulls.EstimateCovers := by
  rw [ConformingFile.EstimateCovers]
  rintro ⟨shapefile, est, hopen, hest, hle, -⟩
  obtain ⟨shapefile', hopen', hheader, hnum⟩ := twoNulls.open_eq
  obtain rfl : shapefile' = shapefile := Option.some.inj (hopen'.symm.trans hopen)
  obtain rfl := Option.some.inj ((twoNulls.estimate_eq hheader hnum).symm.trans hest)
  have hdiff : (twoNulls.shapeType.pointSize * twoNulls.totalPoints - twoNulls.missingLength : Int) = -56 := by decide
  rw [hdiff, int_eq (by decide) (by decide)] at hle
  exact absurd hle (by decide)

end WorldWind.Shapefile
