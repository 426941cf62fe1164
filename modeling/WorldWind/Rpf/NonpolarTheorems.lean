import WorldWind.Rpf.NonpolarFrames
/-!
# The frames of a non-polar zone

Both extents of a zone are whole numbers of frames, so its rows are bands of one
height between them, in either hemisphere, and its columns bands of one width from
180 degrees west. All follows from that, as long as the frames can be numbered.
-/

namespace WorldWind.Rpf

open Lib.JavaInt Lib.JavaChar Lib.Bands Geom.Exact RPFFrameStructure RPFFrameTransform
open scoped Lib.Numerals

variable {K : Type*} [Field K] [LinearOrder K] [FloorRing K]

/-! ## What is to hold -/

/-- No extent of the zone is clamped. -/
def Unclamped (cm : CaseMap) (t : RPFNonpolarFrameTransform K) : Prop :=
  (∀ bound ∈ polewardNominalBoundary cm t.zoneCode,
    RPFNonpolarFrameStructure.polewardFrames (bound : K) t.frameStructure.northSouthPixelConstant
      PIXEL_ROWS_PER_FRAME ∈ Set.Icc 0 90) ∧
  ∀ bound ∈ equatorwardNominalBoundary cm t.zoneCode,
    RPFNonpolarFrameStructure.equatorwardFrames (bound : K) t.frameStructure.northSouthPixelConstant
      PIXEL_ROWS_PER_FRAME ∈ Set.Icc 0 90

/-- Frame numbers and pairs of a row and a column determine each other. -/
def FramesOneToOne (t : RPFNonpolarFrameTransform K) : Prop :=
  Set.BijOn (fun p => t.getFrameNumber p.1 p.2) (cells t.getRows t.getColumns) (Set.Icc 0 t.getMaximumFrameNumber) ∧
  Set.InvOn (fun f => (frameRow K f t.getColumns, frameColumn f (frameRow K f t.getColumns) t.getColumns))
    (fun p => t.getFrameNumber p.1 p.2) (cells t.getRows t.getColumns) (Set.Icc 0 t.getMaximumFrameNumber)

def DisjointInteriors (cm : CaseMap) (t : RPFNonpolarFrameTransform K) : Prop :=
  ∀ f g s₁ s₂, t.computeFrameCoverage cm f = some s₁ → t.computeFrameCoverage cm g = some s₂ → f ≠ g →
    ∀ latitude longitude : K,
      ¬((s₁.minLatitude < latitude ∧ latitude < s₁.maxLatitude ∧
          s₁.minLongitude < longitude ∧ longitude < s₁.maxLongitude) ∧
        s₂.minLatitude < latitude ∧ latitude < s₂.maxLatitude ∧
          s₂.minLongitude < longitude ∧ longitude < s₂.maxLongitude)

/-- Every location between the nominal boundaries is in a frame. -/
def CoversZone (cm : CaseMap) (t : RPFNonpolarFrameTransform K) : Prop :=
  ∀ b₁ ∈ equatorwardNominalBoundary cm t.zoneCode, ∀ b₂ ∈ polewardNominalBoundary cm t.zoneCode,
    ∀ latitude longitude : K, ((min b₁ b₂ : Int) : K) ≤ latitude → latitude ≤ ((max b₁ b₂ : Int) : K) →
      -180 ≤ longitude → longitude ≤ 180 →
      ∃ f s, t.computeFrameCoverage cm f = some s ∧ s.minLatitude ≤ latitude ∧ latitude ≤ s.maxLatitude ∧
        s.minLongitude ≤ longitude ∧ longitude ≤ s.maxLongitude

/-- The equatorward extent of any zone. -/
def equatorwardExtentOfZone (cm : CaseMap) (zoneCode : UInt16) (rpfDataType : JavaString) (resolution : K) :
    Option K :=
  if RPFZone.isPolarZone cm zoneCode then RPFPolarFrameStructure.equatorwardExtentOf cm zoneCode
  else (RPFNonpolarFrameStructure.computeStructure cm zoneCode rpfDataType resolution).map (·.equatorwardExtent)

/-- The next zone of the hemisphere begins where this one ends, or before. -/
def ReachesNextZone (cm : CaseMap) (t : RPFNonpolarFrameTransform K) : Prop :=
  ∀ next, RPFZone.isZoneCode cm next = true → RPFZone.indexFor cm next = RPFZone.indexFor cm t.zoneCode + 1 →
    ∃ extent, equatorwardExtentOfZone cm next t.rpfDataType t.resolution = some extent ∧
      if RPFZone.isZoneInUpperHemisphere cm t.zoneCode then extent ≤ t.frameStructure.polewardExtent
      else t.frameStructure.polewardExtent ≤ extent

/-! ## Zones -/

section

variable {cm : CaseMap} {zoneCode : UInt16}

/-- A zone code is the index of a zone and its hemisphere. -/
theorem zone_cases (h : RPFZone.isZoneCode cm zoneCode = true) : ∃ i : Nat, i < 9 ∧
    RPFZone.indexFor cm zoneCode = (if RPFZone.isZoneInUpperHemisphere cm zoneCode then (i : Int) else 9 + i) ∧
    (RPFZone.isPolarZone cm zoneCode = true ↔ i = 8) := by
  simp only [RPFZone.isZoneCode, RPFZone.indexFor, RPFZone.isZoneInUpperHemisphere, RPFZone.isPolarZone,
    decide_eq_true_eq] at h ⊢
  generalize (cm.toUpperCase zoneCode).toNat = c at h ⊢
  rcases h with h | h | h
  · exact ⟨c - 49, by omega, by rw [if_pos h, if_pos h]; omega, by omega⟩
  · refine ⟨c - 65, by omega, ?_, by omega⟩
    rw [if_neg (by omega), if_pos h, if_neg (by omega)]
    omega
  · refine ⟨8, by omega, ?_, by omega⟩
    rw [if_neg (by omega), if_neg (by omega), if_pos h, if_neg (by omega), h]
    rfl

/-- The sign of a hemisphere. -/
def hemisphere (cm : CaseMap) (zoneCode : UInt16) : Int :=
  if RPFZone.isZoneInUpperHemisphere cm zoneCode then 1 else -1

theorem hemisphere_cases : (hemisphere cm zoneCode = 1 ∧ RPFZone.isZoneInUpperHemisphere cm zoneCode = true) ∨
    (hemisphere cm zoneCode = -1 ∧ RPFZone.isZoneInUpperHemisphere cm zoneCode = false) := by
  rw [hemisphere]
  cases RPFZone.isZoneInUpperHemisphere cm zoneCode
  · exact Or.inr ⟨if_neg (by decide), rfl⟩
  · exact Or.inl ⟨if_pos rfl, rfl⟩

theorem tmod_indexFor {i : Nat} (hi : i < 9)
    (h : RPFZone.indexFor cm zoneCode = if RPFZone.isZoneInUpperHemisphere cm zoneCode then (i : Int) else 9 + i) :
    (RPFZone.indexFor cm zoneCode).tmod 9 = i := by
  rw [h]
  split <;> rw [Int.tmod_eq_emod_of_nonneg (by omega)] <;> omega

theorem nominalBoundary_eq {i : Nat} (hi : i < 9)
    (h : RPFZone.indexFor cm zoneCode = if RPFZone.isZoneInUpperHemisphere cm zoneCode then (i : Int) else 9 + i)
    {boundaryArray : List Int} {boundary : Int} (hboundary : boundaryArray[i]? = some boundary) :
    nominalBoundary cm zoneCode boundaryArray = some (hemisphere cm zoneCode * boundary) := by
  simp only [nominalBoundary]
  rw [tmod_indexFor hi h, if_neg (by omega), Int.toNat_natCast, hboundary, Option.map_some, Option.some_inj]
  rcases @hemisphere_cases cm zoneCode with ⟨h1, h2⟩ | ⟨h1, h2⟩
  · rw [h1, h2, if_pos rfl, one_mul]
  · rw [h1, h2, if_neg (by decide)]
    omega

/-- The boundaries of a zone, and where the next one begins. -/
theorem boundaries {i : Nat} (hi : i < 8) : ∃ e p : Nat, EQUATORWARD_NOMINAL_BOUNDARY[i]? = some (e : Int) ∧
    POLEWARD_NOMINAL_BOUNDARY[i]? = some (p : Int) ∧ EQUATORWARD_NOMINAL_BOUNDARY[i + 1]? = some (p : Int) ∧
    e < p ∧ p ≤ 90 := by
  interval_cases i
  · exact ⟨0, 32, by decide⟩
  · exact ⟨32, 48, by decide⟩
  · exact ⟨48, 56, by decide⟩
  · exact ⟨56, 64, by decide⟩
  · exact ⟨64, 68, by decide⟩
  · exact ⟨68, 72, by decide⟩
  · exact ⟨72, 76, by decide⟩
  · exact ⟨76, 80, by decide⟩

end

/-! ## Numbers -/

section

open RPFNonpolarFrameTransform

/-- Rows of pixels divided by the rows of a frame. -/
theorem frames_of_degrees {P : Int} (hP : 0 < P) (x : K) :
    (P : K) / 90 * x / PIXEL_ROWS_PER_FRAME = x / frameDeltaLatitude (P : K) PIXEL_ROWS_PER_FRAME := by
  have hP : (P : K) ≠ 0 := by exact_mod_cast hP.ne'
  rw [frameDeltaLatitude, PIXEL_ROWS_PER_FRAME]
  field_simp

theorem degrees_of_frames {P : Int} (hP : 0 < P) (x : K) :
    x * PIXEL_ROWS_PER_FRAME / ((P : K) / 90) = x * frameDeltaLatitude (P : K) PIXEL_ROWS_PER_FRAME := by
  have hP : (P : K) ≠ 0 := by exact_mod_cast hP.ne'
  rw [frameDeltaLatitude, PIXEL_ROWS_PER_FRAME]
  field_simp

theorem castInt_eq_floor {x : K} (h1 : 0 ≤ x) (h2 : x < 2 ^ 31) : castInt x = ⌊x⌋ := by
  have hlow : 0 ≤ ⌊x⌋ := Int.floor_nonneg.2 h1
  have hhigh : ⌊x⌋ < 2 ^ 31 := Int.floor_lt.2 (by exact_mod_cast h2)
  rw [castInt, if_pos h1]
  omega

variable [IsStrictOrderedRing K]

theorem castInt_intCast {n : Int} (h1 : 0 ≤ n) (h2 : n < 2 ^ 31) : castInt (n : K) = n := by
  rw [castInt_eq_floor (by exact_mod_cast h1) (by exact_mod_cast h2), Int.floor_intCast]

theorem round_intCast (n : Int) : round (n : K) = n := by
  rw [round, Int.floor_eq_iff]
  constructor <;> linarith

theorem frameRow_eq {f columns : Int} (h1 : 0 ≤ f) (h2 : f < 2 ^ 31) (hcolumns : 0 < columns) :
    frameRow K f columns = f / columns := by
  have hc : (0 : K) < columns := by exact_mod_cast hcolumns
  have hf : (0 : K) ≤ f := by exact_mod_cast h1
  have hfloor : ⌊(f : K) / columns⌋ = f / columns := by
    rw [Int.floor_eq_iff, le_div_iff₀ hc, div_lt_iff₀ hc]
    have h3 := Int.ediv_mul_le f hcolumns.ne'
    have h4 := Int.lt_ediv_add_one_mul_self f hcolumns
    constructor
    · exact_mod_cast h3
    · exact_mod_cast h4
  rw [frameRow, castInt_eq_floor (div_nonneg hf hc.le), hfloor]
  rw [div_lt_iff₀ hc]
  have h5 : f < 2 ^ 31 * columns := by omega
  exact_mod_cast h5

theorem frameColumn_eq {f columns : Int} (h1 : 0 ≤ f) (h2 : f < 2 ^ 31) (hcolumns : 0 < columns) :
    frameColumn f (f / columns) columns = f - f / columns * columns := by
  have h3 := Int.ediv_mul_le f hcolumns.ne'
  have h4 : 0 ≤ f / columns * columns := mul_nonneg (Int.ediv_nonneg h1 hcolumns.le) hcolumns.le
  rw [frameColumn, int_eq (x := f / columns * columns) (by omega) (by omega), int_eq (by omega) (by omega)]

/-! ## Extents in whole frames -/

open RPFNonpolarFrameStructure RPFNonpolarFrameTransform

variable {P : Int}

theorem frameDeltaLatitude_pos (hP : 0 < P) : 0 < frameDeltaLatitude (P : K) PIXEL_ROWS_PER_FRAME := by
  have hP : (0 : K) < P := by exact_mod_cast hP
  rw [frameDeltaLatitude, PIXEL_ROWS_PER_FRAME]
  positivity

/-- A zone has fewer frames than an `int` can count. -/
theorem frames_lt (hP : 0 < P) (hP' : P < 2 ^ 31) {x : K} (hx : x ≤ 90) :
    x / frameDeltaLatitude (P : K) PIXEL_ROWS_PER_FRAME < 2 ^ 30 := by
  have hP0 : (0 : K) < P := by exact_mod_cast hP
  have hP1 : (P : K) < 2 ^ 31 := by exact_mod_cast hP'
  rw [← frames_of_degrees hP, PIXEL_ROWS_PER_FRAME, div_lt_iff₀ (by norm_num)]
  have h3 : (P : K) / 90 * x ≤ P / 90 * 90 := mul_le_mul_of_nonneg_left hx (by positivity)
  rw [div_mul_cancel₀ _ (by norm_num)] at h3
  refine h3.trans_lt (hP1.trans ?_)
  norm_num

section

variable {h : Int} (hh : h = 1 ∨ h = -1)

omit [FloorRing K] in
include hh in
theorem abs_bound (b : Nat) : |(((h * b : Int)) : K)| = b := by
  rcases hh with rfl | rfl
  · rw [one_mul, Int.cast_natCast, Nat.abs_cast]
  · rw [neg_one_mul, Int.cast_neg, Int.cast_natCast, abs_neg, Nat.abs_cast]

include hh in
theorem signum_bound {b : Nat} (hb : 0 < b) : signum (((h * b : Int)) : K) = h := by
  have hb : (0 : K) < b := by exact_mod_cast hb
  rw [signum]
  rcases hh with rfl | rfl
  · rw [one_mul, Int.cast_natCast, if_pos hb, Int.cast_one]
  · rw [neg_one_mul, Int.cast_neg, Int.cast_natCast, if_neg (by linarith), if_pos (by linarith), Int.cast_neg,
      Int.cast_one]

omit [Field K] [FloorRing K] [IsStrictOrderedRing K] in
theorem clamp_of_mem {x lo hi : K} (hx : x ∈ Set.Icc lo hi) : clamp x lo hi = x := by
  rw [clamp, if_neg (not_lt.2 hx.1), if_neg (not_lt.2 hx.2)]

include hh in
theorem polewardExtentOf_eq (hP : 0 < P) {b : Nat} (hb : 0 < b)
    (hclamp : polewardFrames (((h * b : Int)) : K) P PIXEL_ROWS_PER_FRAME ∈ Set.Icc 0 90) :
    polewardExtentOf (((h * b : Int)) : K) P PIXEL_ROWS_PER_FRAME =
      h * (⌈(b : K) / frameDeltaLatitude (P : K) PIXEL_ROWS_PER_FRAME⌉ *
        frameDeltaLatitude (P : K) PIXEL_ROWS_PER_FRAME) := by
  rw [polewardExtentOf, clamp_of_mem hclamp, signum_bound hh hb]
  simp only [polewardFrames]
  rw [abs_bound hh, frames_of_degrees hP, degrees_of_frames hP]

include hh in
theorem equatorwardExtentOf_eq (hP : 0 < P) (hP' : P < 2 ^ 31) {b : Nat} (hb : b ≤ 90)
    (hclamp : equatorwardFrames (((h * b : Int)) : K) P PIXEL_ROWS_PER_FRAME ∈ Set.Icc 0 90) :
    equatorwardExtentOf (((h * b : Int)) : K) P PIXEL_ROWS_PER_FRAME =
      h * (⌊(b : K) / frameDeltaLatitude (P : K) PIXEL_ROWS_PER_FRAME⌋ *
        frameDeltaLatitude (P : K) PIXEL_ROWS_PER_FRAME) := by
  have hb' : (b : K) ≤ 90 := by exact_mod_cast hb
  have hlt := frames_lt hP hP' hb'
  have hnonneg : 0 ≤ (b : K) / frameDeltaLatitude (P : K) PIXEL_ROWS_PER_FRAME :=
    div_nonneg (Nat.cast_nonneg b) (frameDeltaLatitude_pos hP).le
  rw [equatorwardExtentOf, clamp_of_mem hclamp]
  simp only [equatorwardFrames]
  rw [abs_bound hh, frames_of_degrees hP, degrees_of_frames hP,
    castInt_eq_floor hnonneg (hlt.trans (by norm_num))]
  by_cases hzero : b = 0
  · subst hzero
    simp
  · rw [signum_bound hh (Nat.pos_of_ne_zero hzero)]

include hh in
theorem latitudinalFramesOf_eq (hP : 0 < P) {A B : Int} (hle : A ≤ B) (hA : 0 ≤ A) (hB : B < 2 ^ 31) :
    latitudinalFramesOf ((h : K) * (B * frameDeltaLatitude (P : K) PIXEL_ROWS_PER_FRAME))
      (h * (A * frameDeltaLatitude (P : K) PIXEL_ROWS_PER_FRAME)) P PIXEL_ROWS_PER_FRAME = B - A := by
  have hpos := frameDeltaLatitude_pos (K := K) hP
  generalize hd : frameDeltaLatitude (P : K) PIXEL_ROWS_PER_FRAME = delta at hpos ⊢
  have hBA : (A : K) ≤ B := by exact_mod_cast hle
  have habs : |(h : K) * (B * delta) - h * (A * delta)| = ((B - A : Int) : K) * delta := by
    rw [← mul_sub, ← sub_mul, abs_mul, abs_of_nonneg (mul_nonneg (sub_nonneg.2 hBA) hpos.le), Int.cast_sub]
    rcases hh with rfl | rfl <;> simp
  simp only [latitudinalFramesOf]
  rw [habs, mul_comm _ ((P : K) / 90), frames_of_degrees hP, hd, mul_div_cancel_right₀ _ hpos.ne', round_intCast,
    int_eq (by omega) (by omega)]

end

/-! ## The layout of a zone -/

/-- The north-south constant is the same in all zones. -/
def northSouthConstant (K : Type*) [Field K] [LinearOrder K] [FloorRing K] (cm : CaseMap) (rpfDataType : JavaString)
    (resolution : K) : Int :=
  (pixelConstants cm (0 : K) (NORTH_SOUTH_PIXEL_SPACING_CONSTANT : K) rpfDataType resolution).1

/-- What the frames of a zone are in degrees: `A` and `B` are its extents in
frames from the equator, and `h` the sign of the hemisphere. -/
structure Layout (cm : CaseMap) (t : RPFNonpolarFrameTransform K) (e p : Nat) (h A B : Int) (height width : K) :
    Prop where
  sign : h = 1 ∧ RPFZone.isZoneInUpperHemisphere cm t.zoneCode = true ∨
    h = -1 ∧ RPFZone.isZoneInUpperHemisphere cm t.zoneCode = false
  equatorward : equatorwardNominalBoundary cm t.zoneCode = some (h * e)
  poleward : polewardNominalBoundary cm t.zoneCode = some (h * p)
  bounds : e < p
  le_ninety : p ≤ 90
  zone : ∃ i : Nat, i < 8 ∧ EQUATORWARD_NOMINAL_BOUNDARY[i + 1]? = some (p : Int) ∧
    RPFZone.indexFor cm t.zoneCode = if RPFZone.isZoneInUpperHemisphere cm t.zoneCode then (i : Int) else 9 + i
  valid : RPFDataSeries.isRPFDataType cm t.rpfDataType = true ∧ ¬(t.resolution < 0)
  constant : t.frameStructure.northSouthPixelConstant = northSouthConstant K cm t.rpfDataType t.resolution
  constant_pos : 0 < t.frameStructure.northSouthPixelConstant
  height_eq : frameDeltaLatitude (t.frameStructure.northSouthPixelConstant : K) PIXEL_ROWS_PER_FRAME = height
  width_eq : frameDeltaLongitude (t.frameStructure.eastWestPixelConstant : K) PIXEL_ROWS_PER_FRAME = width
  height_pos : 0 < height
  width_pos : 0 < width
  poleward_eq : t.frameStructure.polewardExtent = h * (B * height)
  equatorward_eq : t.frameStructure.equatorwardExtent = h * (A * height)
  rows : t.getRows = B - A
  nonneg : 0 ≤ A
  lt : A < B
  rows_lt : B < 2 ^ 31
  columns_pos : 0 < t.getColumns
  columns_lt : t.getColumns < 2 ^ 31
  inwards : (A : K) * height ≤ e
  outwards : (p : K) ≤ B * height
  around : 360 ≤ width * t.getColumns

omit [IsStrictOrderedRing K] in
theorem created_eq {cm : CaseMap} {zoneCode : UInt16} {rpfDataType : JavaString} {resolution : K}
    {t : RPFNonpolarFrameTransform K}
    (h : createNonpolarFrameTransform cm zoneCode rpfDataType resolution = some t) :
    RPFZone.isZoneCode cm zoneCode = true ∧ ¬(resolution < 0) ∧ RPFDataSeries.isRPFDataType cm rpfDataType = true ∧
      t.zoneCode = zoneCode ∧ t.rpfDataType = rpfDataType ∧ t.resolution = resolution ∧
      computeStructure cm zoneCode rpfDataType resolution = some t.frameStructure := by
  rw [createNonpolarFrameTransform] at h
  split at h
  · cases h
  · rename_i hvalid
    simp only [not_or, not_not] at hvalid
    obtain ⟨fs, hfs, rfl⟩ := Option.map_eq_some_iff.1 h
    exact ⟨hvalid.1, hvalid.2.2, hvalid.2.1, rfl, rfl, rfl, hfs⟩

/-- The frames around the globe: more than enough, in whole frames. -/
theorem longitudinalFramesOf_spec {Q : Int} (hQ : 0 < Q) (hQ' : Q < 2 ^ 31) :
    0 < longitudinalFramesOf (Q : K) PIXEL_ROWS_PER_FRAME ∧
      longitudinalFramesOf (Q : K) PIXEL_ROWS_PER_FRAME < 2 ^ 31 ∧
      (360 : K) ≤ frameDeltaLongitude (Q : K) PIXEL_ROWS_PER_FRAME *
        longitudinalFramesOf (Q : K) PIXEL_ROWS_PER_FRAME := by
  have hQ0 : (0 : K) < Q := by exact_mod_cast hQ
  have hQ1 : (Q : K) ≤ 2 ^ 31 := by exact_mod_cast hQ'.le
  have hrows : ((PIXEL_ROWS_PER_FRAME : Int) : K) = 1536 := by
    rw [PIXEL_ROWS_PER_FRAME]
    norm_num
  have hpos : 0 < (Q : K) / 1536 := by positivity
  have hceil : ⌈(Q : K) / 1536⌉ < 2 ^ 31 := by
    have h1 := Int.ceil_lt_add_one ((Q : K) / 1536)
    have h2 : (Q : K) / 1536 + 1 ≤ 2 ^ 31 := by linarith
    exact_mod_cast h1.trans_le h2
  have heq : longitudinalFramesOf (Q : K) PIXEL_ROWS_PER_FRAME = ⌈(Q : K) / 1536⌉ := by
    rw [longitudinalFramesOf, hrows, castInt_intCast (Int.ceil_pos.2 hpos).le hceil]
  rw [heq]
  refine ⟨Int.ceil_pos.2 hpos, hceil, ?_⟩
  have h3 : 360 / (Q : K) * 1536 * (Q / 1536) = 360 := by field_simp
  have h4 : 360 / (Q : K) * 1536 * (Q / 1536) ≤ 360 / (Q : K) * 1536 * ⌈(Q : K) / 1536⌉ :=
    mul_le_mul_of_nonneg_left (Int.le_ceil _) (by positivity)
  rw [frameDeltaLongitude, hrows]
  exact h3.symm.le.trans h4

omit [IsStrictOrderedRing K] in
theorem pixelConstants_lt (cm : CaseMap) (ew ns : K) (rpfDataType : JavaString) (resolution : K) :
    (pixelConstants cm ew ns rpfDataType resolution).1 < 2 ^ 31 ∧
      (pixelConstants cm ew ns rpfDataType resolution).2 < 2 ^ 31 := by
  rw [pixelConstants]
  split
  · exact ⟨int_lt _, int_lt _⟩
  · split
    · exact ⟨int_lt _, int_lt _⟩
    · decide

section

variable {cm : CaseMap} {zoneCode : UInt16} {rpfDataType : JavaString} {resolution : K}

omit [IsStrictOrderedRing K] in
theorem computeStructure_eq (hzone : RPFZone.isZoneCode cm zoneCode = true)
    (htype : RPFDataSeries.isRPFDataType cm rpfDataType = true) (hresolution : ¬(resolution < 0)) {i : Nat}
    (hi : i < 8)
    (hindex : RPFZone.indexFor cm zoneCode =
      if RPFZone.isZoneInUpperHemisphere cm zoneCode then (i : Int) else 9 + i)
    {e p : Nat} (he : EQUATORWARD_NOMINAL_BOUNDARY[i]? = some (e : Int))
    (hp : POLEWARD_NOMINAL_BOUNDARY[i]? = some (p : Int)) :
    ∃ fs, computeStructure cm zoneCode rpfDataType resolution = some fs ∧
      fs.northSouthPixelConstant = northSouthConstant K cm rpfDataType resolution ∧
      fs.eastWestPixelConstant < 2 ^ 31 ∧
      fs.polewardExtent = polewardExtentOf ((hemisphere cm zoneCode * p : Int) : K) fs.northSouthPixelConstant
        PIXEL_ROWS_PER_FRAME ∧
      fs.equatorwardExtent = equatorwardExtentOf ((hemisphere cm zoneCode * e : Int) : K) fs.northSouthPixelConstant
        PIXEL_ROWS_PER_FRAME ∧
      fs.latitudinalFrames = latitudinalFramesOf fs.polewardExtent fs.equatorwardExtent fs.northSouthPixelConstant
        PIXEL_ROWS_PER_FRAME ∧
      fs.longitudinalFrames = longitudinalFramesOf (fs.eastWestPixelConstant : K) PIXEL_ROWS_PER_FRAME := by
  have hi9 : i < 9 := by omega
  obtain ⟨ew, hew⟩ : ∃ ew, eastWestPixelSpacingConstant cm zoneCode = some ew := by
    have hlen : i < EAST_WEST_PIXEL_SPACING_CONSTANT.length := hi
    simp only [eastWestPixelSpacingConstant]
    rw [tmod_indexFor hi9 hindex, if_neg (by omega), Int.toNat_natCast, List.getElem?_eq_getElem hlen]
    exact ⟨_, rfl⟩
  have hns : (pixelConstants cm (ew : K) (NORTH_SOUTH_PIXEL_SPACING_CONSTANT : K) rpfDataType resolution).1 =
      northSouthConstant K cm rpfDataType resolution := by
    rw [northSouthConstant, pixelConstants, pixelConstants]
    split
    · rfl
    · split <;> rfl
  rw [computeStructure, if_neg (by simp [hzone, htype, hresolution]), hew, Option.bind_some,
    equatorwardNominalBoundary, nominalBoundary_eq hi9 hindex he, Option.bind_some, polewardNominalBoundary,
    nominalBoundary_eq hi9 hindex hp, Option.map_some]
  exact ⟨_, rfl, hns, (pixelConstants_lt ..).2, rfl, rfl, rfl, rfl⟩

/-- A zone whose constants are positive and whose extents are not clamped has a layout. -/
theorem exists_layout {t : RPFNonpolarFrameTransform K}
    (ht : createNonpolarFrameTransform cm zoneCode rpfDataType resolution = some t)
    (hpolar : RPFZone.isPolarZone cm zoneCode = false) (hns : 0 < t.frameStructure.northSouthPixelConstant)
    (hew : 0 < t.frameStructure.eastWestPixelConstant) (hclamp : Unclamped cm t) :
    ∃ e p h A B height width, Layout cm t e p h A B height width := by
  obtain ⟨hzone, hresolution, htype, rfl, rfl, rfl, hfs⟩ := created_eq ht
  obtain ⟨i, hi, hindex, h8⟩ := zone_cases hzone
  have hi8 : i < 8 := by
    rw [hpolar] at h8
    rcases Nat.lt_or_eq_of_le (Nat.le_of_lt_succ hi) with h | h
    · exact h
    · exact absurd (h8.2 h) (by decide)
  obtain ⟨e, p, he, hp, hnext, hlt, hle⟩ := boundaries hi8
  obtain ⟨fs, hfs', hP, hQ, hpole, hequator, hrows, hcolumns⟩ :=
    computeStructure_eq (K := K) hzone htype hresolution hi8 hindex he hp
  obtain rfl := Option.some_inj.1 (hfs'.symm.trans hfs)
  have hP' : t.frameStructure.northSouthPixelConstant < 2 ^ 31 := by
    rw [hP]
    exact (pixelConstants_lt ..).1
  have hh : hemisphere cm t.zoneCode = 1 ∨ hemisphere cm t.zoneCode = -1 :=
    hemisphere_cases.imp And.left And.left
  have hequatorBound := nominalBoundary_eq hi hindex he
  have hpoleBound := nominalBoundary_eq hi hindex hp
  have hdelta := frameDeltaLatitude_pos (K := K) hns
  rw [polewardExtentOf_eq hh hns (by omega) (hclamp.1 _ hpoleBound)] at hpole
  rw [equatorwardExtentOf_eq hh hns hP' (by omega) (hclamp.2 _ hequatorBound)] at hequator
  have hwidth : (0 : K) < frameDeltaLongitude (t.frameStructure.eastWestPixelConstant : K) PIXEL_ROWS_PER_FRAME := by
    have hQ0 : (0 : K) < t.frameStructure.eastWestPixelConstant := by exact_mod_cast hew
    rw [frameDeltaLongitude, PIXEL_ROWS_PER_FRAME]
    positivity
  obtain ⟨hc1, hc2, hc3⟩ := longitudinalFramesOf_spec (K := K) hew hQ
  have hp90 : (p : K) ≤ 90 := by exact_mod_cast hle
  have hep : (e : K) < p := by exact_mod_cast hlt
  have hA := Int.floor_le ((e : K) / frameDeltaLatitude (t.frameStructure.northSouthPixelConstant : K)
    PIXEL_ROWS_PER_FRAME)
  have hB := Int.le_ceil ((p : K) / frameDeltaLatitude (t.frameStructure.northSouthPixelConstant : K)
    PIXEL_ROWS_PER_FRAME)
  have hB' := Int.ceil_lt_add_one ((p : K) / frameDeltaLatitude (t.frameStructure.northSouthPixelConstant : K)
    PIXEL_ROWS_PER_FRAME)
  have hsmall := frames_lt (K := K) hns hP' hp90
  have hA0 : 0 ≤ ⌊(e : K) / frameDeltaLatitude (t.frameStructure.northSouthPixelConstant : K)
      PIXEL_ROWS_PER_FRAME⌋ := Int.floor_nonneg.2 (div_nonneg (Nat.cast_nonneg e) hdelta.le)
  have hdiv := div_lt_div_of_pos_right hep hdelta
  generalize hAdef : ⌊(e : K) / frameDeltaLatitude (t.frameStructure.northSouthPixelConstant : K)
    PIXEL_ROWS_PER_FRAME⌋ = A at hA hA0 hequator
  generalize hBdef : ⌈(p : K) / frameDeltaLatitude (t.frameStructure.northSouthPixelConstant : K)
    PIXEL_ROWS_PER_FRAME⌉ = B at hB hB' hpole
  have hAB : A < B := by exact_mod_cast hA.trans_lt (hdiv.trans_le hB)
  have hBlt : B < 2 ^ 31 := by
    have h1 : (B : K) < 2 ^ 30 + 1 := by linarith
    have h2 : B < 2 ^ 30 + 1 := by exact_mod_cast h1
    omega
  refine ⟨e, p, _, A, B, _, _, ⟨hemisphere_cases, hequatorBound, hpoleBound, hlt, hle, ⟨i, hi8, hnext, hindex⟩,
    ⟨htype, hresolution⟩, hP, hns, rfl, rfl, hdelta, hwidth, hpole, hequator, ?_, hA0, hAB, hBlt, ?_, ?_,
    (le_div_iff₀ hdelta).1 hA, (div_le_iff₀ hdelta).1 hB, ?_⟩⟩
  · rw [getRows, hrows, hpole, hequator, latitudinalFramesOf_eq hh hns hAB.le hA0 hBlt]
  · rw [getColumns, hcolumns]
    exact hc1
  · rw [getColumns, hcolumns]
    exact hc2
  · rw [getColumns, hcolumns]
    exact hc3

end

/-! ## The results -/

/-- The first row of the zone, in rows from the equator. -/
def firstRow (cm : CaseMap) (t : RPFNonpolarFrameTransform K) (A B : Int) : Int :=
  if RPFZone.isZoneInUpperHemisphere cm t.zoneCode then A else -B

namespace Layout

variable {cm : CaseMap} {t : RPFNonpolarFrameTransform K} {e p : Nat} {h A B : Int} {height width : K}
  (l : Layout cm t e p h A B height width)

include l

omit [IsStrictOrderedRing K] in
theorem rows_pos : 0 < t.getRows := by
  rw [l.rows]
  have := l.lt
  omega

omit [IsStrictOrderedRing K] in
/-- The numbers of the frames, as long as they are `int`s. -/
theorem maximum_eq (hsmall : t.getRows * t.getColumns ≤ 2 ^ 31) :
    t.getMaximumFrameNumber = t.getRows * t.getColumns - 1 := by
  have hpos := mul_pos l.rows_pos l.columns_pos
  have hsub : t.getRows * t.getColumns - 1 = t.getRows * t.getColumns + -1 := rfl
  have hmax : t.getMaximumFrameNumber = int (int (t.getRows * t.getColumns) + -1) := rfl
  rw [hmax, int_int_add, ← hsub, int_eq (by omega) (by omega)]

omit [IsStrictOrderedRing K] in
theorem number_eq (hsmall : t.getRows * t.getColumns ≤ 2 ^ 31) {c : Int × Int}
    (hc : c ∈ cells t.getRows t.getColumns) : t.getFrameNumber c.1 c.2 = c.2 + c.1 * t.getColumns := by
  obtain ⟨h1, h2⟩ := number_mem hc
  obtain ⟨⟨h3, -⟩, h4, -⟩ := hc
  have h5 : 0 ≤ c.1 * t.getColumns := mul_nonneg h3 l.columns_pos.le
  have hnumber : t.getFrameNumber c.1 c.2 = int (c.2 + int (c.1 * t.getColumns)) := rfl
  rw [hnumber, int_add_int, int_eq (by omega) (by omega)]

theorem cell_eq {f : Int} (h1 : 0 ≤ f) (h2 : f < 2 ^ 31) :
    (frameRow K f t.getColumns, frameColumn f (frameRow K f t.getColumns) t.getColumns) =
      (f / t.getColumns, f - f / t.getColumns * t.getColumns) := by
  rw [frameRow_eq h1 h2 l.columns_pos, frameColumn_eq h1 h2 l.columns_pos]

theorem framesOneToOne (hsmall : t.getRows * t.getColumns ≤ 2 ^ 31) : FramesOneToOne t := by
  have hmax := l.maximum_eq hsmall
  have hmaps : Set.MapsTo (fun p => t.getFrameNumber p.1 p.2) (cells t.getRows t.getColumns)
      (Set.Icc 0 t.getMaximumFrameNumber) := by
    intro c hc
    obtain ⟨h1, h2⟩ := number_mem hc
    simp only [l.number_eq hsmall hc, hmax, Set.mem_Icc]
    omega
  have hback : Set.MapsTo (fun f => (frameRow K f t.getColumns,
      frameColumn f (frameRow K f t.getColumns) t.getColumns)) (Set.Icc 0 t.getMaximumFrameNumber)
      (cells t.getRows t.getColumns) := by
    rintro f ⟨h1, h2⟩
    simp only [l.cell_eq h1 (by omega : f < 2 ^ 31)]
    exact cell_mem l.columns_pos h1 (by omega)
  have hinv : Set.InvOn (fun f => (frameRow K f t.getColumns,
      frameColumn f (frameRow K f t.getColumns) t.getColumns)) (fun p => t.getFrameNumber p.1 p.2)
      (cells t.getRows t.getColumns) (Set.Icc 0 t.getMaximumFrameNumber) := by
    constructor
    · intro c hc
      obtain ⟨h1, h2⟩ := number_mem hc
      simp only [l.number_eq hsmall hc, l.cell_eq h1 (by omega : c.2 + c.1 * t.getColumns < 2 ^ 31)]
      rw [row_of_number hc.2.1 hc.2.2]
      exact Prod.ext rfl (add_sub_cancel_right _ _)
    · rintro f ⟨h1, h2⟩
      have hf : f < 2 ^ 31 := by omega
      have hcell := l.number_eq hsmall (cell_mem l.columns_pos h1 (by omega : f < t.getRows * t.getColumns))
      rw [sub_add_cancel] at hcell
      simp only [frameRow_eq h1 hf l.columns_pos, frameColumn_eq h1 hf l.columns_pos]
      exact hcell
  exact ⟨hinv.bijOn hmaps hback, hinv⟩

omit [IsStrictOrderedRing K] in
/-- More frames than `int`s cannot be numbered. -/
theorem small_of_framesOneToOne (hone : FramesOneToOne t) : t.getRows * t.getColumns ≤ 2 ^ 31 := by
  refine card_le_of_injOn l.rows_pos.le l.columns_pos.le (by decide) ?_ hone.1.injOn
  intro c hc
  have hmem := hone.1.mapsTo hc
  have hlt : t.getFrameNumber c.1 c.2 < 2 ^ 31 := int_lt _
  exact ⟨hmem.1, hlt⟩

/-- The coverage of a frame: a band of latitudes and one of longitudes. -/
theorem coverage_eq (hsmall : t.getRows * t.getColumns ≤ 2 ^ 31) {f : Int} (h1 : 0 ≤ f)
    (h2 : f < t.getRows * t.getColumns) :
    t.computeFrameCoverage cm f = some
      ⟨height * ((f / t.getColumns + firstRow cm t A B : Int) : K),
        height * (((f / t.getColumns + firstRow cm t A B : Int) : K) + 1),
        width * ((f - f / t.getColumns * t.getColumns : Int) : K) - 180,
        width * (((f - f / t.getColumns * t.getColumns : Int) : K) + 1) - 180⟩ := by
  have hmax := l.maximum_eq hsmall
  have hf : f < 2 ^ 31 := by omega
  obtain ⟨⟨h3, h4⟩, -⟩ := cell_mem l.columns_pos h1 h2
  have hrows := l.rows
  have hnonneg := l.nonneg
  have hrowslt := l.rows_lt
  have hrow : int (f / t.getColumns + 1) = f / t.getColumns + 1 := int_eq (by omega) (by omega)
  have hzone : (if RPFZone.isZoneInUpperHemisphere cm t.zoneCode then t.frameStructure.equatorwardExtent
      else t.frameStructure.polewardExtent) = height * (firstRow cm t A B : K) := by
    rw [l.equatorward_eq, l.poleward_eq, firstRow]
    rcases l.sign with ⟨hh, hup⟩ | ⟨hh, hup⟩
    · rw [hup, if_pos rfl, if_pos rfl, hh, Int.cast_one, one_mul, mul_comm]
    · rw [hup, if_neg (by decide), if_neg (by decide), hh]
      push_cast
      ring
  have hcolumn := frameColumn_eq h1 hf l.columns_pos
  have hfrow := frameRow_eq (K := K) h1 hf l.columns_pos
  simp only [getColumns] at hcolumn hfrow hrow ⊢
  simp only [computeFrameCoverage]
  rw [if_neg (by rw [getMaximumFrameNumber] at hmax; omega), hfrow, hcolumn, hzone]
  simp only [frameOriginLatitude, frameOriginLongitude]
  rw [hrow]
  have hheight := l.height_eq
  have hwidth := l.width_eq
  rw [frameDeltaLatitude] at hheight
  rw [frameDeltaLongitude] at hwidth
  rw [frameDeltaLatitude, frameDeltaLongitude, hheight, hwidth]
  refine congrArg some ?_
  rw [Sector.mk.injEq]
  refine ⟨?_, ?_, rfl, ?_⟩ <;> push_cast <;> ring

omit [IsStrictOrderedRing K] in
theorem number_of_coverage (hsmall : t.getRows * t.getColumns ≤ 2 ^ 31) {f : Int} {s : Sector K}
    (hs : t.computeFrameCoverage cm f = some s) : 0 ≤ f ∧ f < t.getRows * t.getColumns := by
  have hmax := l.maximum_eq hsmall
  simp only [computeFrameCoverage] at hs
  split at hs
  · cases hs
  · rename_i hf
    rw [getMaximumFrameNumber] at hmax
    omega

theorem disjointInteriors (hsmall : t.getRows * t.getColumns ≤ 2 ^ 31) : DisjointInteriors cm t := by
  intro f g s₁ s₂ hs₁ hs₂ hne latitude longitude
  obtain ⟨hf1, hf2⟩ := l.number_of_coverage hsmall hs₁
  obtain ⟨hg1, hg2⟩ := l.number_of_coverage hsmall hs₂
  rw [l.coverage_eq hsmall hf1 hf2, Option.some_inj] at hs₁
  rw [l.coverage_eq hsmall hg1 hg2, Option.some_inj] at hs₂
  subst hs₁ hs₂
  rintro ⟨⟨h1, h2, h3, h4⟩, h5, h6, h7, h8⟩
  simp only at h1 h2 h3 h4 h5 h6 h7 h8
  have hrow := band_unique l.height_pos h1 h2 h5 h6
  have hcolumn := band_unique l.width_pos (sub_lt_iff_lt_add.1 h3) (lt_sub_iff_add_lt.1 h4)
    (sub_lt_iff_lt_add.1 h7) (lt_sub_iff_add_lt.1 h8)
  have hrow : f / t.getColumns = g / t.getColumns := by omega
  rw [hrow] at hcolumn
  omega

/-- A latitude between the nominal boundaries is between the extents. -/
theorem latitude_between {latitude : K} (h1 : ((min (h * e) (h * p) : Int) : K) ≤ latitude)
    (h2 : latitude ≤ ((max (h * e) (h * p) : Int) : K)) :
    height * (firstRow cm t A B : K) ≤ latitude ∧
      latitude ≤ height * ((firstRow cm t A B + t.getRows : Int) : K) := by
  have hin := l.inwards
  have hout := l.outwards
  have hlt := l.lt
  have hA := l.nonneg
  rw [firstRow, l.rows]
  rcases l.sign with ⟨rfl, hup⟩ | ⟨rfl, hup⟩
  · have h3 : ((min (1 * (e : Int)) (1 * p) : Int) : K) = min (e : K) p := by push_cast; simp
    have h4 : ((max (1 * (e : Int)) (1 * p) : Int) : K) = max (e : K) p := by push_cast; simp
    have hep : (e : K) ≤ p := by exact_mod_cast l.bounds.le
    rw [h3, min_eq_left hep] at h1
    rw [h4, max_eq_right hep] at h2
    rw [hup, if_pos rfl]
    push_cast
    constructor <;> linarith
  · have hep : (e : K) ≤ p := by exact_mod_cast l.bounds.le
    have h3 : ((min (-1 * (e : Int)) (-1 * p) : Int) : K) = min (-(e : K)) (-p) := by push_cast; simp
    have h4 : ((max (-1 * (e : Int)) (-1 * p) : Int) : K) = max (-(e : K)) (-p) := by push_cast; simp
    rw [h3, min_eq_right (neg_le_neg hep)] at h1
    rw [h4, max_eq_left (neg_le_neg hep)] at h2
    rw [hup, if_neg (by decide)]
    push_cast
    constructor <;> linarith

theorem coversZone (hsmall : t.getRows * t.getColumns ≤ 2 ^ 31) : CoversZone cm t := by
  intro b₁ hb₁ b₂ hb₂ latitude longitude h1 h2 h3 h4
  obtain rfl := Option.some_inj.1 (l.equatorward.symm.trans hb₁)
  obtain rfl := Option.some_inj.1 (l.poleward.symm.trans hb₂)
  obtain ⟨h5, h6⟩ := l.latitude_between h1 h2
  have hrows := l.rows_pos
  obtain ⟨i, hi1, hi2, hi3, hi4⟩ := exists_band l.height_pos (by omega) h5 h6
  have haround := l.around
  have h7 : width * ((0 : Int) : K) ≤ longitude + 180 := by
    rw [Int.cast_zero, mul_zero]
    linarith
  obtain ⟨c, hc1, hc2, hc3, hc4⟩ := exists_band l.width_pos l.columns_pos h7 (by linarith)
  have hcell : (i - firstRow cm t A B, c) ∈ cells t.getRows t.getColumns :=
    ⟨⟨by show 0 ≤ i - _; omega, by show i - _ < _; omega⟩, hc1, hc2⟩
  obtain ⟨hn1, hn2⟩ := number_mem hcell
  have hcover := l.coverage_eq hsmall hn1 hn2
  rw [row_of_number hc1 hc2, sub_add_cancel, add_sub_cancel_right] at hcover
  exact ⟨_, _, hcover, hi3, hi4, by simp only; linarith, by simp only; linarith⟩

omit l in
/-- An equatorward extent is never clamped. -/
theorem equatorwardFrames_mem {P : Int} (hP : 0 < P) (hP' : P < 2 ^ 31) (hh : h = 1 ∨ h = -1) {b : Nat}
    (hb : b ≤ 90) :
    equatorwardFrames (((h * b : Int)) : K) P PIXEL_ROWS_PER_FRAME ∈ Set.Icc 0 90 := by
  have hb' : (b : K) ≤ 90 := by exact_mod_cast hb
  have hpos := frameDeltaLatitude_pos (K := K) hP
  have hnonneg : 0 ≤ (b : K) / frameDeltaLatitude (P : K) PIXEL_ROWS_PER_FRAME :=
    div_nonneg (Nat.cast_nonneg b) hpos.le
  simp only [equatorwardFrames]
  rw [abs_bound hh, frames_of_degrees hP, degrees_of_frames hP,
    castInt_eq_floor hnonneg ((frames_lt hP hP' hb').trans (by norm_num))]
  have hfloor := (le_div_iff₀ hpos).1 (Int.floor_le ((b : K) / frameDeltaLatitude (P : K) PIXEL_ROWS_PER_FRAME))
  have hfloor0 : (0 : K) ≤ ⌊(b : K) / frameDeltaLatitude (P : K) PIXEL_ROWS_PER_FRAME⌋ := by
    exact_mod_cast Int.floor_nonneg.2 hnonneg
  exact ⟨mul_nonneg hfloor0 hpos.le, hfloor.trans hb'⟩

theorem reachesNextZone : ReachesNextZone cm t := by
  intro next hnext hindex
  obtain ⟨i, hi, hboundary, hzone⟩ := l.zone
  obtain ⟨j, hj, hnextIndex, hpolar⟩ := zone_cases hnext
  have hsame : hemisphere cm next = h ∧ j = i + 1 := by
    rw [hzone, hnextIndex] at hindex
    rcases l.sign with ⟨rfl, hup⟩ | ⟨rfl, hup⟩ <;>
      rcases @hemisphere_cases cm next with ⟨h1, h2⟩ | ⟨h1, h2⟩ <;>
      simp only [hup, h2, if_true, if_false, Bool.false_eq_true] at hindex
    · exact ⟨h1, by omega⟩
    · omega
    · omega
    · exact ⟨h1, by omega⟩
  obtain ⟨hsign, rfl⟩ := hsame
  have hh : h = 1 ∨ h = -1 := l.sign.imp And.left And.left
  -- it is enough that the extent is not further from the equator than the boundary
  have hreach : ∀ x : K, x ≤ p → if RPFZone.isZoneInUpperHemisphere cm t.zoneCode then
      (h : K) * x ≤ t.frameStructure.polewardExtent else t.frameStructure.polewardExtent ≤ h * x := by
    intro x hx
    have hout := l.outwards
    rw [l.poleward_eq]
    rcases l.sign with ⟨rfl, hup⟩ | ⟨rfl, hup⟩
    · rw [hup, if_pos rfl, Int.cast_one, one_mul, one_mul]
      exact hx.trans hout
    · rw [hup, if_neg (by decide)]
      push_cast
      linarith
  rw [equatorwardExtentOfZone]
  by_cases h8 : RPFZone.isPolarZone cm next = true
  · rw [if_pos h8, RPFPolarFrameStructure.equatorwardExtentOf, equatorwardNominalBoundary,
      nominalBoundary_eq hj hnextIndex hboundary, Option.map_some]
    refine ⟨_, rfl, ?_⟩
    have := hreach p le_rfl
    rwa [hsign, Int.cast_mul, Int.cast_natCast]
  · have hj8 : i + 1 < 8 := by
      have : i + 1 ≠ 8 := fun h => h8 (hpolar.2 h)
      omega
    obtain ⟨e', p', he', hp', -⟩ := boundaries hj8
    obtain rfl : e' = p := by
      have := he'.symm.trans hboundary
      rw [Option.some_inj] at this
      exact_mod_cast this
    obtain ⟨fs, hfs, hP, -, -, hequator, -⟩ :=
      computeStructure_eq hnext l.valid.1 l.valid.2 hj8 hnextIndex he' hp'
    have hPos : 0 < fs.northSouthPixelConstant := by
      rw [hP, ← l.constant]
      exact l.constant_pos
    have hP' : fs.northSouthPixelConstant < 2 ^ 31 := by
      rw [hP]
      exact (pixelConstants_lt ..).1
    rw [if_neg h8, hfs, Option.map_some]
    refine ⟨_, rfl, ?_⟩
    rw [hequator, hsign, equatorwardExtentOf_eq hh hPos hP' l.le_ninety
      (equatorwardFrames_mem hPos hP' hh l.le_ninety)]
    exact hreach _ ((le_div_iff₀ (frameDeltaLatitude_pos hPos)).1 (Int.floor_le _))

end Layout

/-- The frames of a zone are numbered one to one, have disjoint interiors, cover
the zone and reach the next one, if and only if the numbers are `int`s. -/
theorem frames_tile_iff {cm : CaseMap} {zoneCode : UInt16} {rpfDataType : JavaString} {resolution : K}
    {t : RPFNonpolarFrameTransform K}
    (ht : createNonpolarFrameTransform cm zoneCode rpfDataType resolution = some t)
    (hpolar : RPFZone.isPolarZone cm zoneCode = false) (hns : 0 < t.frameStructure.northSouthPixelConstant)
    (hew : 0 < t.frameStructure.eastWestPixelConstant) (hclamp : Unclamped cm t) :
    (FramesOneToOne t ∧ DisjointInteriors cm t ∧ CoversZone cm t ∧ ReachesNextZone cm t) ↔
      t.getRows * t.getColumns ≤ 2 ^ 31 := by
  obtain ⟨e, p, h, A, B, height, width, l⟩ := exists_layout ht hpolar hns hew hclamp
  constructor
  · exact fun hall => l.small_of_framesOneToOne hall.1
  · intro hsmall
    exact ⟨l.framesOneToOne hsmall, l.disjointInteriors hsmall, l.coversZone hsmall, l.reachesNextZone⟩

end

open RPFNonpolarFrameTransform

/-- The first zone of a map of the scale 1 : 1 000 000 has 16 rows of 161 frames. -/
theorem operational_chart_tiles : ∃ t,
    createNonpolarFrameTransform .asciiOnly 49 (ascii "CADRG") (1000000 : ℚ) = some t ∧
      FramesOneToOne t ∧ DisjointInteriors .asciiOnly t ∧ CoversZone .asciiOnly t ∧ ReachesNextZone .asciiOnly t := by
  have ht : createNonpolarFrameTransform .asciiOnly 49 (ascii "CADRG") (1000000 : ℚ) =
      some ⟨49, ascii "CADRG", 1000000, ⟨66816, 246528, 960 / 29, 0, 16, 161⟩⟩ := by decide +kernel
  have hclamp : Unclamped .asciiOnly
      (⟨49, ascii "CADRG", 1000000, ⟨66816, 246528, 960 / 29, 0, 16, 161⟩⟩ : RPFNonpolarFrameTransform ℚ) := by
    constructor
    · intro bound hbound
      obtain rfl : bound = 32 := (Option.some_inj.1 hbound).symm
      constructor <;> decide +kernel
    · intro bound hbound
      obtain rfl : bound = 0 := (Option.some_inj.1 hbound).symm
      constructor <;> decide +kernel
  exact ⟨_, ht, (frames_tile_iff ht (by decide) (by decide) (by decide) hclamp).2 (by decide)⟩

/-- At the scale 1 : 1000 the zone has more frames than `int`s, and the greatest frame number is negative. -/
theorem detailed_chart_not_numbered : ∃ t,
    createNonpolarFrameTransform .asciiOnly 49 (ascii "CADRG") (1000 : ℚ) = some t ∧
      0 < t.frameStructure.northSouthPixelConstant ∧ 0 < t.frameStructure.eastWestPixelConstant ∧
      Unclamped .asciiOnly t ∧ t.getMaximumFrameNumber = -1816573382 ∧ ¬FramesOneToOne t := by
  have ht : createNonpolarFrameTransform .asciiOnly 49 (ascii "CADRG") (1000 : ℚ) =
      some ⟨49, ascii "CADRG", 1000, ⟨66730752, 246442752, 926820 / 28963, 0, 15447, 160445⟩⟩ := by decide +kernel
  have hmax : getMaximumFrameNumber (⟨49, ascii "CADRG", 1000,
      ⟨66730752, 246442752, 926820 / 28963, 0, 15447, 160445⟩⟩ : RPFNonpolarFrameTransform ℚ) = -1816573382 := by
    decide +kernel
  refine ⟨_, ht, by decide, by decide, ⟨?_, ?_⟩, hmax, ?_⟩
  · intro bound hbound
    obtain rfl : bound = 32 := (Option.some_inj.1 hbound).symm
    constructor <;> decide +kernel
  · intro bound hbound
    obtain rfl : bound = 0 := (Option.some_inj.1 hbound).symm
    constructor <;> decide +kernel
  · rintro ⟨hone, -⟩
    have hcell : ((0 : Int), (0 : Int)) ∈ cells 15447 160445 := ⟨by decide, by decide⟩
    have hmem := hone.mapsTo hcell
    rw [hmax] at hmem
    exact absurd (hmem.1.trans hmem.2) (by decide)

end WorldWind.Rpf
