import WorldWind.Elevations.Lookup
import WorldWind.RasterProducer.ProgressTheorems
import WorldWind.Rasters.Model
/-!
# The extreme elevations of `BasicElevationModel.java`

A table holds two elevations for each tile of one level. The extremes of a
location are the entry of its tile, those of a sector are taken over the rows
and columns between those of its corners. Doubles are exact numbers.
-/

namespace WorldWind.Elevations.Extremes

open Geom Lib.JavaInt RasterProducer
open Rasters (MAX_VALUE)

/-! ## The code -/

inductive Failure
  | exception
  | endless
  deriving DecidableEq

def orThrow {α : Type*} : Option α → Except Failure α
  | some a => .ok a
  | none => .error .exception

/-- `for (int i = first; i <= last; i++)`. A loop up to the largest `int` goes
round all of them until the body throws. -/
def loop {σ : Type} (first last : Int) (body : Int → σ → Except Failure σ) (s : σ) : Except Failure σ :=
  match loopCount first last with
  | some n => (List.range n).foldlM (fun s (i : Nat) => body (first + i) s) s
  | none => do
    let _ ← (List.range (2 ^ 32)).foldlM (fun s (i : Nat) => body (int (first + i)) s) s
    .error .endless

/-- The fields are finite. -/
structure BasicElevationModel where
  levels : LevelSet
  extremesLevel : Int
  extremes : Option (List ℚ)
  minElevation : ℚ
  maxElevation : ℚ
  missingDataSignal : ℚ
  missingDataReplacement : ℚ
  minElevation_le : minElevation ≤ MAX_VALUE
  maxElevation_le : maxElevation ≤ MAX_VALUE
  replacement_le : -MAX_VALUE ≤ missingDataReplacement ∧ missingDataReplacement ≤ MAX_VALUE

/-- `LevelSet.getLevel` and `Level.getTileDelta`; the level may be null. -/
def getTileDelta (levels : LevelSet) (levelNumber : Int) : Option LatLon :=
  if 0 ≤ levelNumber ∧ levelNumber < levels.numLevels then some (tileDelta levels levelNumber.toNat) else none

/-- `nCols`. -/
def columnsOf (delta : Angle) : Option Int :=
  (computeColumn delta Angle.POS180 (.fromDegrees (-180))).map fun column => int (column + 1)

def addEntry (extremes entry : ℚ × ℚ) : ℚ × ℚ :=
  let (min, max) := extremes
  let (a, b) := entry
  let max := if a > max then a else max
  let min := if a < min then a else min
  let max := if b > max then b else max
  let min := if b < min then b else min
  (min, max)

namespace BasicElevationModel

variable (model : BasicElevationModel)

def limits : ℚ × ℚ := (model.minElevation, model.maxElevation)

def replaced (elevation : ℚ) : ℚ :=
  if elevation = model.missingDataSignal then model.missingDataReplacement else elevation

/-- The lines that the two methods share. -/
def entry (extremes : List ℚ) (row nCols col : Int) : Option (ℚ × ℚ) := do
  let index := int (2 * int (int (row * nCols) + col))
  let a ← getDouble extremes index
  let b ← getDouble extremes (int (index + 1))
  some (model.replaced a, model.replaced b)

/-- `getExtremeElevations(Angle, Angle)`. -/
def getExtremeElevationsAt (latitude longitude : Angle) : ℚ × ℚ :=
  match model.extremes with
  | none => model.limits
  | some extremes =>
    if model.extremesLevel < 0 then model.limits
    else
      let result := do
        let delta ← getTileDelta model.levels model.extremesLevel
        let row ← computeRow delta.latitude latitude model.levels.tileOrigin.latitude
        let col ← computeColumn delta.longitude longitude model.levels.tileOrigin.longitude
        let nCols ← columnsOf delta.longitude
        model.entry extremes row nCols col
      result.getD model.limits

/-- The model's limits, where a limit was not determined. -/
def orLimits (extremes : ℚ × ℚ) : ℚ × ℚ :=
  let (min, max) := extremes
  (if min = MAX_VALUE then model.minElevation else min, if max = MAX_VALUE then model.maxElevation else max)

def computeExtremeElevations (extremes : List ℚ) (sector : Sector) : Except Failure (ℚ × ℚ) := do
  let delta ← orThrow (getTileDelta model.levels model.extremesLevel)
  let origin := model.levels.tileOrigin
  let nwRow ← orThrow (computeRow delta.latitude sector.maxLatitude origin.latitude)
  let nwCol ← orThrow (computeColumn delta.longitude sector.minLongitude origin.longitude)
  let seRow ← orThrow (computeRow delta.latitude sector.minLatitude origin.latitude)
  let seCol ← orThrow (computeColumn delta.longitude sector.maxLongitude origin.longitude)
  let nCols ← orThrow (columnsOf delta.longitude)
  let extremes ← loop nwCol seCol
    (fun col => loop seRow nwRow fun row s => do
      let entry ← orThrow (model.entry extremes row nCols col)
      return addEntry s entry)
    (MAX_VALUE, -MAX_VALUE)
  return model.orLimits extremes

/-- `getExtremeElevations(Sector)`, if it ends. -/
def getExtremeElevations (sector : Sector) : Option (ℚ × ℚ) :=
  match model.extremes with
  | none => some model.limits
  | some extremes =>
    if model.extremesLevel < 0 then some model.limits
    else
      match model.computeExtremeElevations extremes sector with
      | .ok result => some result
      | .error .exception => some model.limits
      | .error .endless => none

end BasicElevationModel

/-! ## The claim's words -/

/-- The location is in the sector. -/
def Contains (sector : Sector) (latitude longitude : Angle) : Prop :=
  (sector.minLatitude.degrees ≤ latitude.degrees ∧ latitude.degrees ≤ sector.maxLatitude.degrees) ∧
    sector.minLongitude.degrees ≤ longitude.degrees ∧ longitude.degrees ≤ sector.maxLongitude.degrees

/-- A sector of a level set's sector. -/
structure Within (sector outer : Sector) : Prop where
  latitudes : sector.minLatitude.degrees ≤ sector.maxLatitude.degrees
  longitudes : sector.minLongitude.degrees ≤ sector.maxLongitude.degrees
  minLatitude : outer.minLatitude.degrees ≤ sector.minLatitude.degrees
  maxLatitude : sector.maxLatitude.degrees ≤ outer.maxLatitude.degrees
  minLongitude : outer.minLongitude.degrees ≤ sector.minLongitude.degrees
  maxLongitude : sector.maxLongitude.degrees ≤ outer.maxLongitude.degrees

namespace BasicElevationModel

variable (model : BasicElevationModel)

def withExtremes (extremes : List ℚ) : BasicElevationModel := { model with extremes := some extremes }

/-- A buffer of finite elevations has an entry for each tile of the extremes
level that a location of the level set's sector is in. -/
structure HasEntries (extremes : List ℚ) : Prop where
  level : 0 ≤ model.extremesLevel ∧ model.extremesLevel < model.levels.numLevels
  length_lt : extremes.length < 2 ^ 31
  finite : ∀ x ∈ extremes, |x| < MAX_VALUE
  entries : ∀ latitude longitude, Contains model.levels.sector latitude longitude → ∃ row col nCols,
    computeRow (tileDelta model.levels model.extremesLevel.toNat).latitude latitude model.levels.tileOrigin.latitude
      = some row ∧
    computeColumn (tileDelta model.levels model.extremesLevel.toNat).longitude longitude
      model.levels.tileOrigin.longitude = some col ∧
    columnsOf (tileDelta model.levels model.extremesLevel.toNat).longitude = some nCols ∧
    0 ≤ row ∧ 0 ≤ col ∧ 0 < nCols ∧ 2 * (row * nCols + col) + 1 < extremes.length

/-- The extremes of the sector are in order, and bound those of its locations. -/
def Bounds (sector : Sector) : Prop :=
  ∃ min max, model.getExtremeElevations sector = some (min, max) ∧ min ≤ max ∧
    ∀ latitude longitude, Contains sector latitude longitude →
      ∀ x ∈ [(model.getExtremeElevationsAt latitude longitude).1,
        (model.getExtremeElevationsAt latitude longitude).2], min ≤ x ∧ x ≤ max

end BasicElevationModel

/-! ## The loops -/

def indices (first last : Int) : List Int := (List.range (last - first + 1).toNat).map fun (i : Nat) => first + i

theorem mem_indices {first last i : Int} : i ∈ indices first last ↔ first ≤ i ∧ i ≤ last := by
  rw [indices, List.mem_map]
  constructor
  · rintro ⟨n, hn, rfl⟩
    have := List.mem_range.1 hn
    omega
  · rintro ⟨h1, h2⟩
    exact ⟨(i - first).toNat, List.mem_range.2 (by omega), by omega⟩

/-- A loop whose body does not throw. -/
theorem loop_eq {σ : Type} {first last : Int} {body : Int → σ → Except Failure σ} {f : σ → Int → σ} (s : σ)
    (hlast : last < 2 ^ 31 - 1) (hbody : ∀ i s, first ≤ i → i ≤ last → body i s = .ok (f s i)) :
    loop first last body s = .ok ((indices first last).foldl f s) := by
  rw [loop, loopCount, if_neg (by omega), indices, List.foldl_map]
  have hrange : ∀ i ∈ List.range (last - first + 1).toNat, ∀ s,
      body (first + (i : Nat)) s = .ok (f s (first + (i : Nat))) := by
    intro i hi s
    have := List.mem_range.1 hi
    exact hbody _ s (by omega) (by omega)
  dsimp only
  generalize List.range (last - first + 1).toNat = l at hrange
  induction l generalizing s with
  | nil => rfl
  | cons i l ih =>
    rw [List.foldlM_cons, hrange i List.mem_cons_self s, List.foldl_cons]
    exact ih _ fun j hj => hrange j (List.mem_cons_of_mem _ hj)

theorem orThrow_bind {α β : Type} (a : α) (f : α → Except Failure β) : orThrow (some a) >>= f = f a := rfl

theorem addEntry_eq (s e : ℚ × ℚ) : addEntry s e = (min s.1 (min e.1 e.2), max s.2 (max e.1 e.2)) := by
  obtain ⟨lo, hi⟩ := s
  obtain ⟨a, b⟩ := e
  simp only [addEntry, gt_iff_lt, ← min_assoc, ← max_assoc, Prod.mk.injEq]
  constructor
  · rw [← min_def_lt, ← min_def_lt, min_comm b, min_comm a]
  · rw [← max_def_lt, ← max_def_lt]

/-- The extremes bound the entries. -/
theorem foldl_addEntry_bounds {l : List (ℚ × ℚ)} {s : ℚ × ℚ} :
    (l.foldl addEntry s).1 ≤ s.1 ∧ s.2 ≤ (l.foldl addEntry s).2 ∧
      ∀ e ∈ l, ∀ x ∈ [e.1, e.2], (l.foldl addEntry s).1 ≤ x ∧ x ≤ (l.foldl addEntry s).2 := by
  induction l generalizing s with
  | nil => exact ⟨le_refl _, le_refl _, fun e he => absurd he List.not_mem_nil⟩
  | cons e l ih =>
    obtain ⟨h1, h2, h3⟩ := @ih (addEntry s e)
    rw [addEntry_eq] at h1 h2
    rw [le_min_iff, le_min_iff] at h1
    rw [max_le_iff, max_le_iff] at h2
    rw [List.foldl_cons, addEntry_eq]
    rw [addEntry_eq] at h3
    refine ⟨h1.1, h2.1, fun e' he' => ?_⟩
    rcases List.mem_cons.1 he' with rfl | he'
    · intro x hx
      rcases List.mem_pair.1 hx with rfl | rfl
      · exact ⟨h1.2.1, h2.2.1⟩
      · exact ⟨h1.2.2, h2.2.2⟩
    · exact h3 e' he'

/-- The extremes are the ones at the start, or an entry's. -/
theorem foldl_addEntry_mem {l : List (ℚ × ℚ)} {s : ℚ × ℚ} :
    ((l.foldl addEntry s).1 = s.1 ∨ ∃ e ∈ l, (l.foldl addEntry s).1 ∈ [e.1, e.2]) ∧
      ((l.foldl addEntry s).2 = s.2 ∨ ∃ e ∈ l, (l.foldl addEntry s).2 ∈ [e.1, e.2]) := by
  induction l generalizing s with
  | nil => exact ⟨.inl rfl, .inl rfl⟩
  | cons e l ih =>
    have hmin : (addEntry s e).1 = s.1 ∨ (addEntry s e).1 ∈ [e.1, e.2] := by
      rw [addEntry_eq, List.mem_pair]
      rcases min_choice s.1 (min e.1 e.2) with h | h
      · exact .inl h
      · rw [h]
        exact .inr (min_choice e.1 e.2)
    have hmax : (addEntry s e).2 = s.2 ∨ (addEntry s e).2 ∈ [e.1, e.2] := by
      rw [addEntry_eq, List.mem_pair]
      rcases max_choice s.2 (max e.1 e.2) with h | h
      · exact .inl h
      · rw [h]
        exact .inr (max_choice e.1 e.2)
    obtain ⟨h1, h2⟩ := @ih (addEntry s e)
    rw [List.foldl_cons]
    constructor
    · rcases h1 with h1 | ⟨e', he', h1⟩
      · rw [h1]
        exact hmin.imp_right fun h => ⟨e, List.mem_cons_self, h⟩
      · exact .inr ⟨e', List.mem_cons_of_mem _ he', h1⟩
    · rcases h2 with h2 | ⟨e', he', h2⟩
      · rw [h2]
        exact hmax.imp_right fun h => ⟨e, List.mem_cons_self, h⟩
      · exact .inr ⟨e', List.mem_cons_of_mem _ he', h2⟩

/-! ## One axis -/

/-- Where an axis ends between the ends of a sector: the sector ends there, and
the delta divides the grid, or the sector goes on, and begins before the last
edge of the grid. -/
structure Ends (full delta lo hi : ℚ) : Prop where
  reaches : lo < full → hi = full → ∃ n : Nat, n * delta = full
  passes : lo < full → full < hi → lo < ⌊full / delta⌋ * delta

section
variable {full delta lo hi x : ℚ}

theorem truncInt_mono {x y : ℚ} (h : x ≤ y) : truncInt x ≤ truncInt y := by
  have hcut : (if 0 ≤ x then ⌊x⌋ else ⌈x⌉) ≤ if 0 ≤ y then ⌊y⌋ else ⌈y⌉ := by
    split_ifs with hx hy hy
    · exact Int.floor_le_floor h
    · exact absurd (hx.trans h) hy
    · exact (Int.ceil_le.2 (by exact_mod_cast (not_le.1 hx).le)).trans (Int.floor_nonneg.2 hy)
    · exact Int.ceil_le_ceil h
  rw [truncInt, truncInt]
  omega

theorem truncInt_small (hdelta : 0 < delta) (h0 : 0 ≤ x) (hx : x < delta) : truncInt (x / delta) = 0 := by
  have hfloor : ⌊x / delta⌋ = 0 := Int.floor_eq_zero_iff.2 ⟨div_nonneg h0 hdelta.le, (div_lt_one hdelta).2 hx⟩
  rw [truncInt_nonneg (div_nonneg h0 hdelta.le), hfloor]
  rfl

/-- An index that the table has an entry for. -/
theorem axisIndex_eq_floor (h0 : 0 ≤ axisIndex full delta x) (hlt : axisIndex full delta x < 2 ^ 30)
    (hdelta : 0 < delta) (hfull : 0 < full) :
    axisIndex full delta x = max 0 ⌊x / delta⌋ - if x = full then 1 else 0 := by
  rw [axisIndex] at h0 hlt ⊢
  rcases le_or_gt 0 x with hx | hx
  · have hfloor := Int.floor_nonneg.2 (div_nonneg hx hdelta.le)
    rw [truncInt_nonneg (div_nonneg hx hdelta.le)] at h0 hlt ⊢
    split_ifs at h0 hlt ⊢ with hend
    · rw [int_eq (by omega) (by omega)] at hlt ⊢
      omega
    · omega
  · have hquotient : x / delta < 0 := div_neg_of_neg_of_pos hx hdelta
    have hne : x ≠ full := (hx.trans hfull).ne
    have hfloor : ⌊x / delta⌋ < 0 := Int.floor_lt.2 (by exact_mod_cast hquotient)
    have hceil : ⌈x / delta⌉ ≤ 0 := Int.ceil_le.2 (by exact_mod_cast hquotient.le)
    rw [if_neg hne, truncInt, if_neg (not_le.2 hquotient)] at h0 ⊢
    rw [if_neg hne]
    omega

/-- The indices of a part of the axis are between those of its ends. -/
theorem between_iff_ends (hdelta : 0 < delta) (hfull : 0 < full) (hle : lo ≤ hi)
    (hindex : ∀ x, lo ≤ x → x ≤ hi → 0 ≤ axisIndex full delta x ∧ axisIndex full delta x < 2 ^ 30) :
    (∀ x, lo ≤ x → x ≤ hi →
      axisIndex full delta lo ≤ axisIndex full delta x ∧ axisIndex full delta x ≤ axisIndex full delta hi) ↔
      Ends full delta lo hi := by
  have heq : ∀ x, lo ≤ x → x ≤ hi →
      axisIndex full delta x = max 0 ⌊x / delta⌋ - if x = full then 1 else 0 :=
    fun x h1 h2 => axisIndex_eq_floor (hindex x h1 h2).1 (hindex x h1 h2).2 hdelta hfull
  have hmono : ∀ x y : ℚ, x ≤ y → ⌊x / delta⌋ ≤ ⌊y / delta⌋ :=
    fun x y h => Int.floor_le_floor (div_le_div_of_nonneg_right h hdelta.le)
  have hfloor : 0 ≤ ⌊full / delta⌋ := Int.floor_nonneg.2 (div_nonneg hfull.le hdelta.le)
  have hedge : ⌊full / delta⌋ * delta ≤ full := (le_div_iff₀ hdelta).1 (Int.floor_le _)
  have hbefore : ∀ x : ℚ, x < ⌊full / delta⌋ * delta → ⌊x / delta⌋ < ⌊full / delta⌋ :=
    fun x h => Int.floor_lt.2 ((div_lt_iff₀ hdelta).2 h)
  have hbehind : ∀ x : ℚ, ⌊full / delta⌋ * delta ≤ x → ⌊full / delta⌋ ≤ ⌊x / delta⌋ :=
    fun x h => Int.le_floor.2 ((le_div_iff₀ hdelta).2 h)
  constructor
  · intro h
    constructor
    · rintro hlo rfl
      -- the last edge of the grid, if it is in the part
      have h1 : lo ≤ max lo (⌊hi / delta⌋ * delta) := le_max_left _ _
      have h2 : max lo (⌊hi / delta⌋ * delta) ≤ hi := max_le hle hedge
      by_cases hend : max lo (⌊hi / delta⌋ * delta) = hi
      · refine ⟨⌊hi / delta⌋.toNat, ?_⟩
        have hcast : ((⌊hi / delta⌋.toNat : Nat) : ℚ) = ⌊hi / delta⌋ := by exact_mod_cast Int.toNat_of_nonneg hfloor
        rw [hcast]
        rcases max_choice lo (⌊hi / delta⌋ * delta) with hmax | hmax
        · exact absurd (hmax.symm.trans hend) hlo.ne
        · exact hmax.symm.trans hend
      · have hindex' := (h _ h1 h2).2
        have hge := hbehind _ (le_max_right lo _)
        rw [heq _ h1 h2, heq _ hle (le_refl _), if_pos rfl, if_neg hend] at hindex'
        omega
    · intro hlo hhi
      have hindex' := (h full hlo.le hhi.le).1
      rw [heq _ (le_refl _) hle, heq _ hlo.le hhi.le, if_pos rfl, if_neg hlo.ne] at hindex'
      by_contra hge
      have := hbehind _ (not_lt.1 hge)
      omega
  · rintro ⟨hreaches, hpasses⟩ x h1 h2
    -- the index of the end of the grid is above those before the last edge
    have hlast : lo < full → full ≤ hi → ∀ y, y < full → (hi = full ∨ y = lo) → ⌊y / delta⌋ < ⌊full / delta⌋ := by
      intro hlo hhi y hy hor
      refine hbefore y ?_
      rcases hhi.eq_or_lt with hhi | hhi
      · obtain ⟨n, hn⟩ := hreaches hlo hhi.symm
        rw [← hn, mul_div_cancel_right₀ _ hdelta.ne', Int.floor_natCast, Int.cast_natCast, hn]
        exact hy
      · rcases hor with hor | rfl
        · exact absurd hor hhi.ne'
        · exact hpasses hlo hhi
    have h3 := hmono _ _ h1
    have h4 := hmono _ _ h2
    have h0 := (hindex x h1 h2).1
    have h5 := (hindex hi hle (le_refl _)).1
    rw [heq x h1 h2] at h0 ⊢
    rw [heq hi hle (le_refl _)] at h5 ⊢
    rw [heq lo (le_refl _) hle]
    constructor
    · by_cases hx : x = full
      · rcases hle.eq_or_lt with rfl | -
        · obtain rfl := le_antisymm h1 h2
          omega
        · rcases h1.eq_or_lt with rfl | hlo
          · omega
          · have := hlast (hx ▸ hlo) (hx ▸ h2) lo (hx ▸ hlo) (.inr rfl)
            rw [if_pos hx] at h0 ⊢
            rw [if_neg (hx ▸ hlo).ne]
            rw [hx] at h0 ⊢
            omega
      · rw [if_neg hx]
        split_ifs <;> omega
    · by_cases hhi : hi = full
      · rcases h2.eq_or_lt with rfl | hlt
        · omega
        · have := hlast (h1.trans_lt (hhi ▸ hlt)) hhi.ge x (hhi ▸ hlt) (.inl hhi)
          rw [if_pos hhi] at h5 ⊢
          rw [if_neg (hhi ▸ hlt).ne]
          rw [hhi] at h5 ⊢
          omega
      · rw [if_neg hhi]
        split_ifs <;> omega

end

/-! ## Entries -/

/-- The corners of a sector. -/
theorem Within.corners {sector outer : Sector} (h : Within sector outer) :
    Contains outer sector.maxLatitude sector.minLongitude ∧ Contains outer sector.minLatitude sector.maxLongitude :=
  ⟨⟨⟨h.minLatitude.trans h.latitudes, h.maxLatitude⟩, h.minLongitude, h.longitudes.trans h.maxLongitude⟩,
    ⟨h.minLatitude, h.latitudes.trans h.maxLatitude⟩, h.minLongitude.trans h.longitudes, h.maxLongitude⟩

theorem Within.contains {sector outer : Sector} (h : Within sector outer) {latitude longitude : Angle}
    (hin : Contains sector latitude longitude) : Contains outer latitude longitude :=
  ⟨⟨h.minLatitude.trans hin.1.1, hin.1.2.trans h.maxLatitude⟩,
    h.minLongitude.trans hin.2.1, hin.2.2.trans h.maxLongitude⟩

namespace BasicElevationModel

variable (model : BasicElevationModel)

/-- The delta of the extremes level. -/
def delta : LatLon := tileDelta model.levels model.extremesLevel.toNat

/-- What `computeRow` returns. -/
def rowIndex (latitude : Angle) : Int :=
  axisIndex 180 model.delta.latitude.degrees (latitude.degrees - model.levels.tileOrigin.latitude.degrees)

/-- What `computeColumn` returns. -/
def columnIndex (longitude : Angle) : Int :=
  if longitude.degrees - model.levels.tileOrigin.longitude.degrees = 360 then
    int (truncInt (gridLongitude model.levels.tileOrigin.longitude longitude / model.delta.longitude.degrees) - 1)
  else truncInt (gridLongitude model.levels.tileOrigin.longitude longitude / model.delta.longitude.degrees)

/-- The columns of the table. -/
def columns : Int := (columnsOf model.delta.longitude).getD 0

/-- The two elevations of an entry. -/
def pair (table : List ℚ) (k : Nat) : ℚ × ℚ :=
  (model.replaced (table.getD (2 * k) 0), model.replaced (table.getD (2 * k + 1) 0))

variable {model} {table : List ℚ}

/-- The row and the column of a location, and its entry in the table. -/
structure Located (model : BasicElevationModel) (table : List ℚ) (latitude longitude : Angle) : Prop where
  delta_pos : 0 < model.delta.latitude.degrees ∧ 0 < model.delta.longitude.degrees
  row : computeRow model.delta.latitude latitude model.levels.tileOrigin.latitude = some (model.rowIndex latitude)
  column : computeColumn model.delta.longitude longitude model.levels.tileOrigin.longitude
    = some (model.columnIndex longitude)
  latitude_range : -90 ≤ latitude.degrees ∧ latitude.degrees ≤ 90
  longitude_range : -180 ≤ longitude.degrees ∧ longitude.degrees ≤ 180
  columnsOf_eq : columnsOf model.delta.longitude = some model.columns
  row_nonneg : 0 ≤ model.rowIndex latitude
  column_nonneg : 0 ≤ model.columnIndex longitude
  columns_pos : 0 < model.columns
  inside : 2 * (model.rowIndex latitude * model.columns + model.columnIndex longitude) + 1 < table.length

theorem HasEntries.located (h : model.HasEntries table) {latitude longitude : Angle}
    (hin : Contains model.levels.sector latitude longitude) : Located model table latitude longitude := by
  obtain ⟨row, col, nCols, hrow, hcol, hcols, h1, h2, h3, h4⟩ := h.entries latitude longitude hin
  obtain ⟨hlat, hlatitude⟩ := (computeRow_isSome_iff _).1 ⟨row, hrow⟩
  obtain ⟨hlon, hlongitude⟩ := (computeColumn_isSome_iff _).1 ⟨col, hcol⟩
  have hrow' : row = model.rowIndex latitude :=
    Option.some.inj (hrow.symm.trans (computeRow_eq_axisIndex hlat hlatitude))
  have hcol' : col = model.columnIndex longitude :=
    Option.some.inj (hcol.symm.trans (computeColumn_eq hlon hlongitude.1 hlongitude.2))
  have hcols' : nCols = model.columns := by
    rw [columns, delta, hcols, Option.getD_some]
  subst hrow' hcol' hcols'
  exact ⟨⟨hlat, hlon⟩, hrow, hcol, hlatitude, hlongitude, hcols, h1, h2, h3, h4⟩

/-- Where the table has the entry, no index wraps. -/
theorem entry_eq (hlength : table.length < 2 ^ 31) {row nCols col : Int} (hrow : 0 ≤ row) (hcols : 0 ≤ nCols)
    (hcol : 0 ≤ col) (hinside : 2 * (row * nCols + col) + 1 < table.length) :
    model.entry table row nCols col = some (model.pair table (row * nCols + col).toNat) := by
  have hprod : 0 ≤ row * nCols := Int.mul_nonneg hrow hcols
  obtain ⟨k, hk⟩ := Int.eq_ofNat_of_zero_le (Int.add_nonneg hprod hcol)
  have hget : ∀ i : Nat, i < table.length → getDouble table (i : Int) = some (table.getD i 0) := by
    intro i hi
    rw [getDouble, if_pos (Int.natCast_nonneg i), Int.toNat_natCast, List.getElem?_eq_getElem hi,
      List.getD_eq_getElem _ _ hi]
  rw [entry, int_eq (x := row * nCols) (by omega) (by omega), hk, int_eq (x := (k : Int)) (by omega) (by omega),
    int_eq (x := 2 * (k : Int)) (by omega) (by omega), int_eq (by omega) (by omega)]
  have h1 := hget (2 * k) (by omega)
  have h2 := hget (2 * k + 1) (by omega)
  push_cast at h1 h2
  rw [h1, h2]
  rfl

/-- The elevations at a location. -/
theorem getExtremeElevationsAt_eq (h : model.HasEntries table) {latitude longitude : Angle}
    (hin : Contains model.levels.sector latitude longitude) :
    (model.withExtremes table).getExtremeElevationsAt latitude longitude
      = model.pair table (model.rowIndex latitude * model.columns + model.columnIndex longitude).toNat := by
  have hloc := h.located hin
  have hentry := @entry_eq model table h.length_lt _ _ _ hloc.row_nonneg hloc.columns_pos.le hloc.column_nonneg
    hloc.inside
  have hdelta : getTileDelta model.levels model.extremesLevel = some model.delta := if_pos h.level
  rw [getExtremeElevationsAt, withExtremes]
  dsimp only
  rw [if_neg (not_lt.2 h.level.1)]
  simp only [hdelta, Option.bind_eq_bind, Option.bind_some, hloc.row, hloc.column, hloc.columnsOf_eq]
  exact congrArg (Option.getD · _) hentry

variable (model) in
/-- The entries between two rows and two columns. -/
def box (table : List ℚ) (seRow nwRow nwCol seCol : Int) : List (ℚ × ℚ) :=
  (indices nwCol seCol).flatMap fun col => (indices seRow nwRow).map fun row =>
    model.pair table (row * model.columns + col).toNat

theorem mem_box {seRow nwRow nwCol seCol : Int} {e : ℚ × ℚ} : e ∈ model.box table seRow nwRow nwCol seCol ↔
    ∃ row col, (seRow ≤ row ∧ row ≤ nwRow) ∧ (nwCol ≤ col ∧ col ≤ seCol) ∧
      e = model.pair table (row * model.columns + col).toNat := by
  simp only [box, List.mem_flatMap, List.mem_map, mem_indices]
  constructor
  · rintro ⟨col, hcol, row, hrow, rfl⟩
    exact ⟨row, col, hrow, hcol, rfl⟩
  · rintro ⟨row, col, hrow, hcol, rfl⟩
    exact ⟨col, hcol, row, hrow, rfl⟩

/-- The table has the entries between those of the corners. -/
theorem inside_between (h : model.HasEntries table) {sector : Sector} (hin : Within sector model.levels.sector)
    {row col : Int} (hrow : model.rowIndex sector.minLatitude ≤ row ∧ row ≤ model.rowIndex sector.maxLatitude)
    (hcol : model.columnIndex sector.minLongitude ≤ col ∧ col ≤ model.columnIndex sector.maxLongitude) :
    0 ≤ row ∧ 0 ≤ col ∧ 0 ≤ row * model.columns ∧ 2 * (row * model.columns + col) + 1 < table.length := by
  have hnw := h.located hin.corners.1
  have hse := h.located hin.corners.2
  have hcorner := (h.located ⟨hin.corners.1.1, hin.corners.2.2⟩).inside
  have hmul := Int.mul_le_mul_of_nonneg_right hrow.2 hnw.columns_pos.le
  have hrow0 := hse.row_nonneg.trans hrow.1
  exact ⟨hrow0, hnw.column_nonneg.trans hcol.1, Int.mul_nonneg hrow0 hnw.columns_pos.le, by omega⟩

/-- The extremes over the entries between those of the corners. -/
theorem computeExtremeElevations_eq (h : model.HasEntries table) {sector : Sector}
    (hin : Within sector model.levels.sector) : model.computeExtremeElevations table sector = .ok (model.orLimits
      ((model.box table (model.rowIndex sector.minLatitude) (model.rowIndex sector.maxLatitude)
        (model.columnIndex sector.minLongitude) (model.columnIndex sector.maxLongitude)).foldl addEntry
          (MAX_VALUE, -MAX_VALUE))) := by
  have hnw := h.located hin.corners.1
  have hse := h.located hin.corners.2
  have hcorner : Located model table sector.maxLatitude sector.maxLongitude :=
    h.located ⟨hin.corners.1.1, hin.corners.2.2⟩
  have hlength := h.length_lt
  have hdelta : getTileDelta model.levels model.extremesLevel = some model.delta := if_pos h.level
  have hpos := hnw.columns_pos
  -- no loop goes up to the largest `int`
  have hrow : model.rowIndex sector.maxLatitude < 2 ^ 31 - 1 := by
    have hmul := Int.mul_le_mul_of_nonneg_left (show (1 : Int) ≤ model.columns by omega) hcorner.row_nonneg
    have hinside := hcorner.inside
    have hcolumn := hcorner.column_nonneg
    omega
  have hcol : model.columnIndex sector.maxLongitude < 2 ^ 31 - 1 := by
    have hmul := Int.mul_nonneg hcorner.row_nonneg hpos.le
    have hinside := hcorner.inside
    omega
  have hinner : ∀ col s, model.columnIndex sector.minLongitude ≤ col → col ≤ model.columnIndex sector.maxLongitude →
      loop (model.rowIndex sector.minLatitude) (model.rowIndex sector.maxLatitude)
        (fun row s => orThrow (model.entry table row model.columns col) >>= fun entry => pure (addEntry s entry)) s
      = .ok (((indices (model.rowIndex sector.minLatitude) (model.rowIndex sector.maxLatitude)).map fun row =>
          model.pair table (row * model.columns + col).toNat).foldl addEntry s) := by
    intro col s h3 h4
    rw [List.foldl_map]
    refine loop_eq s hrow fun row s h1 h2 => ?_
    obtain ⟨hrow0, hcol0, -, hinside⟩ := inside_between h hin ⟨h1, h2⟩ ⟨h3, h4⟩
    rw [entry_eq hlength hrow0 hpos.le hcol0 hinside]
    rfl
  have hloops := loop_eq (MAX_VALUE, -MAX_VALUE) hcol hinner
  rw [← List.foldl_flatMap] at hloops
  rw [computeExtremeElevations, hdelta, orThrow_bind]
  dsimp only
  rw [hnw.row, orThrow_bind, hnw.column, orThrow_bind, hse.row, orThrow_bind, hse.column, orThrow_bind,
    hnw.columnsOf_eq, orThrow_bind, hloops]
  rfl

theorem getExtremeElevations_eq (h : model.HasEntries table) {sector : Sector}
    (hin : Within sector model.levels.sector) :
    (model.withExtremes table).getExtremeElevations sector = some (model.orLimits
      ((model.box table (model.rowIndex sector.minLatitude) (model.rowIndex sector.maxLatitude)
        (model.columnIndex sector.minLongitude) (model.columnIndex sector.maxLongitude)).foldl addEntry
          (MAX_VALUE, -MAX_VALUE))) := by
  have hcompute : (model.withExtremes table).computeExtremeElevations table sector = _ :=
    computeExtremeElevations_eq h hin
  have hlevel : ¬(model.withExtremes table).extremesLevel < 0 := not_lt.2 h.level.1
  have htable : (model.withExtremes table).extremes = some table := rfl
  simp only [getExtremeElevations, htable, if_neg hlevel, hcompute]

end BasicElevationModel

end WorldWind.Elevations.Extremes
