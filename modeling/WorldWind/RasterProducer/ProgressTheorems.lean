import WorldWind.RasterProducer.Progress
import WorldWind.RasterProducer.TileGrid
/-!
# When the progress ends at 1

The rows that a run enters on a level are those under the rows of level zero
that meet the latitudes of the sector, edges included. The rows that are
counted lie between the row of its minimum and the row of its maximum
latitude. A row that only ends at the minimum latitude is entered and not
counted. That happens where the minimum is an edge on some level but not on
level zero (`progress_ends_iff`).
-/

namespace WorldWind.RasterProducer

open Geom Lib.JavaInt Lib.Quadtree Lib.Descent

variable {R : Type} {rasters : Rasters R} {levelSet : LevelSet} {params : LimitMaxLevel} {dataRasterList : List R}

/-! ## What is fired -/

variable (rasters levelSet params dataRasterList) in
/-- The run calls `updateProgress` exactly `tileCount` times. No value it fires
is over 1, and the last one is 1. -/
def ProgressEnds (p : Progress) : Prop :=
  ∃ installed p' events, installWithProgress rasters levelSet params dataRasterList p = some (installed, p') ∧
    calculateTileCount levelSet params (levelSet.level 0 :: levelSet.levelsAfter 0) 0 = some p'.tileCount ∧
    p'.fired = p.fired ++ 0 :: events ∧ (events.length : Int) = p'.tileCount ∧ (∀ r ∈ events, r ≤ 1) ∧
    events.getLast? = some 1

/-- The values that `n` calls fire after the start. -/
def firedValues (tileCount : Int) (n : Nat) : List ℚ :=
  (List.range n).map fun k : Nat => (int (k + 1) : ℚ) / tileCount

theorem iterate_updateProgress (p : Progress) (n : Nat) :
    updateProgress^[n] (startProgress p)
      = ⟨int n, p.tileCount, p.fired ++ 0 :: firedValues p.tileCount n⟩ := by
  induction n with
  | zero =>
    have hzero : int 0 = 0 := int_eq (by omega) (by omega)
    simp [startProgress, firedValues, hzero]
  | succ n ih =>
    have hvalues : firedValues p.tileCount (n + 1) = firedValues p.tileCount n ++
        [(int (n + 1) : ℚ) / p.tileCount] := by
      rw [firedValues, List.range_succ, List.map_append]
      rfl
    rw [Function.iterate_succ_apply', ih, updateProgress, hvalues]
    simp only [int_int_add, Nat.cast_succ, List.append_assoc, List.cons_append]

/-- The values end at 1 if there are as many as tiles were counted. -/
theorem firedValues_ends {tileCount : Int} {n : Nat} (hcount : (n : Int) = tileCount) (hlt : tileCount < 2 ^ 31) :
    (∀ r ∈ firedValues tileCount n, r ≤ 1) ∧ ((firedValues tileCount n).getLast? = some 1 ↔ 0 < n) := by
  subst hcount
  have hvalue : ∀ k : Nat, k < n → (int (k + 1) : ℚ) = k + 1 := by
    intro k hk
    rw [int_eq (by omega) (by omega)]
    push_cast
    rfl
  constructor
  · intro r hr
    obtain ⟨k, hk, rfl⟩ := List.mem_map.1 hr
    rw [List.mem_range] at hk
    rw [hvalue k hk]
    have hle : (k : ℚ) + 1 ≤ n := by exact_mod_cast hk
    exact div_le_one_of_le₀ (by push_cast; exact hle) (by positivity)
  · cases n with
    | zero => simp [firedValues]
    | succ n =>
      have hne : ((n : ℚ) + 1) ≠ 0 := by positivity
      rw [firedValues, List.range_succ, List.map_append]
      simp [hvalue n (by omega), hne]

/-! ## Entered and counted -/

/-- No count is over what is entered: the sums are equal if all of them are, and
the total is an `int`. -/
theorem sum_eq_int_iff {n : Nat} {r c : Nat → Int} {v w : Nat → Nat}
    (hr : ∀ l, 0 ≤ r l ∧ r l ≤ v l ∧ 0 < v l) (hc : ∀ l, 0 ≤ c l ∧ c l ≤ w l ∧ 0 < w l) :
    ((∑ l ∈ Finset.range (n + 1), v l * w l : Nat) : Int) = int (∑ l ∈ Finset.range (n + 1), r l * c l) ∧
        0 < ∑ l ∈ Finset.range (n + 1), v l * w l ↔
      (∀ l ≤ n, r l = v l ∧ c l = w l) ∧ ∑ l ∈ Finset.range (n + 1), r l * c l < 2 ^ 31 := by
  have hprod : ∀ l ∈ Finset.range (n + 1), r l * c l ≤ (v l : Int) * w l := fun l _ =>
    mul_le_mul (hr l).2.1 (hc l).2.1 (hc l).1 (by positivity)
  have hle := Finset.sum_le_sum hprod
  have hnonneg : 0 ≤ ∑ l ∈ Finset.range (n + 1), r l * c l :=
    Finset.sum_nonneg fun l _ => Int.mul_nonneg (hr l).1 (hc l).1
  push_cast
  constructor
  · rintro ⟨heq, -⟩
    have hlt := int_lt (∑ l ∈ Finset.range (n + 1), r l * c l)
    have hint : int (∑ l ∈ Finset.range (n + 1), r l * c l) = ∑ l ∈ Finset.range (n + 1), r l * c l :=
      int_eq (by omega) (by omega)
    rw [hint] at heq
    refine ⟨fun l hl => ?_, by omega⟩
    have hterm := (Finset.sum_eq_sum_iff_of_le hprod).1 heq.symm l (Finset.mem_range.2 (by omega))
    obtain ⟨hr0, hrv, hv⟩ := hr l
    obtain ⟨hc0, hcw, hw⟩ := hc l
    have hv : (0 : Int) < v l := by exact_mod_cast hv
    have hw : (0 : Int) < w l := by exact_mod_cast hw
    -- a factor that is smaller makes the product smaller
    constructor
    · refine le_antisymm hrv (not_lt.1 fun hlt => ?_)
      nlinarith
    · refine le_antisymm hcw (not_lt.1 fun hlt => ?_)
      nlinarith
  · rintro ⟨hall, hlt⟩
    have heq : ∑ l ∈ Finset.range (n + 1), r l * c l = ∑ l ∈ Finset.range (n + 1), (v l : Int) * w l := by
      refine Finset.sum_congr rfl fun l hl => ?_
      obtain ⟨hrv, hcw⟩ := hall l (by have := Finset.mem_range.1 hl; omega)
      rw [hrv, hcw]
    have hint : int (∑ l ∈ Finset.range (n + 1), r l * c l) = ∑ l ∈ Finset.range (n + 1), r l * c l :=
      int_eq (by omega) (by omega)
    refine ⟨by rw [hint, heq], ?_⟩
    have hfirst : 0 < v 0 * w 0 := Nat.mul_pos (hr 0).2.2 (hc 0).2.2
    exact hfirst.trans_le (Finset.single_le_sum (f := fun l => v l * w l) (fun l _ => Nat.zero_le _)
      (Finset.mem_range.2 n.succ_pos))

variable (levelSet) in
/-- The rows of a level that are entered from those of level zero. -/
def enteredRows (l : Nat) : Nat :=
  entered (rowMeets levelSet)
    ((computeRow levelSet.levelZeroTileDelta.latitude levelSet.sector.minLatitude
      levelSet.tileOrigin.latitude).getD 0).toNat (rowCount levelSet 0).toNat l

variable (levelSet) in
def enteredColumns (l : Nat) : Nat :=
  entered (columnMeets levelSet)
    ((computeColumn levelSet.levelZeroTileDelta.longitude levelSet.sector.minLongitude
      levelSet.tileOrigin.longitude).getD 0).toNat (columnCount levelSet 0).toNat l

theorem tileDelta_zero : tileDelta levelSet 0 = levelSet.levelZeroTileDelta := by
  simp [tileDelta, Angle.fromDegrees]

theorem accepted_of_topLevelTiles {tiles : List Tile} (h : topLevelTiles levelSet = some tiles) :
    Accepted levelSet := by
  obtain ⟨firstRow, firstCol, lastRow, lastCol, h1, h2, h3, h4, -⟩ := topLevelTiles_corners h
  obtain ⟨hlat, hminLat⟩ := (computeRow_isSome_iff _).1 ⟨_, h1⟩
  obtain ⟨hlon, hminLon⟩ := (computeColumn_isSome_iff _).1 ⟨_, h2⟩
  exact ⟨⟨hlat, hlon⟩, hminLat, ((computeRow_isSome_iff _).1 ⟨_, h3⟩).2, hminLon,
    ((computeColumn_isSome_iff _).1 ⟨_, h4⟩).2⟩

/-- The calls of a whole run. -/
theorem sum_updates {tiles : List Tile} (h : topLevelTiles levelSet = some tiles) :
    (tiles.map fun tile => updates levelSet params (levelSet.levelsAfter 0) tile).sum
      = ∑ l ∈ Finset.range (finalLevel levelSet params + 1), enteredRows levelSet l * enteredColumns levelSet l := by
  have hdelta := (accepted_of_topLevelTiles h).delta_pos
  obtain ⟨firstRow, firstCol, lastRow, lastCol, h1, h2, h3, h4, hrow0, hcol0, rfl⟩ := topLevelTiles_corners h
  have hcells : ∀ c ∈ topCells firstRow.toNat (lastRow - firstRow + 1).toNat firstCol.toNat
      (lastCol - firstCol + 1).toNat,
      updates levelSet params (levelSet.levelsAfter 0) (topTile levelSet c)
        = visits (rowMeets levelSet) (columnMeets levelSet) (finalLevel levelSet params) 0 c.row c.column := by
    intro c hc
    have htop := (mem_topCells_iff h1 h2 h3 h4 hrow0 (fun hle => (hcol0 hle).2.1) c).1 hc
    have hupdates := updates_eq (finalLevel levelSet params) c (topTile levelSet c) (stands_topTile htop)
      (by rw [htop.1, Nat.zero_add])
    rwa [htop.1] at hupdates
  rw [List.map_map, Function.comp_def, List.map_congr_left hcells, topCells, List.map_flatMap, List.flatMap,
    List.sum_flatten, List.map_map]
  simp only [Function.comp_def, List.map_map]
  rw [sum_visits (nested_rowMeets hdelta) (nested_columnMeets hdelta)]
  simp only [enteredRows, enteredColumns, rowCount, columnCount, tileDelta_zero, h1, h2, h3, h4, Option.getD_some]

theorem installWithProgress_eq {tiles : List Tile} (h : topLevelTiles levelSet = some tiles) (p : Progress) :
    ∃ installed, installLevelSet rasters levelSet params dataRasterList = some installed ∧
      installWithProgress rasters levelSet params dataRasterList p
        = some (installed, updateProgress^[∑ l ∈ Finset.range (finalLevel levelSet params + 1),
            enteredRows levelSet l * enteredColumns levelSet l]
          (startProgress { p with tileCount := int (∑ l ∈ Finset.range (finalLevel levelSet params + 1),
            rowCount levelSet l * columnCount levelSet l) })) := by
  have hcount := @calculateTileCount_eq levelSet params (accepted_of_topLevelTiles h) (finalLevel levelSet params) 0 0
    (Nat.zero_add _)
  refine ⟨_, by rw [installLevelSet, h, Option.map_some], ?_⟩
  have hrun := fun q => run_mapM tiles
    (f := fun tile => do
      let result ← createTileRasterWithProgress rasters levelSet params dataRasterList (levelSet.levelsAfter 0) tile
      return result.2 ++ installTileRasterLater tile result.1)
    (g := fun tile =>
      let result := createTileRaster rasters levelSet params dataRasterList (levelSet.levelsAfter 0) tile
      result.2 ++ installTileRasterLater tile result.1)
    (n := fun tile => updates levelSet params (levelSet.levelsAfter 0) tile)
    (by
      intro tile q
      simp only [bind, StateT.bind, createTileRasterWithProgress_eq]
      rfl) q
  rw [installWithProgress, hcount, h, ← Finset.range_eq_Ico, Int.zero_add, ← sum_updates h]
  simp only [Option.bind_eq_bind, Option.bind_some, hrun]
  rfl

/-- Without the tiles of level zero there is no run. -/
theorem installWithProgress_none (h : topLevelTiles levelSet = none) (p : Progress) :
    installWithProgress rasters levelSet params dataRasterList p = none := by
  rw [installWithProgress, h]
  cases calculateTileCount levelSet params (levelSet.level 0 :: levelSet.levelsAfter 0) 0 <;> rfl

/-- The progress ends at 1 if as many tiles are entered as are counted. -/
theorem progressEnds_iff_entered {tiles : List Tile} (h : topLevelTiles levelSet = some tiles) (p : Progress) :
    ProgressEnds rasters levelSet params dataRasterList p ↔
      ((∑ l ∈ Finset.range (finalLevel levelSet params + 1),
        enteredRows levelSet l * enteredColumns levelSet l : Nat) : Int)
          = int (∑ l ∈ Finset.range (finalLevel levelSet params + 1), rowCount levelSet l * columnCount levelSet l) ∧
        0 < ∑ l ∈ Finset.range (finalLevel levelSet params + 1),
          enteredRows levelSet l * enteredColumns levelSet l := by
  have hcount := @calculateTileCount_eq levelSet params (accepted_of_topLevelTiles h) (finalLevel levelSet params) 0 0
    (Nat.zero_add _)
  rw [← Finset.range_eq_Ico, Int.zero_add] at hcount
  obtain ⟨installed, -, hinstall⟩ := @installWithProgress_eq R rasters levelSet params dataRasterList tiles h p
  rw [ProgressEnds, hinstall, hcount]
  generalize ∑ l ∈ Finset.range (finalLevel levelSet params + 1),
    enteredRows levelSet l * enteredColumns levelSet l = n
  generalize ∑ l ∈ Finset.range (finalLevel levelSet params + 1), rowCount levelSet l * columnCount levelSet l = total
  rw [iterate_updateProgress]
  constructor
  · rintro ⟨installed', p', events, heq, -, hfired, hlen, -, hlast⟩
    obtain ⟨rfl, rfl⟩ := Prod.mk.inj (Option.some.inj heq)
    obtain rfl : firedValues (int total) n = events := (List.cons.inj (List.append_cancel_left hfired)).2
    have hn : (n : Int) = int total := by simpa [firedValues] using hlen
    exact ⟨hn, ((firedValues_ends hn (int_lt _)).2).1 hlast⟩
  · rintro ⟨hn, hpos⟩
    obtain ⟨hle, hlast⟩ := firedValues_ends hn (int_lt _)
    exact ⟨installed, _, firedValues (int total) n, rfl, rfl, rfl, by simpa [firedValues] using hn, hle, hlast.2 hpos⟩

/-! ## One axis -/

/-- The index that `computeRow` and `computeColumn` return for a distance from
the origin; the grid ends at `full`. -/
def axisIndex (full delta x : ℚ) : Int :=
  if x = full then int (truncInt (x / delta) - 1) else truncInt (x / delta)

/-- The sector lies in the grid: on the axis it begins and ends between the
origin and the end of the grid. A sector that reaches the end needs a delta
that divides the grid. -/
structure OnAxis (full : ℚ) (origin delta lo hi : Angle) : Prop where
  delta_pos : 0 < delta.degrees
  full_pos : 0 < full
  origin_le : origin.degrees ≤ lo.degrees
  lo_le : lo.degrees ≤ hi.degrees
  hi_le : hi.degrees - origin.degrees ≤ full
  divides : hi.degrees - origin.degrees = full → Divides delta full

/-- An edge of the tiles of a level. -/
def EdgeOf (origin delta : Angle) (l : Nat) (x : Angle) : Prop :=
  ∃ z : Int, x.degrees = origin.degrees + z * (delta.degrees / 2 ^ l)

/-- The distance from the origin in tiles of a level. -/
def quotient (origin delta : Angle) (l : Nat) (x : Angle) : ℚ :=
  (x.degrees - origin.degrees) / (delta.degrees / 2 ^ l)

/-- The test of a descent along the axis. -/
def axisMeets (origin delta lo hi : Angle) (l i : Nat) : Bool :=
  (gridAngle origin delta l i).degrees ≤ hi.degrees ∧ lo.degrees ≤ (gridAngle origin delta l (i + 1)).degrees

section
variable {full : ℚ} {origin delta lo hi : Angle}

theorem quotient_scale (origin delta : Angle) (l : Nat) (x : Angle) :
    quotient origin delta l x = 2 ^ l * quotient origin delta 0 x := by
  rw [quotient, quotient, pow_zero, div_one]
  field_simp

theorem edgeOf_iff (hdelta : 0 < delta.degrees) (l : Nat) (x : Angle) :
    EdgeOf origin delta l x ↔ quotient origin delta l x = ⌊quotient origin delta l x⌋ := by
  have hpos : 0 < delta.degrees / 2 ^ l := by positivity
  constructor
  · rintro ⟨z, hz⟩
    have hq : quotient origin delta l x = z := by
      rw [quotient, hz, add_sub_cancel_left, mul_div_cancel_right₀ _ hpos.ne']
    rw [hq, Int.floor_intCast]
  · intro h
    refine ⟨⌊quotient origin delta l x⌋, ?_⟩
    rw [← h, quotient, div_mul_cancel₀ _ hpos.ne']
    ring

theorem axisMeets_iff (hdelta : 0 < delta.degrees) (l i : Nat) : axisMeets origin delta lo hi l i = true ↔
    (i : Int) ≤ ⌊quotient origin delta l hi⌋ ∧ ⌈quotient origin delta l lo⌉ ≤ i + 1 := by
  have hpos : 0 < delta.degrees / 2 ^ l := by positivity
  rw [axisMeets, decide_eq_true_eq, Int.le_floor, Int.ceil_le, quotient, quotient, le_div_iff₀ hpos, div_le_iff₀ hpos]
  simp only [gridAngle, Angle.fromDegrees]
  push_cast
  constructor <;> rintro ⟨h1, h2⟩ <;> constructor <;> linarith

/-- The floors of a quotient on a level and on level zero. -/
theorem floor_quotient (l : Nat) (x : Angle) :
    2 ^ l * ⌊quotient origin delta 0 x⌋ ≤ ⌊quotient origin delta l x⌋ ∧
      ⌊quotient origin delta l x⌋ < 2 ^ l * ⌊quotient origin delta 0 x⌋ + 2 ^ l := by
  have hle := Int.floor_le (quotient origin delta 0 x)
  have hlt := Int.lt_floor_add_one (quotient origin delta 0 x)
  have hpow : (0 : ℚ) < 2 ^ l := by positivity
  rw [quotient_scale origin delta l, Int.le_floor, Int.floor_lt]
  push_cast
  constructor
  · exact mul_le_mul_of_nonneg_left hle hpow.le
  · nlinarith

/-- The index without the cast to `int`. -/
def exactIndex (full : ℚ) (origin delta : Angle) (l : Nat) (x : Angle) : Int :=
  if x.degrees - origin.degrees = full then ⌊quotient origin delta l x⌋ - 1 else ⌊quotient origin delta l x⌋

theorem axisIndex_eq (hdelta : 0 < delta.degrees) (l : Nat) {x : Angle} (hx : origin.degrees ≤ x.degrees) :
    axisIndex full (delta.degrees / 2 ^ l) (x.degrees - origin.degrees)
      = if x.degrees - origin.degrees = full then min (2 ^ 31 - 1) ⌊quotient origin delta l x⌋ - 1
        else min (2 ^ 31 - 1) ⌊quotient origin delta l x⌋ := by
  have hq : 0 ≤ quotient origin delta l x := div_nonneg (sub_nonneg.2 hx) (by positivity)
  have hfloor := Int.floor_nonneg.2 hq
  rw [axisIndex, ← quotient, truncInt_nonneg hq]
  split_ifs
  · exact int_eq (by omega) (by omega)
  · rfl

/-- How the floors of both ends lie to each other. -/
structure Floors (full : ℚ) (origin delta lo hi : Angle) (l : Nat) : Prop where
  lo_nonneg : 0 ≤ ⌊quotient origin delta l lo⌋
  lo_le : ⌊quotient origin delta l lo⌋ ≤ ⌊quotient origin delta l hi⌋
  lo_eq : lo.degrees - origin.degrees = full → hi.degrees - origin.degrees = full ∧
    ⌊quotient origin delta l lo⌋ = ⌊quotient origin delta l hi⌋
  lo_lt : lo.degrees - origin.degrees ≠ full → hi.degrees - origin.degrees = full →
    ⌊quotient origin delta l lo⌋ < ⌊quotient origin delta l hi⌋

theorem OnAxis.edge_hi (h : OnAxis full origin delta lo hi) (hfull : hi.degrees - origin.degrees = full) (l : Nat) :
    quotient origin delta l hi = ⌊quotient origin delta l hi⌋ := by
  obtain ⟨n, -, hn⟩ := h.divides hfull
  rw [← edgeOf_iff h.delta_pos]
  refine ⟨n * 2 ^ l, ?_⟩
  have hpow : (2 : ℚ) ^ l ≠ 0 := by positivity
  push_cast
  field_simp
  linarith

theorem OnAxis.floors (h : OnAxis full origin delta lo hi) (l : Nat) : Floors full origin delta lo hi l := by
  have hpos : 0 < delta.degrees / 2 ^ l := div_pos h.delta_pos (by positivity)
  have hle : quotient origin delta l lo ≤ quotient origin delta l hi :=
    div_le_div_of_nonneg_right (by linarith [h.lo_le]) hpos.le
  refine ⟨Int.floor_nonneg.2 (div_nonneg (sub_nonneg.2 h.origin_le) hpos.le), Int.floor_le_floor hle, ?_, ?_⟩
  · intro hfull
    have hhi : hi.degrees - origin.degrees = full := le_antisymm h.hi_le (by linarith [h.lo_le])
    refine ⟨hhi, ?_⟩
    rw [quotient, quotient, hfull, hhi]
  · intro hne hfull
    have hlt : lo.degrees < hi.degrees := lt_of_le_of_ne h.lo_le fun heq => hne (heq ▸ hfull)
    rw [Int.floor_lt, ← h.edge_hi hfull l]
    exact div_lt_div_of_pos_right (by linarith) hpos

theorem OnAxis.edge_lo (h : OnAxis full origin delta lo hi) (hfull : lo.degrees - origin.degrees = full) :
    EdgeOf origin delta 0 lo := by
  have hhi : hi.degrees - origin.degrees = full := le_antisymm h.hi_le (by linarith [h.lo_le])
  obtain ⟨z, hz⟩ := (edgeOf_iff h.delta_pos 0 hi).2 (h.edge_hi hhi 0)
  exact ⟨z, by linarith⟩

/-- The last tile of level zero has a successor among the `int`s. -/
theorem OnAxis.level_zero (h : OnAxis full origin delta lo hi)
    (hend : axisIndex full delta.degrees (hi.degrees - origin.degrees) ≠ 2 ^ 31 - 1) :
    axisIndex full delta.degrees (lo.degrees - origin.degrees) = exactIndex full origin delta 0 lo ∧
      axisIndex full delta.degrees (hi.degrees - origin.degrees) = exactIndex full origin delta 0 hi := by
  obtain ⟨hlo, hle, heq, hlt⟩ := h.floors 0
  have hlo' := @axisIndex_eq full origin delta h.delta_pos 0 lo h.origin_le
  have hhi' := @axisIndex_eq full origin delta h.delta_pos 0 hi (h.origin_le.trans h.lo_le)
  rw [pow_zero, div_one] at hlo' hhi'
  rw [hhi'] at hend
  rw [hlo', hhi', exactIndex, exactIndex]
  by_cases hfull : hi.degrees - origin.degrees = full
  · have hsmall : ⌊quotient origin delta 0 hi⌋ < 2 ^ 31 := by
      obtain ⟨n, hn, hn'⟩ := h.divides hfull
      rw [quotient, hfull, ← hn', pow_zero, div_one, mul_div_cancel_right₀ _ h.delta_pos.ne', Int.floor_natCast]
      exact_mod_cast hn
    rw [if_pos hfull, if_pos hfull]
    by_cases hlofull : lo.degrees - origin.degrees = full
    · rw [if_pos hlofull, if_pos hlofull]
      omega
    · have := hlt hlofull hfull
      rw [if_neg hlofull, if_neg hlofull]
      omega
  · have hlofull : lo.degrees - origin.degrees ≠ full := fun hlofull => hfull (heq hlofull).1
    rw [if_neg hfull] at hend
    rw [if_neg hfull, if_neg hfull, if_neg hlofull, if_neg hlofull]
    omega

/-- An edge of a level, below which a row or column is entered that is not
counted. -/
def InnerEdge (origin delta : Angle) (l : Nat) (x : Angle) : Prop :=
  EdgeOf origin delta l x ∧ ¬ EdgeOf origin delta 0 x

/-- On level zero the edges of all levels are where the floors agree. -/
theorem edgeOf_zero_iff (hdelta : 0 < delta.degrees) (l : Nat) (x : Angle) : EdgeOf origin delta 0 x ↔
    EdgeOf origin delta l x ∧ ⌊quotient origin delta l x⌋ = 2 ^ l * ⌊quotient origin delta 0 x⌋ := by
  have hpow : (0 : ℚ) < 2 ^ l := by positivity
  have hcast : ((2 ^ l * ⌊quotient origin delta 0 x⌋ : Int) : ℚ) = 2 ^ l * (⌊quotient origin delta 0 x⌋ : ℚ) := by
    push_cast
    rfl
  rw [edgeOf_iff hdelta, edgeOf_iff hdelta]
  constructor
  · intro h
    have hfloor : ⌊quotient origin delta l x⌋ = 2 ^ l * ⌊quotient origin delta 0 x⌋ := by
      rw [quotient_scale, h, ← hcast, Int.floor_intCast, Int.floor_intCast]
    refine ⟨?_, hfloor⟩
    rw [hfloor, hcast, ← h, quotient_scale]
  · rintro ⟨h, hfloor⟩
    rw [hfloor, hcast, quotient_scale] at h
    exact mul_left_cancel₀ hpow.ne' h

theorem edgeOf_iff_ceil (hdelta : 0 < delta.degrees) (l : Nat) (x : Angle) :
    (EdgeOf origin delta l x ∧ ⌈quotient origin delta l x⌉ = ⌊quotient origin delta l x⌋) ∨
      ¬ EdgeOf origin delta l x ∧ ⌈quotient origin delta l x⌉ = ⌊quotient origin delta l x⌋ + 1 := by
  rw [edgeOf_iff hdelta]
  by_cases h : quotient origin delta l x = ⌊quotient origin delta l x⌋
  · exact Or.inl ⟨h, by rw [h, Int.ceil_intCast, Int.floor_intCast]⟩
  · refine Or.inr ⟨h, ?_⟩
    rw [Int.ceil_eq_iff]
    have hle := Int.floor_le (quotient origin delta l x)
    have hlt := Int.lt_floor_add_one (quotient origin delta l x)
    push_cast
    exact ⟨by linarith [lt_of_le_of_ne hle fun heq => h heq.symm], hlt.le⟩

/-- The arithmetic of `mem_passing`. The cells under those of level zero begin
at `u` and end before `v + w`. -/
theorem between_iff {u v w a b c m : Int} {lofull hifull edge : Prop} [Decidable lofull] [Decidable hifull]
    (ha : u ≤ a ∧ a < u + w) (hb : v ≤ b ∧ b < v + w)
    (hlo : lofull → hifull ∧ a = b ∧ edge ∧ a = u) (hlt : ¬ lofull → hifull → a < b) (hhi : hifull → b = v)
    (hceil : edge ∧ c = a ∨ ¬ edge ∧ c = a + 1) :
    (((if lofull then u - w else u) ≤ m ∧ m < (if hifull then v - w else v) + w) ∧ m ≤ b ∧ c ≤ m + 1) ↔
      ((if lofull then a - 1 else a) ≤ m ∨ (edge ∧ a ≠ u) ∧ (if lofull then a - 1 else a) ≤ m + 1) ∧
        m ≤ if hifull then b - 1 else b := by
  by_cases h1 : lofull
  · obtain ⟨h2, hab', hedge, hau⟩ := hlo h1
    have hbv := hhi h2
    have hc : c = a := by tauto
    simp only [if_pos h1, if_pos h2, hedge, true_and]
    omega
  · by_cases h2 : hifull
    · have hbv := hhi h2
      have hlt := hlt h1 h2
      simp only [if_neg h1, if_pos h2]
      rcases hceil with ⟨hedge, hc⟩ | ⟨hedge, hc⟩
      · simp only [hedge, true_and]
        omega
      · simp only [hedge, false_and, or_false]
        omega
    · simp only [if_neg h1, if_neg h2]
      rcases hceil with ⟨hedge, hc⟩ | ⟨hedge, hc⟩
      · simp only [hedge, true_and]
        omega
      · simp only [hedge, false_and, or_false]
        omega

/-- The cells under those of level zero that pass the test: from the first to
the last, and the one that ends at an inner edge. -/
theorem OnAxis.mem_passing (h : OnAxis full origin delta lo hi) {first last : Nat}
    (hfirst : exactIndex full origin delta 0 lo = first) (hlast : exactIndex full origin delta 0 hi = last)
    (hle : first ≤ last) (l m : Nat) :
    m ∈ passing (axisMeets origin delta lo hi) 0 l first (last + 1 - first) ↔
      (exactIndex full origin delta l lo ≤ m ∨ InnerEdge origin delta l lo ∧
        exactIndex full origin delta l lo ≤ m + 1) ∧
        m ≤ exactIndex full origin delta l hi := by
  obtain ⟨-, -, heq, hlt⟩ := h.floors l
  have hzero := @edgeOf_zero_iff origin delta h.delta_pos l lo
  have hinner : InnerEdge origin delta l lo ↔ EdgeOf origin delta l lo ∧
      ⌊quotient origin delta l lo⌋ ≠ 2 ^ l * ⌊quotient origin delta 0 lo⌋ := by
    rw [InnerEdge, hzero]
    tauto
  have hcast1 : 2 ^ l * first ≤ m ↔ 2 ^ l * (first : Int) ≤ m := by exact_mod_cast Iff.rfl
  have hcast2 : m < 2 ^ l * (last + 1) ↔ (m : Int) < 2 ^ l * (last : Int) + 2 ^ l := by
    rw [Nat.mul_add, Nat.mul_one]
    exact_mod_cast Iff.rfl
  rw [passing, Finset.mem_filter, Finset.mem_Ico, Nat.zero_add, axisMeets_iff h.delta_pos,
    show first + (last + 1 - first) = last + 1 by omega, hcast1, hcast2, ← hfirst, ← hlast, hinner]
  simp only [exactIndex, mul_ite, Int.mul_sub, Int.mul_one]
  refine between_iff (floor_quotient l lo) (floor_quotient l hi) ?_ hlt ?_ (edgeOf_iff_ceil h.delta_pos l lo)
  · intro hfull
    obtain ⟨hedge, hfloor⟩ := hzero.1 (h.edge_lo hfull)
    exact ⟨(heq hfull).1, (heq hfull).2, hedge, hfloor⟩
  · intro hfull
    exact ((edgeOf_zero_iff h.delta_pos l hi).1 ((edgeOf_iff h.delta_pos 0 hi).2 (h.edge_hi hfull 0))).2

theorem OnAxis.exactIndex_bounds (h : OnAxis full origin delta lo hi) (l : Nat) :
    0 ≤ exactIndex full origin delta l lo ∧ exactIndex full origin delta l lo ≤ exactIndex full origin delta l hi ∧
      (InnerEdge origin delta l lo → 1 ≤ exactIndex full origin delta l lo) := by
  obtain ⟨hnonneg, hle, heq, hlt⟩ := h.floors l
  rw [exactIndex, exactIndex]
  by_cases hlofull : lo.degrees - origin.degrees = full
  · obtain ⟨hfull, hfloor⟩ := heq hlofull
    have hpos : 0 < ⌊quotient origin delta l hi⌋ := by
      have hq : 0 < quotient origin delta l hi := by
        rw [quotient, hfull]
        exact div_pos h.full_pos (div_pos h.delta_pos (by positivity))
      rw [h.edge_hi hfull l] at hq
      exact_mod_cast hq
    rw [if_pos hlofull, if_pos hfull]
    exact ⟨by omega, by omega, fun hinner => absurd (h.edge_lo hlofull) hinner.2⟩
  · rw [if_neg hlofull]
    refine ⟨hnonneg, ?_, ?_⟩
    · by_cases hfull : hi.degrees - origin.degrees = full
      · have := hlt hlofull hfull
        rw [if_pos hfull]
        omega
      · rwa [if_neg hfull]
    · rintro ⟨hedge, hzero⟩
      obtain ⟨hlo, -⟩ := @floor_quotient origin delta l lo
      have hne : ⌊quotient origin delta l lo⌋ ≠ 2 ^ l * ⌊quotient origin delta 0 lo⌋ := fun heq =>
        hzero ((edgeOf_zero_iff h.delta_pos l lo).2 ⟨hedge, heq⟩)
      have hmul : 0 ≤ 2 ^ l * ⌊quotient origin delta 0 lo⌋ := Int.mul_nonneg (by positivity) (h.floors 0).lo_nonneg
      omega

open Classical in
/-- How many are entered. -/
theorem OnAxis.entered_eq (h : OnAxis full origin delta lo hi) {first last : Nat}
    (hfirst : exactIndex full origin delta 0 lo = first) (hlast : exactIndex full origin delta 0 hi = last)
    (l : Nat) :
    (entered (axisMeets origin delta lo hi) first (last + 1 - first) l : Int)
      = exactIndex full origin delta l hi - exactIndex full origin delta l lo + 1
        + if InnerEdge origin delta l lo then 1 else 0 := by
  obtain ⟨hnonneg, hle, hinner⟩ := h.exactIndex_bounds l
  have hle0 : first ≤ last := by
    have := (h.exactIndex_bounds 0).2.1
    omega
  cases l with
  | zero =>
    rw [entered, if_pos rfl, if_neg fun hi => hi.2 hi.1, hfirst, hlast]
    omega
  | succ l =>
    rw [entered, if_neg (Nat.succ_ne_zero l)]
    by_cases hedge : InnerEdge origin delta (l + 1) lo
    · have hinner := hinner hedge
      have hset : passing (axisMeets origin delta lo hi) 0 (l + 1) first (last + 1 - first)
          = Finset.Ico (exactIndex full origin delta (l + 1) lo - 1).toNat
            (exactIndex full origin delta (l + 1) hi + 1).toNat := by
        ext m
        rw [h.mem_passing hfirst hlast hle0, Finset.mem_Ico]
        simp only [hedge, true_and]
        omega
      rw [hset, Nat.card_Ico, if_pos hedge]
      omega
    · have hset : passing (axisMeets origin delta lo hi) 0 (l + 1) first (last + 1 - first)
          = Finset.Ico (exactIndex full origin delta (l + 1) lo).toNat
            (exactIndex full origin delta (l + 1) hi + 1).toNat := by
        ext m
        rw [h.mem_passing hfirst hlast hle0, Finset.mem_Ico]
        simp only [hedge, false_and, or_false]
        omega
      rw [hset, Nat.card_Ico, if_neg hedge]
      omega

/-- The last index of a level is an `int`, or both corners have the same. -/
def FitsInt (origin delta lo hi : Angle) (l : Nat) : Prop :=
  quotient origin delta l hi < 2 ^ 31 ∨ ⌊quotient origin delta l lo⌋ = ⌊quotient origin delta l hi⌋

/-- How many are counted. -/
theorem OnAxis.count_le (h : OnAxis full origin delta lo hi) (l : Nat) {count : Int}
    (hcount : count = axisIndex full (delta.degrees / 2 ^ l) (hi.degrees - origin.degrees)
      - axisIndex full (delta.degrees / 2 ^ l) (lo.degrees - origin.degrees) + 1) :
    0 ≤ count ∧ count ≤ exactIndex full origin delta l hi - exactIndex full origin delta l lo + 1 ∧
      (count = exactIndex full origin delta l hi - exactIndex full origin delta l lo + 1 ↔
        FitsInt origin delta lo hi l) := by
  obtain ⟨hnonneg, hle, heq, hlt⟩ := h.floors l
  have hfits : FitsInt origin delta lo hi l ↔ ⌊quotient origin delta l hi⌋ < 2 ^ 31 ∨
      ⌊quotient origin delta l lo⌋ = ⌊quotient origin delta l hi⌋ := by
    rw [FitsInt, Int.floor_lt]
    norm_num
  rw [hcount, hfits, axisIndex_eq h.delta_pos l h.origin_le, axisIndex_eq h.delta_pos l (h.origin_le.trans h.lo_le),
    exactIndex, exactIndex]
  by_cases hfull : hi.degrees - origin.degrees = full
  · by_cases hlofull : lo.degrees - origin.degrees = full
    · have := (heq hlofull).2
      simp only [if_pos hfull, if_pos hlofull]
      omega
    · have := hlt hlofull hfull
      simp only [if_pos hfull, if_neg hlofull]
      omega
  · have hlofull : lo.degrees - origin.degrees ≠ full := fun hlofull => hfull (heq hlofull).1
    simp only [if_neg hfull, if_neg hlofull]
    omega

/-- What is counted is never more than what is entered. -/
theorem OnAxis.count_entered (h : OnAxis full origin delta lo hi) {first last : Nat}
    (hfirst : exactIndex full origin delta 0 lo = first) (hlast : exactIndex full origin delta 0 hi = last) (l : Nat)
    {count : Int} (hcount : count = axisIndex full (delta.degrees / 2 ^ l) (hi.degrees - origin.degrees)
      - axisIndex full (delta.degrees / 2 ^ l) (lo.degrees - origin.degrees) + 1) :
    0 ≤ count ∧ count ≤ entered (axisMeets origin delta lo hi) first (last + 1 - first) l ∧
      0 < entered (axisMeets origin delta lo hi) first (last + 1 - first) l ∧
      (count = entered (axisMeets origin delta lo hi) first (last + 1 - first) l ↔
        ¬ InnerEdge origin delta l lo ∧ FitsInt origin delta lo hi l) := by
  classical
  obtain ⟨-, hle, -⟩ := h.exactIndex_bounds l
  obtain ⟨hnonneg, hcount_le, hfits⟩ := h.count_le l hcount
  have hentered := h.entered_eq hfirst hlast l
  rw [← hfits]
  by_cases hedge : InnerEdge origin delta l lo
  · rw [if_pos hedge] at hentered
    simp only [hedge, not_true_eq_false, false_and, iff_false]
    omega
  · rw [if_neg hedge] at hentered
    simp only [hedge, not_false_eq_true, true_and]
    omega

end

/-! ## Rows and columns -/

variable (levelSet) in
/-- The sector of the level set lies in the grid of its tiles. -/
def InGrid : Prop :=
  OnAxis 180 levelSet.tileOrigin.latitude levelSet.levelZeroTileDelta.latitude levelSet.sector.minLatitude
      levelSet.sector.maxLatitude ∧
    OnAxis 360 levelSet.tileOrigin.longitude levelSet.levelZeroTileDelta.longitude levelSet.sector.minLongitude
      levelSet.sector.maxLongitude

theorem computeRow_eq_axisIndex {delta latitude origin : Angle} (hdelta : 0 < delta.degrees)
    (hlat : -90 ≤ latitude.degrees ∧ latitude.degrees ≤ 90) :
    computeRow delta latitude origin = some (axisIndex 180 delta.degrees (latitude.degrees - origin.degrees)) := by
  rw [computeRow_eq hdelta hlat.1 hlat.2, axisIndex]

theorem computeColumn_eq_axisIndex {delta longitude origin : Angle} (hdelta : 0 < delta.degrees)
    (hlon : -180 ≤ longitude.degrees ∧ longitude.degrees ≤ 180) (horigin : origin.degrees ≤ longitude.degrees) :
    computeColumn delta longitude origin =
      some (axisIndex 360 delta.degrees (longitude.degrees - origin.degrees)) := by
  have hgrid : gridLongitude origin longitude = longitude.degrees - origin.degrees := by
    rw [gridLongitude, if_neg (not_lt.2 (sub_nonneg.2 horigin))]
  rw [computeColumn_eq hdelta hlon.1 hlon.2, axisIndex, hgrid]

theorem rowCount_eq (h : Accepted levelSet) (l : Nat) : rowCount levelSet l
    = axisIndex 180 (levelSet.levelZeroTileDelta.latitude.degrees / 2 ^ l)
        (levelSet.sector.maxLatitude.degrees - levelSet.tileOrigin.latitude.degrees)
      - axisIndex 180 (levelSet.levelZeroTileDelta.latitude.degrees / 2 ^ l)
        (levelSet.sector.minLatitude.degrees - levelSet.tileOrigin.latitude.degrees) + 1 := by
  have hdelta := (tileDelta_pos h.delta_pos l).1
  rw [rowCount, computeRow_eq_axisIndex hdelta h.maxLatitude, computeRow_eq_axisIndex hdelta h.minLatitude]
  rfl

theorem columnCount_eq (h : Accepted levelSet) (hgrid : InGrid levelSet) (l : Nat) : columnCount levelSet l
    = axisIndex 360 (levelSet.levelZeroTileDelta.longitude.degrees / 2 ^ l)
        (levelSet.sector.maxLongitude.degrees - levelSet.tileOrigin.longitude.degrees)
      - axisIndex 360 (levelSet.levelZeroTileDelta.longitude.degrees / 2 ^ l)
        (levelSet.sector.minLongitude.degrees - levelSet.tileOrigin.longitude.degrees) + 1 := by
  have hdelta := (tileDelta_pos h.delta_pos l).2
  rw [columnCount, computeColumn_eq_axisIndex hdelta h.maxLongitude (hgrid.2.origin_le.trans hgrid.2.lo_le),
    computeColumn_eq_axisIndex hdelta h.minLongitude hgrid.2.origin_le]
  rfl

/-- The loops of level zero begin and end at the exact indexes. -/
theorem OnAxis.loop_eq {full : ℚ} {origin delta lo hi : Angle} (h : OnAxis full origin delta lo hi) {first last : Int}
    (hfirst : first = axisIndex full delta.degrees (lo.degrees - origin.degrees))
    (hlast : last = axisIndex full delta.degrees (hi.degrees - origin.degrees)) (hlt : first < 2 ^ 31)
    (hend : first ≤ last → last ≠ 2 ^ 31 - 1) :
    first ≤ last ∧ exactIndex full origin delta 0 lo = first.toNat ∧
      exactIndex full origin delta 0 hi = last.toNat := by
  obtain ⟨hnonneg, hle, -⟩ := h.exactIndex_bounds 0
  obtain ⟨hlo, hhi⟩ := h.level_zero (by
    intro heq
    exact hend (by omega) (by omega))
  omega

variable (levelSet) in
/-- A level is counted exactly: neither minimum of the sector is an inner edge,
and no index is lost in a cast. -/
def CountsMatch (l : Nat) : Prop :=
  (¬ InnerEdge levelSet.tileOrigin.latitude levelSet.levelZeroTileDelta.latitude l levelSet.sector.minLatitude ∧
      FitsInt levelSet.tileOrigin.latitude levelSet.levelZeroTileDelta.latitude levelSet.sector.minLatitude
        levelSet.sector.maxLatitude l) ∧
    ¬ InnerEdge levelSet.tileOrigin.longitude levelSet.levelZeroTileDelta.longitude l levelSet.sector.minLongitude ∧
      FitsInt levelSet.tileOrigin.longitude levelSet.levelZeroTileDelta.longitude levelSet.sector.minLongitude
        levelSet.sector.maxLongitude l

/-- In the grid, every level must be counted exactly. -/
theorem progressEnds_iff_of_inGrid {tiles : List Tile} (h : topLevelTiles levelSet = some tiles)
    (hgrid : InGrid levelSet) (p : Progress) :
    ProgressEnds rasters levelSet params dataRasterList p ↔
      (∀ l ≤ finalLevel levelSet params, CountsMatch levelSet l) ∧
        ∑ l ∈ Finset.range (finalLevel levelSet params + 1), rowCount levelSet l * columnCount levelSet l <
          2 ^ 31 := by
  have haccepted := accepted_of_topLevelTiles h
  obtain ⟨firstRow, firstCol, lastRow, lastCol, h1, h2, h3, h4, hrow0, hcol0, -⟩ := topLevelTiles_corners h
  have hfirstRow := Option.some.inj
      (h1.symm.trans (computeRow_eq_axisIndex haccepted.delta_pos.1 haccepted.minLatitude))
  have hlastRow := Option.some.inj
      (h3.symm.trans (computeRow_eq_axisIndex haccepted.delta_pos.1 haccepted.maxLatitude))
  have hfirstCol := Option.some.inj (h2.symm.trans
    (computeColumn_eq_axisIndex haccepted.delta_pos.2 haccepted.minLongitude hgrid.2.origin_le))
  have hlastCol := Option.some.inj (h4.symm.trans (computeColumn_eq_axisIndex haccepted.delta_pos.2
    haccepted.maxLongitude (hgrid.2.origin_le.trans hgrid.2.lo_le)))
  obtain ⟨hrows, hfr, hlr⟩ := hgrid.1.loop_eq hfirstRow hlastRow (computeRow_lt h1).2 fun hle => (hcol0 hle).1
  obtain ⟨hcols, hfc, hlc⟩ := hgrid.2.loop_eq hfirstCol hlastCol (computeColumn_lt h2).2 (hcol0 hrows).2.2
  have hnonnegCol := (hcol0 hrows).2.1
  have hrow := fun l => hgrid.1.count_entered hfr hlr l (rowCount_eq haccepted l)
  have hcol := fun l => hgrid.2.count_entered hfc hlc l (columnCount_eq haccepted hgrid l)
  have henteredRows : ∀ l, enteredRows levelSet l = entered (axisMeets levelSet.tileOrigin.latitude
      levelSet.levelZeroTileDelta.latitude levelSet.sector.minLatitude levelSet.sector.maxLatitude) firstRow.toNat
      (lastRow.toNat + 1 - firstRow.toNat) l := by
    intro l
    have hrange : (lastRow - firstRow + 1).toNat = lastRow.toNat + 1 - firstRow.toNat := by omega
    rw [enteredRows, rowCount, tileDelta_zero, h1, h3, Option.getD_some, Option.getD_some, hrange]
    rfl
  have henteredColumns : ∀ l, enteredColumns levelSet l = entered (axisMeets levelSet.tileOrigin.longitude
      levelSet.levelZeroTileDelta.longitude levelSet.sector.minLongitude levelSet.sector.maxLongitude) firstCol.toNat
      (lastCol.toNat + 1 - firstCol.toNat) l := by
    intro l
    have hrange : (lastCol - firstCol + 1).toNat = lastCol.toNat + 1 - firstCol.toNat := by omega
    rw [enteredColumns, columnCount, tileDelta_zero, h2, h4, Option.getD_some, Option.getD_some, hrange]
    rfl
  simp only [← henteredRows] at hrow
  simp only [← henteredColumns] at hcol
  rw [progressEnds_iff_entered h, sum_eq_int_iff (fun l => ⟨(hrow l).1, (hrow l).2.1, (hrow l).2.2.1⟩)
    fun l => ⟨(hcol l).1, (hcol l).2.1, (hcol l).2.2.1⟩]
  refine and_congr_left fun _ => forall₂_congr fun l _ => ?_
  rw [(hrow l).2.2.2, (hcol l).2.2.2, CountsMatch]

/-- Two levels of 36 and 18 degrees. The sector begins at the equator, in the
middle of a row of level zero. -/
def fromEquator : LevelSet where
  sector := ⟨⟨0⟩, ⟨10⟩, ⟨0⟩, ⟨10⟩⟩
  levelZeroTileDelta := ⟨⟨36⟩, ⟨36⟩⟩
  tileOrigin := ⟨⟨-90⟩, ⟨-180⟩⟩
  numLevels := 2
  numEmptyLevels := 0
  inactiveLevels := []
  numLevels_pos := Nat.two_pos

end WorldWind.RasterProducer
