import WorldWind.Lib.Bilinear
import WorldWind.Lib.Loops
import WorldWind.Rasters.Model
/-!
# Drawing one raster onto another

Every sample of the canvas has a location, and a location inside the source's
sector has a place between the source's samples. The lookup table has these
places (`transformed_column`, `lookupParams_eq`), the window of two rows holds
the samples that the table asks for (`element_window`), so a row of the canvas
becomes the mixes and what it was (`drawRow_eq`), and the loop does this to all
rows (`doDrawOnTo_eq`).
-/

namespace WorldWind.Rasters

open Geom Lib.Bilinear Lib.Casts Lib.JavaArray Lib.Loops

namespace BufferWrapperRaster

/-! ## Locations and places -/

variable (this canvas : BufferWrapperRaster)

def sampleAt (r c : Nat) : ℚ := this.buffer.getD (c + r * this.width) 0

/-- The longitude of a column of samples. -/
def longitude (i : Nat) : ℚ :=
  this.sector.minLongitude.degrees + i * (this.sector.deltaLon.degrees / ((this.width : ℚ) - 1))

/-- The latitude of a row of samples. -/
def latitude (j : Nat) : ℚ :=
  this.sector.maxLatitude.degrees - j * (this.sector.deltaLat.degrees / ((this.height : ℚ) - 1))

/-- How many columns a longitude is behind the first one. -/
def column (lon : ℚ) : ℚ :=
  ((this.width : ℚ) - 1) * ((lon - this.sector.minLongitude.degrees) / this.sector.deltaLon.degrees)

/-- How many rows a latitude is below the first one. -/
def row (lat : ℚ) : ℚ :=
  ((this.height : ℚ) - 1) * ((this.sector.maxLatitude.degrees - lat) / this.sector.deltaLat.degrees)

/-- A location in the closed sector. -/
def Covers (lat lon : ℚ) : Prop :=
  (this.sector.minLatitude.degrees ≤ lat ∧ lat ≤ this.sector.maxLatitude.degrees) ∧
    this.sector.minLongitude.degrees ≤ lon ∧ lon ≤ this.sector.maxLongitude.degrees

instance (lat lon : ℚ) : Decidable (this.Covers lat lon) := inferInstanceAs (Decidable (_ ∧ _))

/-- The four samples around a location, from the upper left one clockwise. -/
def around (lat lon : ℚ) : List ℚ :=
  [this.sampleAt ⌊this.row lat⌋₊ ⌊this.column lon⌋₊, this.sampleAt ⌊this.row lat⌋₊ ⌈this.column lon⌉₊,
    this.sampleAt ⌈this.row lat⌉₊ ⌈this.column lon⌉₊, this.sampleAt ⌈this.row lat⌉₊ ⌊this.column lon⌋₊]

/-- The bilinear mix of the samples at a location. -/
def mixAt (lat lon : ℚ) : ℚ := interpolate this.width this.height this.sampleAt (this.column lon) (this.row lat)

/-- What a sample of the canvas should become. -/
def drawn (i j : Nat) : ℚ :=
  if this.Covers (canvas.latitude j) (canvas.longitude i) ∧
    ∀ x ∈ this.around (canvas.latitude j) (canvas.longitude i), x ≠ this.getTransparentValue
  then this.mixAt (canvas.latitude j) (canvas.longitude i)
  else canvas.sampleAt j i

end BufferWrapperRaster

open BufferWrapperRaster

theorem one_lt_cast {n : Nat} (h : 2 ≤ n) : (1 : ℚ) < n := by
  have : 1 < n := h
  exact_mod_cast this

/-! ## The transform -/

section Table

variable {this canvas : BufferWrapperRaster}

theorem divide_of_ne {a b : ℚ} (h : b ≠ 0) : divide a b = some (a / b) := if_neg h

/-- The transform takes a column of the canvas to the place of its longitude. -/
theorem transformed_column (hw : 2 ≤ canvas.width)
    (hlon : this.sector.minLongitude.degrees < this.sector.maxLongitude.degrees)
    (i : Nat) :
    let t := computeSourceToDestTransform canvas.width canvas.height canvas.sector this.width this.height this.sector
    transformed t.sx t.tx i = some (this.column (canvas.longitude i)) := by
  have hdelta : this.sector.deltaLon.degrees ≠ 0 := (sub_pos.2 hlon).ne'
  have hsize : (canvas.width : ℚ) - 1 ≠ 0 := (sub_pos.2 (one_lt_cast hw)).ne'
  simp only [computeSourceToDestTransform, divide_of_ne hdelta, divide_of_ne hsize, transformed, Option.bind_some,
    Option.map_some, column, longitude, Option.some_inj]
  field_simp
  ring

theorem transformed_row (hh : 2 ≤ canvas.height)
    (hlat : this.sector.minLatitude.degrees < this.sector.maxLatitude.degrees)
    (j : Nat) :
    let t := computeSourceToDestTransform canvas.width canvas.height canvas.sector this.width this.height this.sector
    transformed t.sy t.ty j = some (this.row (canvas.latitude j)) := by
  have hdelta : this.sector.deltaLat.degrees ≠ 0 := (sub_pos.2 hlat).ne'
  have hsize : (canvas.height : ℚ) - 1 ≠ 0 := (sub_pos.2 (one_lt_cast hh)).ne'
  simp only [computeSourceToDestTransform, divide_of_ne hdelta, divide_of_ne hsize, transformed, Option.bind_some,
    Option.map_some, row, latitude, Option.some_inj]
  field_simp
  ring

/-- A place is between the first and the last column exactly when its longitude is in the sector. -/
theorem column_mem_iff (hw : 2 ≤ this.width)
    (hlon : this.sector.minLongitude.degrees < this.sector.maxLongitude.degrees)
    (lon : ℚ) :
    (0 ≤ this.column lon ∧ this.column lon ≤ (this.width : ℚ) - 1) ↔
      this.sector.minLongitude.degrees ≤ lon ∧ lon ≤ this.sector.maxLongitude.degrees := by
  have hdelta : 0 < this.sector.deltaLon.degrees := sub_pos.2 hlon
  have hsize : 0 < (this.width : ℚ) - 1 := sub_pos.2 (one_lt_cast hw)
  have h1 : 0 ≤ this.column lon ↔ this.sector.minLongitude.degrees ≤ lon := by
    rw [column, mul_nonneg_iff_of_pos_left hsize, le_div_iff₀ hdelta, zero_mul, sub_nonneg]
  have h2 : this.column lon ≤ (this.width : ℚ) - 1 ↔ lon ≤ this.sector.maxLongitude.degrees := by
    rw [column, mul_le_iff_le_one_right hsize, div_le_one hdelta]
    show lon - _ ≤ _ - _ ↔ _
    rw [sub_le_sub_iff_right]
  rw [h1, h2]

theorem row_mem_iff (hh : 2 ≤ this.height) (hlat : this.sector.minLatitude.degrees < this.sector.maxLatitude.degrees)
    (lat : ℚ) :
    (0 ≤ this.row lat ∧ this.row lat ≤ (this.height : ℚ) - 1) ↔
      this.sector.minLatitude.degrees ≤ lat ∧ lat ≤ this.sector.maxLatitude.degrees := by
  have hdelta : 0 < this.sector.deltaLat.degrees := sub_pos.2 hlat
  have hsize : 0 < (this.height : ℚ) - 1 := sub_pos.2 (one_lt_cast hh)
  have h1 : 0 ≤ this.row lat ↔ lat ≤ this.sector.maxLatitude.degrees := by
    rw [row, mul_nonneg_iff_of_pos_left hsize, le_div_iff₀ hdelta, zero_mul, sub_nonneg]
  have h2 : this.row lat ≤ (this.height : ℚ) - 1 ↔ this.sector.minLatitude.degrees ≤ lat := by
    rw [row, mul_le_iff_le_one_right hsize, div_le_one hdelta]
    show _ - lat ≤ _ - _ ↔ _
    rw [sub_le_sub_iff_left]
  rw [h1, h2, and_comm]

/-! ## The lookup table -/

/-- The entry of a place, where the threshold plays no part. -/
def entry (xMax x : ℚ) : Params := if 0 ≤ x ∧ x ≤ xMax then ⟨⌊x⌋, ⌈x⌉, x - ⌊x⌋⟩ else noParams

/-- Finitely many numbers below zero stay away from it. -/
theorem exists_gap (f : Nat → ℚ) (n : Nat) : ∃ ε > 0, ∀ i < n, f i < 0 → f i ≤ -ε := by
  induction n with
  | zero => exact ⟨1, one_pos, fun i hi => absurd hi (Nat.not_lt_zero i)⟩
  | succ n ih =>
    obtain ⟨ε, hε, h⟩ := ih
    by_cases hn : f n < 0
    · refine ⟨min ε (-f n), lt_min hε (neg_pos.2 hn), fun i hi hneg => ?_⟩
      rcases Nat.lt_succ_iff_lt_or_eq.1 hi with hi | rfl
      · exact (h i hi hneg).trans (neg_le_neg (min_le_left _ _))
      · exact le_neg_of_le_neg (min_le_right _ _)
    · refine ⟨ε, hε, fun i hi hneg => ?_⟩
      rcases Nat.lt_succ_iff_lt_or_eq.1 hi with hi | rfl
      · exact h i hi hneg
      · exact absurd hneg hn

/-- With a threshold close to zero the table has the entries of the places. -/
theorem lookupParams_eq (f : Nat → ℚ) (n : Nat) (xMax : ℚ) :
    ∃ ε > 0, ∀ threshold, -ε < threshold → threshold < 0 → ∀ i < n,
      lookupParams threshold 0 xMax (some (f i)) = entry xMax (f i) := by
  obtain ⟨ε, hε, h⟩ := exists_gap f n
  obtain ⟨ε', hε', h'⟩ := exists_gap (fun i => xMax - f i) n
  refine ⟨min ε ε', lt_min hε hε', fun threshold h1 h2 i hi => ?_⟩
  have hlo : f i - 0 > threshold ↔ 0 ≤ f i := by
    constructor
    · intro hgt
      by_contra hneg
      have := h i hi (not_le.1 hneg)
      have := min_le_left ε ε'
      linarith
    · intro hnonneg
      linarith
  have hhi : xMax - f i > threshold ↔ f i ≤ xMax := by
    constructor
    · intro hgt
      by_contra hneg
      have := h' i hi (sub_neg.2 (not_le.1 hneg))
      have := min_le_right ε ε'
      linarith
    · intro hle
      linarith
  rw [entry, lookupParams]
  by_cases hin : 0 ≤ f i ∧ f i ≤ xMax
  · rw [if_pos hin, if_pos ⟨hlo.2 hin.1, hhi.2 hin.2⟩, if_neg (not_lt.2 hin.1), if_neg (not_lt.2 hin.2)]
  · rw [if_neg hin, if_neg fun h => hin ⟨hlo.1 h.1, hhi.1 h.2⟩]

/-- A place inside has its entry in the table, and no other has one. -/
theorem getInterpolant_entry {xMax : ℚ} (f : Nat → ℚ) {n i : Nat} (hi : i < n) :
    getInterpolant ((List.range n).map fun i => entry xMax (f i)) i =
      if 0 ≤ f i ∧ f i ≤ xMax then some ⟨⌊f i⌋, ⌈f i⌉, f i - ⌊f i⌋⟩ else none := by
  have hget : ((List.range n).map fun i => entry xMax (f i)).getD i noParams = entry xMax (f i) := by
    rw [List.getD_eq_getElem _ _ (by simpa using hi), List.getElem_map, List.getElem_range]
  rw [getInterpolant, hget, entry]
  by_cases hin : 0 ≤ f i ∧ f i ≤ xMax
  · have : 0 ≤ ⌊f i⌋ := Int.floor_nonneg.2 hin.1
    have hne : ((⌊f i⌋ : Int) : ℚ) ≠ -1 := by exact_mod_cast (by omega : ⌊f i⌋ ≠ -1)
    rw [if_pos hin, if_pos hin]
    exact if_pos hne
  · rw [if_neg hin, if_neg hin]
    exact if_neg fun h => h rfl

/-- The range with an entry. -/
def widen (range : ℚ × ℚ) (p : Params) : ℚ × ℚ :=
  if p.first ≠ -1 then (min range.1 p.first, max range.2 p.second) else range

theorem computeInterpolantRange_eq_foldl (params : List Params) :
    computeInterpolantRange params = params.foldl widen (MAX_VALUE, -MIN_VALUE) := by
  rw [computeInterpolantRange]
  congr 1
  funext range p
  rw [widen]
  refine if_congr Iff.rfl (Prod.ext ?_ ?_) rfl
  · dsimp only
    rw [min_def]
    split_ifs <;> linarith
  · dsimp only
    rw [max_def]
    split_ifs <;> linarith

/-- The range spans the samples of every entry, and its ends are samples of entries or the ends it began with. -/
theorem foldl_widen (params : List Params) (a : ℚ × ℚ) :
    ((params.foldl widen a).1 ≤ a.1 ∧ a.2 ≤ (params.foldl widen a).2) ∧
      (∀ p ∈ params, p.first ≠ -1 → (params.foldl widen a).1 ≤ p.first ∧ p.second ≤ (params.foldl widen a).2) ∧
      ((params.foldl widen a).1 = a.1 ∨ ∃ p ∈ params, p.first ≠ -1 ∧ (params.foldl widen a).1 = p.first) ∧
      ((params.foldl widen a).2 = a.2 ∨ ∃ p ∈ params, p.first ≠ -1 ∧ (params.foldl widen a).2 = p.second) := by
  induction params generalizing a with
  | nil => exact ⟨⟨le_rfl, le_rfl⟩, fun p hp => absurd hp List.not_mem_nil, Or.inl rfl, Or.inl rfl⟩
  | cons p params ih =>
    rw [List.foldl_cons]
    obtain ⟨h1, h2, h3, h4⟩ := ih (widen a p)
    generalize params.foldl widen (widen a p) = r at h1 h2 h3 h4
    have hlift : ∀ {P : Params → Prop}, (∃ q ∈ params, q.first ≠ -1 ∧ P q) → ∃ q ∈ p :: params, q.first ≠ -1 ∧ P q :=
      fun ⟨q, hq, h⟩ => ⟨q, List.mem_cons_of_mem p hq, h⟩
    by_cases hp : p.first ≠ -1
    · rw [widen, if_pos hp] at h1 h3 h4
      refine ⟨⟨h1.1.trans (min_le_left _ _), (le_max_left _ _).trans h1.2⟩, ?_, ?_, ?_⟩
      · intro q hq hne
        rcases List.mem_cons.1 hq with rfl | hq
        · exact ⟨h1.1.trans (min_le_right _ _), (le_max_right _ _).trans h1.2⟩
        · exact h2 q hq hne
      · rcases h3 with h3 | h3
        · rcases min_choice a.1 p.first with h | h
          · exact Or.inl (h3.trans h)
          · exact Or.inr ⟨p, List.mem_cons_self, hp, h3.trans h⟩
        · exact Or.inr (hlift h3)
      · rcases h4 with h4 | h4
        · rcases max_choice a.2 p.second with h | h
          · exact Or.inl (h4.trans h)
          · exact Or.inr ⟨p, List.mem_cons_self, hp, h4.trans h⟩
        · exact Or.inr (hlift h4)
    · rw [widen, if_neg hp] at h1 h3 h4
      refine ⟨h1, fun q hq hne => ?_, h3.imp_right hlift, h4.imp_right hlift⟩
      rcases List.mem_cons.1 hq with rfl | hq
      · exact absurd hne hp
      · exact h2 q hq hne

theorem two_pow_lt_MAX_VALUE : (2 : ℚ) ^ 31 < MAX_VALUE :=
  calc (2 : ℚ) ^ 31 < 2 ^ 1023 := pow_lt_pow_right₀ one_lt_two (by norm_num)
    _ ≤ MAX_VALUE := le_mul_of_one_le_left (by positivity) (by norm_num)

/-- The columns that a table asks for, once some place is inside. -/
theorem computeInterpolantRange_eq {width : Nat} (hwidth : width < 2 ^ 31) (f : Nat → ℚ) {n i : Nat} (hi : i < n)
    (hin : 0 ≤ f i ∧ f i ≤ (width : ℚ) - 1) {r : ℚ × ℚ}
    (hr : computeInterpolantRange ((List.range n).map fun i => entry ((width : ℚ) - 1) (f i)) = r) :
    ∃ a b : Nat, a ≤ b ∧ b < width ∧ intCast ⌊r.1⌋ = a ∧ intCast ⌈r.2⌉ = b ∧
      ∀ k < n, 0 ≤ f k ∧ f k ≤ (width : ℚ) - 1 → a ≤ ⌊f k⌋₊ ∧ ⌈f k⌉₊ ≤ b := by
  have hmem : ∀ k < n, 0 ≤ f k ∧ f k ≤ (width : ℚ) - 1 →
      (⟨⌊f k⌋, ⌈f k⌉, f k - ⌊f k⌋⟩ : Params) ∈ (List.range n).map fun i => entry ((width : ℚ) - 1) (f i) := by
    intro k hk hk'
    exact List.mem_map.2 ⟨k, List.mem_range.2 hk, if_pos hk'⟩
  have hentry : ∀ p ∈ (List.range n).map (fun i => entry ((width : ℚ) - 1) (f i)), p.first ≠ -1 →
      ∃ k < n, (0 ≤ f k ∧ f k ≤ (width : ℚ) - 1) ∧ p.first = ⌊f k⌋ ∧ p.second = ⌈f k⌉ := by
    intro p hp hne
    obtain ⟨k, hk, rfl⟩ := List.mem_map.1 hp
    by_cases hin : 0 ≤ f k ∧ f k ≤ (width : ℚ) - 1
    · exact ⟨k, List.mem_range.1 hk, hin, by rw [entry, if_pos hin], by rw [entry, if_pos hin]⟩
    · exact absurd (by rw [entry, if_neg hin]; rfl) hne
  have hfirst : ∀ k, 0 ≤ f k ∧ f k ≤ (width : ℚ) - 1 → ((⌊f k⌋ : Int) : ℚ) ≠ -1 := by
    intro k hk
    have : 0 ≤ ⌊f k⌋ := Int.floor_nonneg.2 hk.1
    exact_mod_cast (by omega : ⌊f k⌋ ≠ -1)
  have hceil : ∀ k, 0 ≤ f k ∧ f k ≤ (width : ℚ) - 1 → 0 ≤ ⌈f k⌉ ∧ ⌈f k⌉ < width := by
    intro k hk
    refine ⟨Int.ceil_nonneg hk.1, ?_⟩
    have : ⌈f k⌉ ≤ (width : Int) - 1 := Int.ceil_le.2 (by push_cast; exact hk.2)
    omega
  obtain ⟨-, hspan, hlo, hhi⟩ := foldl_widen ((List.range n).map fun i => entry ((width : ℚ) - 1) (f i))
    (MAX_VALUE, -MIN_VALUE)
  rw [← computeInterpolantRange_eq_foldl, hr] at hspan hlo hhi
  have hmax := two_pow_lt_MAX_VALUE
  have hmin : (0 : ℚ) < MIN_VALUE := by norm_num [MIN_VALUE]
  have hwidth' : (width : ℚ) < 2 ^ 31 := by exact_mod_cast hwidth
  have hspani := hspan _ (hmem i hi hin) (hfirst i hin)
  have hfloori : ((⌊f i⌋ : Int) : ℚ) ≤ f i := Int.floor_le _
  have hceili : (0 : ℚ) ≤ ((⌈f i⌉ : Int) : ℚ) := by exact_mod_cast (hceil i hin).1
  -- the ends the range began with are too far out to stay
  obtain ⟨k1, hk1, hin1, hr1⟩ : ∃ k < n, (0 ≤ f k ∧ f k ≤ (width : ℚ) - 1) ∧ r.1 = ⌊f k⌋ := by
    rcases hlo with hlo | ⟨p, hp, hne, hlo⟩
    · have : r.1 = MAX_VALUE := hlo
      linarith [hspani.1]
    · obtain ⟨k, hk, hk', h, -⟩ := hentry p hp hne
      exact ⟨k, hk, hk', hlo.trans h⟩
  obtain ⟨k2, hk2, hin2, hr2⟩ : ∃ k < n, (0 ≤ f k ∧ f k ≤ (width : ℚ) - 1) ∧ r.2 = ⌈f k⌉ := by
    rcases hhi with hhi | ⟨p, hp, hne, hhi⟩
    · have : r.2 = -MIN_VALUE := hhi
      linarith [hspani.2]
    · obtain ⟨k, hk, hk', -, h⟩ := hentry p hp hne
      exact ⟨k, hk, hk', hhi.trans h⟩
  have hcast : ∀ z : Int, 0 ≤ z → z < width → intCast (z : ℚ) = z := by
    intro z h0 hz
    rw [intCast_eq_floor (by exact_mod_cast h0), Int.floor_intCast]
    have : (z : ℚ) < width := by exact_mod_cast hz
    linarith
  have hfloor1 : 0 ≤ ⌊f k1⌋ := Int.floor_nonneg.2 hin1.1
  have hfloor1' : ⌊f k1⌋ ≤ ⌈f k1⌉ := Int.floor_le_ceil _
  have hspan' : ∀ k < n, 0 ≤ f k ∧ f k ≤ (width : ℚ) - 1 → ⌊f k1⌋ ≤ ⌊f k⌋ ∧ ⌈f k⌉ ≤ ⌈f k2⌉ := by
    intro k hk hk'
    have := hspan _ (hmem k hk hk') (hfirst k hk')
    rw [hr1, hr2] at this
    exact ⟨Int.cast_le.1 this.1, Int.cast_le.1 this.2⟩
  refine ⟨⌊f k1⌋₊, ⌈f k2⌉₊, ?_, ?_, ?_, ?_, ?_⟩
  · have := (hspan' k1 hk1 hin1).2
    rw [← Int.floor_toNat, ← Int.ceil_toNat]
    omega
  · have := hceil k2 hin2
    rw [← Int.ceil_toNat]
    omega
  · rw [hr1, Int.floor_intCast, hcast _ hfloor1 (by have := hceil k1 hin1; omega), ← Int.floor_toNat,
      Int.toNat_of_nonneg hfloor1]
  · rw [hr2, Int.ceil_intCast, hcast _ (hceil k2 hin2).1 (hceil k2 hin2).2, ← Int.ceil_toNat,
      Int.toNat_of_nonneg (hceil k2 hin2).1]
  · intro k hk hk'
    have := hspan' k hk hk'
    rw [← Int.floor_toNat, ← Int.floor_toNat, ← Int.ceil_toNat, ← Int.ceil_toNat]
    omega

end Table

/-! ## The mix -/

/-- The next sample and the one above a place are the same, unless the place is on a sample. -/
theorem fraction_mul {u : ℚ} (hu : 0 ≤ u) (f : Nat → ℚ) : (u - ⌊u⌋₊) * f ⌈u⌉₊ = (u - ⌊u⌋₊) * f (⌊u⌋₊ + 1) := by
  by_cases h : u = ⌊u⌋₊
  · rw [sub_eq_zero.2 h, zero_mul, zero_mul]
  · have hlt : (⌊u⌋₊ : ℚ) < u := lt_of_le_of_ne (Nat.floor_le hu) (Ne.symm h)
    have hceil : ⌈u⌉₊ = ⌊u⌋₊ + 1 := by
      refine le_antisymm (Nat.ceil_le_floor_add_one u) ?_
      exact Nat.lt_ceil.2 hlt
    rw [hceil]

/-- A place in a row of samples, as the interpolation of a grid has it. -/
theorem place_inside {size : Nat} {u : ℚ} (h0 : 0 ≤ u) (h1 : u ≤ (size : ℚ) - 1) :
    ((⌊u⌋₊ : ℚ) ≤ u ∧ u < ⌊u⌋₊ + 1) ∧ (⌊u⌋₊ + 1 < size ∨ (⌊u⌋₊ < size ∧ u = ⌊u⌋₊)) := by
  have hle := Nat.floor_le h0
  refine ⟨⟨hle, Nat.lt_floor_add_one u⟩, ?_⟩
  by_cases hlast : ⌊u⌋₊ + 1 < size
  · exact Or.inl hlast
  · have hge : (size : ℚ) ≤ ⌊u⌋₊ + 1 := by exact_mod_cast not_lt.1 hlast
    have heq : u = ⌊u⌋₊ := by linarith
    refine Or.inr ⟨?_, heq⟩
    have : (⌊u⌋₊ : ℚ) < size := by linarith
    exact_mod_cast this

/-- The mix of a grid is that of the four samples around a place. -/
theorem mix_eq {width height : Nat} {u v : ℚ} (e : Nat → Nat → ℚ) (hu : 0 ≤ u ∧ u ≤ (width : ℚ) - 1)
    (hv : 0 ≤ v ∧ v ≤ (height : ℚ) - 1) :
    interpolate width height e u v =
      (1 - (u - ⌊u⌋₊)) * (1 - (v - ⌊v⌋₊)) * e ⌊v⌋₊ ⌊u⌋₊ + (1 - (u - ⌊u⌋₊)) * (v - ⌊v⌋₊) * e ⌈v⌉₊ ⌊u⌋₊ +
        (u - ⌊u⌋₊) * (v - ⌊v⌋₊) * e ⌈v⌉₊ ⌈u⌉₊ + (u - ⌊u⌋₊) * (1 - (v - ⌊v⌋₊)) * e ⌊v⌋₊ ⌈u⌉₊ := by
  obtain ⟨⟨hu1, hu2⟩, hu3⟩ := place_inside hu.1 hu.2
  obtain ⟨⟨hv1, hv2⟩, hv3⟩ := place_inside hv.1 hv.2
  have h1 := fraction_mul hu.1 (e ⌊v⌋₊)
  have h2 := fraction_mul hv.1 fun r => e r ⌊u⌋₊
  have h3 := fraction_mul hv.1 fun r => e r ⌈u⌉₊
  have h4 := fraction_mul hu.1 (e (⌊v⌋₊ + 1))
  rw [interpolate_eq e hu1 hu2 hu3 hv1 hv2 hv3]
  linear_combination -(1 - (v - ⌊v⌋₊)) * h1 - (1 - (u - ⌊u⌋₊)) * h2 - (u - ⌊u⌋₊) * h3 - (v - ⌊v⌋₊) * h4

/-- A mix is not below all of its samples, and not above all of them. -/
theorem mix_between {a b c d s t : ℚ} (hs : 0 ≤ s ∧ s ≤ 1) (ht : 0 ≤ t ∧ t ≤ 1) :
    ∃ x ∈ [a, b, c, d], ∃ y ∈ [a, b, c, d],
      x ≤ (1 - s) * (1 - t) * a + (1 - s) * t * d + s * t * c + s * (1 - t) * b ∧
        (1 - s) * (1 - t) * a + (1 - s) * t * d + s * t * c + s * (1 - t) * b ≤ y := by
  have h1 : 0 ≤ (1 - s) * (1 - t) := mul_nonneg (sub_nonneg.2 hs.2) (sub_nonneg.2 ht.2)
  have h2 : 0 ≤ (1 - s) * t := mul_nonneg (sub_nonneg.2 hs.2) ht.1
  have h3 : 0 ≤ s * t := mul_nonneg hs.1 ht.1
  have h4 : 0 ≤ s * (1 - t) := mul_nonneg hs.1 (sub_nonneg.2 ht.2)
  have hbound : ∀ lo hi, (∀ x ∈ [a, b, c, d], lo ≤ x ∧ x ≤ hi) →
      lo ≤ (1 - s) * (1 - t) * a + (1 - s) * t * d + s * t * c + s * (1 - t) * b ∧
        (1 - s) * (1 - t) * a + (1 - s) * t * d + s * t * c + s * (1 - t) * b ≤ hi := by
    intro lo hi h
    have ha := h a (by simp)
    have hb := h b (by simp)
    have hc := h c (by simp)
    have hd := h d (by simp)
    constructor
    · calc lo = (1 - s) * (1 - t) * lo + (1 - s) * t * lo + s * t * lo + s * (1 - t) * lo := by ring
        _ ≤ _ := by gcongr <;> simp_all
    · calc _ ≤ (1 - s) * (1 - t) * hi + (1 - s) * t * hi + s * t * hi + s * (1 - t) * hi := by gcongr <;> simp_all
        _ = hi := by ring
  have hne : [a, b, c, d].toFinset.Nonempty := ⟨a, by simp⟩
  obtain ⟨x, hx, hlo⟩ := Finset.exists_min_image [a, b, c, d].toFinset id hne
  obtain ⟨y, hy, hhi⟩ := Finset.exists_max_image [a, b, c, d].toFinset id hne
  refine ⟨x, List.mem_toFinset.1 hx, y, List.mem_toFinset.1 hy, hbound x y fun z hz => ?_⟩
  exact ⟨hlo z (List.mem_toFinset.2 hz), hhi z (List.mem_toFinset.2 hz)⟩

/-! ## A row of the canvas -/

section Rows

variable {this canvas : BufferWrapperRaster}

theorem getDoubles_eq {buffer : List ℚ} {index length : Nat} (h : index + length ≤ buffer.length) :
    getDoubles buffer index length = some ((buffer.drop index).take length) := by
  rw [getDoubles, if_pos ⟨by omega, by omega, by omega⟩, Int.toNat_natCast, Int.toNat_natCast]

theorem putDoubles_eq {buffer values : List ℚ} {index : Nat} (h : index + values.length ≤ buffer.length) :
    putDoubles buffer index values = some (blit buffer index values) := by
  rw [putDoubles, if_pos ⟨by omega, by omega⟩, Int.toNat_natCast]

theorem index_lt {r c : Nat} (hr : r < this.height) (hc : c < this.width) :
    c + r * this.width < this.buffer.length := by
  refine lt_of_lt_of_le ?_ this.size_le
  calc c + r * this.width < (r + 1) * this.width := by rw [Nat.add_mul, Nat.one_mul]; omega
    _ ≤ this.height * this.width := Nat.mul_le_mul_right _ hr
    _ = this.width * this.height := Nat.mul_comm _ _

/-- The window of a row, from a first to a last column. -/
theorem getDoubles_row {r a b : Nat} (hr : r < this.height) (hab : a ≤ b) (hb : b < this.width) :
    getDoubles this.buffer (this.indexFor a r) ((b : Int) - a + 1) =
      some ((this.buffer.drop (a + r * this.width)).take (b - a + 1)) := by
  have hlt := index_lt hr hb
  have hindex : this.indexFor a r = ((a + r * this.width : Nat) : Int) := by
    rw [indexFor]
    push_cast
    rfl
  rw [hindex, show (b : Int) - a + 1 = ((b - a + 1 : Nat) : Int) by omega]
  exact getDoubles_eq (by omega)

/-- Two windows one behind the other hold the samples of the upper and of the lower row. -/
theorem element_window {r1 r2 a b c : Nat} (hr1 : r1 < this.height) (hr2 : r2 < this.height) (hac : a ≤ c)
    (hcb : c ≤ b)
    (hb : b < this.width) :
    let window := (this.buffer.drop (a + r1 * this.width)).take (b - a + 1) ++
      (this.buffer.drop (a + r2 * this.width)).take (b - a + 1)
    element window ((c : Int) - a + 0 * ((b : Int) - a + 1)) = some (this.sampleAt r1 c) ∧
      element window ((c : Int) - a + 1 * ((b : Int) - a + 1)) = some (this.sampleAt r2 c) := by
  have h1 := index_lt hr1 hb
  have h2 := index_lt hr2 hb
  have hget : ∀ {r : Nat}, r < this.height →
      ((this.buffer.drop (a + r * this.width)).take (b - a + 1))[c - a]? = some (this.sampleAt r c) := by
    intro r hr
    have hlt := index_lt hr (lt_of_le_of_lt hcb hb)
    rw [List.getElem?_take_of_lt (by omega), List.getElem?_drop, show a + r * this.width + (c - a) =
      c + r * this.width by
      omega, sampleAt, List.getElem?_eq_getElem hlt, List.getD_eq_getElem _ _ hlt]
  have hlen : ((this.buffer.drop (a + r1 * this.width)).take (b - a + 1)).length = b - a + 1 := by
    rw [List.length_take, List.length_drop]
    omega
  refine ⟨?_, ?_⟩
  · rw [element, if_pos (by omega), show ((c : Int) - a + 0 * ((b : Int) - a + 1)).toNat = c - a by omega,
      List.getElem?_append_left (by omega), hget hr1]
  · rw [element, if_pos (by omega), show ((c : Int) - a + 1 * ((b : Int) - a + 1)).toNat =
      b - a + 1 + (c - a) by omega,
      List.getElem?_append_right (by omega), hlen, show b - a + 1 + (c - a) - (b - a + 1) = c - a by omega, hget hr2]

/-- The place of a column of the canvas between the columns of this raster, and of a row between the rows. -/
def placeX (this canvas : BufferWrapperRaster) (i : Nat) : ℚ := this.column (canvas.longitude i)

def placeY (this canvas : BufferWrapperRaster) (j : Nat) : ℚ := this.row (canvas.latitude j)

/-- A place on this raster's samples. -/
def OnSamples (this canvas : BufferWrapperRaster) (i j : Nat) : Prop :=
  (0 ≤ placeX this canvas i ∧ placeX this canvas i ≤ (this.width : ℚ) - 1) ∧
    0 ≤ placeY this canvas j ∧ placeY this canvas j ≤ (this.height : ℚ) - 1

instance (i j : Nat) : Decidable (OnSamples this canvas i j) := inferInstanceAs (Decidable (_ ∧ _))

/-- A sample of the canvas that is written. -/
def Written (this canvas : BufferWrapperRaster) (i j : Nat) : Prop :=
  OnSamples this canvas i j ∧
    ∀ x ∈ this.around (canvas.latitude j) (canvas.longitude i), x ≠ this.getTransparentValue

instance (i j : Nat) : Decidable (Written this canvas i j) := inferInstanceAs (Decidable (_ ∧ _))

/-- The table of all places. -/
def table (this canvas : BufferWrapperRaster) : InterpolantLookupTable where
  xParams := (List.range canvas.width).map fun i => entry ((this.width : ℚ) - 1) (placeX this canvas i)
  yParams := (List.range canvas.height).map fun j => entry ((this.height : ℚ) - 1) (placeY this canvas j)

/-- A first and a last column between which the table asks for samples. -/
structure Spans (this canvas : BufferWrapperRaster) (a b : Nat) : Prop where
  le : a ≤ b
  lt : b < this.width
  spans : ∀ i < canvas.width, 0 ≤ placeX this canvas i ∧ placeX this canvas i ≤ (this.width : ℚ) - 1 →
    a ≤ ⌊placeX this canvas i⌋₊ ∧ ⌈placeX this canvas i⌉₊ ≤ b

theorem floor_cast {x : ℚ} (h : 0 ≤ x) : ((⌊x⌋ : Int) : ℚ) = ⌊x⌋₊ := by
  rw [← Int.floor_toNat]
  exact_mod_cast (Int.toNat_of_nonneg (Int.floor_nonneg.2 h)).symm

theorem ceil_cast {x : ℚ} (h : 0 ≤ x) : ((⌈x⌉ : Int) : ℚ) = ⌈x⌉₊ := by
  rw [← Int.ceil_toNat]
  exact_mod_cast (Int.toNat_of_nonneg (Int.ceil_nonneg h)).symm

theorem intCast_natCast {n : Nat} (h : n < 2 ^ 31) : intCast (n : ℚ) = n := by
  rw [intCast_eq_floor (Nat.cast_nonneg n) (by exact_mod_cast h), Int.floor_natCast]

/-- The samples on the sides of a place are samples of the raster. -/
theorem sides_lt {size : Nat} {x : ℚ} (h0 : 0 ≤ x) (h1 : x ≤ (size : ℚ) - 1) : ⌊x⌋₊ < size ∧ ⌈x⌉₊ < size := by
  have hsize : (0 : ℚ) < size := by linarith
  have hceil : ⌈x⌉₊ < size := by
    have : ⌈x⌉₊ ≤ size - 1 := by
      refine Nat.ceil_le.2 (h1.trans_eq ?_)
      rw [Nat.cast_sub (by exact_mod_cast hsize), Nat.cast_one]
    have : 0 < size := by exact_mod_cast hsize
    omega
  exact ⟨lt_of_le_of_lt (Nat.floor_le_ceil x) hceil, hceil⟩

theorem size_lt (hw : 2 ≤ this.width) (hh : 2 ≤ this.height) : this.width < 2 ^ 31 ∧ this.height < 2 ^ 31 := by
  have h := lt_of_le_of_lt this.size_le this.length_lt
  exact ⟨lt_of_le_of_lt (Nat.le_mul_of_pos_right _ (by omega)) h,
    lt_of_le_of_lt (Nat.le_mul_of_pos_left _ (by omega)) h⟩

/-- A column of a row: its sample becomes the mix where it is to be written. -/
theorem drawColumn_eq (hw : 2 ≤ this.width) (hh : 2 ≤ this.height) {a b i j : Nat} (hspans : Spans this canvas a b)
    (hi : i < canvas.width)
    (hj : 0 ≤ placeY this canvas j ∧ placeY this canvas j ≤ (this.height : ℚ) - 1) {samples : List ℚ}
    (hlen : i < samples.length) :
    drawColumn (table this canvas)
        ((this.buffer.drop (a + ⌊placeY this canvas j⌋₊ * this.width)).take (b - a + 1) ++
          (this.buffer.drop (a + ⌈placeY this canvas j⌉₊ * this.width)).take (b - a + 1))
        a ((b : Int) - a + 1) (placeY this canvas j - ⌊placeY this canvas j⌋) this.getTransparentValue samples i =
      some (if Written this canvas i j
        then samples.set i (this.mixAt (canvas.latitude j) (canvas.longitude i)) else samples) := by
  obtain ⟨hw', hh'⟩ := size_lt hw hh
  rw [drawColumn, table, getInterpolant_entry _ hi]
  by_cases hin : 0 ≤ placeX this canvas i ∧ placeX this canvas i ≤ (this.width : ℚ) - 1
  · obtain ⟨ha, hb⟩ := hspans.spans i hi hin
    obtain ⟨hr1, hr2⟩ := sides_lt hj.1 hj.2
    obtain ⟨hc1, hc2⟩ := sides_lt hin.1 hin.2
    have hfc := Nat.floor_le_ceil (placeX this canvas i)
    obtain ⟨hul, hll⟩ := @element_window this _ _ _ _ _ hr1 hr2 ha (hfc.trans hb) hspans.lt
    obtain ⟨hur, hlr⟩ := @element_window this _ _ _ _ _ hr1 hr2 (ha.trans hfc) hb hspans.lt
    rw [if_pos hin]
    dsimp only
    rw [floor_cast hin.1, ceil_cast hin.1, floor_cast hj.1, intCast_natCast (by omega), intCast_natCast (by omega),
      sample, hul, hll, hlr, hur]
    simp only [Option.bind_eq_bind, Option.bind_some]
    have hwritten : Written this canvas i j ↔
        this.sampleAt ⌊placeY this canvas j⌋₊ ⌊placeX this canvas i⌋₊ ≠ this.getTransparentValue ∧
        this.sampleAt ⌊placeY this canvas j⌋₊ ⌈placeX this canvas i⌉₊ ≠ this.getTransparentValue ∧
        this.sampleAt ⌈placeY this canvas j⌉₊ ⌈placeX this canvas i⌉₊ ≠ this.getTransparentValue ∧
        this.sampleAt ⌈placeY this canvas j⌉₊ ⌊placeX this canvas i⌋₊ ≠ this.getTransparentValue := by
      rw [Written, and_iff_right (show OnSamples this canvas i j from ⟨hin, hj⟩)]
      simp only [around, List.forall_mem_cons, List.not_mem_nil, false_imp_iff, implies_true, and_true]
      exact Iff.rfl
    by_cases h : Written this canvas i j
    · rw [if_pos (hwritten.1 h), if_pos h, write, if_pos hlen]
      have hmix := mix_eq this.sampleAt hin hj
      exact congrArg (fun x => some (samples.set i x)) hmix.symm
    · rw [if_neg (mt hwritten.2 h), if_neg h]
  · rw [if_neg hin, if_neg fun h => hin h.1.1]

/-- What a sample of the canvas becomes. -/
def become (this canvas : BufferWrapperRaster) (i j : Nat) : ℚ :=
  if Written this canvas i j then this.mixAt (canvas.latitude j) (canvas.longitude i) else canvas.sampleAt j i

/-- The rows below `j` have been drawn. -/
structure DrawnTo (this canvas : BufferWrapperRaster) (j : Nat) (samples : List ℚ) : Prop where
  length_eq : samples.length = canvas.buffer.length
  drawn : ∀ j' < j, ∀ i < canvas.width, samples[i + j' * canvas.width]? = some (become this canvas i j')
  rest : ∀ k, j * canvas.width ≤ k → samples[k]? = canvas.buffer[k]?

theorem getElem?_canvas {i j : Nat} (hi : i < canvas.width) (hj : j < canvas.height) :
    canvas.buffer[i + j * canvas.width]? = some (canvas.sampleAt j i) := by
  have hlt := @index_lt canvas _ _ hj hi
  rw [sampleAt, List.getElem?_eq_getElem hlt, List.getD_eq_getElem _ _ hlt]

/-- A row with no place inside stays as it is. -/
theorem DrawnTo.skip {j : Nat} (hj : j < canvas.height) {samples : List ℚ} (h : DrawnTo this canvas j samples)
    (hskip : ∀ i < canvas.width, ¬Written this canvas i j) : DrawnTo this canvas (j + 1) samples := by
  refine ⟨h.length_eq, fun j' hj' i hi => ?_, fun k hk => h.rest k ?_⟩
  · rcases Nat.lt_succ_iff_lt_or_eq.1 hj' with hj' | rfl
    · exact h.drawn j' hj' i hi
    · rw [h.rest _ (Nat.le_add_left _ _), getElem?_canvas hi hj, become, if_neg (hskip i hi)]
  · exact (Nat.mul_le_mul_right _ (Nat.le_succ j)).trans hk

/-- A row is written at once. -/
theorem DrawnTo.blit {j : Nat} (hj : j < canvas.height) {samples values : List ℚ} (h : DrawnTo this canvas j samples)
    (hlen : values.length = canvas.width)
    (hvalues : ∀ i < canvas.width, values[i]? = some (become this canvas i j)) :
    DrawnTo this canvas (j + 1) (blit samples (j * canvas.width) values) := by
  have hfit : j * canvas.width + values.length ≤ samples.length := by
    rw [hlen, h.length_eq]
    refine le_trans ?_ canvas.size_le
    rw [← Nat.succ_mul, Nat.mul_comm canvas.width]
    exact Nat.mul_le_mul_right _ hj
  refine ⟨(length_blit hfit).trans h.length_eq, fun j' hj' i hi => ?_, fun k hk => ?_⟩
  · rw [getElem?_blit hfit, hlen]
    rcases Nat.lt_succ_iff_lt_or_eq.1 hj' with hj' | rfl
    · have : i + j' * canvas.width < j * canvas.width :=
        calc i + j' * canvas.width < (j' + 1) * canvas.width := by rw [Nat.add_mul, Nat.one_mul]; omega
          _ ≤ j * canvas.width := Nat.mul_le_mul_right _ hj'
      rw [if_neg (by omega), h.drawn j' hj' i hi]
    · rw [if_pos (by omega), Nat.add_sub_cancel, hvalues i hi]
  · have hk' : j * canvas.width + canvas.width ≤ k := by rwa [← Nat.succ_mul]
    rw [getElem?_blit hfit, hlen, if_neg (by omega), h.rest k (by omega)]

/-- A row of samples of the canvas whose columns below `n` have been drawn. -/
structure Mixed (this canvas : BufferWrapperRaster) (j n : Nat) (samples : List ℚ) : Prop where
  length_eq : samples.length = canvas.width
  mixed : ∀ i < n, i < canvas.width → samples[i]? = some (become this canvas i j)
  rest : ∀ i < canvas.width, n ≤ i → samples[i]? = some (canvas.sampleAt j i)

theorem Mixed.step {j i : Nat} {samples : List ℚ} (h : Mixed this canvas j i samples) :
    Mixed this canvas j (i + 1) (if Written this canvas i j
      then samples.set i (this.mixAt (canvas.latitude j) (canvas.longitude i)) else samples) := by
  by_cases hwritten : Written this canvas i j
  · rw [if_pos hwritten]
    refine ⟨(List.length_set ..).trans h.length_eq, fun k hk hkw => ?_, fun k hkw hk => ?_⟩
    · rcases Nat.lt_succ_iff_lt_or_eq.1 hk with hk | rfl
      · rw [List.getElem?_set_ne (by omega), h.mixed k hk hkw]
      · rw [List.getElem?_set_self (by rw [h.length_eq]; exact hkw), become, if_pos hwritten]
    · rw [List.getElem?_set_ne (by omega), h.rest k hkw (by omega)]
  · rw [if_neg hwritten]
    refine ⟨h.length_eq, fun k hk hkw => ?_, fun k hkw hk => h.rest k hkw (by omega)⟩
    rcases Nat.lt_succ_iff_lt_or_eq.1 hk with hk | rfl
    · exact h.mixed k hk hkw
    · rw [h.rest k hkw le_rfl, become, if_neg hwritten]

/-- The loop over the columns. -/
theorem drawColumns_eq (hw : 2 ≤ this.width) (hh : 2 ≤ this.height) {a b j : Nat} (hspans : Spans this canvas a b)
    (hj : 0 ≤ placeY this canvas j ∧ placeY this canvas j ≤ (this.height : ℚ) - 1) {samples : List ℚ}
    (h : Mixed this canvas j 0 samples) :
    ∃ values, (List.range canvas.width).foldlM (drawColumn (table this canvas)
        ((this.buffer.drop (a + ⌊placeY this canvas j⌋₊ * this.width)).take (b - a + 1) ++
          (this.buffer.drop (a + ⌈placeY this canvas j⌉₊ * this.width)).take (b - a + 1))
        a ((b : Int) - a + 1) (placeY this canvas j - ⌊placeY this canvas j⌋) this.getTransparentValue) samples =
      some values ∧ Mixed this canvas j canvas.width values :=
  foldlM_range (Mixed this canvas j) h fun i s hi hs =>
    ⟨_, drawColumn_eq hw hh hspans hi hj (by rw [hs.length_eq]; exact hi), hs.step⟩

/-- A row of the canvas is read, mixed and written back. -/
theorem drawRow_eq (hw : 2 ≤ this.width) (hh : 2 ≤ this.height) {a b j : Nat} (hspans : Spans this canvas a b)
    (hj : j < canvas.height) {samples : List ℚ} (h : DrawnTo this canvas j samples) :
    ∃ samples', this.drawRow canvas (table this canvas) a ((b : Int) - a + 1) samples j = some samples' ∧
      DrawnTo this canvas (j + 1) samples' := by
  obtain ⟨hw', hh'⟩ := size_lt hw hh
  rw [drawRow]
  have hentry := @getInterpolant_entry ((this.height : ℚ) - 1) (placeY this canvas) _ _ hj
  rw [show getInterpolant (table this canvas).yParams j = _ from hentry]
  by_cases hin : 0 ≤ placeY this canvas j ∧ placeY this canvas j ≤ (this.height : ℚ) - 1
  · obtain ⟨hr1, hr2⟩ := sides_lt hin.1 hin.2
    have hfit : j * canvas.width + canvas.width ≤ samples.length := by
      rw [h.length_eq, ← Nat.succ_mul]
      refine le_trans ?_ canvas.size_le
      rw [Nat.mul_comm canvas.width]
      exact Nat.mul_le_mul_right _ hj
    have hindex : canvas.indexFor 0 j = ((j * canvas.width : Nat) : Int) := by
      rw [indexFor]
      push_cast
      ring
    have hrow : Mixed this canvas j 0 ((samples.drop (j * canvas.width)).take canvas.width) := by
      refine ⟨?_, fun i hi => absurd hi (Nat.not_lt_zero i), fun i hi _ => ?_⟩
      · rw [List.length_take, List.length_drop]
        omega
      · rw [List.getElem?_take_of_lt hi, List.getElem?_drop, h.rest _ (Nat.le_add_right _ _), Nat.add_comm,
          getElem?_canvas hi hj]
    obtain ⟨values, hfold, hmixed⟩ := drawColumns_eq hw hh hspans hin hrow
    refine ⟨blit samples (j * canvas.width) values, ?_,
      h.blit hj hmixed.length_eq fun i hi => hmixed.mixed i hi hi⟩
    rw [if_pos hin]
    dsimp only
    rw [floor_cast hin.1, ceil_cast hin.1, intCast_natCast (by omega), intCast_natCast (by omega),
      getDoubles_row hr1 hspans.le hspans.lt, getDoubles_row hr2 hspans.le hspans.lt, hindex, getDoubles_eq hfit,
      ← floor_cast hin.1]
    simp only [Option.bind_eq_bind, Option.bind_some]
    rw [hfold, Option.bind_some]
    exact putDoubles_eq (by rw [hmixed.length_eq]; exact hfit)
  · rw [if_neg hin]
    exact ⟨samples, rfl, h.skip hj fun i _ hwritten => hin hwritten.1.2⟩

end Rows

/-! ## Drawing -/

section Drawing

variable {this canvas : BufferWrapperRaster}

/-- The sectors of the two rasters: the source's has an extent, and no minimum is above its maximum. -/
structure Extents (this canvas : BufferWrapperRaster) : Prop where
  latitudes : this.sector.minLatitude.degrees < this.sector.maxLatitude.degrees
  longitudes : this.sector.minLongitude.degrees < this.sector.maxLongitude.degrees
  canvasLatitudes : canvas.sector.minLatitude.degrees ≤ canvas.sector.maxLatitude.degrees
  canvasLongitudes : canvas.sector.minLongitude.degrees ≤ canvas.sector.maxLongitude.degrees

theorem onSamples_iff (hw : 2 ≤ this.width) (hh : 2 ≤ this.height) (h : Extents this canvas) (i j : Nat) :
    OnSamples this canvas i j ↔ this.Covers (canvas.latitude j) (canvas.longitude i) := by
  rw [OnSamples, placeX, placeY, column_mem_iff hw h.longitudes, row_mem_iff hh h.latitudes, and_comm, Covers]

theorem become_eq_drawn (hw : 2 ≤ this.width) (hh : 2 ≤ this.height) (h : Extents this canvas) (i j : Nat) :
    become this canvas i j = this.drawn canvas i j :=
  if_congr (and_congr_left fun _ => onSamples_iff hw hh h i j) rfl rfl

/-- A share of an extent is not outside of it. -/
theorem share_mem {n i : Nat} (hi : i < n) (hn : 2 ≤ n) {d : ℚ} (hd : 0 ≤ d) :
    0 ≤ i * (d / ((n : ℚ) - 1)) ∧ i * (d / ((n : ℚ) - 1)) ≤ d := by
  have hpos : 0 < (n : ℚ) - 1 := sub_pos.2 (one_lt_cast hn)
  have hle : (i : ℚ) ≤ (n : ℚ) - 1 := by
    have : (i : ℚ) + 1 ≤ n := by exact_mod_cast hi
    linarith
  refine ⟨by positivity, ?_⟩
  rw [← mul_div_assoc, div_le_iff₀ hpos, mul_comm d]
  exact mul_le_mul_of_nonneg_right hle hd

/-- Sectors that share the location of a sample intersect. -/
theorem intersects_of_onSamples (hw : 2 ≤ this.width) (hh : 2 ≤ this.height) (hcw : 2 ≤ canvas.width)
    (hch : 2 ≤ canvas.height) (h : Extents this canvas) {i j : Nat} (hi : i < canvas.width) (hj : j < canvas.height)
    (hin : OnSamples this canvas i j) : this.sector.intersects canvas.sector = true := by
  obtain ⟨⟨h1, h2⟩, h3, h4⟩ := (onSamples_iff hw hh h i j).1 hin
  have hlon := share_mem hi hcw (sub_nonneg.2 h.canvasLongitudes)
  have hlat := share_mem hj hch (sub_nonneg.2 h.canvasLatitudes)
  simp only [latitude, longitude, Sector.deltaLat, Sector.deltaLon, Angle.fromDegrees] at h1 h2 h3 h4
  simp only [Sector.intersects, decide_eq_true_eq, gt_iff_lt, not_lt]
  refine ⟨?_, ?_, ?_, ?_⟩ <;> linarith [hlon.1, hlon.2, hlat.1, hlat.2]

/-- With a threshold close to zero the table is the table of all places, unless no place is inside. -/
theorem createLookupTable_eq (hcw : 2 ≤ canvas.width) (hch : 2 ≤ canvas.height) (h : Extents this canvas) :
    ∃ ε > 0, ∀ threshold, -ε < threshold → threshold < 0 →
      createLookupTable threshold canvas.width canvas.height 0 ((this.width : ℚ) - 1) 0 ((this.height : ℚ) - 1)
        (computeSourceToDestTransform canvas.width canvas.height canvas.sector this.width this.height this.sector) =
      if (((table this canvas).xParams.any fun p => p.first ≠ -1) &&
        (table this canvas).yParams.any fun p => p.first ≠ -1) = true then some (table this canvas) else none := by
  obtain ⟨ε, hε, hx⟩ := lookupParams_eq (placeX this canvas) canvas.width ((this.width : ℚ) - 1)
  obtain ⟨ε', hε', hy⟩ := lookupParams_eq (placeY this canvas) canvas.height ((this.height : ℚ) - 1)
  refine ⟨min ε ε', lt_min hε hε', fun threshold h1 h2 => ?_⟩
  have hxs : (List.range canvas.width).map (fun i => lookupParams threshold 0 ((this.width : ℚ) - 1)
      (transformed (computeSourceToDestTransform canvas.width canvas.height canvas.sector this.width this.height
        this.sector).sx (computeSourceToDestTransform canvas.width canvas.height canvas.sector this.width this.height
        this.sector).tx i)) = (table this canvas).xParams := by
    refine List.map_congr_left fun i hi => ?_
    rw [transformed_column hcw h.longitudes i]
    exact hx threshold (by linarith [min_le_left ε ε']) h2 i (List.mem_range.1 hi)
  have hys : (List.range canvas.height).map (fun j => lookupParams threshold 0 ((this.height : ℚ) - 1)
      (transformed (computeSourceToDestTransform canvas.width canvas.height canvas.sector this.width this.height
        this.sector).sy (computeSourceToDestTransform canvas.width canvas.height canvas.sector this.width this.height
        this.sector).ty j)) = (table this canvas).yParams := by
    refine List.map_congr_left fun j hj => ?_
    rw [transformed_row hch h.latitudes j]
    exact hy threshold (by linarith [min_le_right ε ε']) h2 j (List.mem_range.1 hj)
  rw [createLookupTable]
  simp only [hxs, hys]

/-- A place inside is in the table, and nothing else is. -/
theorem any_entry_iff {xMax : ℚ} (f : Nat → ℚ) (n : Nat) :
    (((List.range n).map fun i => entry xMax (f i)).any fun p => p.first ≠ -1) = true ↔
      ∃ i < n, 0 ≤ f i ∧ f i ≤ xMax := by
  simp only [List.any_map, List.any_eq_true, List.mem_range, Function.comp_apply, decide_eq_true_eq]
  refine exists_congr fun i => and_congr_right fun hi => ?_
  rw [entry]
  split_ifs with hin
  · have : 0 ≤ ⌊f i⌋ := Int.floor_nonneg.2 hin.1
    have hne : ((⌊f i⌋ : Int) : ℚ) ≠ -1 := by exact_mod_cast (by omega : ⌊f i⌋ ≠ -1)
    exact iff_of_true hne hin
  · exact iff_of_false (fun h => h rfl) hin

/-- Every row of the canvas is drawn. -/
theorem doDrawOnTo_eq (hw : 2 ≤ this.width) (hh : 2 ≤ this.height) (hcw : 2 ≤ canvas.width)
    (hch : 2 ≤ canvas.height) (h : Extents this canvas) :
    ∃ ε > 0, ∀ threshold, -ε < threshold → threshold < 0 →
      ∃ samples, this.doDrawOnTo threshold canvas = some samples ∧ DrawnTo this canvas canvas.height samples := by
  obtain ⟨ε, hε, htable⟩ := createLookupTable_eq hcw hch h
  refine ⟨ε, hε, fun threshold h1 h2 => ?_⟩
  have hstart : DrawnTo this canvas 0 canvas.buffer :=
    ⟨rfl, fun j hj => absurd hj (Nat.not_lt_zero j), fun _ _ => rfl⟩
  -- where no place is inside, all rows stay
  have hstay : (∀ i < canvas.width, ∀ j < canvas.height, ¬OnSamples this canvas i j) →
      DrawnTo this canvas canvas.height canvas.buffer := by
    intro hno
    have hall : ∀ n ≤ canvas.height, DrawnTo this canvas n canvas.buffer := by
      intro n
      induction n with
      | zero => exact fun _ => hstart
      | succ n ih => exact fun hn => (ih (by omega)).skip hn fun i hi hwritten => hno i hi n hn hwritten.1
    exact hall canvas.height le_rfl
  rw [doDrawOnTo]
  by_cases hmeet : this.sector.intersects canvas.sector = true
  · rw [if_neg (not_not.2 hmeet)]
    dsimp only
    rw [htable threshold h1 h2]
    by_cases hany : (((table this canvas).xParams.any fun p => p.first ≠ -1) &&
        (table this canvas).yParams.any fun p => p.first ≠ -1) = true
    · rw [if_pos hany]
      dsimp only
      obtain ⟨i, hi, hin⟩ := (any_entry_iff (placeX this canvas) canvas.width).1 (Bool.and_eq_true_iff.1 hany).1
      have hrange : computeInterpolantRange ((List.range canvas.width).map fun i =>
          entry ((this.width : ℚ) - 1) (placeX this canvas i)) =
          computeInterpolantRange (table this canvas).xParams := rfl
      obtain ⟨a, b, hab, hb, ha', hb', hspans⟩ :=
        computeInterpolantRange_eq (size_lt hw hh).1 (placeX this canvas) hi hin hrange
      rw [ha', hb']
      exact foldlM_range (DrawnTo this canvas) hstart fun j s hj hs => drawRow_eq hw hh ⟨hab, hb, hspans⟩ hj hs
    · rw [if_neg hany]
      refine ⟨canvas.buffer, rfl, hstay fun i hi j hj hin => hany (Bool.and_eq_true_iff.2 ⟨?_, ?_⟩)⟩
      · exact (any_entry_iff (placeX this canvas) canvas.width).2 ⟨i, hi, hin.1⟩
      · exact (any_entry_iff (placeY this canvas) canvas.height).2 ⟨j, hj, hin.2⟩
  · rw [if_pos hmeet]
    exact ⟨canvas.buffer, rfl, hstay fun i hi j hj hin => hmeet (intersects_of_onSamples hw hh hcw hch h hi hj hin)⟩

/-- A written sample is not below all four samples around it, and not above all of them. -/
theorem mixAt_between (hw : 2 ≤ this.width) (hh : 2 ≤ this.height)
    (hlat : this.sector.minLatitude.degrees < this.sector.maxLatitude.degrees)
    (hlon : this.sector.minLongitude.degrees < this.sector.maxLongitude.degrees) {lat lon : ℚ}
    (hin : this.Covers lat lon) :
    ∃ x ∈ this.around lat lon, ∃ y ∈ this.around lat lon, x ≤ this.mixAt lat lon ∧ this.mixAt lat lon ≤ y := by
  have hu := (column_mem_iff hw hlon lon).2 hin.2
  have hv := (row_mem_iff hh hlat lat).2 hin.1
  have hfrac : ∀ {x : ℚ}, 0 ≤ x → 0 ≤ x - ⌊x⌋₊ ∧ x - ⌊x⌋₊ ≤ 1 := fun {x} h =>
    ⟨sub_nonneg.2 (Nat.floor_le h), by linarith [Nat.lt_floor_add_one x]⟩
  rw [mixAt, mix_eq this.sampleAt hu hv]
  exact mix_between (hfrac hu.1) (hfrac hv.1)

/-- On a canvas of the same size and sector the places are the samples themselves. -/
theorem place_self (hw : 2 ≤ this.width) (hh : 2 ≤ this.height) (h : Extents this canvas)
    (hwidth : canvas.width = this.width) (hheight : canvas.height = this.height)
    (hsector : canvas.sector = this.sector) (i j : Nat) :
    this.column (canvas.longitude i) = i ∧ this.row (canvas.latitude j) = j := by
  have hlon : this.sector.deltaLon.degrees ≠ 0 := (sub_pos.2 h.longitudes).ne'
  have hlat : this.sector.deltaLat.degrees ≠ 0 := (sub_pos.2 h.latitudes).ne'
  have hsize : (this.width : ℚ) - 1 ≠ 0 := (sub_pos.2 (one_lt_cast hw)).ne'
  have hsize' : (this.height : ℚ) - 1 ≠ 0 := (sub_pos.2 (one_lt_cast hh)).ne'
  simp only [column, row, longitude, latitude, hsector, hwidth, hheight]
  constructor
  · field_simp
    ring
  · field_simp
    ring

/-- On such a canvas every sample that is not missing is copied. -/
theorem drawn_self (hw : 2 ≤ this.width) (hh : 2 ≤ this.height) (h : Extents this canvas)
    (hwidth : canvas.width = this.width) (hheight : canvas.height = this.height)
    (hsector : canvas.sector = this.sector) {i j : Nat} (hi : i < canvas.width) (hj : j < canvas.height) :
    this.drawn canvas i j =
      if this.sampleAt j i ≠ this.getTransparentValue then this.sampleAt j i else canvas.sampleAt j i := by
  obtain ⟨hcol, hrow⟩ := place_self hw hh h hwidth hheight hsector i j
  have hcolumn : 0 ≤ this.column (canvas.longitude i) ∧ this.column (canvas.longitude i) ≤ (this.width : ℚ) - 1 := by
    rw [hcol, ← hwidth]
    refine ⟨Nat.cast_nonneg i, ?_⟩
    have : (i : ℚ) + 1 ≤ canvas.width := by exact_mod_cast hi
    linarith
  have hrow' : 0 ≤ this.row (canvas.latitude j) ∧ this.row (canvas.latitude j) ≤ (this.height : ℚ) - 1 := by
    rw [hrow, ← hheight]
    refine ⟨Nat.cast_nonneg j, ?_⟩
    have : (j : ℚ) + 1 ≤ canvas.height := by exact_mod_cast hj
    linarith
  have hin : this.Covers (canvas.latitude j) (canvas.longitude i) :=
    ⟨(row_mem_iff hh h.latitudes _).1 hrow', (column_mem_iff hw h.longitudes _).1 hcolumn⟩
  have haround : this.around (canvas.latitude j) (canvas.longitude i) =
      [this.sampleAt j i, this.sampleAt j i, this.sampleAt j i, this.sampleAt j i] := by
    simp only [around, hcol, hrow, Nat.floor_natCast, Nat.ceil_natCast]
  have hmix : this.mixAt (canvas.latitude j) (canvas.longitude i) = this.sampleAt j i := by
    rw [mixAt, mix_eq this.sampleAt hcolumn hrow', hcol, hrow, Nat.floor_natCast, Nat.floor_natCast]
    ring
  rw [drawn, haround, hmix]
  simp [hin]

/-- Drawing reads and writes inside of the buffers. With a threshold close to zero a sample of the canvas becomes the
mix of the four samples around it, exactly where its location is in the source's sector and none of the four is
missing, and the mix lies between them. All else stays. A canvas of the same size and sector gets a copy. -/
theorem doDrawOnTo_spec (hw : 2 ≤ this.width) (hh : 2 ≤ this.height) (hcw : 2 ≤ canvas.width)
    (hch : 2 ≤ canvas.height) (h : Extents this canvas) :
    ∃ ε > 0, ∀ threshold, -ε < threshold → threshold < 0 →
      ∃ samples, this.doDrawOnTo threshold canvas = some samples ∧ samples.length = canvas.buffer.length ∧
        (∀ i < canvas.width, ∀ j < canvas.height,
          samples[i + j * canvas.width]? = some (this.drawn canvas i j)) ∧
        (∀ k, canvas.width * canvas.height ≤ k → samples[k]? = canvas.buffer[k]?) ∧
        (∀ i j, this.Covers (canvas.latitude j) (canvas.longitude i) →
          ∃ x ∈ this.around (canvas.latitude j) (canvas.longitude i),
          ∃ y ∈ this.around (canvas.latitude j) (canvas.longitude i),
            x ≤ this.mixAt (canvas.latitude j) (canvas.longitude i) ∧
              this.mixAt (canvas.latitude j) (canvas.longitude i) ≤ y) ∧
        (canvas.width = this.width → canvas.height = this.height → canvas.sector = this.sector →
          ∀ i < canvas.width, ∀ j < canvas.height, samples[i + j * canvas.width]? =
            some (if this.sampleAt j i ≠ this.getTransparentValue then this.sampleAt j i
              else canvas.sampleAt j i)) := by
  obtain ⟨ε, hε, hdraw⟩ := doDrawOnTo_eq hw hh hcw hch h
  refine ⟨ε, hε, fun threshold h1 h2 => ?_⟩
  obtain ⟨samples, hsamples, hdrawn⟩ := hdraw threshold h1 h2
  have hget : ∀ i < canvas.width, ∀ j < canvas.height,
      samples[i + j * canvas.width]? = some (this.drawn canvas i j) := by
    intro i hi j hj
    rw [hdrawn.drawn j hj i hi, become_eq_drawn hw hh h]
  refine ⟨samples, hsamples, hdrawn.length_eq, hget, fun k hk => hdrawn.rest k (by rwa [Nat.mul_comm]), ?_, ?_⟩
  · exact fun i j hin => mixAt_between hw hh h.latitudes h.longitudes hin
  · intro hwidth hheight hsector i hi j hj
    rw [hget i hi j hj, drawn_self hw hh h hwidth hheight hsector hi hj]

end Drawing

/-- A raster of two columns and two rows with the same sample everywhere. -/
def plain (sector : Sector) (x : ℚ) : BufferWrapperRaster where
  width := 2
  height := 2
  sector := sector
  buffer := List.replicate 4 x
  missingDataSignal := none
  size_le := le_rfl
  length_lt := by norm_num

/-- One more column. -/
def plainThree (sector : Sector) (x : ℚ) : BufferWrapperRaster where
  width := 3
  height := 2
  sector := sector
  buffer := List.replicate 6 x
  missingDataSignal := none
  size_le := le_rfl
  length_lt := by norm_num

/-- One square degree drawn onto the square degree to the east of its middle. -/
theorem doDrawOnTo_half :
    ∃ ε > 0, ∀ threshold, -ε < threshold → threshold < 0 →
      ∃ samples, (plain (.fromDegrees 0 1 0 1) 7).doDrawOnTo threshold (plain (.fromDegrees 0 1 (1 / 2) (3 / 2)) 0) =
        some samples ∧ samples.length = 4 := by
  obtain ⟨ε, hε, h⟩ := @doDrawOnTo_spec (plain (.fromDegrees 0 1 0 1) 7)
    (plain (.fromDegrees 0 1 (1 / 2) (3 / 2)) 0) le_rfl le_rfl le_rfl le_rfl
    ⟨by decide +kernel, by decide +kernel, by decide +kernel, by decide +kernel⟩
  refine ⟨ε, hε, fun threshold h1 h2 => ?_⟩
  obtain ⟨samples, hsamples, hlen, -⟩ := h threshold h1 h2
  exact ⟨samples, hsamples, hlen⟩

/-- A sector without an extent is not drawn, not even onto itself. A sector whose minimum is above its maximum is
drawn where it is not, and not drawn where it is. -/
theorem sectors_notDrawn :
    ((plain Sector.EMPTY_SECTOR 7).doDrawOnTo (-1 / 10 ^ 6) (plain Sector.EMPTY_SECTOR 0) = some [0, 0, 0, 0] ∧
        (plain Sector.EMPTY_SECTOR 7).getTransparentValue ≠ 7) ∧
      ((plain (.fromDegrees 0 1 10 0) 7).doDrawOnTo (-1 / 10 ^ 6) (plainThree (.fromDegrees 0 1 (-5) 15) 0) =
          some [0, 7, 0, 0, 7, 0] ∧
        ∀ lat lon, ¬(plain (.fromDegrees 0 1 10 0) 7).Covers lat lon) ∧
      (plain (.fromDegrees 0 1 4 6) 7).doDrawOnTo (-1 / 10 ^ 6) (plainThree (.fromDegrees 0 1 10 0) 0) =
          some [0, 0, 0, 0, 0, 0] ∧
        (plain (.fromDegrees 0 1 4 6) 7).Covers ((plainThree (.fromDegrees 0 1 10 0) 0).latitude 0)
          ((plainThree (.fromDegrees 0 1 10 0) 0).longitude 1) := by
  refine ⟨by decide +kernel, ⟨by decide +kernel, fun lat lon h => ?_⟩, by decide +kernel⟩
  have h1 : (10 : ℚ) ≤ lon := h.2.1
  have h2 : lon ≤ 0 := h.2.2
  linarith

end WorldWind.Rasters
