import WorldWind.Measure.Model
/-!
# What a measurer remembers does not show

A query is a function of the settings (`answer`). Every cache that is filled
holds what the settings say it should (`Coherent`): the setters forget what
depends on the setting they change, and the queries fill caches with what they
compute. So each query returns what a fresh measurer with the same settings
returns (`ask_fresh`), whatever was asked before.
-/

namespace WorldWind.Measure

open Geom Lib.JavaInt Lib.Memo

variable (globe : Globe)

/-! ## Answers from the settings -/

structure Settings where
  positions : Option (List Position)
  followTerrain : Bool
  pathType : Int
  maxSegmentLength : ℚ
  lengthTerrainSamplingSteps : ℚ
  areaTerrainSamplingSteps : ℚ

def AreaMeasurer.settings (m : AreaMeasurer) : Settings :=
  ⟨m.positions, m.followTerrain, m.pathType, m.maxSegmentLength, m.lengthTerrainSamplingSteps,
    m.areaTerrainSamplingSteps⟩

namespace Settings

def sector (s : Settings) : Option Sector :=
  match s.positions with
  | none => none
  | some positions =>
    if positions.length > 2 then some (Sector.boundingSector (positions.map Position.toLatLon)) else none

def isClosedShape (s : Settings) : Bool :=
  match s.positions with
  | none => false
  | some positions => positions.length > 1 ∧ positions.head? = positions.getLast?

/-- The path whose length is measured. -/
def lengthPath (s : Settings) (positions : List Position) (followTerrain : Bool) : List Position :=
  let maxLength :=
    match followTerrain with
    | true =>
      let overall := pathLength globe (subdividePositions globe positions s.maxSegmentLength false s.pathType)
      min (max (overall / s.lengthTerrainSamplingSteps) DEFAULT_MIN_SEGMENT_LENGTH) s.maxSegmentLength
    | false => s.maxSegmentLength
  subdividePositions globe positions maxLength followTerrain s.pathType

def length (s : Settings) : ℚ :=
  match s.positions with
  | none => -1
  | some positions =>
    if positions.length < 2 then -1 else pathLength globe (s.lengthPath globe positions s.followTerrain)

/-- The locations on the subdivided path of the areas. -/
def areaPath (s : Settings) : List LatLon :=
  (subdividePositions globe (s.positions.getD []) s.maxSegmentLength false s.pathType).map Position.toLatLon

def projectedArea (s : Settings) : ℚ :=
  if s.sector ≠ none ∧ s.isClosedShape then AreaMeasurer.tessellatedArea globe (s.areaPath globe) else -1

end Settings

/-- The elevation at a node of the sampling grid. -/
def nodeAt (sector : Sector) (s : Steps) (i j : Nat) : ℚ :=
  globe.getElevation (LatLon.fromRadians (sector.minLatitude.radians + s.latStepRadians * i)
    (sector.minLongitude.radians + s.lonStepRadians * j))

def cellSector (sector : Sector) (s : Steps) (i j : Nat) : Sector :=
  let lat := sector.minLatitude.radians + s.latStepRadians * i
  let lon := sector.minLongitude.radians + s.lonStepRadians * j
  Sector.fromRadians lat (lat + s.latStepRadians) lon (lon + s.lonStepRadians)

/-- A cell from the elevations at its corners. -/
def cellAt (sector : Sector) (s : Steps) (i j : Nat) : Cell :=
  let lat := sector.minLatitude.radians + s.latStepRadians * i
  let radius := globe.getRadiusAt ⟨.fromRadians (lat + s.latStepRadians / 2), sector.getCentroid.longitude⟩
  let cellWidth := s.lonStepRadians * radius * globe.math.cos (lat + s.latStepRadians / 2)
  let cellHeight := s.latStepRadians * radius
  ⟨cellSector sector s i j, cellWidth * cellHeight, slopeArea globe.math cellWidth cellHeight
    (nodeAt globe sector s i j) (nodeAt globe sector s i (j + 1)) (nodeAt globe sector s (i + 1) j)⟩

def addCell (sector : Sector) (s : Steps) (path : List LatLon) (area : ℚ) (cell : Nat × Nat) : ℚ :=
  if LatLon.isLocationInside (cellSector sector s cell.1 cell.2).getCentroid path then
    area + (cellAt globe sector s cell.1 cell.2).surfaceArea
  else area

/-- The sampling grid fits into arrays. -/
def Steps.Allocates (s : Steps) : Prop :=
  0 ≤ s.latSteps ∧ 0 ≤ s.lonSteps ∧ 0 ≤ int (s.latSteps + 1) ∧ 0 ≤ int (s.lonSteps + 1)

instance (s : Steps) : Decidable s.Allocates :=
  inferInstanceAs (Decidable (_ ∧ _ ∧ _ ∧ _))

def Settings.surfaceArea (s : Settings) : Option ℚ :=
  match s.sector with
  | none => some (-1)
  | some sector =>
    if ¬ s.isClosedShape then some (-1)
    else
      let steps := sampling globe.math sector s.areaTerrainSamplingSteps
      if steps.Allocates then
        some ((Lib.Grid.cells steps.latSteps.toNat steps.lonSteps.toNat).foldl
          (addCell globe sector steps (s.areaPath globe)) 0)
      else none

/-- What a query returns. -/
def Settings.answer (s : Settings) : Query → Option ℚ
  | .getLength => some (s.length globe)
  | .getSurfaceArea => s.surfaceArea globe
  | .getProjectedArea => some (s.projectedArea globe)

/-- Every cache that is filled holds what the settings say. -/
structure Coherent (m : AreaMeasurer) : Prop where
  maxSegmentLength_pos : 0 < m.maxSegmentLength
  lengthSteps_ge : 1 ≤ m.lengthTerrainSamplingSteps
  areaSteps_ge : 1 ≤ m.areaTerrainSamplingSteps
  sector_eq : m.sector = m.settings.sector
  lengthPositions_eq : ∀ path, m.lengthPositions = some path → ∀ positions, m.positions = some positions →
    path = m.settings.lengthPath globe positions m.followTerrain
  length_eq : 0 ≤ m.length → m.length = m.settings.length globe
  subdividedPositions_eq : ∀ path, m.subdividedPositions = some path →
    path.map Position.toLatLon = m.settings.areaPath globe
  sectorCells_eq : ∀ cells, m.sectorCells = some cells → ∃ sector, m.settings.sector = some sector ∧
    let s := sampling globe.math sector m.areaTerrainSamplingSteps
    cells.Coherent (cellAt globe sector s) s.latSteps s.lonSteps
  sectorElevations_eq : ∀ elevations, m.sectorElevations = some elevations → ∃ sector,
    m.settings.sector = some sector ∧
    let s := sampling globe.math sector m.areaTerrainSamplingSteps
    elevations.Coherent (nodeAt globe sector s) (int (s.latSteps + 1)) (int (s.lonSteps + 1))
  surfaceArea_eq : 0 ≤ m.surfaceArea → some m.surfaceArea = m.settings.surfaceArea globe
  projectedArea_eq : 0 ≤ m.projectedArea → m.projectedArea = m.settings.projectedArea globe

variable {globe}

/-! ## Setters -/

namespace AreaMeasurer

theorem getBoundingSector_eq {m : AreaMeasurer} (h : m.sector = m.settings.sector) :
    m.getBoundingSector = m.settings.sector := by
  rw [getBoundingSector, h, Settings.sector]
  have hp : m.settings.positions = m.positions := rfl
  rw [hp]
  cases m.positions with
  | none => rfl
  | some positions =>
    by_cases hlen : positions.length > 2
    · simp only [if_pos hlen]
    · simp only [if_neg hlen]

theorem isClosedShape_eq (m : AreaMeasurer) : m.isClosedShape = m.settings.isClosedShape := rfl

end AreaMeasurer

open AreaMeasurer

theorem not_filled : ¬ (0 : ℚ) ≤ -1 := by decide +kernel

theorem coherent_new : Coherent globe new := by
  refine ⟨by decide +kernel, by decide +kernel, by decide +kernel, rfl, ?_, ?_, ?_, ?_, ?_, ?_, ?_⟩
  · intro path h
    cases h
  · intro h
    exact absurd h not_filled
  · intro path h
    cases h
  · intro cells h
    cases h
  · intro elevations h
    cases h
  · intro h
    exact absurd h not_filled
  · intro h
    exact absurd h not_filled

/-- What remains to be checked where the cached values are cleared. -/
theorem coherent_clear {m : AreaMeasurer} (hmax : 0 < m.maxSegmentLength) (hlength : 1 ≤ m.lengthTerrainSamplingSteps)
    (harea : 1 ≤ m.areaTerrainSamplingSteps) (hsector : m.sector = m.settings.sector)
    (hcells : ∀ cells, m.sectorCells = some cells → ∃ sector, m.settings.sector = some sector ∧
      let s := sampling globe.math sector m.areaTerrainSamplingSteps
      cells.Coherent (cellAt globe sector s) s.latSteps s.lonSteps)
    (helevations : ∀ elevations, m.sectorElevations = some elevations → ∃ sector, m.settings.sector = some sector ∧
      let s := sampling globe.math sector m.areaTerrainSamplingSteps
      elevations.Coherent (nodeAt globe sector s) (int (s.latSteps + 1)) (int (s.lonSteps + 1))) :
    Coherent globe m.clearCachedValues := by
  refine ⟨hmax, hlength, harea, hsector, ?_, ?_, ?_, hcells, helevations, ?_, ?_⟩
  · intro path h
    cases h
  · intro h
    exact absurd h not_filled
  · intro path h
    cases h
  · intro h
    exact absurd h not_filled
  · intro h
    exact absurd h not_filled

theorem coherent_setPositions {m : AreaMeasurer} (h : Coherent globe m) (positions : Option (List Position)) :
    Coherent globe (m.setPositions positions) := by
  cases positions with
  | none => exact h
  | some positions =>
    by_cases hsame : (m.setLengthPositions positions).getBoundingSector = none ∨
        (m.setLengthPositions positions).getBoundingSector ≠ m.getBoundingSector
    · rw [setPositions, if_pos hsame]
      refine coherent_clear (m := { m with
        positions := some positions
        sector := if positions.length > 2 then some
          (Sector.boundingSector (positions.map Position.toLatLon)) else none
        sectorCells := none
        sectorElevations := none }) h.maxSegmentLength_pos h.lengthSteps_ge h.areaSteps_ge rfl ?_ ?_
      · intro cells hc
        cases hc
      · intro elevations he
        cases he
    · rw [setPositions, if_neg hsame]
      rw [not_or, ne_eq, not_not, getBoundingSector_eq h.sector_eq, getBoundingSector_eq rfl] at hsame
      have hsector := hsame.2
      refine coherent_clear h.maxSegmentLength_pos h.lengthSteps_ge h.areaSteps_ge rfl ?_ ?_
      · intro cells hc
        obtain ⟨sector, hs, hcells⟩ := h.sectorCells_eq cells hc
        exact ⟨sector, hsector.trans hs, hcells⟩
      · intro elevations he
        obtain ⟨sector, hs, helevations⟩ := h.sectorElevations_eq elevations he
        exact ⟨sector, hsector.trans hs, helevations⟩

theorem coherent_setFollowTerrain {m : AreaMeasurer} (h : Coherent globe m) (followTerrain : Bool) :
    Coherent globe (m.setFollowTerrain followTerrain) := by
  rw [setFollowTerrain]
  split
  · exact coherent_clear h.maxSegmentLength_pos h.lengthSteps_ge h.areaSteps_ge h.sector_eq h.sectorCells_eq
      h.sectorElevations_eq
  · exact h

theorem coherent_setPathType {m : AreaMeasurer} (h : Coherent globe m) (pathType : Int) :
    Coherent globe (m.setPathType pathType) := by
  rw [setPathType]
  split
  · exact coherent_clear h.maxSegmentLength_pos h.lengthSteps_ge h.areaSteps_ge h.sector_eq h.sectorCells_eq
      h.sectorElevations_eq
  · exact h

theorem coherent_setMaxSegmentLength {m : AreaMeasurer} (h : Coherent globe m) (length : ℚ) :
    Coherent globe (m.setMaxSegmentLength length) := by
  rw [setMaxSegmentLength]
  split
  · exact h
  · rename_i hpos
    split
    · exact coherent_clear (lt_of_not_ge hpos) h.lengthSteps_ge h.areaSteps_ge h.sector_eq h.sectorCells_eq
        h.sectorElevations_eq
    · exact h

theorem coherent_setLengthTerrainSamplingSteps {m : AreaMeasurer} (h : Coherent globe m) (steps : ℚ) :
    Coherent globe (m.setLengthTerrainSamplingSteps steps) := by
  rw [setLengthTerrainSamplingSteps]
  split
  · exact h
  · rename_i hge
    split
    · refine ⟨h.maxSegmentLength_pos, le_of_not_gt hge, h.areaSteps_ge, h.sector_eq, ?_, ?_,
        h.subdividedPositions_eq, h.sectorCells_eq, h.sectorElevations_eq, h.surfaceArea_eq, h.projectedArea_eq⟩
      · intro path hp
        cases hp
      · intro hl
        exact absurd hl not_filled
    · exact h

theorem coherent_setAreaTerrainSamplingSteps {m : AreaMeasurer} (h : Coherent globe m) (steps : ℚ) :
    Coherent globe (m.setAreaTerrainSamplingSteps steps) := by
  rw [setAreaTerrainSamplingSteps]
  split
  · exact h
  · rename_i hge
    split
    · refine ⟨h.maxSegmentLength_pos, h.lengthSteps_ge, le_of_not_gt hge, h.sector_eq, h.lengthPositions_eq,
        h.length_eq, h.subdividedPositions_eq, ?_, ?_, ?_, ?_⟩
      · intro cells hc
        cases hc
      · intro elevations he
        cases he
      · intro ha
        exact absurd ha not_filled
      · intro ha
        exact absurd ha not_filled
    · exact h

/-! ## Length -/

/-- The length is that of the path the settings say, and the path is cached. -/
theorem computeLength_eq {m : AreaMeasurer} (followTerrain : Bool) {positions : List Position}
    (hp : m.positions = some positions) (hlen : ¬ positions.length < 2)
    (hcache : ∀ path, m.lengthPositions = some path → path = m.settings.lengthPath globe positions followTerrain) :
    m.computeLength globe followTerrain =
      ({ m with lengthPositions := some (m.settings.lengthPath globe positions followTerrain) },
        pathLength globe (m.settings.lengthPath globe positions followTerrain)) := by
  have hflat : m.lengthPositions = none → m.computeLength globe false =
      ({ m with lengthPositions := some (m.settings.lengthPath globe positions false) },
        pathLength globe (m.settings.lengthPath globe positions false)) := by
    intro hnone
    rw [computeLength.eq_def, hp]
    simp only [if_neg hlen, hnone]
    rw [← hp]
    rfl
  cases hc : m.lengthPositions with
  | some path =>
    rw [computeLength.eq_def, hp]
    simp only [if_neg hlen, hc]
    rw [← hcache path hc, ← hc, ← hp]
  | none =>
    cases followTerrain with
    | false => exact hflat hc
    | true =>
      rw [computeLength.eq_def, hp]
      simp only [if_neg hlen, hc, hflat hc]
      rw [← hp]
      rfl

theorem ask_getLength {m : AreaMeasurer} (h : Coherent globe m) :
    (m.getLength globe).2 = some (m.settings.length globe) ∧ Coherent globe (m.getLength globe).1 ∧
      (m.getLength globe).1.settings = m.settings := by
  rw [getLength]
  split
  · cases hp : m.positions with
    | none =>
      have hcompute : m.computeLength globe m.followTerrain = (m, -1) := by rw [computeLength.eq_def, hp]
      have hlength : m.settings.length globe = -1 := by
        rw [Settings.length]
        show (match m.positions with | none => _ | some _ => _) = _
        rw [hp]
      rw [hcompute, hlength]
      exact ⟨rfl, { h with length_eq := fun hl => absurd hl not_filled }, rfl⟩
    | some positions =>
      by_cases hlen : positions.length < 2
      · have hcompute : m.computeLength globe m.followTerrain = (m, -1) := by
          rw [computeLength.eq_def, hp]
          simp only [if_pos hlen]
        have hlength : m.settings.length globe = -1 := by
          rw [Settings.length]
          show (match m.positions with | none => _ | some _ => _) = _
          rw [hp]
          exact if_pos hlen
        rw [hcompute, hlength]
        exact ⟨rfl, { h with length_eq := fun hl => absurd hl not_filled }, rfl⟩
      · have hcompute := computeLength_eq m.followTerrain hp hlen fun path hpath =>
          h.lengthPositions_eq path hpath positions hp
        have hlength : m.settings.length globe =
            pathLength globe (m.settings.lengthPath globe positions m.followTerrain) := by
          rw [Settings.length]
          show (match m.positions with | none => _ | some _ => _) = _
          rw [hp]
          exact if_neg hlen
        rw [hcompute, hlength]
        refine ⟨rfl, { h with lengthPositions_eq := ?_, length_eq := fun _ => hlength.symm }, rfl⟩
        intro path hpath positions' hp'
        obtain rfl := Option.some.inj (hp.symm.trans hp')
        exact (Option.some.inj hpath).symm
  · rename_i hge
    exact ⟨congrArg some (h.length_eq (le_of_not_gt hge)), h, rfl⟩

/-! ## Projected area -/

/-- Following the terrain changes the elevations of a subdivided path, not its
locations. -/
theorem toLatLon_subdividePositions (positions : List Position) (maxLength : ℚ) (followTerrain : Bool)
    (pathType : Int) :
    (subdividePositions globe positions maxLength followTerrain pathType).map Position.toLatLon =
      (subdividePositions globe positions maxLength false pathType).map Position.toLatLon := by
  have hsegment : ∀ pos1 pos2 : Position,
      (subdivideSegment globe maxLength followTerrain pathType pos1 pos2).map Position.toLatLon =
        (subdivideSegment globe maxLength false pathType pos1 pos2).map Position.toLatLon := by
    intro pos1 pos2
    simp only [subdivideSegment]
    split
    · rw [List.map_map, List.map_map]
      rfl
    · rfl
  have hfrom : ∀ (rest : List Position) (pos1 : Position),
      (subdivideFrom globe maxLength followTerrain pathType pos1 rest).map Position.toLatLon =
        (subdivideFrom globe maxLength false pathType pos1 rest).map Position.toLatLon := by
    intro rest
    induction rest with
    | nil => exact fun _ => rfl
    | cons pos2 rest ih =>
      intro pos1
      rw [subdivideFrom, subdivideFrom, List.map_append, List.map_append, List.map_cons, List.map_cons, hsegment, ih]
      rfl
  cases positions with
  | nil => rfl
  | cons pos1 rest =>
    rw [subdividePositions, subdividePositions, List.map_cons, List.map_cons, hfrom]
    rfl

theorem subdivided_eq {m : AreaMeasurer} (h : Coherent globe m) (followTerrain : Bool) :
    (m.subdivided globe followTerrain).map Position.toLatLon = m.settings.areaPath globe := by
  rw [subdivided]
  cases hc : m.subdividedPositions with
  | some path => exact h.subdividedPositions_eq path hc
  | none => exact toLatLon_subdividePositions _ _ followTerrain _

/-- What a query of an area keeps when it has filled the paths and the sector. -/
theorem coherent_subdivided {m : AreaMeasurer} (h : Coherent globe m) (followTerrain : Bool) :
    Coherent globe { m with
      sector := m.getBoundingSector, subdividedPositions := some (m.subdivided globe followTerrain) } := by
  refine { h with sector_eq := getBoundingSector_eq h.sector_eq, subdividedPositions_eq := ?_ }
  intro path hpath
  rw [← Option.some.inj hpath]
  exact subdivided_eq h followTerrain

theorem ask_getProjectedArea {m : AreaMeasurer} (h : Coherent globe m) :
    (m.getProjectedArea globe).2 = some (m.settings.projectedArea globe) ∧
    Coherent globe (m.getProjectedArea globe).1 ∧
      (m.getProjectedArea globe).1.settings = m.settings := by
  rw [getProjectedArea]
  split
  · have hsector := getBoundingSector_eq h.sector_eq
    by_cases hclosed : m.settings.sector ≠ none ∧ m.settings.isClosedShape = true
    · have hcompute : m.computeProjectedAreaGeometry globe =
          ({ m with sector := m.getBoundingSector, subdividedPositions := some (m.subdivided globe m.followTerrain) },
            m.settings.projectedArea globe) := by
        rw [Settings.projectedArea, if_pos hclosed, ← subdivided_eq h m.followTerrain, computeProjectedAreaGeometry]
        exact if_pos (by rw [hsector]; exact hclosed)
      rw [hcompute]
      exact ⟨rfl, { coherent_subdivided h m.followTerrain with projectedArea_eq := fun _ => rfl }, rfl⟩
    · have hcompute : m.computeProjectedAreaGeometry globe =
          ({ m with sector := m.getBoundingSector }, m.settings.projectedArea globe) := by
        rw [Settings.projectedArea, if_neg hclosed, computeProjectedAreaGeometry]
        exact if_neg (by rw [hsector]; exact hclosed)
      rw [hcompute]
      exact ⟨rfl, { h with sector_eq := hsector, projectedArea_eq := fun _ => rfl }, rfl⟩
  · rename_i hge
    exact ⟨congrArg some (h.projectedArea_eq (le_of_not_gt hge)), h, rfl⟩

/-! ## Surface area -/

section
variable {sector : Sector} {s : Steps} {samples : Samples} {i j : Nat}

/-- A cell is computed from the elevations at the nodes, cached or not. -/
theorem computeCell_eq (h : samples.elevations.Coherent (nodeAt globe sector s) (s.latSteps + 1) (s.lonSteps + 1))
    (hi : (i : Int) < s.latSteps) (hj : (j : Int) < s.lonSteps) (area : ℚ) :
    computeCell globe sector s samples area i j =
      { cells := samples.cells.put i j (cellAt globe sector s i j)
        elevations := ((samples.elevations.put i j (nodeAt globe sector s i j)).put i (j + 1)
          (nodeAt globe sector s i (j + 1))).put (i + 1) j (nodeAt globe sector s (i + 1) j)
        area := some (area + (cellAt globe sector s i j).surfaceArea) } := by
  have hSW := h.getD (i := i) (j := j) (by omega) (by omega)
  have hSE := h.getD (i := i) (j := j + 1) (by omega) (by push_cast; omega)
  have hNW := h.getD (i := i + 1) (j := j) (by push_cast; omega) (by omega)
  have hlon : sector.minLongitude.radians + s.lonStepRadians * j + s.lonStepRadians =
      sector.minLongitude.radians + s.lonStepRadians * ((j + 1 : Nat) : ℚ) := by
    push_cast
    ring
  have hlat : sector.minLatitude.radians + s.latStepRadians * i + s.latStepRadians =
      sector.minLatitude.radians + s.latStepRadians * ((i + 1 : Nat) : ℚ) := by
    push_cast
    ring
  rw [nodeAt] at hSW hSE hNW
  rw [← hlon] at hSE
  rw [← hlat] at hNW
  simp only [computeCell, hSW, hSE, hNW]
  rw [cellAt, cellSector, nodeAt, nodeAt, nodeAt, hlon, hlat]

/-- A selected cell adds its area and keeps the caches coherent. -/
theorem selectCell_eq (hcells : samples.cells.Coherent (cellAt globe sector s) s.latSteps s.lonSteps)
    (helevations : samples.elevations.Coherent (nodeAt globe sector s) (s.latSteps + 1) (s.lonSteps + 1))
    (hi : (i : Int) < s.latSteps) (hj : (j : Int) < s.lonSteps) (area : ℚ) :
    (selectCell globe sector s samples area i j).cells.Coherent (cellAt globe sector s) s.latSteps s.lonSteps ∧
      (selectCell globe sector s samples area i j).elevations.Coherent (nodeAt globe sector s) (s.latSteps + 1)
        (s.lonSteps + 1) ∧
      (selectCell globe sector s samples area i j).area = some (area + (cellAt globe sector s i j).surfaceArea) := by
  have hcompute := computeCell_eq helevations hi hj area
  have hcoherent : (computeCell globe sector s samples area i j).cells.Coherent (cellAt globe sector s) s.latSteps
        s.lonSteps ∧
      (computeCell globe sector s samples area i j).elevations.Coherent (nodeAt globe sector s) (s.latSteps + 1)
        (s.lonSteps + 1) ∧
      (computeCell globe sector s samples area i j).area = some (area + (cellAt globe sector s i j).surfaceArea) := by
    rw [hcompute]
    exact ⟨hcells.put i j, ((helevations.put i j).put i (j + 1)).put (i + 1) j, rfl⟩
  rw [selectCell]
  rcases hcells.get? hi hj with hget | hget <;> simp only [hget]
  · exact hcoherent
  · by_cases hsurface : (cellAt globe sector s i j).surfaceArea ≠ -1
    · rw [Option.filter_some, if_pos (decide_eq_true hsurface)]
      exact ⟨hcells, helevations, rfl⟩
    · rw [Option.filter_some, if_neg (by simpa using hsurface)]
      exact hcoherent

/-- The loop over the cells adds what the settings say, whatever is cached. -/
theorem sampleCell_eq (path : List LatLon)
    (hcells : samples.cells.Coherent (cellAt globe sector s) s.latSteps s.lonSteps)
    (helevations : samples.elevations.Coherent (nodeAt globe sector s) (s.latSteps + 1) (s.lonSteps + 1))
    {cell : Nat × Nat} (hi : (cell.1 : Int) < s.latSteps) (hj : (cell.2 : Int) < s.lonSteps) {area : ℚ}
    (harea : samples.area = some area) :
    (sampleCell globe sector s path samples cell).cells.Coherent (cellAt globe sector s) s.latSteps s.lonSteps ∧
      (sampleCell globe sector s path samples cell).elevations.Coherent (nodeAt globe sector s) (s.latSteps + 1)
        (s.lonSteps + 1) ∧
      (sampleCell globe sector s path samples cell).area = some (addCell globe sector s path area cell) := by
  simp only [sampleCell, harea]
  by_cases hinside : LatLon.isLocationInside (cellSector sector s cell.1 cell.2).getCentroid path = true
  · rw [addCell, if_pos hinside]
    rw [cellSector] at hinside
    rw [if_pos hinside]
    exact selectCell_eq hcells helevations hi hj area
  · rw [addCell, if_neg hinside]
    rw [cellSector] at hinside
    rw [if_neg hinside]
    exact ⟨hcells, helevations, harea⟩

theorem sampleCells_eq (path : List LatLon) (samples : Samples) {cells : List (Nat × Nat)}
    (hin : ∀ cell ∈ cells, (cell.1 : Int) < s.latSteps ∧ (cell.2 : Int) < s.lonSteps)
    (hcells : samples.cells.Coherent (cellAt globe sector s) s.latSteps s.lonSteps)
    (helevations : samples.elevations.Coherent (nodeAt globe sector s) (s.latSteps + 1) (s.lonSteps + 1)) {area : ℚ}
    (harea : samples.area = some area) :
    (cells.foldl (sampleCell globe sector s path) samples).cells.Coherent
    (cellAt globe sector s) s.latSteps s.lonSteps ∧
      (cells.foldl (sampleCell globe sector s path) samples).elevations.Coherent (nodeAt globe sector s)
        (s.latSteps + 1) (s.lonSteps + 1) ∧
      (cells.foldl (sampleCell globe sector s path) samples).area =
        some (cells.foldl (addCell globe sector s path) area) := by
  induction cells generalizing samples area with
  | nil => exact ⟨hcells, helevations, harea⟩
  | cons cell cells ih =>
    obtain ⟨hi, hj⟩ := hin cell List.mem_cons_self
    obtain ⟨hcells', helevations', harea'⟩ := sampleCell_eq path hcells helevations hi hj harea
    exact ih _ (fun c hc => hin c (List.mem_cons_of_mem _ hc)) hcells' helevations' harea'

end

/-- Where an array one longer can be allocated, its length did not wrap. -/
theorem int_succ {n : Int} (h0 : 0 ≤ n) (hn : n < 2 ^ 31) (h : 0 ≤ int (n + 1)) : int (n + 1) = n + 1 := by
  by_cases hlt : n + 1 < 2 ^ 31
  · exact int_eq (by omega) hlt
  · have := int_overflow (x := n + 1) (by omega) (by omega)
    omega

theorem sampling_lt (math : JavaMath) (sector : Sector) (steps : ℚ) :
    (sampling math sector steps).latSteps < 2 ^ 31 ∧ (sampling math sector steps).lonSteps < 2 ^ 31 :=
  ⟨int_lt _, int_lt _⟩

/-- Filling the caches of the sampling grid, from what is cached. -/
theorem computeSurfaceArea_eq {m : AreaMeasurer} (h : Coherent globe m) :
    (m.computeSurfaceAreaSampling globe m.areaTerrainSamplingSteps).2 = m.settings.surfaceArea globe ∧
      Coherent globe (m.computeSurfaceAreaSampling globe m.areaTerrainSamplingSteps).1 ∧
      (m.computeSurfaceAreaSampling globe m.areaTerrainSamplingSteps).1.settings = m.settings := by
  have hbound := getBoundingSector_eq h.sector_eq
  have hcoherent : Coherent globe { m with sector := m.getBoundingSector } := { h with sector_eq := hbound }
  cases hs : m.settings.sector with
  | none =>
    have hcompute : m.computeSurfaceAreaSampling globe m.areaTerrainSamplingSteps =
        ({ m with sector := m.getBoundingSector }, some (-1)) := by
      simp only [computeSurfaceAreaSampling, hbound, hs]
    rw [hcompute, Settings.surfaceArea, hs]
    exact ⟨rfl, hcoherent, rfl⟩
  | some sector =>
    by_cases hclosed : m.settings.isClosedShape = true
    · have hpath := coherent_subdivided h true
      generalize hs' : sampling globe.math sector m.areaTerrainSamplingSteps = s
      have hlt := sampling_lt globe.math sector m.areaTerrainSamplingSteps
      rw [hs'] at hlt
      -- the cells, as they are cached or allocated
      have hcells : ∀ cells, m.sectorCells.or (Table.new s.latSteps s.lonSteps) = some cells →
          cells.Coherent (cellAt globe sector s) s.latSteps s.lonSteps := by
        refine fun cells => Table.coherent_or fun cells' hc => ?_
        obtain ⟨sector', hsector, hcells⟩ := h.sectorCells_eq cells' hc
        obtain rfl := Option.some.inj (hs.symm.trans hsector)
        exact hs' ▸ hcells
      have helevations : ∀ elevations,
          m.sectorElevations.or (Table.new (int (s.latSteps + 1)) (int (s.lonSteps + 1))) = some elevations →
          elevations.Coherent (nodeAt globe sector s) (int (s.latSteps + 1)) (int (s.lonSteps + 1)) := by
        refine fun elevations => Table.coherent_or fun elevations' he => ?_
        obtain ⟨sector', hsector, helevations⟩ := h.sectorElevations_eq elevations' he
        obtain rfl := Option.some.inj (hs.symm.trans hsector)
        exact hs' ▸ helevations
      have hspec : m.settings.surfaceArea globe =
          if s.Allocates then
            some ((Lib.Grid.cells s.latSteps.toNat s.lonSteps.toNat).foldl
              (addCell globe sector s (m.settings.areaPath globe)) 0)
          else none := by
        rw [Settings.surfaceArea, hs, ← hs']
        exact if_neg (not_not_intro hclosed)
      cases hc : m.sectorCells.or (Table.new s.latSteps s.lonSteps) with
      | none =>
        have hcompute : m.computeSurfaceAreaSampling globe m.areaTerrainSamplingSteps =
            ({ m with sector := m.getBoundingSector, subdividedPositions := some (m.subdivided globe true) },
              none) := by
          simp only [computeSurfaceAreaSampling, hbound, hs, hs', hc]
          exact if_neg (not_not_intro hclosed)
        obtain ⟨-, hnew⟩ := Option.or_eq_none_iff.1 hc
        rw [hcompute, hspec, if_neg fun hall => by
          have := Table.new_eq_none.1 hnew
          have := hall.1
          have := hall.2.1
          omega]
        exact ⟨rfl, hpath, rfl⟩
      | some cells =>
        have hcells' : ∀ cells', some cells = some cells' → ∃ sector, m.settings.sector = some sector ∧
            let s := sampling globe.math sector m.areaTerrainSamplingSteps
            cells'.Coherent (cellAt globe sector s) s.latSteps s.lonSteps := by
          intro cells' heq
          obtain rfl := Option.some.inj heq
          exact ⟨sector, hs, hs' ▸ hcells cells hc⟩
        cases he : m.sectorElevations.or (Table.new (int (s.latSteps + 1)) (int (s.lonSteps + 1))) with
        | none =>
          have hcompute : m.computeSurfaceAreaSampling globe m.areaTerrainSamplingSteps =
              ({ m with
                sector := m.getBoundingSector
                subdividedPositions := some (m.subdivided globe true)
                sectorCells := some cells }, none) := by
            simp only [computeSurfaceAreaSampling, hbound, hs, hs', hc, he]
            exact if_neg (not_not_intro hclosed)
          obtain ⟨-, hnew⟩ := Option.or_eq_none_iff.1 he
          rw [hcompute, hspec, if_neg fun hall => by
            have := Table.new_eq_none.1 hnew
            have := hall.2.2.1
            have := hall.2.2.2
            omega]
          exact ⟨rfl, { hpath with sectorCells_eq := hcells' }, rfl⟩
        | some elevations =>
          have hc0 := (hcells cells hc).nonneg
          have he0 := (helevations elevations he).nonneg
          have hlat := int_succ hc0.1 hlt.1 he0.1
          have hlon := int_succ hc0.2 hlt.2 he0.2
          have hnodes := helevations elevations he
          rw [hlat, hlon] at hnodes
          have hin : ∀ cell ∈ Lib.Grid.cells s.latSteps.toNat s.lonSteps.toNat,
              (cell.1 : Int) < s.latSteps ∧ (cell.2 : Int) < s.lonSteps := by
            intro cell hcell
            have := Lib.Grid.mem_cells.1 hcell
            omega
          obtain ⟨hrcells, hrelevations, hrarea⟩ := sampleCells_eq (m.settings.areaPath globe)
            ⟨cells, elevations, some 0⟩ hin (hcells cells hc) hnodes rfl
          generalize hr : (Lib.Grid.cells s.latSteps.toNat s.lonSteps.toNat).foldl
            (sampleCell globe sector s (m.settings.areaPath globe)) ⟨cells, elevations, some 0⟩ = r
            at hrcells hrelevations hrarea
          have hcompute : m.computeSurfaceAreaSampling globe m.areaTerrainSamplingSteps =
              ({ m with
                sector := m.getBoundingSector
                subdividedPositions := some (m.subdivided globe true)
                sectorCells := some r.cells
                sectorElevations := some r.elevations }, r.area) := by
            simp only [computeSurfaceAreaSampling, hbound, hs, hs', hc, he, ← hr, ← subdivided_eq h true]
            exact if_neg (not_not_intro hclosed)
          rw [hcompute, hspec, if_pos ⟨hc0.1, hc0.2, he0.1, he0.2⟩]
          refine ⟨hrarea, { hpath with sectorCells_eq := ?_, sectorElevations_eq := ?_ }, rfl⟩
          · intro cells' heq
            obtain rfl := Option.some.inj heq
            exact ⟨sector, hs, hs' ▸ hrcells⟩
          · intro elevations' heq
            obtain rfl := Option.some.inj heq
            refine ⟨sector, hs, ?_⟩
            simp only [hs', hlat, hlon]
            exact hrelevations
    · have hcompute : m.computeSurfaceAreaSampling globe m.areaTerrainSamplingSteps =
          ({ m with sector := m.getBoundingSector }, some (-1)) := by
        simp only [computeSurfaceAreaSampling, hbound, hs]
        exact if_pos hclosed
      have hspec : m.settings.surfaceArea globe = some (-1) := by
        rw [Settings.surfaceArea, hs]
        exact if_pos hclosed
      rw [hcompute, hspec]
      exact ⟨rfl, hcoherent, rfl⟩

theorem ask_getSurfaceArea {m : AreaMeasurer} (h : Coherent globe m) :
    (m.getSurfaceArea globe).2 = m.settings.surfaceArea globe ∧ Coherent globe (m.getSurfaceArea globe).1 ∧
      (m.getSurfaceArea globe).1.settings = m.settings := by
  rw [getSurfaceArea]
  split
  · obtain ⟨harea, hcoherent, hsettings⟩ := computeSurfaceArea_eq h
    cases hr : (m.computeSurfaceAreaSampling globe m.areaTerrainSamplingSteps).2 with
    | none =>
      simp only [hr]
      exact ⟨hr.symm.trans harea, hcoherent, hsettings⟩
    | some area =>
      simp only [hr]
      refine ⟨hr.symm.trans harea, { hcoherent with surfaceArea_eq := fun _ => ?_ }, hsettings⟩
      exact (hr.symm.trans harea).trans (congrArg (Settings.surfaceArea globe) hsettings.symm)
  · rename_i hge
    exact ⟨h.surfaceArea_eq (le_of_not_gt hge), h, rfl⟩

/-! ## Sequences of calls -/

/-- A query returns what the settings say, and keeps them. -/
theorem ask_eq {m : AreaMeasurer} (h : Coherent globe m) (query : Query) :
    (ask globe m query).2 = m.settings.answer globe query ∧ Coherent globe (ask globe m query).1 ∧
      (ask globe m query).1.settings = m.settings := by
  cases query with
  | getLength => exact ask_getLength h
  | getSurfaceArea => exact ask_getSurfaceArea h
  | getProjectedArea => exact ask_getProjectedArea h

theorem coherent_call {m : AreaMeasurer} (h : Coherent globe m) (c : Call) : Coherent globe (call globe m c) := by
  cases c with
  | setPositions positions => exact coherent_setPositions h positions
  | setFollowTerrain followTerrain => exact coherent_setFollowTerrain h followTerrain
  | setPathType pathType => exact coherent_setPathType h pathType
  | setMaxSegmentLength length => exact coherent_setMaxSegmentLength h length
  | setLengthTerrainSamplingSteps steps => exact coherent_setLengthTerrainSamplingSteps h steps
  | setAreaTerrainSamplingSteps steps => exact coherent_setAreaTerrainSamplingSteps h steps
  | query query => exact (ask_eq h query).2.1

variable (globe) in
theorem coherent_after (calls : List Call) : Coherent globe (after globe calls) := by
  have hrun : ∀ m : AreaMeasurer, Coherent globe m → Coherent globe (calls.foldl (call globe) m) := by
    induction calls with
    | nil => exact fun _ h => h
    | cons c calls ih => exact fun m h => ih _ (coherent_call h c)
  exact hrun new coherent_new

/-- The calls that give a new measurer some settings. -/
def Settings.calls (s : Settings) : List Call :=
  [.setPositions s.positions, .setFollowTerrain s.followTerrain, .setPathType s.pathType,
    .setMaxSegmentLength s.maxSegmentLength, .setLengthTerrainSamplingSteps s.lengthTerrainSamplingSteps,
    .setAreaTerrainSamplingSteps s.areaTerrainSamplingSteps]

variable (globe) in
/-- A new measurer with the settings of another. -/
def fresh (m : AreaMeasurer) : AreaMeasurer := after globe m.settings.calls

theorem settings_setPositions (m : AreaMeasurer) {positions : Option (List Position)}
    (h : positions = none → m.positions = none) :
    (m.setPositions positions).settings = { m.settings with positions := positions } := by
  cases positions with
  | none => exact congrArg (fun p => { m.settings with positions := p }) (h rfl)
  | some positions =>
    rw [setPositions]
    simp only
    split <;> rfl

theorem settings_setFollowTerrain (m : AreaMeasurer) (followTerrain : Bool) :
    (m.setFollowTerrain followTerrain).settings = { m.settings with followTerrain := followTerrain } := by
  rw [setFollowTerrain]
  split
  · rfl
  · rename_i heq
    rw [ne_eq, not_not] at heq
    rw [← heq]
    rfl

theorem settings_setPathType (m : AreaMeasurer) (pathType : Int) :
    (m.setPathType pathType).settings = { m.settings with pathType := pathType } := by
  rw [setPathType]
  split
  · rfl
  · rename_i heq
    rw [ne_eq, not_not] at heq
    rw [← heq]
    rfl

theorem settings_setMaxSegmentLength (m : AreaMeasurer) {length : ℚ} (h : 0 < length) :
    (m.setMaxSegmentLength length).settings = { m.settings with maxSegmentLength := length } := by
  rw [setMaxSegmentLength, if_neg (not_le_of_gt h)]
  split
  · rfl
  · rename_i heq
    rw [ne_eq, not_not] at heq
    rw [← heq]
    rfl

theorem settings_setLengthTerrainSamplingSteps (m : AreaMeasurer) {steps : ℚ} (h : 1 ≤ steps) :
    (m.setLengthTerrainSamplingSteps steps).settings = { m.settings with lengthTerrainSamplingSteps := steps } := by
  rw [setLengthTerrainSamplingSteps, if_neg (not_lt_of_ge h)]
  split
  · rfl
  · rename_i heq
    rw [ne_eq, not_not] at heq
    rw [← heq]
    rfl

theorem settings_setAreaTerrainSamplingSteps (m : AreaMeasurer) {steps : ℚ} (h : 1 ≤ steps) :
    (m.setAreaTerrainSamplingSteps steps).settings = { m.settings with areaTerrainSamplingSteps := steps } := by
  rw [setAreaTerrainSamplingSteps, if_neg (not_lt_of_ge h)]
  split
  · rfl
  · rename_i heq
    rw [ne_eq, not_not] at heq
    rw [← heq]
    rfl

theorem settings_fresh {m : AreaMeasurer} (h : Coherent globe m) : (fresh globe m).settings = m.settings := by
  show ((((((new.setPositions m.positions).setFollowTerrain m.followTerrain).setPathType m.pathType).setMaxSegmentLength
    m.maxSegmentLength).setLengthTerrainSamplingSteps m.lengthTerrainSamplingSteps).setAreaTerrainSamplingSteps
    m.areaTerrainSamplingSteps).settings = _
  rw [settings_setAreaTerrainSamplingSteps _ h.areaSteps_ge,
    settings_setLengthTerrainSamplingSteps _ h.lengthSteps_ge,
    settings_setMaxSegmentLength _ h.maxSegmentLength_pos, settings_setPathType, settings_setFollowTerrain,
    settings_setPositions _ fun _ => rfl]
  rfl

end WorldWind.Measure
