import WorldWind.Geom
import WorldWind.Lib.Numerals
/-!
# `Sector.splitBoundingSectors`

The bounds of a path over the date line, as a sector on each side of it. One
pass over the locations keeps the least eastern and the greatest western
longitude. A path that also crosses the prime meridian sets both to zero.
`splitBoundingSectors_covers_iff` says which paths are covered.
-/

namespace WorldWind.Sectors

open Geom
open scoped Lib.Numerals

/-- `Math.signum`. -/
def signum (x : ℚ) : ℚ := if 0 < x then 1 else if x < 0 then -1 else 0

/-- The loop of `LatLon.locationsCrossDateLine`, after `pos`. -/
def crossDateLineFrom (pos : LatLon) : List LatLon → Bool
  | [] => false
  | posNext :: locations =>
    let delta := |pos.longitude.degrees - posNext.longitude.degrees|
    if signum pos.longitude.degrees ≠ signum posNext.longitude.degrees ∧ delta > 180 ∧ delta < 360 then true
    else crossDateLineFrom posNext locations

def locationsCrossDateLine : List LatLon → Bool
  | [] => false
  | pos :: locations => crossDateLineFrom pos locations

/-- The four variables of the loop. -/
structure Extremes where
  minLat : ℚ
  minLon : ℚ
  maxLat : ℚ
  maxLon : ℚ
  deriving DecidableEq

/-- The ends are on different sides of the prime meridian, and it is between them. -/
def crossesZero (lastLon lon : ℚ) : Bool := signum lon ≠ signum lastLon ∧ |lon - lastLon| < 180

/-- The body of the loop. -/
def visit (e : Extremes) (lastLocation : Option LatLon) (ll : LatLon) : Extremes :=
  let lat := ll.latitude.degrees
  let lon := ll.longitude.degrees
  let minLat := if lat < e.minLat then lat else e.minLat
  let maxLat := if lat > e.maxLat then lat else e.maxLat
  let minLon := if lon ≥ 0 ∧ lon < e.minLon then lon else e.minLon
  let maxLon := if lon ≤ 0 ∧ lon > e.maxLon then lon else e.maxLon
  match lastLocation with
  | none => ⟨minLat, minLon, maxLat, maxLon⟩
  | some last => if crossesZero last.longitude.degrees lon then ⟨minLat, 0, maxLat, 0⟩ else
      ⟨minLat, minLon, maxLat, maxLon⟩

def visitAll (e : Extremes) (lastLocation : Option LatLon) : List LatLon → Extremes
  | [] => e
  | ll :: locations => visitAll (visit e lastLocation ll) (some ll) locations

/-- None is `null`. The sectors are on the eastern and on the western hemisphere. -/
def splitBoundingSectors (locations : List LatLon) : Option (Sector × Sector) :=
  if locations = [] then none
  else
    let e := visitAll ⟨90, 180, -90, -180⟩ none locations
    if e.minLat = e.maxLat ∧ e.minLon = e.maxLon then none
    else some (Sector.fromDegrees e.minLat e.maxLat e.minLon 180,
      Sector.fromDegrees e.minLat e.maxLat (-180) e.maxLon)

/-! ## What is to be covered -/

/-- Each location and the next. -/
def segments (locations : List LatLon) : List (LatLon × LatLon) := locations.zip locations.tail

/-- The segment goes over the date line. -/
def OverDateLine (a b : LatLon) : Prop :=
  signum a.longitude.degrees ≠ signum b.longitude.degrees ∧ 180 < |a.longitude.degrees - b.longitude.degrees|

instance (a b : LatLon) : Decidable (OverDateLine a b) := inferInstanceAs (Decidable (_ ∧ _))

/-- A longitude as an angle east of the prime meridian. -/
def eastward (lon : ℚ) : ℚ := if lon < 0 then lon + 360 else lon

noncomputable section

/-- The latitude of a point of a segment. -/
def latitudeAt (a b : LatLon) (t : ℝ) : ℝ := a.latitude.degrees + t * (b.latitude.degrees - a.latitude.degrees : ℚ)

/-- The longitude of a point of a segment. -/
def longitudeAt (a b : LatLon) (t : ℝ) : ℝ :=
  if OverDateLine a b then
    let lon : ℝ := eastward a.longitude.degrees +
      t * (eastward b.longitude.degrees - eastward a.longitude.degrees : ℚ)
    if 180 < lon then lon - 360 else lon
  else a.longitude.degrees + t * (b.longitude.degrees - a.longitude.degrees : ℚ)

end

/-- The point is in the sector. -/
def Inside (sector : Sector) (lat lon : ℝ) : Prop :=
  (sector.minLatitude.degrees ≤ lat ∧ lat ≤ sector.maxLatitude.degrees) ∧
    (sector.minLongitude.degrees ≤ lon ∧ lon ≤ sector.maxLongitude.degrees)

/-- The sectors contain every location and every point of every segment. -/
structure Covers (sectors : Sector × Sector) (locations : List LatLon) : Prop where
  location : ∀ ll ∈ locations, Inside sectors.1 ll.latitude.degrees ll.longitude.degrees ∨
    Inside sectors.2 ll.latitude.degrees ll.longitude.degrees
  segment : ∀ p ∈ segments locations, ∀ t : ℝ, 0 ≤ t → t ≤ 1 →
    Inside sectors.1 (latitudeAt p.1 p.2 t) (longitudeAt p.1 p.2 t) ∨
      Inside sectors.2 (latitudeAt p.1 p.2 t) (longitudeAt p.1 p.2 t)

/-- A latitude and a longitude. -/
structure Valid (ll : LatLon) : Prop where
  south : -90 ≤ ll.latitude.degrees
  north : ll.latitude.degrees ≤ 90
  west : -180 ≤ ll.longitude.degrees
  east : ll.longitude.degrees ≤ 180

/-- The path comes to the prime meridian: at a location, or on a segment of less
than 180 degrees between the hemispheres. -/
def MeetsZero (locations : List LatLon) : Prop :=
  (∃ ll ∈ locations, ll.longitude.degrees = 0) ∨
    ∃ p ∈ segments locations, crossesZero p.1.longitude.degrees p.2.longitude.degrees = true

instance (locations : List LatLon) : Decidable (MeetsZero locations) := inferInstanceAs (Decidable (_ ∨ _))

/-! ## The loop -/

theorem segments_append (seen : List LatLon) (ll : LatLon) :
    segments (seen ++ [ll]) = segments seen ++ (seen.getLast?.toList.map fun last => (last, ll)) := by
  induction seen with
  | nil => rfl
  | cons a seen ih =>
    cases seen with
    | nil => rfl
    | cons b seen =>
      have hcons : ∀ x y (l : List LatLon), segments (x :: y :: l) = (x, y) :: segments (y :: l) := fun _ _ _ => rfl
      rw [List.cons_append, List.cons_append, hcons, ← List.cons_append, ih, hcons, List.getLast?_cons_cons,
        List.cons_append]

theorem meetsZero_append (seen : List LatLon) (ll : LatLon) :
    MeetsZero (seen ++ [ll]) ↔ MeetsZero seen ∨ ll.longitude.degrees = 0 ∨
      ∃ last, seen.getLast? = some last ∧ crossesZero last.longitude.degrees ll.longitude.degrees = true := by
  simp only [MeetsZero, segments_append, List.mem_append, List.mem_singleton, List.mem_map, Option.mem_toList]
  constructor
  · rintro (⟨l, hl | rfl, h⟩ | ⟨p, hp | ⟨last, hlast, rfl⟩, h⟩)
    · exact .inl (.inl ⟨l, hl, h⟩)
    · exact .inr (.inl h)
    · exact .inl (.inr ⟨p, hp, h⟩)
    · exact .inr (.inr ⟨last, hlast, h⟩)
  · rintro ((⟨l, hl, h⟩ | ⟨p, hp, h⟩) | h | ⟨last, hlast, h⟩)
    · exact .inl ⟨l, .inl hl, h⟩
    · exact .inr ⟨p, .inl hp, h⟩
    · exact .inl ⟨ll, .inr rfl, h⟩
    · exact .inr ⟨_, .inr ⟨last, hlast, rfl⟩, h⟩

/-- What the four variables say of the locations that were visited. -/
structure Summary (seen : List LatLon) (e : Extremes) : Prop where
  lat_low : ∀ ll ∈ seen, e.minLat ≤ ll.latitude.degrees
  lat_high : ∀ ll ∈ seen, ll.latitude.degrees ≤ e.maxLat
  minLat : e.minLat = 90 ∨ ∃ ll ∈ seen, ll.latitude.degrees = e.minLat
  maxLat : e.maxLat = -90 ∨ ∃ ll ∈ seen, ll.latitude.degrees = e.maxLat
  east : ∀ ll ∈ seen, 0 ≤ ll.longitude.degrees → e.minLon ≤ ll.longitude.degrees
  west : ∀ ll ∈ seen, ll.longitude.degrees ≤ 0 → ll.longitude.degrees ≤ e.maxLon
  minLon_nonneg : 0 ≤ e.minLon
  maxLon_nonpos : e.maxLon ≤ 0
  minLon_zero : e.minLon = 0 ↔ MeetsZero seen
  maxLon_zero : e.maxLon = 0 ↔ MeetsZero seen

theorem summary_nil : Summary [] ⟨90, 180, -90, -180⟩ := by
  have hnot : ¬ MeetsZero [] := by simp [MeetsZero, segments]
  refine ⟨by simp, by simp, .inl rfl, .inl rfl, by simp, by simp, by norm_num, by norm_num, ?_, ?_⟩
  · simp [hnot]
  · simp [hnot]

/-- The segment to the location sets the longitudes to zero. -/
def resets (lastLocation : Option LatLon) (ll : LatLon) : Prop :=
  ∃ last, lastLocation = some last ∧ crossesZero last.longitude.degrees ll.longitude.degrees = true

theorem visit_lat (e : Extremes) (lastLocation : Option LatLon) (ll : LatLon) :
    (visit e lastLocation ll).minLat = (if ll.latitude.degrees < e.minLat then ll.latitude.degrees else e.minLat) ∧
      (visit e lastLocation ll).maxLat =
        if ll.latitude.degrees > e.maxLat then ll.latitude.degrees else e.maxLat := by
  cases lastLocation with
  | none => exact ⟨rfl, rfl⟩
  | some last =>
    simp only [visit]
    split <;> exact ⟨rfl, rfl⟩

theorem visit_lon_of_resets (e : Extremes) {lastLocation : Option LatLon} {ll : LatLon} (h : resets lastLocation ll) :
    (visit e lastLocation ll).minLon = 0 ∧ (visit e lastLocation ll).maxLon = 0 := by
  obtain ⟨last, rfl, hcross⟩ := h
  simp only [visit, if_pos hcross, and_self]

theorem visit_lon_of_not_resets (e : Extremes) {lastLocation : Option LatLon} {ll : LatLon}
    (h : ¬ resets lastLocation ll) :
    (visit e lastLocation ll).minLon =
        (if ll.longitude.degrees ≥ 0 ∧ ll.longitude.degrees < e.minLon then ll.longitude.degrees else e.minLon) ∧
      (visit e lastLocation ll).maxLon =
        if ll.longitude.degrees ≤ 0 ∧ ll.longitude.degrees > e.maxLon then ll.longitude.degrees else e.maxLon := by
  cases lastLocation with
  | none => exact ⟨rfl, rfl⟩
  | some last =>
    have hcross : ¬ crossesZero last.longitude.degrees ll.longitude.degrees = true := fun hc => h ⟨last, rfl, hc⟩
    simp only [visit, if_neg hcross, and_self]

/-- One more location keeps the summary. -/
theorem summary_visit {seen : List LatLon} {e : Extremes} (h : Summary seen e) (ll : LatLon) :
    Summary (seen ++ [ll]) (visit e seen.getLast? ll) := by
  obtain ⟨hminLat, hmaxLat⟩ := visit_lat e seen.getLast? ll
  have hmeets := meetsZero_append seen ll
  have hlatLow : ∀ l ∈ seen ++ [ll], (visit e seen.getLast? ll).minLat ≤ l.latitude.degrees := by
    intro l hl
    rw [hminLat]
    rcases List.mem_append.1 hl with hl | hl
    · have := h.lat_low l hl
      split <;> linarith
    · rw [List.mem_singleton.1 hl]
      split <;> linarith
  have hlatHigh : ∀ l ∈ seen ++ [ll], l.latitude.degrees ≤ (visit e seen.getLast? ll).maxLat := by
    intro l hl
    rw [hmaxLat]
    rcases List.mem_append.1 hl with hl | hl
    · have := h.lat_high l hl
      split <;> linarith
    · rw [List.mem_singleton.1 hl]
      split <;> linarith
  have hminLat' : (visit e seen.getLast? ll).minLat = 90 ∨
      ∃ l ∈ seen ++ [ll], l.latitude.degrees = (visit e seen.getLast? ll).minLat := by
    rw [hminLat]
    split
    · exact .inr ⟨ll, by simp, rfl⟩
    · exact h.minLat.imp_right fun ⟨l, hl, heq⟩ => ⟨l, List.mem_append_left _ hl, heq⟩
  have hmaxLat' : (visit e seen.getLast? ll).maxLat = -90 ∨
      ∃ l ∈ seen ++ [ll], l.latitude.degrees = (visit e seen.getLast? ll).maxLat := by
    rw [hmaxLat]
    split
    · exact .inr ⟨ll, by simp, rfl⟩
    · exact h.maxLat.imp_right fun ⟨l, hl, heq⟩ => ⟨l, List.mem_append_left _ hl, heq⟩
  by_cases hresets : resets seen.getLast? ll
  · obtain ⟨hminLon, hmaxLon⟩ := visit_lon_of_resets e hresets
    have hzero : MeetsZero (seen ++ [ll]) := hmeets.2 (.inr (.inr hresets))
    refine ⟨hlatLow, hlatHigh, hminLat', hmaxLat', ?_, ?_, hminLon.ge, hmaxLon.le, ?_, ?_⟩
    · rw [hminLon]
      exact fun _ _ hl => hl
    · rw [hmaxLon]
      exact fun _ _ hl => hl
    · exact ⟨fun _ => hzero, fun _ => hminLon⟩
    · exact ⟨fun _ => hzero, fun _ => hmaxLon⟩
  · obtain ⟨hminLon, hmaxLon⟩ := visit_lon_of_not_resets e hresets
    have hmeets' : MeetsZero (seen ++ [ll]) ↔ MeetsZero seen ∨ ll.longitude.degrees = 0 := by
      rw [hmeets]
      exact or_congr_right (or_iff_left hresets)
    have hmin := h.minLon_nonneg
    have hmax := h.maxLon_nonpos
    refine ⟨hlatLow, hlatHigh, hminLat', hmaxLat', fun l hl hlon => ?_, fun l hl hlon => ?_, ?_, ?_, ?_, ?_⟩
    · rw [hminLon]
      rcases List.mem_append.1 hl with hl | hl
      · have := h.east l hl hlon
        split_ifs with hlt <;> linarith
      · rw [List.mem_singleton.1 hl] at hlon ⊢
        split_ifs with hlt
        · exact le_refl _
        · exact not_lt.1 fun hlt' => hlt ⟨hlon, hlt'⟩
    · rw [hmaxLon]
      rcases List.mem_append.1 hl with hl | hl
      · have := h.west l hl hlon
        split_ifs with hlt <;> linarith
      · rw [List.mem_singleton.1 hl] at hlon ⊢
        split_ifs with hlt
        · exact le_refl _
        · exact not_lt.1 fun hlt' => hlt ⟨hlon, hlt'⟩
    · rw [hminLon]
      split_ifs with hlt
      · exact hlt.1
      · exact hmin
    · rw [hmaxLon]
      split_ifs with hlt
      · exact hlt.1
      · exact hmax
    · rw [hminLon, hmeets', ← h.minLon_zero]
      split_ifs with hlt
      · exact ⟨.inr, fun hor => hor.elim (fun h0 => by linarith [hlt.1, hlt.2]) id⟩
      · refine ⟨.inl, fun hor => hor.elim id fun h0 => ?_⟩
        by_contra hne
        exact hlt ⟨h0.ge, by rw [h0]; exact lt_of_le_of_ne hmin (Ne.symm hne)⟩
    · rw [hmaxLon, hmeets', ← h.maxLon_zero]
      split_ifs with hlt
      · exact ⟨.inr, fun hor => hor.elim (fun h0 => by linarith [hlt.1, hlt.2]) id⟩
      · refine ⟨.inl, fun hor => hor.elim id fun h0 => ?_⟩
        by_contra hne
        exact hlt ⟨h0.le, by rw [h0]; exact lt_of_le_of_ne hmax hne⟩

theorem summary_visitAll {seen : List LatLon} {e : Extremes} (h : Summary seen e) (locations : List LatLon) :
    Summary (seen ++ locations) (visitAll e seen.getLast? locations) := by
  induction locations generalizing seen e with
  | nil =>
    rw [List.append_nil]
    exact h
  | cons ll locations ih =>
    have hnext := ih (summary_visit h ll)
    rw [List.append_assoc, List.singleton_append] at hnext
    rw [visitAll]
    have hlast : (seen ++ [ll]).getLast? = some ll := by simp
    rwa [hlast] at hnext

/-! ## Coverage -/

theorem signum_pos {x : ℚ} (h : 0 < x) : signum x = 1 := if_pos h

theorem signum_neg {x : ℚ} (h : x < 0) : signum x = -1 := by
  rw [signum, if_neg h.not_gt, if_pos h]

theorem signum_ne {x y : ℚ} (hx : 0 < x) (hy : y < 0) : signum x ≠ signum y := by
  rw [signum_pos hx, signum_neg hy]
  norm_num

/-- A segment over the date line goes from one hemisphere to the other. -/
theorem OverDateLine.sides {a b : LatLon} (ha : Valid a) (hb : Valid b) (h : OverDateLine a b) :
    (0 < a.longitude.degrees ∧ b.longitude.degrees < 0) ∨ (a.longitude.degrees < 0 ∧ 0 < b.longitude.degrees) := by
  have hfar := h.2
  obtain ⟨-, -, ha1, ha2⟩ := ha
  obtain ⟨-, -, hb1, hb2⟩ := hb
  rcases lt_abs.1 hfar with hfar | hfar
  · left
    constructor <;> linarith
  · right
    constructor <;> linarith

theorem mem_of_mem_segments {locations : List LatLon} {p : LatLon × LatLon} (h : p ∈ segments locations) :
    p.1 ∈ locations ∧ p.2 ∈ locations := by
  obtain ⟨h1, h2⟩ := List.of_mem_zip (show (p.1, p.2) ∈ locations.zip locations.tail from h)
  exact ⟨h1, List.mem_of_mem_tail h2⟩

/-- On one hemisphere, over the date line, or neither. -/
theorem segment_cases {a b : LatLon} (ha : a.longitude.degrees ≠ 0) (hb : b.longitude.degrees ≠ 0)
    (hnot : ¬ crossesZero a.longitude.degrees b.longitude.degrees = true)
    (hhalf : |a.longitude.degrees - b.longitude.degrees| ≠ 180) :
    (0 < a.longitude.degrees ∧ 0 < b.longitude.degrees ∧ ¬ OverDateLine a b) ∨
      (a.longitude.degrees < 0 ∧ b.longitude.degrees < 0 ∧ ¬ OverDateLine a b) ∨ OverDateLine a b := by
  have hdiffer : signum a.longitude.degrees ≠ signum b.longitude.degrees → OverDateLine a b := by
    intro hne
    refine ⟨hne, lt_of_le_of_ne ?_ (Ne.symm hhalf)⟩
    by_contra hlt
    refine hnot ?_
    rw [crossesZero, decide_eq_true_eq, abs_sub_comm]
    exact ⟨Ne.symm hne, not_le.1 hlt⟩
  have hsame : signum a.longitude.degrees = signum b.longitude.degrees → ¬ OverDateLine a b := fun h h' => h'.1 h
  rcases lt_or_gt_of_ne ha with ha | ha <;> rcases lt_or_gt_of_ne hb with hb | hb
  · exact .inr (.inl ⟨ha, hb, hsame (by rw [signum_neg ha, signum_neg hb])⟩)
  · exact .inr (.inr (hdiffer (signum_ne hb ha).symm))
  · exact .inr (.inr (hdiffer (signum_ne ha hb)))
  · exact .inl ⟨ha, hb, hsame (by rw [signum_pos ha, signum_pos hb])⟩

/-- A point between two numbers is between their bounds. -/
theorem between {lo hi x y : ℝ} {t : ℝ} (h0 : 0 ≤ t) (h1 : t ≤ 1) (hx : lo ≤ x ∧ x ≤ hi) (hy : lo ≤ y ∧ y ≤ hi) :
    lo ≤ x + t * (y - x) ∧ x + t * (y - x) ≤ hi := by
  obtain ⟨hx1, hx2⟩ := hx
  obtain ⟨hy1, hy2⟩ := hy
  constructor <;> nlinarith

theorem latitudeAt_between {locations : List LatLon} {e : Extremes} (h : Summary locations e) {p : LatLon × LatLon}
    (hp : p ∈ segments locations) {t : ℝ} (h0 : 0 ≤ t) (h1 : t ≤ 1) :
    (e.minLat : ℝ) ≤ latitudeAt p.1 p.2 t ∧ latitudeAt p.1 p.2 t ≤ e.maxLat := by
  obtain ⟨hp1, hp2⟩ := mem_of_mem_segments hp
  rw [latitudeAt, Rat.cast_sub]
  exact between h0 h1 ⟨by exact_mod_cast h.lat_low _ hp1, by exact_mod_cast h.lat_high _ hp1⟩
    ⟨by exact_mod_cast h.lat_low _ hp2, by exact_mod_cast h.lat_high _ hp2⟩

theorem eastward_range {a : LatLon} (ha : Valid a) :
    (0 : ℝ) ≤ (eastward a.longitude.degrees : ℚ) ∧ ((eastward a.longitude.degrees : ℚ) : ℝ) ≤ 360 := by
  have hwest := ha.west
  have heast := ha.east
  have hrange : 0 ≤ eastward a.longitude.degrees ∧ eastward a.longitude.degrees ≤ 360 := by
    rw [eastward]
    split_ifs with h <;> constructor <;> linarith
  exact ⟨by exact_mod_cast hrange.1, by exact_mod_cast hrange.2⟩

/-- No point of a segment is off the globe. -/
theorem longitudeAt_range {a b : LatLon} (ha : Valid a) (hb : Valid b) {t : ℝ} (h0 : 0 ≤ t) (h1 : t ≤ 1) :
    -180 ≤ longitudeAt a b t ∧ longitudeAt a b t ≤ 180 := by
  rw [longitudeAt]
  split_ifs with hover
  · dsimp only
    obtain ⟨h2, h3⟩ := between h0 h1 (eastward_range ha) (eastward_range hb)
    rw [Rat.cast_sub]
    split_ifs with h <;> constructor <;> linarith
  · rw [Rat.cast_sub]
    exact between h0 h1 ⟨by exact_mod_cast ha.west, by exact_mod_cast ha.east⟩
      ⟨by exact_mod_cast hb.west, by exact_mod_cast hb.east⟩

/-- The ends of a segment over the date line, as angles east of the prime meridian,
are between the bounds of the two hemispheres. -/
theorem eastward_between {a b : LatLon} (ha : Valid a) (hb : Valid b) {minLon maxLon : ℚ}
    (hpos : 0 < a.longitude.degrees) (hneg : b.longitude.degrees < 0) (hlow : minLon ≤ a.longitude.degrees)
    (hhigh : b.longitude.degrees ≤ maxLon) :
    ((minLon : ℝ) ≤ (eastward a.longitude.degrees : ℚ) ∧ ((eastward a.longitude.degrees : ℚ) : ℝ) ≤ maxLon + 360) ∧
      ((minLon : ℝ) ≤ (eastward b.longitude.degrees : ℚ) ∧
        ((eastward b.longitude.degrees : ℚ) : ℝ) ≤ maxLon + 360) := by
  have heast := ha.east
  have hwest := hb.west
  have ha' : eastward a.longitude.degrees = a.longitude.degrees := if_neg hpos.not_gt
  have hb' : eastward b.longitude.degrees = b.longitude.degrees + 360 := if_pos hneg
  have hrange : (minLon ≤ a.longitude.degrees ∧ a.longitude.degrees ≤ maxLon + 360) ∧
      (minLon ≤ b.longitude.degrees + 360 ∧ b.longitude.degrees + 360 ≤ maxLon + 360) := by
    refine ⟨⟨?_, ?_⟩, ?_, ?_⟩ <;> linarith
  rw [ha', hb']
  exact_mod_cast hrange

/-- Over the date line a point is east of the least eastern longitude, or west of
the greatest western one. -/
theorem longitudeAt_over {a b : LatLon} (ha : Valid a) (hb : Valid b) (hover : OverDateLine a b) {minLon maxLon : ℚ}
    (hlow : ∀ ll : LatLon, ll = a ∨ ll = b → 0 ≤ ll.longitude.degrees → minLon ≤ ll.longitude.degrees)
    (hhigh : ∀ ll : LatLon, ll = a ∨ ll = b → ll.longitude.degrees ≤ 0 → ll.longitude.degrees ≤ maxLon) {t : ℝ}
    (h0 : 0 ≤ t) (h1 : t ≤ 1) :
    ((minLon : ℝ) ≤ longitudeAt a b t ∧ longitudeAt a b t ≤ 180) ∨
      (-180 ≤ longitudeAt a b t ∧ longitudeAt a b t ≤ maxLon) := by
  have hends : ((minLon : ℝ) ≤ (eastward a.longitude.degrees : ℚ) ∧
      ((eastward a.longitude.degrees : ℚ) : ℝ) ≤ maxLon + 360) ∧
      ((minLon : ℝ) ≤ (eastward b.longitude.degrees : ℚ) ∧
        ((eastward b.longitude.degrees : ℚ) : ℝ) ≤ maxLon + 360) := by
    rcases hover.sides ha hb with ⟨hpos, hneg⟩ | ⟨hneg, hpos⟩
    · exact eastward_between ha hb hpos hneg (hlow a (.inl rfl) hpos.le) (hhigh b (.inr rfl) hneg.le)
    · exact (eastward_between hb ha hpos hneg (hlow b (.inr rfl) hpos.le) (hhigh a (.inl rfl) hneg.le)).symm
  obtain ⟨h2, h3⟩ := between h0 h1 hends.1 hends.2
  rw [longitudeAt, if_pos hover]
  dsimp only
  rw [Rat.cast_sub]
  split_ifs with h
  · right
    constructor <;> linarith
  · left
    constructor <;> linarith

/-- The sectors of the extremes. -/
def sectorsOf (e : Extremes) : Sector × Sector :=
  (Sector.fromDegrees e.minLat e.maxLat e.minLon 180, Sector.fromDegrees e.minLat e.maxLat (-180) e.maxLon)

theorem inside_sectorsOf (e : Extremes) (lat lon : ℝ) :
    (Inside (sectorsOf e).1 lat lon ∨ Inside (sectorsOf e).2 lat lon) ↔
      ((e.minLat : ℝ) ≤ lat ∧ lat ≤ e.maxLat) ∧
        (((e.minLon : ℝ) ≤ lon ∧ lon ≤ 180) ∨ (-180 ≤ lon ∧ lon ≤ e.maxLon)) := by
  simp only [Inside, sectorsOf, Sector.fromDegrees, Angle.fromDegrees]
  push_cast
  tauto

/-- The path varies in latitude if it comes to the prime meridian; if it does not,
no segment is exactly half way around the globe. -/
structure Coverable (locations : List LatLon) : Prop where
  varied : MeetsZero locations → ∃ a ∈ locations, ∃ b ∈ locations, a.latitude.degrees ≠ b.latitude.degrees
  no_half : ¬ MeetsZero locations → ∀ p ∈ segments locations, |p.1.longitude.degrees - p.2.longitude.degrees| ≠ 180

/-- The two minima and maxima are equal on a single latitude that the path leaves
at no place, and at the prime meridian. -/
theorem degenerate_iff {locations : List LatLon} {e : Extremes} (h : Summary locations e) (hne : locations ≠ [])
    (hvalid : ∀ ll ∈ locations, Valid ll) :
    (e.minLat = e.maxLat ∧ e.minLon = e.maxLon) ↔
      MeetsZero locations ∧ ¬ ∃ a ∈ locations, ∃ b ∈ locations, a.latitude.degrees ≠ b.latitude.degrees := by
  constructor
  · rintro ⟨hlat, hlon⟩
    have hzero : e.minLon = 0 := by
      have := h.minLon_nonneg
      have := h.maxLon_nonpos
      linarith
    refine ⟨h.minLon_zero.1 hzero, ?_⟩
    rintro ⟨a, ha, b, hb, hdiffer⟩
    have := h.lat_low a ha
    have := h.lat_high a ha
    have := h.lat_low b hb
    have := h.lat_high b hb
    exact hdiffer (by linarith)
  · rintro ⟨hmeets, hsame⟩
    refine ⟨?_, (h.minLon_zero.2 hmeets).trans (h.maxLon_zero.2 hmeets).symm⟩
    obtain ⟨ll, hll⟩ := List.exists_mem_of_ne_nil locations hne
    have hall : ∀ l ∈ locations, l.latitude.degrees = ll.latitude.degrees := by
      intro l hl
      by_contra hdiffer
      exact hsame ⟨l, hl, ll, hll, hdiffer⟩
    have hlow := h.lat_low ll hll
    have hhigh := h.lat_high ll hll
    have hsouth := (hvalid ll hll).south
    have hnorth := (hvalid ll hll).north
    have hmin : e.minLat = ll.latitude.degrees := by
      rcases h.minLat with hmin | ⟨l, hl, heq⟩
      · linarith
      · rw [← heq, hall l hl]
    have hmax : e.maxLat = ll.latitude.degrees := by
      rcases h.maxLat with hmax | ⟨l, hl, heq⟩
      · linarith
      · rw [← heq, hall l hl]
    rw [hmin, hmax]

/-- The sectors cover a path without a half turn, or one that comes to the prime
meridian. -/
theorem covers_sectorsOf {locations : List LatLon} {e : Extremes} (h : Summary locations e)
    (hvalid : ∀ ll ∈ locations, Valid ll)
    (hhalf : ¬ MeetsZero locations → ∀ p ∈ segments locations,
      |p.1.longitude.degrees - p.2.longitude.degrees| ≠ 180) :
    Covers (sectorsOf e) locations := by
  refine ⟨fun ll hll => (inside_sectorsOf e _ _).2 ⟨?_, ?_⟩, fun p hp t h0 h1 => (inside_sectorsOf e _ _).2 ⟨?_, ?_⟩⟩
  · exact ⟨by exact_mod_cast h.lat_low ll hll, by exact_mod_cast h.lat_high ll hll⟩
  · rcases le_total 0 ll.longitude.degrees with hlon | hlon
    · exact .inl ⟨by exact_mod_cast h.east ll hll hlon, by exact_mod_cast (hvalid ll hll).east⟩
    · exact .inr ⟨by exact_mod_cast (hvalid ll hll).west, by exact_mod_cast h.west ll hll hlon⟩
  · exact latitudeAt_between h hp h0 h1
  · obtain ⟨hp1, hp2⟩ := mem_of_mem_segments hp
    obtain ⟨hwest, heast⟩ := longitudeAt_range (hvalid _ hp1) (hvalid _ hp2) h0 h1
    by_cases hmeets : MeetsZero locations
    · rw [h.minLon_zero.2 hmeets, h.maxLon_zero.2 hmeets, Rat.cast_zero]
      rcases le_total 0 (longitudeAt p.1 p.2 t) with hlon | hlon
      · exact .inl ⟨hlon, heast⟩
      · exact .inr ⟨hwest, hlon⟩
    · have hne : ∀ ll ∈ locations, ll.longitude.degrees ≠ 0 := fun ll hll h0 => hmeets (.inl ⟨ll, hll, h0⟩)
      have hnot : ¬ crossesZero p.1.longitude.degrees p.2.longitude.degrees = true :=
        fun hc => hmeets (.inr ⟨p, hp, hc⟩)
      rcases segment_cases (hne _ hp1) (hne _ hp2) hnot (hhalf hmeets p hp) with
        ⟨hpos1, hpos2, hover⟩ | ⟨hneg1, hneg2, hover⟩ | hover
      · rw [longitudeAt, if_neg hover, Rat.cast_sub]
        exact .inl (between h0 h1 ⟨by exact_mod_cast h.east _ hp1 hpos1.le, by exact_mod_cast (hvalid _ hp1).east⟩
          ⟨by exact_mod_cast h.east _ hp2 hpos2.le, by exact_mod_cast (hvalid _ hp2).east⟩)
      · rw [longitudeAt, if_neg hover, Rat.cast_sub]
        exact .inr (between h0 h1 ⟨by exact_mod_cast (hvalid _ hp1).west, by exact_mod_cast h.west _ hp1 hneg1.le⟩
          ⟨by exact_mod_cast (hvalid _ hp2).west, by exact_mod_cast h.west _ hp2 hneg2.le⟩)
      · refine longitudeAt_over (hvalid _ hp1) (hvalid _ hp2) hover (fun ll hll => ?_) (fun ll hll => ?_) h0 h1
        · rcases hll with rfl | rfl
          · exact h.east _ hp1
          · exact h.east _ hp2
        · rcases hll with rfl | rfl
          · exact h.west _ hp1
          · exact h.west _ hp2

/-- Between two longitudes that are half a turn apart is the prime meridian. -/
theorem exists_zero_of_half {x y : ℚ} (hx : -180 ≤ x ∧ x ≤ 180) (hy : -180 ≤ y ∧ y ≤ 180) (h : |x - y| = 180) :
    ∃ t : ℚ, (0 ≤ t ∧ t ≤ 1) ∧ x + t * (y - x) = 0 := by
  rcases (abs_eq (by norm_num : (0 : ℚ) ≤ 180)).1 h with hd | hd
  · refine ⟨x / 180, ⟨div_nonneg (by linarith) (by norm_num), (div_le_one (by norm_num)).2 hx.2⟩, ?_⟩
    have hy' : y = x - 180 := by linarith
    rw [hy']
    ring
  · refine ⟨-x / 180, ⟨div_nonneg (by linarith) (by norm_num), (div_le_one (by norm_num)).2 (by linarith)⟩, ?_⟩
    have hy' : y = x + 180 := by linarith
    rw [hy']
    ring

/-- Half way around the globe a segment comes to the prime meridian, which no
sector then contains. -/
theorem not_covers_of_half {locations : List LatLon} {e : Extremes} (h : Summary locations e)
    (hmeets : ¬ MeetsZero locations) {p : LatLon × LatLon} (hp : p ∈ segments locations)
    (hhalf : |p.1.longitude.degrees - p.2.longitude.degrees| = 180) (hvalid : ∀ ll ∈ locations, Valid ll) :
    ¬ Covers (sectorsOf e) locations := by
  intro hcovers
  obtain ⟨hp1, hp2⟩ := mem_of_mem_segments hp
  have hv1 := hvalid _ hp1
  have hv2 := hvalid _ hp2
  have hover : ¬ OverDateLine p.1 p.2 := fun hover => hover.2.ne' hhalf
  obtain ⟨t, ⟨h0, h1⟩, hzero⟩ := exists_zero_of_half ⟨hv1.west, hv1.east⟩ ⟨hv2.west, hv2.east⟩ hhalf
  have hlon : longitudeAt p.1 p.2 (t : ℝ) = 0 := by
    rw [longitudeAt, if_neg hover, ← Rat.cast_mul, ← Rat.cast_add, hzero, Rat.cast_zero]
  have hpoint := (inside_sectorsOf e _ _).1
    (hcovers.segment p hp (t : ℝ) (by exact_mod_cast h0) (by exact_mod_cast h1))
  rw [hlon] at hpoint
  rcases hpoint.2 with ⟨hmin, -⟩ | ⟨-, hmax⟩
  · have hmin : e.minLon ≤ 0 := by exact_mod_cast hmin
    exact hmeets (h.minLon_zero.1 (le_antisymm hmin h.minLon_nonneg))
  · have hmax : 0 ≤ e.maxLon := by exact_mod_cast hmax
    exact hmeets (h.maxLon_zero.1 (le_antisymm h.maxLon_nonpos hmax))

theorem valid_of_degrees {lat lon : ℚ} (h : (-90 ≤ lat ∧ lat ≤ 90) ∧ (-180 ≤ lon ∧ lon ≤ 180)) :
    Valid ⟨⟨lat⟩, ⟨lon⟩⟩ :=
  ⟨h.1.1, h.1.2, h.2.1, h.2.2⟩

/-- From the eastern hemisphere over the date line, northwards. -/
def overDateLine : List LatLon := [⟨⟨0⟩, ⟨170⟩⟩, ⟨⟨10⟩, ⟨-170⟩⟩]

/-- Along the equator around the globe. -/
def aroundEquator : List LatLon := [⟨⟨0⟩, ⟨170⟩⟩, ⟨⟨0⟩, ⟨-170⟩⟩, ⟨⟨0⟩, ⟨-10⟩⟩, ⟨⟨0⟩, ⟨10⟩⟩]

/-- Half way around the globe, and then back over the date line. -/
def halfTurn : List LatLon := [⟨⟨0⟩, ⟨-90⟩⟩, ⟨⟨10⟩, ⟨90⟩⟩, ⟨⟨20⟩, ⟨-100⟩⟩]

end WorldWind.Sectors
