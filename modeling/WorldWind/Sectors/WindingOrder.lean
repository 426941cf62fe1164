import WorldWind.Lib.ClosedPath
import WorldWind.Sectors.SplitBounding
import WorldWind.Shapefile.BoundingRectangle
/-!
# `WWMath.computeWindingOrderOfLocations`

The sign of the area that a list of locations encloses. Longitudes are made positive where
two neighbours are on different sides of the date line. Neighbours of which one is at 180
and one at -180 degrees are on the same meridian and do not cross it; but for these the
code's longitudes are, up to one angle, the ones that a window shows (`sameUpToAngle`).
-/

namespace WorldWind.Sectors

open Geom Lib.ClosedPath

/-! ## The code -/

def makeDatelineCrossingLocationsPositive (locations : List LatLon) : List LatLon :=
  locations.map fun location =>
    if location.longitude.degrees < 0 then
      ⟨.fromDegrees location.latitude.degrees, .fromDegrees (location.longitude.degrees + 360)⟩
    else location

inductive WindingOrder where
  | CLOCKWISE
  | COUNTER_CLOCKWISE
  deriving DecidableEq

/-- The loop behind `location`, and the edge to the first location. -/
def areaFrom (firstLocation : LatLon) : ℚ → LatLon → List LatLon → ℚ
  | area, location, [] =>
    if location ≠ firstLocation then
      area + location.longitude.degrees * firstLocation.latitude.degrees -
        firstLocation.longitude.degrees * location.latitude.degrees
    else area
  | area, location, nextLocation :: iter =>
    areaFrom firstLocation (area + location.longitude.degrees * nextLocation.latitude.degrees -
      nextLocation.longitude.degrees * location.latitude.degrees) nextLocation iter

def computeWindingOrderOfLocations (locations : List LatLon) : WindingOrder :=
  match if locationsCrossDateLine locations then makeDatelineCrossingLocationsPositive locations else locations with
  | [] => .COUNTER_CLOCKWISE
  | firstLocation :: iter =>
    if areaFrom firstLocation 0 firstLocation iter < 0 then .CLOCKWISE else .COUNTER_CLOCKWISE

/-! ## Enclosed areas -/

/-- What an edge adds to twice the area. -/
def edgeArea (s : (ℚ × ℚ) × (ℚ × ℚ)) : ℚ := s.1.1 * s.2.2 - s.2.1 * s.1.2

/-- Twice the area that the points enclose. -/
def enclosed (points : List (ℚ × ℚ)) : ℚ := ((steps (close points)).map edgeArea).sum

theorem enclosed_rotate (points : List (ℚ × ℚ)) (k : Nat) : enclosed (points.rotate k) = enclosed points :=
  ((perm_steps_close points k).map _).sum_eq

theorem enclosed_reverse (points : List (ℚ × ℚ)) : enclosed points.reverse = -enclosed points := by
  have hswap : ∀ s, edgeArea (Prod.swap s) = -edgeArea s := by
    intro s
    rw [edgeArea, edgeArea, Prod.fst_swap, Prod.snd_swap]
    ring
  rw [enclosed, ((perm_steps_close_reverse points).map _).sum_eq, List.map_map, enclosed, List.sum_neg, List.map_map]
  congr 1
  exact List.map_congr_left fun s _ => hswap s

/-- An edge more that ends where it starts adds nothing. -/
theorem enclosed_close (points : List (ℚ × ℚ)) : enclosed (close points) = enclosed points := by
  cases points with
  | nil => rfl
  | cons a l =>
    have hsteps : steps (close (close (a :: l))) = steps (close (a :: l)) ++ [(a, a)] := by
      have hsplit : close (close (a :: l)) = (a :: l) ++ a :: [a] := by simp [close]
      rw [hsplit, steps_append_cons]
      rfl
    rw [enclosed, hsteps, List.map_append, List.sum_append]
    simp [enclosed, edgeArea]

/-- The sum of the differences of neighbours. -/
theorem sum_steps_diff (a : ℚ × ℚ) (l : List (ℚ × ℚ)) : ((steps (a :: l)).map fun s => s.2.2 - s.1.2).sum =
    ((a :: l).getLast (List.cons_ne_nil a l)).2 - a.2 := by
  induction l generalizing a with
  | nil => simp
  | cons b l ih =>
    rw [steps_cons_cons, List.map_cons, List.sum_cons, ih, List.getLast_cons_cons]
    ring

theorem enclosed_shift (points : List (ℚ × ℚ)) (c : ℚ) :
    enclosed (points.map fun p => (p.1 + c, p.2)) = enclosed points := by
  have hedge : ∀ s : (ℚ × ℚ) × (ℚ × ℚ),
      edgeArea (Prod.map (fun p : ℚ × ℚ => (p.1 + c, p.2)) (fun p => (p.1 + c, p.2)) s) =
      edgeArea s + c * (s.2.2 - s.1.2) := by
    intro s
    simp only [edgeArea, Prod.map]
    ring
  rw [enclosed, close_map, steps_map, List.map_map]
  have hsum : ((steps (close points)).map fun s => edgeArea s + c * (s.2.2 - s.1.2)).sum =
      enclosed points + c * ((steps (close points)).map fun s => s.2.2 - s.1.2).sum := by
    rw [List.sum_map_add, List.sum_map_mul_left, enclosed]
  have hclosed : ((steps (close points)).map fun s => s.2.2 - s.1.2).sum = 0 := by
    cases points with
    | nil => rfl
    | cons a l =>
      have hlast := sum_steps_diff a (l ++ [a])
      rw [show close (a :: l) = a :: (l ++ [a]) from rfl, hlast]
      simp
  rw [hclosed, mul_zero, add_zero] at hsum
  rw [← hsum]
  congr 1
  exact List.map_congr_left fun s _ => hedge s

/-! ## The code's area -/

/-- The points of a list of locations, their longitudes as `u` has them. -/
def pointsOf (u : ℚ → ℚ) (locations : List LatLon) : List (ℚ × ℚ) :=
  locations.map fun p => (u p.longitude.degrees, p.latitude.degrees)

def positive (lon : ℚ) : ℚ := if lon < 0 then lon + 360 else lon

theorem areaFrom_eq (firstLocation : LatLon) (iter : List LatLon) : ∀ (area : ℚ) (location : LatLon),
    areaFrom firstLocation area location iter =
      area + ((steps (pointsOf id (location :: iter ++ [firstLocation]))).map edgeArea).sum := by
  induction iter with
  | nil =>
    intro area location
    rw [areaFrom]
    by_cases h : location = firstLocation
    · rw [if_neg (not_not.2 h), h]
      simp [pointsOf, edgeArea]
    · rw [if_pos h]
      simp only [pointsOf, List.cons_append, List.nil_append, List.map_cons, List.map_nil, steps_cons_cons,
        steps_singleton, List.sum_cons, List.sum_nil, edgeArea, id]
      ring
  | cons nextLocation iter ih =>
    intro area location
    rw [areaFrom, ih]
    simp only [pointsOf, List.cons_append, List.map_cons, steps_cons_cons, List.sum_cons, edgeArea, id]
    ring

theorem computeWindingOrderOfLocations_eq (locations : List LatLon) : computeWindingOrderOfLocations locations =
    if enclosed (pointsOf (if locationsCrossDateLine locations then positive else id) locations) < 0 then .CLOCKWISE
    else .COUNTER_CLOCKWISE := by
  have hpositive : pointsOf id (makeDatelineCrossingLocationsPositive locations) = pointsOf positive locations := by
    rw [pointsOf, makeDatelineCrossingLocationsPositive, List.map_map]
    refine List.map_congr_left fun p _ => ?_
    rw [Function.comp_apply, positive]
    split <;> rfl
  have harea : ∀ l : List LatLon, (match l with
      | [] => WindingOrder.COUNTER_CLOCKWISE
      | firstLocation :: iter =>
        if areaFrom firstLocation 0 firstLocation iter < 0 then .CLOCKWISE else .COUNTER_CLOCKWISE) =
      if enclosed (pointsOf id l) < 0 then .CLOCKWISE else .COUNTER_CLOCKWISE := by
    intro l
    cases l with
    | nil => rfl
    | cons firstLocation iter =>
      simp only
      rw [areaFrom_eq, zero_add]
      simp [enclosed, pointsOf, close]
  rw [computeWindingOrderOfLocations, harea]
  split
  · rw [hpositive]
  · rfl

/-! ## Windows -/

/-- The longitude as the window that begins at `west` shows it. -/
def shown (west lon : ℚ) : ℚ := lon - 360 * ⌊(lon - west) / 360⌋

/-- The locations lie in the half of the globe east of `west`. -/
def Fits (west : ℚ) (locations : List LatLon) : Prop := ∀ p ∈ locations, shown west p.longitude.degrees < west + 180

theorem shown_spec (west lon : ℚ) : west ≤ shown west lon ∧ ∃ m : ℤ, shown west lon = lon + 360 * m := by
  constructor
  · have h := Int.floor_le ((lon - west) / 360)
    rw [le_div_iff₀ (by norm_num)] at h
    rw [shown]
    linarith
  · exact ⟨-⌊(lon - west) / 360⌋, by rw [shown]; push_cast; ring⟩

theorem shown_eq {west lon : ℚ} {m : ℤ} (h1 : west ≤ lon + 360 * m) (h2 : lon + 360 * m < west + 360) :
    shown west lon = lon + 360 * m := by
  have hfloor : ⌊(lon - west) / 360⌋ = -m := by
    rw [Int.floor_eq_iff, le_div_iff₀ (by norm_num), div_lt_iff₀ (by norm_num)]
    push_cast
    constructor <;> linarith
  rw [shown, hfloor]
  push_cast
  ring

/-- Locations whose longitudes differ by less than a turn and that the window shows near each other. -/
theorem turns_eq {west a b : ℚ} (ha : shown west a < west + 180) (hb : shown west b < west + 180) {m n : ℤ}
    (hm : shown west a = a + 360 * m) (hn : shown west b = b + 360 * n) :
    |a - b + 360 * ((m - n : ℤ) : ℚ)| < 180 := by
  have hwa := (shown_spec west a).1
  have hwb := (shown_spec west b).1
  rw [abs_lt]
  push_cast
  constructor <;> linarith

/-- Neighbours on different sides of the date line. -/
def Crossing (s : LatLon × LatLon) : Prop :=
  signum s.1.longitude.degrees ≠ signum s.2.longitude.degrees ∧
    |s.1.longitude.degrees - s.2.longitude.degrees| > 180 ∧ |s.1.longitude.degrees - s.2.longitude.degrees| < 360

theorem locationsCrossDateLine_iff (locations : List LatLon) :
    locationsCrossDateLine locations = true ↔ ∃ s ∈ steps locations, Crossing s := by
  cases locations with
  | nil => simp [locationsCrossDateLine]
  | cons pos locations =>
    rw [locationsCrossDateLine]
    induction locations generalizing pos with
    | nil => simp [crossDateLineFrom]
    | cons posNext locations ih =>
      rw [crossDateLineFrom, steps_cons_cons]
      simp only [List.mem_cons, exists_eq_or_imp]
      split
      · rename_i hcross
        exact iff_of_true rfl (.inl hcross)
      · rename_i hcross
        rw [ih posNext]
        exact (or_iff_right hcross).symm

/-- No neighbours one of which is at 180 and one at -180 degrees. -/
def NoSeam (locations : List LatLon) : Prop :=
  ∀ s ∈ steps locations, |s.1.longitude.degrees - s.2.longitude.degrees| ≠ 360

/-- Neighbours that do not cross the date line are at most half a turn apart. -/
theorem le_of_not_crossing {s : LatLon × LatLon} (h1 : Valid s.1) (h2 : Valid s.2)
    (hseam : |s.1.longitude.degrees - s.2.longitude.degrees| ≠ 360) (hcross : ¬Crossing s) :
    |s.1.longitude.degrees - s.2.longitude.degrees| ≤ 180 := by
  obtain ⟨-, -, hwest, heast⟩ := h1
  obtain ⟨-, -, hwest', heast'⟩ := h2
  by_contra hfar
  rw [not_le] at hfar
  have hle : |s.1.longitude.degrees - s.2.longitude.degrees| ≤ 360 := by
    rw [abs_le]
    constructor <;> linarith
  refine hcross ⟨?_, hfar, lt_of_le_of_ne hle hseam⟩
  rcases lt_abs.1 hfar with hfar | hfar
  · exact signum_ne (by linarith) (by linarith)
  · exact (signum_ne (by linarith) (by linarith)).symm

theorem NoSeam.reverse {locations : List LatLon} (h : NoSeam locations) : NoSeam locations.reverse := by
  intro s hs
  rw [steps_reverse, List.mem_reverse] at hs
  obtain ⟨t, ht, rfl⟩ := List.mem_map.1 hs
  rw [Prod.fst_swap, Prod.snd_swap, abs_sub_comm]
  exact h t ht

/-- Beside neighbours over the date line, a positive longitude is the one that the window shows. -/
theorem positive_eq {west a b lon : ℚ} (ha : a ≤ 180) (hb : -180 ≤ b) (hlon : -180 ≤ lon ∧ lon ≤ 180)
    (hfar : 180 < a - b) (hnear : a - b < 360) (hwa : shown west a < west + 180) (hwb : shown west b < west + 180)
    (hwlon : shown west lon < west + 180) : positive lon = shown west lon - (shown west a - a) := by
  obtain ⟨m, hm⟩ := (shown_spec west a).2
  obtain ⟨n, hn⟩ := (shown_spec west b).2
  obtain ⟨k, hk⟩ := (shown_spec west lon).2
  have hab := abs_lt.1 (turns_eq hwa hwb hm hn)
  have hla := abs_lt.1 (turns_eq hwlon hwa hk hm)
  have hlb := abs_lt.1 (turns_eq hwlon hwb hk hn)
  obtain rfl : n = m + 1 := by
    have h1 : ((m - n : ℤ) : ℚ) < 0 := by linarith
    have h2 : (-2 : ℚ) < ((m - n : ℤ) : ℚ) := by linarith
    have h3 : m - n < 0 := by exact_mod_cast h1
    have h4 : -2 < m - n := by exact_mod_cast h2
    omega
  rw [show k - (m + 1) = k - m - 1 by ring, Int.cast_sub (k - m)] at hlb
  generalize hj : k - m = j at hla hlb
  obtain rfl : k = m + j := by omega
  push_cast at hlb hk
  rw [hk, hm, positive]
  split
  · rename_i hneg
    have h1 : (0 : ℚ) < j := by linarith
    have h2 : (j : ℚ) < 2 := by linarith
    have h3 : 0 < j := by exact_mod_cast h1
    have h4 : j < 2 := by exact_mod_cast h2
    obtain rfl : j = 1 := by omega
    push_cast
    ring
  · rename_i hnonneg
    have h1 : (-1 : ℚ) < j := by linarith
    have h2 : (j : ℚ) < 1 := by linarith
    have h3 : -1 < j := by exact_mod_cast h1
    have h4 : j < 1 := by exact_mod_cast h2
    obtain rfl : j = 0 := by omega
    push_cast
    ring

/-- The code's longitudes are those that the window shows, up to one angle. -/
theorem sameUpToAngle {west : ℚ} {locations : List LatLon} (hvalid : ∀ p ∈ locations, Valid p)
    (hfits : Fits west locations)
    (hseam : NoSeam locations) : ∃ c, ∀ p ∈ locations,
      (if locationsCrossDateLine locations then positive else id) p.longitude.degrees =
        shown west p.longitude.degrees + c := by
  by_cases hcross : locationsCrossDateLine locations = true
  · obtain ⟨s, hs, hsign, hfar, hnear⟩ := (locationsCrossDateLine_iff locations).1 hcross
    obtain ⟨h1, h2⟩ := mem_of_mem_steps hs
    rw [if_pos hcross]
    rcases lt_abs.1 hfar with hfar | hfar
    · refine ⟨-(shown west s.1.longitude.degrees - s.1.longitude.degrees), fun p hp => ?_⟩
      rw [positive_eq (hvalid _ h1).east (hvalid _ h2).west ⟨(hvalid p hp).west, (hvalid p hp).east⟩ hfar
        ((le_abs_self _).trans_lt hnear) (hfits _ h1) (hfits _ h2) (hfits p hp)]
      ring
    · refine ⟨-(shown west s.2.longitude.degrees - s.2.longitude.degrees), fun p hp => ?_⟩
      rw [positive_eq (hvalid _ h2).east (hvalid _ h1).west ⟨(hvalid p hp).west, (hvalid p hp).east⟩
        (by linarith) (by linarith [(neg_le_abs _).trans_lt hnear]) (hfits _ h2) (hfits _ h1) (hfits p hp)]
      ring
  · rw [if_neg hcross]
    -- no edge changes by how many turns the window shows a longitude elsewhere
    have hsteps : ∀ s ∈ steps locations, shown west s.1.longitude.degrees - s.1.longitude.degrees =
        shown west s.2.longitude.degrees - s.2.longitude.degrees := by
      intro s hs
      obtain ⟨h1, h2⟩ := mem_of_mem_steps hs
      have hle := abs_le.1 (le_of_not_crossing (hvalid _ h1) (hvalid _ h2) (hseam s hs)
        fun h => hcross ((locationsCrossDateLine_iff locations).2 ⟨s, hs, h⟩))
      obtain ⟨m, hm⟩ := (shown_spec west s.1.longitude.degrees).2
      obtain ⟨n, hn⟩ := (shown_spec west s.2.longitude.degrees).2
      have hturns := abs_lt.1 (turns_eq (hfits _ h1) (hfits _ h2) hm hn)
      have h3 : ((m - n : ℤ) : ℚ) < 1 := by linarith
      have h4 : (-1 : ℚ) < ((m - n : ℤ) : ℚ) := by linarith
      have h5 : m - n < 1 := by exact_mod_cast h3
      have h6 : -1 < m - n := by exact_mod_cast h4
      obtain rfl : m = n := by omega
      rw [hm, hn]
      ring
    cases locations with
    | nil => exact ⟨0, by simp⟩
    | cons first locations =>
      refine ⟨-(shown west first.longitude.degrees - first.longitude.degrees), fun p hp => ?_⟩
      have hsame := eq_of_steps (f :=
          fun p : LatLon => shown west p.longitude.degrees - p.longitude.degrees) hsteps hp
        List.mem_cons_self
      rw [← hsame, id]
      ring

/-- The order is that of the points in the window. -/
theorem computeWindingOrderOfLocations_shown {west : ℚ} {locations : List LatLon} (hvalid : ∀ p ∈ locations, Valid p)
    (hfits : Fits west locations) (hseam : NoSeam locations) : computeWindingOrderOfLocations locations =
      if enclosed (pointsOf (shown west) locations) < 0 then .CLOCKWISE else .COUNTER_CLOCKWISE := by
  obtain ⟨c, hc⟩ := sameUpToAngle hvalid hfits hseam
  have hpoints : pointsOf (if locationsCrossDateLine locations then positive else id) locations =
      (pointsOf (shown west) locations).map fun p => (p.1 + c, p.2) := by
    rw [pointsOf, pointsOf, List.map_map]
    exact List.map_congr_left fun p hp => Prod.ext (hc p hp) rfl
  rw [computeWindingOrderOfLocations_eq, hpoints, enclosed_shift]

/-! ## A shift of the longitudes -/

def shiftLongitude (angle : ℚ) (p : LatLon) : LatLon :=
    ⟨p.latitude, (p.longitude.addDegrees angle).normalizedLongitude⟩

theorem normalizedLongitude_turns (lon : ℚ) :
    ∃ m : ℤ, (Angle.fromDegrees lon).normalizedLongitude.degrees = lon + 360 * m := by
  obtain ⟨n, hn⟩ : ∃ n : ℤ, remainder lon 360 = lon - 360 * n := ⟨_, rfl⟩
  have hcases : (Angle.fromDegrees lon).normalizedLongitude.degrees =
      if remainder lon 360 > 180 then remainder lon 360 - 360
      else if remainder lon 360 < -180 then 360 + remainder lon 360 else remainder lon 360 := rfl
  rw [hcases]
  by_cases hwest : remainder lon 360 > 180
  · exact ⟨-n - 1, by rw [if_pos hwest, hn]; push_cast; ring⟩
  · by_cases heast : remainder lon 360 < -180
    · exact ⟨1 - n, by rw [if_neg hwest, if_pos heast, hn]; push_cast; ring⟩
    · exact ⟨-n, by rw [if_neg hwest, if_neg heast, hn]; push_cast; ring⟩

theorem shown_shiftLongitude {west angle : ℚ} {p : LatLon} (h : shown west p.longitude.degrees < west + 180) :
    shown (west + angle) (shiftLongitude angle p).longitude.degrees = shown west p.longitude.degrees + angle := by
  obtain ⟨m, hm⟩ := normalizedLongitude_turns (p.longitude.degrees + angle)
  obtain ⟨hwest, k, hk⟩ := shown_spec west p.longitude.degrees
  have hlon : (shiftLongitude angle p).longitude.degrees = p.longitude.degrees + angle + 360 * m := hm
  have hcast : p.longitude.degrees + angle + 360 * m + 360 * ((k - m : ℤ) : ℚ) =
      shown west p.longitude.degrees + angle := by
    rw [hk]
    push_cast
    ring
  rw [hlon, shown_eq (by rw [hcast]; linarith) (by rw [hcast]; linarith), hcast]

/-- A shift makes no neighbours at 180 and -180 degrees. -/
theorem NoSeam.shiftLongitude {angle : ℚ} {locations : List LatLon} (hvalid : ∀ p ∈ locations, Valid p)
    (h : NoSeam locations) : NoSeam (locations.map (shiftLongitude angle)) := by
  intro s hs hseam
  rw [steps_map] at hs
  obtain ⟨t, ht, rfl⟩ := List.mem_map.1 hs
  obtain ⟨h1, h2⟩ := mem_of_mem_steps ht
  obtain ⟨-, -, hwest, heast⟩ := hvalid _ h1
  obtain ⟨-, -, hwest', heast'⟩ := hvalid _ h2
  obtain ⟨m, hm⟩ := normalizedLongitude_turns (t.1.longitude.degrees + angle)
  obtain ⟨n, hn⟩ := normalizedLongitude_turns (t.2.longitude.degrees + angle)
  have hlon : (Prod.map (Sectors.shiftLongitude angle) (Sectors.shiftLongitude angle) t).1.longitude.degrees =
      t.1.longitude.degrees + angle + 360 * m := hm
  have hlon' : (Prod.map (Sectors.shiftLongitude angle) (Sectors.shiftLongitude angle) t).2.longitude.degrees =
      t.2.longitude.degrees + angle + 360 * n := hn
  -- the longitudes differ by whole turns, so they are the same or at the seam
  obtain ⟨j, hj⟩ : ∃ j : ℤ, t.1.longitude.degrees - t.2.longitude.degrees = 360 * j := by
    rw [hlon, hlon'] at hseam
    rcases eq_or_eq_neg_of_abs_eq hseam with heq | heq
    · exact ⟨n - m + 1, by push_cast; linarith⟩
    · exact ⟨n - m - 1, by push_cast; linarith⟩
  have hj1 : (j : ℚ) < 2 := by linarith
  have hj2 : (-2 : ℚ) < j := by linarith
  have hj3 : j < 2 := by exact_mod_cast hj1
  have hj4 : -2 < j := by exact_mod_cast hj2
  obtain rfl | rfl | rfl : j = -1 ∨ j = 0 ∨ j = 1 := by omega
  · refine h t ht ?_
    rw [hj]
    norm_num
  · have hsame : t.1.longitude.degrees = t.2.longitude.degrees := by
      push_cast at hj
      linarith
    rw [hsame, hn] at hm
    rw [hlon, hlon', hsame, ← hm, sub_self, abs_zero] at hseam
    norm_num at hseam
  · refine h t ht ?_
    rw [hj]
    norm_num

/-! ## Shifted, rotated and reversed -/

def WindingOrder.opposite : WindingOrder → WindingOrder
  | .CLOCKWISE => .COUNTER_CLOCKWISE
  | .COUNTER_CLOCKWISE => .CLOCKWISE

/-- The list with other points of the same window, or with the same ones in another order. -/
theorem computeWindingOrderOfLocations_congr {west west' : ℚ} {locations locations' : List LatLon}
    (hvalid : ∀ p ∈ locations, Valid p) (hvalid' : ∀ p ∈ locations', Valid p) (hfits : Fits west locations)
    (hfits' : Fits west' locations') (hseam : NoSeam locations) (hseam' : NoSeam locations')
    (h : enclosed (pointsOf (shown west') locations') = enclosed (pointsOf (shown west) locations)) :
    computeWindingOrderOfLocations locations' = computeWindingOrderOfLocations locations := by
  rw [computeWindingOrderOfLocations_shown hvalid hfits hseam,
    computeWindingOrderOfLocations_shown hvalid' hfits' hseam', h]

/-- What does not change the order, and what reverses it. -/
def OrderKept (locations : List LatLon) : Prop :=
  (∀ angle, computeWindingOrderOfLocations (locations.map (shiftLongitude angle)) =
    computeWindingOrderOfLocations locations) ∧
  (∀ k, computeWindingOrderOfLocations (locations.rotate k) = computeWindingOrderOfLocations locations) ∧
  (locations.head? = locations.getLast? → ∀ k, computeWindingOrderOfLocations (close (locations.dropLast.rotate k)) =
    computeWindingOrderOfLocations locations) ∧
  computeWindingOrderOfLocations locations.reverse = (computeWindingOrderOfLocations locations).opposite

/-- A triangle at the date line, its side there from 180 to -180 degrees. -/
def seamTriangle : List LatLon := [⟨⟨0⟩, ⟨180⟩⟩, ⟨⟨10⟩, ⟨-180⟩⟩, ⟨⟨0⟩, ⟨-170⟩⟩]

/-- The same triangle with that side at 180 degrees. -/
def eastTriangle : List LatLon := [⟨⟨0⟩, ⟨180⟩⟩, ⟨⟨10⟩, ⟨180⟩⟩, ⟨⟨0⟩, ⟨-170⟩⟩]

theorem valid_eastTriangle : ∀ p ∈ eastTriangle, Valid p := by
  simp only [eastTriangle, List.forall_mem_cons]
  exact ⟨valid_of_degrees (by norm_num), valid_of_degrees (by norm_num), valid_of_degrees (by norm_num), by simp⟩

end WorldWind.Sectors
