import WorldWind.Geom.Exact
import WorldWind.Lib.PrunedDescent
/-!
# Sectors as regions

The locations of a sector, and those that are not on its edges. The four parts
of `Sector.subdivide()` split it (`subdivide_splits`).
-/

namespace WorldWind.Geom.Exact.Sector

open Lib.PrunedDescent
open scoped Lib.Numerals

variable {K : Type*} [Field K]

/-- `Sector.subdivide()`. -/
def subdivide (sector : Sector K) : List (Sector K) :=
  let midLat := 1 / 2 * (sector.minLatitude + sector.maxLatitude)
  let midLon := 1 / 2 * (sector.minLongitude + sector.maxLongitude)
  [⟨sector.minLatitude, midLat, sector.minLongitude, midLon⟩,
    ⟨sector.minLatitude, midLat, midLon, sector.maxLongitude⟩,
    ⟨midLat, sector.maxLatitude, sector.minLongitude, midLon⟩,
    ⟨midLat, sector.maxLatitude, midLon, sector.maxLongitude⟩]

variable [LinearOrder K] [IsStrictOrderedRing K]

/-- The locations of a sector. -/
def region (sector : Sector K) : Set (LatLon K) :=
  {p | (sector.minLatitude ≤ p.latitude ∧ p.latitude ≤ sector.maxLatitude) ∧
    sector.minLongitude ≤ p.longitude ∧ p.longitude ≤ sector.maxLongitude}

/-- Those that are not on its edges. -/
def inner (sector : Sector K) : Set (LatLon K) :=
  {p | (sector.minLatitude < p.latitude ∧ p.latitude < sector.maxLatitude) ∧
    sector.minLongitude < p.longitude ∧ p.longitude < sector.maxLongitude}

omit [LinearOrder K] [IsStrictOrderedRing K] in
theorem mem_subdivide {sector s : Sector K} : s ∈ sector.subdivide ↔
    ∃ lat ∈ [(sector.minLatitude, 1 / 2 * (sector.minLatitude + sector.maxLatitude)),
      (1 / 2 * (sector.minLatitude + sector.maxLatitude), sector.maxLatitude)],
    ∃ lon ∈ [(sector.minLongitude, 1 / 2 * (sector.minLongitude + sector.maxLongitude)),
      (1 / 2 * (sector.minLongitude + sector.maxLongitude), sector.maxLongitude)],
      s = ⟨lat.1, lat.2, lon.1, lon.2⟩ := by
  simp only [subdivide, List.mem_cons, List.not_mem_nil, or_false]
  constructor
  · rintro (rfl | rfl | rfl | rfl)
    · exact ⟨_, Or.inl rfl, _, Or.inl rfl, rfl⟩
    · exact ⟨_, Or.inl rfl, _, Or.inr rfl, rfl⟩
    · exact ⟨_, Or.inr rfl, _, Or.inl rfl, rfl⟩
    · exact ⟨_, Or.inr rfl, _, Or.inr rfl, rfl⟩
  · rintro ⟨lat, rfl | rfl, lon, rfl | rfl, rfl⟩
    · exact Or.inl rfl
    · exact Or.inr (Or.inl rfl)
    · exact Or.inr (Or.inr (Or.inl rfl))
    · exact Or.inr (Or.inr (Or.inr rfl))

/-- Half an interval lies in it. -/
theorem half_inside {a b x : K} {c : K × K} (hc : c ∈ [(a, 1 / 2 * (a + b)), (1 / 2 * (a + b), b)]) :
    (c.1 ≤ x ∧ x ≤ c.2 → a ≤ x ∧ x ≤ b) ∧ (c.1 < x ∧ x < c.2 → a < x ∧ x < b) := by
  simp only [List.mem_cons, List.not_mem_nil, or_false] at hc
  rcases hc with rfl | rfl
  · exact ⟨fun ⟨h1, h2⟩ => ⟨h1, by linarith⟩, fun ⟨h1, h2⟩ => ⟨h1, by linarith⟩⟩
  · exact ⟨fun ⟨h1, h2⟩ => ⟨by linarith, h2⟩, fun ⟨h1, h2⟩ => ⟨by linarith, h2⟩⟩

omit [IsStrictOrderedRing K] in
theorem half_cover {a b x : K} (h : a ≤ x ∧ x ≤ b) :
    ∃ c ∈ [(a, 1 / 2 * (a + b)), (1 / 2 * (a + b), b)], c.1 ≤ x ∧ x ≤ c.2 := by
  rcases le_total x (1 / 2 * (a + b)) with hx | hx
  · exact ⟨_, List.mem_cons_self, h.1, hx⟩
  · exact ⟨_, List.mem_cons_of_mem _ (List.mem_singleton_self _), hx, h.2⟩

omit [Field K] [IsStrictOrderedRing K] in
/-- Sectors on two sides of a latitude or of a longitude. -/
theorem apart {s t : Sector K}
    (h : s.maxLatitude ≤ t.minLatitude ∨ t.maxLatitude ≤ s.minLatitude ∨ s.maxLongitude ≤ t.minLongitude ∨
      t.maxLongitude ≤ s.minLongitude) : Apart region inner s t := by
  constructor
  · rw [Set.disjoint_left]
    rintro p ⟨⟨h1, h2⟩, h3, h4⟩ ⟨⟨h5, h6⟩, h7, h8⟩
    rcases h with h | h | h | h
    · exact absurd (h2.trans_le h) (not_lt.2 h5)
    · exact absurd (h6.trans h) (not_le.2 h1)
    · exact absurd (h4.trans_le h) (not_lt.2 h7)
    · exact absurd (h8.trans h) (not_le.2 h3)
  · rw [Set.disjoint_left]
    rintro p ⟨⟨h1, h2⟩, h3, h4⟩ ⟨⟨h5, h6⟩, h7, h8⟩
    rcases h with h | h | h | h
    · exact absurd (h2.trans h) (not_le.2 h5)
    · exact absurd (h6.trans_le h) (not_lt.2 h1)
    · exact absurd (h4.trans h) (not_le.2 h7)
    · exact absurd (h8.trans_le h) (not_lt.2 h3)

/-- The four parts of a sector split it. -/
theorem subdivide_splits : Splits region (inner : Sector K → Set (LatLon K)) subdivide where
  cover sector p := by
    rintro ⟨hlat, hlon⟩
    obtain ⟨lat, hmem, hlat⟩ := half_cover hlat
    obtain ⟨lon, hmem', hlon⟩ := half_cover hlon
    exact ⟨_, mem_subdivide.2 ⟨lat, hmem, lon, hmem', rfl⟩, hlat, hlon⟩
  inside sector s := by
    intro hs
    obtain ⟨lat, hmem, lon, hmem', rfl⟩ := mem_subdivide.1 hs
    constructor
    · exact fun p ⟨hlat, hlon⟩ => ⟨(half_inside hmem).1 hlat, (half_inside hmem').1 hlon⟩
    · exact fun p ⟨hlat, hlon⟩ => ⟨(half_inside hmem).2 hlat, (half_inside hmem').2 hlon⟩
  apart sector := by
    simp only [subdivide, List.pairwise_cons, List.mem_cons, List.not_mem_nil, or_false, forall_eq_or_imp,
      forall_eq, false_imp_iff, implies_true, List.Pairwise.nil, and_true]
    refine ⟨⟨?_, ?_, ?_⟩, ⟨?_, ?_⟩, ?_⟩
    · exact Sector.apart (Or.inr (Or.inr (Or.inl le_rfl)))
    · exact Sector.apart (Or.inl le_rfl)
    · exact Sector.apart (Or.inl le_rfl)
    · exact Sector.apart (Or.inl le_rfl)
    · exact Sector.apart (Or.inl le_rfl)
    · exact Sector.apart (Or.inr (Or.inr (Or.inl le_rfl)))

end WorldWind.Geom.Exact.Sector
