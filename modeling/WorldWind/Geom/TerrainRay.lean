import WorldWind.Geom.Exact
/-!
# `RayCastingSupport`: where a segment meets the terrain

The segment is sampled from its start until a sample is at or below the terrain, and the
part between the last two samples is searched again with a tenth of the sample length,
until that is at most the precision. No result stands for a run that does not end: a
sample length of zero leaves the loop where it is, and no sample length is at most a
precision of zero (`intersectSegmentWithTerrain_right_iff`).
-/

namespace WorldWind.Geom.Exact

/-! ## The code -/

variable {K : Type*}

structure Position (K : Type*) extends LatLon K where
  elevation : K

/-- What the terrain is asked. -/
structure Globe (K : Type*) where
  computePositionFromPoint : Vec4 K → Position K
  getElevation : K → K → K

structure Line (K : Type*) where
  origin : Vec4 K
  direction : Vec4 K

/-- What the sampling loop carries from one pass to the next. -/
structure Sampling (K : Type*) where
  sampledDistance : K
  sample : Vec4 K
  lastSample : Option (Vec4 K)

variable [Field K] [LinearOrder K]

def Line.getPointAt (line : Line K) (t : K) : Vec4 K :=
  ⟨line.origin.x + line.direction.x * t, line.origin.y + line.direction.y * t, line.origin.z + line.direction.z * t⟩

def Vec4.distanceTo3 (sqrt : K → K) (v vec4 : Vec4 K) : K :=
  sqrt ((v.x - vec4.x) * (v.x - vec4.x) + (v.y - vec4.y) * (v.y - vec4.y) + (v.z - vec4.z) * (v.z - vec4.z))

/-- The test of a sample. -/
def Globe.belowGround (globe : Globe K) (sample : Vec4 K) : Bool :=
  let samplePos := globe.computePositionFromPoint sample
  samplePos.elevation ≤ globe.getElevation samplePos.latitude samplePos.longitude

/-- The loop with its `point` and the last sample before it. -/
def sampleLoop (globe : Globe K) (ray : Line K) (rayLength sampleLength : K) :
    Nat → Sampling K → Option (Option (Vec4 K) × Option (Vec4 K))
  | 0, _ => none
  | fuel + 1, s =>
    if s.sampledDistance ≤ rayLength then
      if globe.belowGround s.sample then some (some s.sample, s.lastSample)
      else if s.sampledDistance ≥ rayLength then some (none, s.lastSample)
      else
        let sampledDistance := min (s.sampledDistance + sampleLength) rayLength
        sampleLoop globe ray rayLength sampleLength fuel ⟨sampledDistance, ray.getPointAt sampledDistance,
          some s.sample⟩
    else some (none, s.lastSample)

/-- An error is the argument that is out of range. -/
def intersectSegmentWithTerrain (globe : Globe K) (sqrt : K → K) (precision : K) :
    Nat → Vec4 K → Vec4 K → K → Option (Except K (Option (Vec4 K)))
  | 0, _, _, _ => none
  | fuel + 1, p1, p2, sampleLength =>
    if sampleLength < 0 then some (.error sampleLength)
    else if precision < 0 then some (.error precision)
    else
      let ray : Line K := ⟨p1, (p2.subtract3 p1).normalize3 sqrt⟩
      let rayLength := p1.distanceTo3 sqrt p2
      match sampleLoop globe ray rayLength sampleLength fuel ⟨0, p1, none⟩ with
      | none => none
      | some (some point, some lastSample) =>
        if sampleLength > precision then
          intersectSegmentWithTerrain globe sqrt precision fuel lastSample point (sampleLength / 10)
        else some (.ok (some point))
      | some (point, _) => some (.ok point)

/-! ## More fuel changes nothing -/

theorem sampleLoop_mono {globe : Globe K} {ray : Line K} {rayLength sampleLength : K}
    {result : Option (Vec4 K) × Option (Vec4 K)} {fuel fuel' : Nat} (hle : fuel ≤ fuel') {s : Sampling K}
    (h : sampleLoop globe ray rayLength sampleLength fuel s = some result) :
    sampleLoop globe ray rayLength sampleLength fuel' s = some result := by
  induction fuel generalizing fuel' s with
  | zero => cases h
  | succ fuel ih =>
    obtain ⟨fuel', rfl⟩ : ∃ n, fuel' = n + 1 := ⟨fuel' - 1, by omega⟩
    rw [sampleLoop] at h ⊢
    split at h
    · rw [if_pos ‹_›]
      split at h
      · rw [if_pos ‹_›]
        exact h
      · rw [if_neg ‹_›]
        split at h
        · rw [if_pos ‹_›]
          exact h
        · rw [if_neg ‹_›]
          exact ih (by omega) h
    · rw [if_neg ‹_›]
      exact h

theorem intersectSegmentWithTerrain_mono {globe : Globe K} {sqrt : K → K} {precision : K}
    {result : Except K (Option (Vec4 K))} {fuel fuel' : Nat} (hle : fuel ≤ fuel') {p1 p2 : Vec4 K} {sampleLength : K}
    (h : intersectSegmentWithTerrain globe sqrt precision fuel p1 p2 sampleLength = some result) :
    intersectSegmentWithTerrain globe sqrt precision fuel' p1 p2 sampleLength = some result := by
  induction fuel generalizing fuel' p1 p2 sampleLength with
  | zero => cases h
  | succ fuel ih =>
    obtain ⟨fuel', rfl⟩ : ∃ n, fuel' = n + 1 := ⟨fuel' - 1, by omega⟩
    rw [intersectSegmentWithTerrain] at h ⊢
    by_cases hs : sampleLength < 0
    · rw [if_pos hs] at h ⊢
      exact h
    by_cases hp : precision < 0
    · rw [if_neg hs, if_pos hp] at h ⊢
      exact h
    rw [if_neg hs, if_neg hp] at h ⊢
    simp only at h ⊢
    cases hloop : sampleLoop globe ⟨p1, (p2.subtract3 p1).normalize3 sqrt⟩ (p1.distanceTo3 sqrt p2) sampleLength fuel
        ⟨0, p1, none⟩ with
    | none => simp [hloop] at h
    | some r =>
      rw [sampleLoop_mono (Nat.le_of_succ_le_succ hle) hloop]
      rw [hloop] at h
      obtain ⟨_ | point, _ | lastSample⟩ := r
      · exact h
      · exact h
      · exact h
      · simp only at h ⊢
        split at h
        · rw [if_pos ‹_›]
          exact ih (by omega) h
        · rw [if_neg ‹_›]
          exact h

/-! ## Points of the segment -/

/-- The point of the segment at the part `t` of its length. -/
def along (p1 p2 : Vec4 K) (t : K) : Vec4 K := p1.add3 ((p2.subtract3 p1).multiply3 t)

omit [LinearOrder K] in
theorem along_zero (p1 p2 : Vec4 K) : along p1 p2 0 = p1 := by
  ext <;> simp [along, Vec4.add3, Vec4.multiply3]

omit [LinearOrder K] in
theorem along_one (p1 p2 : Vec4 K) : along p1 p2 1 = p2 := by
  ext <;> simp [along, Vec4.add3, Vec4.multiply3, Vec4.subtract3]

omit [LinearOrder K] in
theorem along_along (p1 p2 : Vec4 K) (a b t : K) :
    along (along p1 p2 a) (along p1 p2 b) t = along p1 p2 (a + (b - a) * t) := by
  ext <;> simp only [along, Vec4.add3, Vec4.multiply3, Vec4.subtract3] <;> ring

theorem distanceTo3_pos {p1 p2 : Vec4 ℝ} (h : p1 ≠ p2) : 0 < p1.distanceTo3 Real.sqrt p2 := by
  rw [Vec4.distanceTo3, Real.sqrt_pos]
  refine lt_of_le_of_ne (add_nonneg (add_nonneg (mul_self_nonneg _) (mul_self_nonneg _)) (mul_self_nonneg _)) ?_
  intro h0
  refine h ?_
  ext <;> nlinarith [mul_self_nonneg (p1.x - p2.x), mul_self_nonneg (p1.y - p2.y), mul_self_nonneg (p1.z - p2.z)]

theorem distanceTo3_along (p1 p2 : Vec4 ℝ) {a b : ℝ} (h : a ≤ b) :
    (along p1 p2 a).distanceTo3 Real.sqrt (along p1 p2 b) = (b - a) * p1.distanceTo3 Real.sqrt p2 := by
  have hsquare : ∀ d : ℝ, Real.sqrt (d * d) = |d| := Real.sqrt_mul_self_eq_abs
  rw [← abs_of_nonneg (sub_nonneg.2 h), ← hsquare, Vec4.distanceTo3, Vec4.distanceTo3,
    ← Real.sqrt_mul (mul_self_nonneg _)]
  congr 1
  simp only [along, Vec4.add3, Vec4.multiply3, Vec4.subtract3]
  ring

/-- The ray of a segment. -/
noncomputable def rayOf (p1 p2 : Vec4 ℝ) : Line ℝ := ⟨p1, (p2.subtract3 p1).normalize3 Real.sqrt⟩

theorem getPointAt_zero (ray : Line ℝ) : ray.getPointAt 0 = ray.origin := by
  simp [Line.getPointAt]

theorem getPointAt_rayOf {p1 p2 : Vec4 ℝ} (h : p1 ≠ p2) (d : ℝ) :
    (rayOf p1 p2).getPointAt d = along p1 p2 (d / p1.distanceTo3 Real.sqrt p2) := by
  have hlength : (p2.subtract3 p1).getLength3 Real.sqrt = p1.distanceTo3 Real.sqrt p2 := by
    rw [Vec4.getLength3, Vec4.distanceTo3]
    congr 1
    simp only [Vec4.getLengthSquared3, Vec4.subtract3]
    ring
  simp only [rayOf, Line.getPointAt, Vec4.normalize3, hlength, if_neg (distanceTo3_pos h).ne']
  ext <;> simp only [along, Vec4.add3, Vec4.multiply3, Vec4.subtract3] <;> ring

/-! ## The sampling loop -/

section Loop

variable (ray : Line ℝ) (rayLength sampleLength : ℝ)

/-- The samples of the loop, one a sample length after the other and the last at the end. -/
noncomputable def sampleAt (k : Nat) : Vec4 ℝ := ray.getPointAt (min (k * sampleLength) rayLength)

noncomputable def lastAt : Nat → Option (Vec4 ℝ)
  | 0 => none
  | k + 1 => some (sampleAt ray rayLength sampleLength k)

noncomputable def samplingAt (k : Nat) : Sampling ℝ :=
  ⟨min (k * sampleLength) rayLength, sampleAt ray rayLength sampleLength k, lastAt ray rayLength sampleLength k⟩

variable {ray rayLength sampleLength}

theorem samplingAt_zero (hlength : 0 ≤ rayLength) : samplingAt ray rayLength sampleLength 0 =
    ⟨0, ray.origin, none⟩ := by
  simp [samplingAt, sampleAt, lastAt, min_eq_left hlength, getPointAt_zero]

/-- What one pass does. -/
theorem sampleLoop_succ (globe : Globe ℝ) (hs : 0 ≤ sampleLength) (fuel k : Nat) :
    sampleLoop globe ray rayLength sampleLength (fuel + 1) (samplingAt ray rayLength sampleLength k) =
      if globe.belowGround (sampleAt ray rayLength sampleLength k) then
        some (some (sampleAt ray rayLength sampleLength k), lastAt ray rayLength sampleLength k)
      else if rayLength ≤ k * sampleLength then some (none, lastAt ray rayLength sampleLength k)
      else sampleLoop globe ray rayLength sampleLength fuel (samplingAt ray rayLength sampleLength (k + 1)) := by
  rw [sampleLoop]
  simp only [samplingAt, min_le_right, if_true, ge_iff_le, le_min_iff, le_refl, and_true]
  have hnext : min (min (k * sampleLength) rayLength + sampleLength) rayLength =
      min (((k + 1 : ℕ) : ℝ) * sampleLength) rayLength := by
    rw [← min_add_add_right, min_assoc, min_eq_right (le_add_of_nonneg_right hs), Nat.cast_add_one, add_one_mul]
  rw [hnext]
  rfl

/-- The loop ends at a sample at or below the ground, or at the end of the ray. -/
theorem sampleLoop_spec {globe : Globe ℝ} (hs : 0 ≤ sampleLength) {fuel k : Nat} {point last : Option (Vec4 ℝ)}
    (h : sampleLoop globe ray rayLength sampleLength fuel (samplingAt ray rayLength sampleLength k) =
      some (point, last)) :
    ∃ j, k ≤ j ∧ last = lastAt ray rayLength sampleLength j ∧
      (∀ i, k ≤ i → i < j → ¬globe.belowGround (sampleAt ray rayLength sampleLength i)) ∧
      ((globe.belowGround (sampleAt ray rayLength sampleLength j) ∧
        point = some (sampleAt ray rayLength sampleLength j)) ∨
        (¬globe.belowGround (sampleAt ray rayLength sampleLength j) ∧ rayLength ≤ j * sampleLength ∧
          point = none)) := by
  induction fuel generalizing k with
  | zero => cases h
  | succ fuel ih =>
    rw [sampleLoop_succ globe hs] at h
    by_cases hbelow : globe.belowGround (sampleAt ray rayLength sampleLength k)
    · rw [if_pos hbelow] at h
      cases h
      exact ⟨k, le_rfl, rfl, fun i hi hj => by omega, .inl ⟨hbelow, rfl⟩⟩
    · rw [if_neg hbelow] at h
      by_cases hend : rayLength ≤ k * sampleLength
      · rw [if_pos hend] at h
        cases h
        exact ⟨k, le_rfl, rfl, fun i hi hj => by omega, .inr ⟨hbelow, hend, rfl⟩⟩
      · rw [if_neg hend] at h
        obtain ⟨j, hkj, hlast, habove, hj⟩ := ih h
        refine ⟨j, by omega, hlast, fun i hi hlt => ?_, hj⟩
        rcases Nat.eq_or_lt_of_le hi with rfl | hi
        · exact hbelow
        · exact habove i hi hlt

/-- A positive sample length brings the loop to the end of the ray. -/
theorem sampleLoop_ends (globe : Globe ℝ) (hs : 0 < sampleLength) (k : Nat) :
    ∃ fuel result, sampleLoop globe ray rayLength sampleLength fuel (samplingAt ray rayLength sampleLength k) =
      some result := by
  obtain ⟨n, hn⟩ : ∃ n : ℕ, rayLength ≤ n * sampleLength := by
    obtain ⟨n, hn⟩ := Archimedean.arch rayLength hs
    exact ⟨n, by rwa [nsmul_eq_mul] at hn⟩
  -- the passes that are left
  obtain ⟨m, hm⟩ : ∃ m, n ≤ k + m := ⟨n, by omega⟩
  induction m generalizing k with
  | zero =>
    have hend : rayLength ≤ k * sampleLength :=
      hn.trans (mul_le_mul_of_nonneg_right (Nat.cast_le.2 hm) hs.le)
    refine ⟨1, ?_⟩
    rw [sampleLoop_succ globe hs.le, if_pos hend]
    split
    · exact ⟨_, rfl⟩
    · exact ⟨_, rfl⟩
  | succ m ih =>
    obtain ⟨fuel, result, h⟩ := ih (k + 1) (by omega)
    refine ⟨fuel + 1, ?_⟩
    rw [sampleLoop_succ globe hs.le, h]
    split
    · exact ⟨_, rfl⟩
    · split
      · exact ⟨_, rfl⟩
      · exact ⟨_, rfl⟩

/-- Without a sample length the loop does not leave a start above the ground. -/
theorem sampleLoop_stuck {globe : Globe ℝ} (hlength : 0 < rayLength) (h : ¬globe.belowGround ray.origin)
    (fuel k : Nat) :
    sampleLoop globe ray rayLength 0 fuel (samplingAt ray rayLength 0 k) = none := by
  have hsample : sampleAt ray rayLength 0 k = ray.origin := by
    rw [sampleAt, mul_zero, min_eq_left hlength.le, getPointAt_zero]
  induction fuel generalizing k with
  | zero => rfl
  | succ fuel ih =>
    rw [sampleLoop_succ globe le_rfl, hsample, if_neg h, mul_zero, if_neg (not_le.2 hlength)]
    refine ih (k + 1) ?_
    rw [sampleAt, mul_zero, min_eq_left hlength.le, getPointAt_zero]

end Loop

/-! ## The search -/

section Search

variable {globe : Globe ℝ} {precision : ℝ}

/-- A point of the segment at or below the terrain, the start or with a point above the terrain at most
a precision before it. -/
def Hit (globe : Globe ℝ) (precision : ℝ) (p1 p2 point : Vec4 ℝ) : Prop :=
  ∃ t, 0 ≤ t ∧ t ≤ 1 ∧ point = along p1 p2 t ∧ globe.belowGround point ∧
    (point = p1 ∨ ∃ r, 0 ≤ r ∧ r ≤ t ∧ ¬globe.belowGround (along p1 p2 r) ∧
      (along p1 p2 r).distanceTo3 Real.sqrt point ≤ precision)

/-- The search ends, and what it returns is as it should be. -/
def Finds (globe : Globe ℝ) (precision : ℝ) (p1 p2 : Vec4 ℝ) (sampleLength : ℝ) : Prop :=
  ∃ fuel result, intersectSegmentWithTerrain globe Real.sqrt precision fuel p1 p2 sampleLength = some (.ok result) ∧
    ∀ point, result = some point → Hit globe precision p1 p2 point

/-- A hit of a part of the segment whose start is above the ground is one of the segment. -/
theorem Hit.of_part {p1 p2 point : Vec4 ℝ} {a b : ℝ} (ha : 0 ≤ a) (hab : a ≤ b) (hb : b ≤ 1)
    (habove : ¬globe.belowGround (along p1 p2 a)) (h : Hit globe precision (along p1 p2 a) (along p1 p2 b) point) :
    Hit globe precision p1 p2 point := by
  obtain ⟨t, ht0, ht1, rfl, hbelow, hstart⟩ := h
  have hpart : ∀ t, 0 ≤ t → t ≤ 1 → 0 ≤ a + (b - a) * t ∧ a + (b - a) * t ≤ b := by
    intro t ht0 ht1
    have hscaled := mul_le_mul_of_nonneg_left ht1 (sub_nonneg.2 hab)
    have hnonneg := mul_nonneg (sub_nonneg.2 hab) ht0
    constructor <;> linarith
  obtain ⟨h0, h1⟩ := hpart t ht0 ht1
  refine ⟨a + (b - a) * t, h0, h1.trans hb, along_along .., hbelow, .inr ?_⟩
  rcases hstart with hstart | ⟨r, hr0, hrt, hr, hdistance⟩
  · rw [hstart] at hbelow
    exact absurd hbelow habove
  · refine ⟨a + (b - a) * r, (hpart r hr0 (hrt.trans ht1)).1, ?_, ?_, ?_⟩
    · linarith [mul_le_mul_of_nonneg_left hrt (sub_nonneg.2 hab)]
    · rwa [← along_along]
    · rwa [← along_along]

/-- The part of the segment up to a sample. -/
noncomputable def partAt (p1 p2 : Vec4 ℝ) (sampleLength : ℝ) (k : Nat) : ℝ :=
  min (k * sampleLength) (p1.distanceTo3 Real.sqrt p2) / p1.distanceTo3 Real.sqrt p2

/-- The samples of a segment. -/
noncomputable def segmentSample (p1 p2 : Vec4 ℝ) (sampleLength : ℝ) (k : Nat) : Vec4 ℝ :=
  sampleAt (rayOf p1 p2) (p1.distanceTo3 Real.sqrt p2) sampleLength k

variable {p1 p2 : Vec4 ℝ} {sampleLength : ℝ}

theorem segmentSample_eq (hne : p1 ≠ p2) (k : Nat) :
    segmentSample p1 p2 sampleLength k = along p1 p2 (partAt p1 p2 sampleLength k) :=
  getPointAt_rayOf hne _

theorem segmentSample_zero (hne : p1 ≠ p2) : segmentSample p1 p2 sampleLength 0 = p1 := by
  rw [segmentSample_eq hne, partAt, Nat.cast_zero, zero_mul, min_eq_left (distanceTo3_pos hne).le, zero_div,
    along_zero]

theorem segmentSample_end (hne : p1 ≠ p2) {k : Nat} (h : p1.distanceTo3 Real.sqrt p2 ≤ k * sampleLength) :
    segmentSample p1 p2 sampleLength k = p2 := by
  rw [segmentSample_eq hne, partAt, min_eq_right h, div_self (distanceTo3_pos hne).ne', along_one]

theorem partAt_nonneg (hne : p1 ≠ p2) (hs : 0 ≤ sampleLength) (k : Nat) : 0 ≤ partAt p1 p2 sampleLength k :=
  div_nonneg (le_min (mul_nonneg k.cast_nonneg hs) (distanceTo3_pos hne).le) (distanceTo3_pos hne).le

theorem partAt_le_one (hne : p1 ≠ p2) (k : Nat) : partAt p1 p2 sampleLength k ≤ 1 :=
  (div_le_one (distanceTo3_pos hne)).2 (min_le_right _ _)

/-- Consecutive samples are at most a sample length apart. -/
theorem partAt_succ (hne : p1 ≠ p2) (hs : 0 ≤ sampleLength) (k : Nat) :
    partAt p1 p2 sampleLength k ≤ partAt p1 p2 sampleLength (k + 1) ∧
      (partAt p1 p2 sampleLength (k + 1) - partAt p1 p2 sampleLength k) * p1.distanceTo3 Real.sqrt p2 ≤
      sampleLength := by
  have hpos := distanceTo3_pos hne
  have hcast : ((k + 1 : ℕ) : ℝ) * sampleLength = k * sampleLength + sampleLength := by
    rw [Nat.cast_add_one, add_one_mul]
  constructor
  · refine (div_le_div_iff_of_pos_right hpos).2 (min_le_min_right _ ?_)
    linarith
  · rw [partAt, partAt, ← sub_div, div_mul_cancel₀ _ hpos.ne', sub_le_iff_le_add, hcast]
    rcases le_total (k * sampleLength) (p1.distanceTo3 Real.sqrt p2) with h | h
    · rw [min_eq_left h, add_comm sampleLength]
      exact min_le_left _ _
    · rw [min_eq_right h]
      exact (min_le_right _ _).trans (by linarith)

/-- What a search does after its loop. -/
theorem intersectSegmentWithTerrain_succ (hne : p1 ≠ p2) (hs : 0 ≤ sampleLength) (hp : 0 ≤ precision) (fuel : Nat) :
    intersectSegmentWithTerrain globe Real.sqrt precision (fuel + 1) p1 p2 sampleLength =
      match sampleLoop globe (rayOf p1 p2) (p1.distanceTo3 Real.sqrt p2) sampleLength fuel
        (samplingAt (rayOf p1 p2) (p1.distanceTo3 Real.sqrt p2) sampleLength 0) with
      | none => none
      | some (some point, some lastSample) =>
        if sampleLength > precision then
          intersectSegmentWithTerrain globe Real.sqrt precision fuel lastSample point (sampleLength / 10)
        else some (.ok (some point))
      | some (point, _) => some (.ok point) := by
  rw [intersectSegmentWithTerrain, if_neg (not_lt.2 hs), if_neg (not_lt.2 hp),
    samplingAt_zero (distanceTo3_pos hne).le]
  simp only [rayOf]
  rcases sampleLoop globe ⟨p1, (p2.subtract3 p1).normalize3 Real.sqrt⟩ (p1.distanceTo3 Real.sqrt p2) sampleLength fuel
    ⟨0, p1, none⟩ with _ | ⟨_ | point, _ | lastSample⟩ <;> rfl

/-- How a search that ends has ended. -/
theorem intersectSegmentWithTerrain_cases (hne : p1 ≠ p2) (hs : 0 ≤ sampleLength) (hp : 0 ≤ precision) {fuel : Nat}
    {result : Except ℝ (Option (Vec4 ℝ))}
    (h : intersectSegmentWithTerrain globe Real.sqrt precision (fuel + 1) p1 p2 sampleLength = some result) :
    (∃ j : ℕ, p1.distanceTo3 Real.sqrt p2 ≤ j * sampleLength ∧
      (∀ i ≤ j, ¬globe.belowGround (segmentSample p1 p2 sampleLength i)) ∧ result = .ok none) ∨
    (globe.belowGround p1 ∧ result = .ok (some p1)) ∨
    ∃ i, ¬globe.belowGround (segmentSample p1 p2 sampleLength i) ∧
      globe.belowGround (segmentSample p1 p2 sampleLength (i + 1)) ∧
      ((sampleLength ≤ precision ∧ result = .ok (some (segmentSample p1 p2 sampleLength (i + 1)))) ∨
        (precision < sampleLength ∧ intersectSegmentWithTerrain globe Real.sqrt precision fuel
          (segmentSample p1 p2 sampleLength i) (segmentSample p1 p2 sampleLength (i + 1)) (sampleLength / 10) =
            some result)) := by
  rw [intersectSegmentWithTerrain_succ hne hs hp] at h
  cases hloop : sampleLoop globe (rayOf p1 p2) (p1.distanceTo3 Real.sqrt p2) sampleLength fuel
      (samplingAt (rayOf p1 p2) (p1.distanceTo3 Real.sqrt p2) sampleLength 0) with
  | none =>
    rw [hloop] at h
    cases h
  | some found =>
    obtain ⟨point, last⟩ := found
    obtain ⟨j, -, rfl, habove, ⟨hbelow, rfl⟩ | ⟨hnot, hend, rfl⟩⟩ := sampleLoop_spec hs hloop
    · rw [hloop] at h
      cases j with
      | zero =>
        have hstart : sampleAt (rayOf p1 p2) (p1.distanceTo3 Real.sqrt p2) sampleLength 0 = p1 :=
            segmentSample_zero hne
        rw [hstart] at h hbelow
        cases h
        exact .inr (.inl ⟨hbelow, rfl⟩)
      | succ i =>
        refine .inr (.inr ⟨i, habove i (Nat.zero_le _) (Nat.lt_succ_self _), hbelow, ?_⟩)
        simp only [lastAt] at h
        by_cases hprecise : sampleLength > precision
        · rw [if_pos hprecise] at h
          exact .inr ⟨hprecise, h⟩
        · rw [if_neg hprecise] at h
          cases h
          exact .inl ⟨not_lt.1 hprecise, rfl⟩
    · rw [hloop] at h
      cases h
      refine .inl ⟨j, hend, fun i hi => ?_, rfl⟩
      rcases Nat.eq_or_lt_of_le hi with rfl | hlt
      · exact hnot
      · exact habove i (Nat.zero_le _) hlt

/-- What is returned is a hit. -/
theorem hit_of_intersectSegmentWithTerrain (hp : 0 ≤ precision) {fuel : Nat} (hne : p1 ≠ p2) (hs : 0 ≤ sampleLength)
    {result : Except ℝ (Option (Vec4 ℝ))}
    (h : intersectSegmentWithTerrain globe Real.sqrt precision fuel p1 p2 sampleLength = some result) :
    ∃ found, result = .ok found ∧ ∀ point, found = some point → Hit globe precision p1 p2 point := by
  induction fuel generalizing p1 p2 sampleLength with
  | zero => cases h
  | succ fuel ih =>
    rcases intersectSegmentWithTerrain_cases hne hs hp h with
      ⟨j, -, -, rfl⟩ | ⟨hbelow, rfl⟩ | ⟨i, habove, hbelow, ⟨hprecise, rfl⟩ | ⟨-, hsearch⟩⟩
    · exact ⟨none, rfl, fun point hpoint => by cases hpoint⟩
    · refine ⟨some p1, rfl, fun point hpoint => ?_⟩
      cases hpoint
      exact ⟨0, le_rfl, zero_le_one, (along_zero ..).symm, hbelow, .inl rfl⟩
    · refine ⟨some _, rfl, fun point hpoint => ?_⟩
      cases hpoint
      obtain ⟨hle, hstep⟩ := partAt_succ hne hs i
      rw [segmentSample_eq hne] at habove hbelow ⊢
      refine ⟨_, partAt_nonneg hne hs _, partAt_le_one hne _, rfl, hbelow,
        .inr ⟨_, partAt_nonneg hne hs i, hle, habove, ?_⟩⟩
      rw [distanceTo3_along _ _ hle]
      exact hstep.trans hprecise
    · have hnext : segmentSample p1 p2 sampleLength i ≠ segmentSample p1 p2 sampleLength (i + 1) := by
        intro heq
        rw [heq] at habove
        exact habove hbelow
      obtain ⟨found, rfl, hfound⟩ := ih hnext (by positivity) hsearch
      refine ⟨found, rfl, fun point hpoint => ?_⟩
      have hhit := hfound point hpoint
      rw [segmentSample_eq hne] at habove hhit
      rw [segmentSample_eq hne] at hhit
      exact Hit.of_part (partAt_nonneg hne hs i) (partAt_succ hne hs i).1 (partAt_le_one hne _) habove hhit

/-! ## When the search ends -/

/-- A search ends with its loop, or with the search of the part that it leaves. -/
theorem intersectSegmentWithTerrain_of_loop (hne : p1 ≠ p2) (hs : 0 < sampleLength) (hp : 0 ≤ precision)
    (hpart : ∀ i, precision < sampleLength → ¬globe.belowGround (segmentSample p1 p2 sampleLength i) →
      globe.belowGround (segmentSample p1 p2 sampleLength (i + 1)) →
      ∃ fuel result, intersectSegmentWithTerrain globe Real.sqrt precision fuel (segmentSample p1 p2 sampleLength i)
        (segmentSample p1 p2 sampleLength (i + 1)) (sampleLength / 10) = some result) :
    ∃ fuel result, intersectSegmentWithTerrain globe Real.sqrt precision fuel p1 p2 sampleLength = some result := by
  obtain ⟨n, ⟨point, last⟩, hloop⟩ : ∃ fuel result, sampleLoop globe (rayOf p1 p2) (p1.distanceTo3 Real.sqrt p2)
      sampleLength fuel (samplingAt (rayOf p1 p2) (p1.distanceTo3 Real.sqrt p2) sampleLength 0) = some result :=
    sampleLoop_ends globe hs 0
  obtain ⟨j, -, rfl, habove, ⟨hbelow, rfl⟩ | ⟨-, -, rfl⟩⟩ := sampleLoop_spec hs.le hloop
  · cases j with
    | zero =>
      refine ⟨n + 1, ?_⟩
      rw [intersectSegmentWithTerrain_succ hne hs.le hp, hloop]
      exact ⟨_, rfl⟩
    | succ i =>
      by_cases hprecise : precision < sampleLength
      · obtain ⟨m, result, hm⟩ := hpart i hprecise (habove i (Nat.zero_le _) (Nat.lt_succ_self _)) hbelow
        refine ⟨max n m + 1, result, ?_⟩
        rw [intersectSegmentWithTerrain_succ hne hs.le hp, sampleLoop_mono (le_max_left n m) hloop]
        simp only [lastAt, gt_iff_lt, if_pos hprecise]
        exact intersectSegmentWithTerrain_mono (le_max_right n m) hm
      · refine ⟨n + 1, ?_⟩
        rw [intersectSegmentWithTerrain_succ hne hs.le hp, hloop]
        simp only [lastAt, gt_iff_lt, if_neg hprecise]
        exact ⟨_, rfl⟩
  · refine ⟨n + 1, ?_⟩
    rw [intersectSegmentWithTerrain_succ hne hs.le hp, hloop]
    exact ⟨_, rfl⟩

/-- With a precision the search ends: the sample length is at most the precision after some searches. -/
theorem intersectSegmentWithTerrain_ends (hp : 0 < precision) (hne : p1 ≠ p2) (hs : 0 < sampleLength) :
    ∃ fuel result, intersectSegmentWithTerrain globe Real.sqrt precision fuel p1 p2 sampleLength = some result := by
  obtain ⟨n, hn⟩ : ∃ n : ℕ, sampleLength ≤ precision * 10 ^ n := by
    obtain ⟨n, hn⟩ := pow_unbounded_of_one_lt (sampleLength / precision) (by norm_num : (1 : ℝ) < 10)
    exact ⟨n, by rw [div_lt_iff₀ hp, mul_comm] at hn; exact hn.le⟩
  induction n generalizing p1 p2 sampleLength with
  | zero =>
    refine intersectSegmentWithTerrain_of_loop hne hs hp.le fun i hprecise _ _ => ?_
    rw [pow_zero, mul_one] at hn
    exact absurd hn (not_le.2 hprecise)
  | succ n ih =>
    refine intersectSegmentWithTerrain_of_loop hne hs hp.le fun i _ habove hbelow => ih ?_ (by positivity) ?_
    · intro heq
      rw [heq] at habove
      exact habove hbelow
    · rw [div_le_iff₀ (by norm_num : (0 : ℝ) < 10), mul_assoc, ← pow_succ]
      exact hn

/-- Without one a search that meets the terrain after its start is followed by another such search. -/
theorem intersectSegmentWithTerrain_none (hne : p1 ≠ p2) (hs : 0 < sampleLength) (hstart : ¬globe.belowGround p1)
    {k : Nat} (hhit : globe.belowGround (segmentSample p1 p2 sampleLength k)) (fuel : Nat) :
    intersectSegmentWithTerrain globe Real.sqrt 0 fuel p1 p2 sampleLength = none := by
  induction fuel generalizing p1 p2 sampleLength k with
  | zero => rfl
  | succ fuel ih =>
    refine Option.eq_none_iff_forall_not_mem.2 fun result h => ?_
    rcases intersectSegmentWithTerrain_cases hne hs.le le_rfl h with
      ⟨j, hend, habove, -⟩ | ⟨hbelow, -⟩ | ⟨i, habove, hbelow, ⟨hprecise, -⟩ | ⟨-, hsearch⟩⟩
    · rcases le_total k j with hkj | hjk
      · exact habove k hkj hhit
      · have hlate := hend.trans (mul_le_mul_of_nonneg_right (Nat.cast_le.2 hjk) hs.le)
        rw [segmentSample_end hne hlate, ← segmentSample_end hne hend] at hhit
        exact habove j le_rfl hhit
    · exact hstart hbelow
    · exact absurd hprecise (not_le.2 hs)
    · have hnext : segmentSample p1 p2 sampleLength i ≠ segmentSample p1 p2 sampleLength (i + 1) := by
        intro heq
        rw [heq] at habove
        exact habove hbelow
      have hshort : 0 < sampleLength / 10 := by positivity
      obtain ⟨m, hm⟩ := Archimedean.arch ((segmentSample p1 p2 sampleLength i).distanceTo3 Real.sqrt
        (segmentSample p1 p2 sampleLength (i + 1))) hshort
      rw [nsmul_eq_mul] at hm
      have hagain : globe.belowGround (segmentSample (segmentSample p1 p2 sampleLength i)
          (segmentSample p1 p2 sampleLength (i + 1)) (sampleLength / 10) m) := by
        rw [segmentSample_end hnext hm]
        exact hbelow
      rw [ih hnext hshort habove hagain] at hsearch
      cases hsearch

/-- The loop of a search without a sample length does not end. -/
theorem intersectSegmentWithTerrain_zero (hne : p1 ≠ p2) (hp : 0 ≤ precision) (hstart : ¬globe.belowGround p1)
    (fuel : Nat) : intersectSegmentWithTerrain globe Real.sqrt precision fuel p1 p2 0 = none := by
  cases fuel with
  | zero => rfl
  | succ fuel =>
    rw [intersectSegmentWithTerrain_succ hne le_rfl hp, sampleLoop_stuck (distanceTo3_pos hne) hstart]

/-- The search finds where it starts at or below the terrain, and else with a sample length and with a precision or no
sample at or below the terrain. -/
theorem intersectSegmentWithTerrain_right_iff (globe : Globe ℝ) {p1 p2 : Vec4 ℝ} (hne : p1 ≠ p2)
    {sampleLength precision : ℝ}
    (hs : 0 ≤ sampleLength) (hp : 0 ≤ precision) : Finds globe precision p1 p2 sampleLength ↔
      globe.belowGround p1 ∨ 0 < sampleLength ∧ (0 < precision ∨
        ∀ k : ℕ, ¬globe.belowGround (segmentSample p1 p2 sampleLength k)) := by
  have hfinds : (∃ fuel result, intersectSegmentWithTerrain globe Real.sqrt precision fuel p1 p2 sampleLength =
      some result) → Finds globe precision p1 p2 sampleLength := by
    rintro ⟨fuel, result, h⟩
    obtain ⟨found, rfl, hfound⟩ := hit_of_intersectSegmentWithTerrain hp hne hs h
    exact ⟨fuel, found, h, hfound⟩
  constructor
  · rintro ⟨fuel, result, h, -⟩
    by_contra hcond
    obtain ⟨hstart, hlength⟩ := not_or.1 hcond
    rcases hs.eq_or_lt with rfl | hspos
    · rw [intersectSegmentWithTerrain_zero hne hp hstart] at h
      cases h
    · obtain ⟨hprecision, hhit⟩ := not_or.1 (not_and.1 hlength hspos)
      obtain rfl : precision = 0 := le_antisymm (not_lt.1 hprecision) hp
      obtain ⟨k, hk⟩ := not_forall.1 hhit
      rw [intersectSegmentWithTerrain_none hne hspos hstart (not_not.1 hk)] at h
      cases h
  · rintro (hstart | ⟨hspos, hprecision | hmiss⟩)
    · refine hfinds ⟨2, .ok (some p1), ?_⟩
      have hzero : sampleAt (rayOf p1 p2) (p1.distanceTo3 Real.sqrt p2) sampleLength 0 = p1 := segmentSample_zero hne
      rw [intersectSegmentWithTerrain_succ hne hs hp, sampleLoop_succ globe hs, hzero, if_pos hstart]
      rfl
    · exact hfinds (intersectSegmentWithTerrain_ends hprecision hne hspos)
    · exact hfinds (intersectSegmentWithTerrain_of_loop hne hspos hp fun i _ _ hbelow => absurd hbelow (hmiss _))

end Search

/-- A ground at the height of zero. -/
def flatGround : Globe ℝ := ⟨fun point => ⟨⟨point.x, point.y⟩, point.z⟩, fun _ _ => 0⟩

theorem flatGround_found : Finds flatGround 1 ⟨0, 0, 5⟩ ⟨0, 0, -5⟩ 2 :=
  (intersectSegmentWithTerrain_right_iff flatGround (fun h => by norm_num [Vec4.ext_iff] at h) (by norm_num)
    (by norm_num)).2 (.inr ⟨by norm_num, .inl (by norm_num)⟩)

/-- A vertical segment through the ground: neither without a sample length nor without a precision does the search
end. -/
theorem flatGround_lost : ¬Finds flatGround 10 ⟨0, 0, 5⟩ ⟨0, 0, -5⟩ 0 ∧
    ¬Finds flatGround 0 ⟨0, 0, 5⟩ ⟨0, 0, -5⟩ 2 := by
  have hne : (⟨0, 0, 5⟩ : Vec4 ℝ) ≠ ⟨0, 0, -5⟩ := fun h => by norm_num [Vec4.ext_iff] at h
  have hstart : ¬flatGround.belowGround ⟨0, 0, 5⟩ := by norm_num [Globe.belowGround, flatGround]
  constructor
  · rintro ⟨fuel, result, h, -⟩
    rw [intersectSegmentWithTerrain_zero hne (by norm_num) hstart] at h
    cases h
  · rintro ⟨fuel, result, h, -⟩
    obtain ⟨k, hk⟩ := Archimedean.arch ((⟨0, 0, 5⟩ : Vec4 ℝ).distanceTo3 Real.sqrt ⟨0, 0, -5⟩)
        (by norm_num : (0 : ℝ) < 2)
    rw [nsmul_eq_mul] at hk
    have hhit : flatGround.belowGround (segmentSample ⟨0, 0, 5⟩ ⟨0, 0, -5⟩ 2 k) := by
      rw [segmentSample_end hne hk]
      norm_num [Globe.belowGround, flatGround]
    rw [intersectSegmentWithTerrain_none hne (by norm_num) hstart hhit] at h
    cases h

end WorldWind.Geom.Exact
