import WorldWind.Geom.TerrainRay
/-!
# `WWMath.polytopeIntersect`

A line against the planes of a convex polytope. The loop keeps the last parameter at which
the line enters a negative half-space and the first at which it leaves one, and stops where
the two cross. What it has kept says when a point of the ray is inside the planes so far
(`Scanned.mem_iff`), in whatever order they came.
-/

namespace WorldWind.Geom.Exact.Polytope

variable {K : Type*} [Field K] [LinearOrder K]

/-! ## The code -/

structure Plane (K : Type*) where
  normal : Vec4 K
  distance : K
  deriving DecidableEq

/-- The variables of the loop. Before the first such plane `fMax` and `bMin` are below and above all numbers. -/
structure Scan (K : Type*) where
  fMax : WithBot K
  bMin : WithTop K
  isTangent : Bool

/-- One plane; no result where the line does not intersect the polytope. -/
def scanPlane (line : Line K) (scan : Scan K) (plane : Plane K) : Option (Scan K) :=
  let u := line.direction
  let p := line.origin
  let n := plane.normal
  let d := -plane.distance
  let s := u.dot3 n
  if s = 0 then
    let pdn := p.dot3 n
    if pdn > d then none else some (if pdn = d then { scan with isTangent := true } else scan)
  else
    let a := (d - p.dot3 n) / s
    if s < 0 then
      if (a : WithBot K) > scan.fMax then
        if (a : WithTop K) > scan.bMin then none else some { scan with fMax := a }
      else some scan
    else if (a : WithTop K) < scan.bMin then
      if a < 0 ∨ (a : WithBot K) < scan.fMax then none else some { scan with bMin := a }
    else some scan

/-- The points with their `isTangent`; `maxValue` is the largest number, which stands for no plane. -/
def polytopeIntersect (maxValue : K) (line : Line K) (planes : List (Plane K)) : Option (List (Vec4 K × Bool)) :=
  (planes.foldlM (scanPlane line) ⟨⊥, ⊤, false⟩).map fun scan =>
    let pointAt := fun a => line.origin.add3 (line.direction.multiply3 a)
    let leaving := (pointAt (scan.bMin.untopD maxValue), scan.isTangent)
    if scan.fMax ≥ 0 then [(pointAt (scan.fMax.unbotD (-maxValue)), scan.isTangent), leaving] else [leaving]

/-! ## The polytope and the ray -/

/-- The negative half-space. -/
def Plane.Inside (plane : Plane K) (point : Vec4 K) : Prop := point.dot3 plane.normal ≤ -plane.distance

def InPolytope (planes : List (Plane K)) (point : Vec4 K) : Prop := ∀ plane ∈ planes, plane.Inside point

def Bounded (planes : List (Plane K)) : Prop :=
  ∃ bound, ∀ point, InPolytope planes point → point.getLengthSquared3 ≤ bound

/-- All points near the point are inside. -/
def Interior (planes : List (Plane K)) (point : Vec4 K) : Prop :=
  ∃ radius > 0, ∀ near : Vec4 K, (near.subtract3 point).getLengthSquared3 < radius → InPolytope planes near

/-- The ray leaves the polytope at the parameter `t`. -/
def LeavesAt (planes : List (Plane K)) (line : Line K) (t : K) : Prop :=
  0 ≤ t ∧ InPolytope planes (line.getPointAt t) ∧ ∀ t' > t, ¬InPolytope planes (line.getPointAt t')

/-- The ray enters the polytope at the parameter `t`. -/
def EntersAt (planes : List (Plane K)) (line : Line K) (t : K) : Prop :=
  0 ≤ t ∧ InPolytope planes (line.getPointAt t) ∧ ∀ t', 0 ≤ t' → t' < t → ¬InPolytope planes (line.getPointAt t')

section

variable [IsStrictOrderedRing K] {line : Line K} {planes : List (Plane K)} {plane : Plane K}

/-- The parameter at which the line crosses a plane. -/
def crossing (line : Line K) (plane : Plane K) : K :=
  (-plane.distance - line.origin.dot3 plane.normal) / line.direction.dot3 plane.normal

omit [IsStrictOrderedRing K] in
theorem inside_iff (t : K) : plane.Inside (line.getPointAt t) ↔
    line.origin.dot3 plane.normal + t * line.direction.dot3 plane.normal ≤ -plane.distance := by
  have h : (line.getPointAt t).dot3 plane.normal =
      line.origin.dot3 plane.normal + t * line.direction.dot3 plane.normal := by
    simp only [Line.getPointAt, Vec4.dot3]
    ring
  rw [Plane.Inside, h]

theorem inside_of_front (h : line.direction.dot3 plane.normal < 0) (t : K) :
    plane.Inside (line.getPointAt t) ↔ crossing line plane ≤ t := by
  rw [inside_iff, crossing, div_le_iff_of_neg h]
  constructor <;> intro h <;> linarith

theorem inside_of_back (h : 0 < line.direction.dot3 plane.normal) (t : K) :
    plane.Inside (line.getPointAt t) ↔ t ≤ crossing line plane := by
  rw [inside_iff, crossing, le_div_iff₀ h]
  constructor <;> intro h <;> linarith

omit [IsStrictOrderedRing K] in
theorem inside_of_parallel (h : line.direction.dot3 plane.normal = 0) (t : K) :
    plane.Inside (line.getPointAt t) ↔ line.origin.dot3 plane.normal ≤ -plane.distance := by
  rw [inside_iff, h, mul_zero, add_zero]

/-! ## The loop -/

/-- What the loop has kept of the planes so far. -/
structure Scanned (line : Line K) (planes : List (Plane K)) (scan : Scan K) : Prop where
  mem_iff : ∀ t : K, InPolytope planes (line.getPointAt t) ↔ scan.fMax ≤ (t : WithBot K) ∧ (t : WithTop K) ≤ scan.bMin
  nonneg : (0 : WithTop K) ≤ scan.bMin
  meet : ∀ f b : K, scan.fMax = f → scan.bMin = b → f ≤ b
  tangent : scan.isTangent = true ↔ ∃ plane ∈ planes, line.direction.dot3 plane.normal = 0 ∧
    line.origin.dot3 plane.normal = -plane.distance

omit [IsStrictOrderedRing K] in
theorem scanned_nil (line : Line K) : Scanned line [] ⟨⊥, ⊤, false⟩ where
  mem_iff t := by simp [InPolytope]
  nonneg := le_top
  meet f b h := by cases h
  tangent := by simp

omit [IsStrictOrderedRing K] in
theorem inPolytope_cons (plane : Plane K) (planes : List (Plane K)) (point : Vec4 K) :
    InPolytope (plane :: planes) point ↔ plane.Inside point ∧ InPolytope planes point := List.forall_mem_cons

omit [IsStrictOrderedRing K] in
/-- A plane that the line crosses does not touch `isTangent`. -/
theorem Scanned.tangent_cons {scan : Scan K} (h : Scanned line planes scan)
    (hs : line.direction.dot3 plane.normal ≠ 0) : scan.isTangent = true ↔
      ∃ plane' ∈ plane :: planes, line.direction.dot3 plane'.normal = 0 ∧
        line.origin.dot3 plane'.normal = -plane'.distance := by
  rw [h.tangent]
  simp [hs]

omit [IsStrictOrderedRing K] in
theorem Scanned.scanPlane_parallel {scan : Scan K} (h : Scanned line planes scan)
    (hs : line.direction.dot3 plane.normal = 0) :
    (∃ scan', scanPlane line scan plane = some scan' ∧ Scanned line (plane :: planes) scan') ∨
      (scanPlane line scan plane = none ∧ ∀ t ≥ 0, ¬InPolytope (plane :: planes) (line.getPointAt t)) := by
  have hinside := inside_of_parallel hs
  rw [scanPlane]
  simp only [hs, if_true]
  by_cases hout : line.origin.dot3 plane.normal > -plane.distance
  · rw [if_pos hout]
    refine .inr ⟨rfl, fun t _ hin => ?_⟩
    exact absurd ((hinside t).1 ((inPolytope_cons ..).1 hin).1) (not_le.2 hout)
  · rw [if_neg hout]
    have hmem : ∀ t, InPolytope (plane :: planes) (line.getPointAt t) ↔
        scan.fMax ≤ (t : WithBot K) ∧ (t : WithTop K) ≤ scan.bMin := by
      intro t
      rw [inPolytope_cons, hinside, h.mem_iff]
      exact and_iff_right (not_lt.1 hout)
    refine .inl ⟨_, rfl, ?_⟩
    by_cases hon : line.origin.dot3 plane.normal = -plane.distance
    · rw [if_pos hon]
      exact ⟨hmem, h.nonneg, h.meet, by simp [hs, hon]⟩
    · rw [if_neg hon]
      exact ⟨hmem, h.nonneg, h.meet, by simp [h.tangent, hon]⟩

theorem Scanned.scanPlane_front {scan : Scan K} (h : Scanned line planes scan)
    (hs : line.direction.dot3 plane.normal < 0) :
    (∃ scan', scanPlane line scan plane = some scan' ∧ Scanned line (plane :: planes) scan') ∨
      (scanPlane line scan plane = none ∧ ∀ t ≥ 0, ¬InPolytope (plane :: planes) (line.getPointAt t)) := by
  have hmem : ∀ t, InPolytope (plane :: planes) (line.getPointAt t) ↔ crossing line plane ≤ t ∧
      scan.fMax ≤ (t : WithBot K) ∧ (t : WithTop K) ≤ scan.bMin := fun t => by
    rw [inPolytope_cons, inside_of_front hs, h.mem_iff]
  rw [scanPlane]
  simp only [if_neg hs.ne, if_pos hs]
  rw [← crossing]
  generalize crossing line plane = a at hmem
  by_cases hlast : (a : WithBot K) > scan.fMax
  · rw [if_pos hlast]
    by_cases hcross : (a : WithTop K) > scan.bMin
    · rw [if_pos hcross]
      refine .inr ⟨rfl, fun t _ hin => ?_⟩
      obtain ⟨hat, -, htb⟩ := (hmem t).1 hin
      exact absurd (hcross.trans_le (WithTop.coe_le_coe.2 hat)) (not_lt.2 htb)
    · rw [if_neg hcross]
      refine .inl ⟨_, rfl, ?_, h.nonneg, ?_, h.tangent_cons hs.ne⟩
      · intro t
        rw [hmem, WithBot.coe_le_coe]
        constructor
        · exact fun ⟨hat, _, htb⟩ => ⟨hat, htb⟩
        · exact fun ⟨hat, htb⟩ => ⟨hat, hlast.le.trans (WithBot.coe_le_coe.2 hat), htb⟩
      · intro f b hf hb
        obtain rfl := WithBot.coe_inj.1 hf
        simp only at hb
        rw [hb, gt_iff_lt, not_lt, WithTop.coe_le_coe] at hcross
        exact hcross
  · rw [if_neg hlast]
    refine .inl ⟨_, rfl, ?_, h.nonneg, h.meet, h.tangent_cons hs.ne⟩
    intro t
    rw [hmem]
    refine and_iff_right_of_imp fun ⟨hft, _⟩ => ?_
    exact WithBot.coe_le_coe.1 ((not_lt.1 hlast).trans hft)

theorem Scanned.scanPlane_back {scan : Scan K} (h : Scanned line planes scan)
    (hs : 0 < line.direction.dot3 plane.normal) :
    (∃ scan', scanPlane line scan plane = some scan' ∧ Scanned line (plane :: planes) scan') ∨
      (scanPlane line scan plane = none ∧ ∀ t ≥ 0, ¬InPolytope (plane :: planes) (line.getPointAt t)) := by
  have hmem : ∀ t, InPolytope (plane :: planes) (line.getPointAt t) ↔ t ≤ crossing line plane ∧
      scan.fMax ≤ (t : WithBot K) ∧ (t : WithTop K) ≤ scan.bMin := fun t => by
    rw [inPolytope_cons, inside_of_back hs, h.mem_iff]
  rw [scanPlane]
  simp only [if_neg hs.ne', if_neg hs.not_gt]
  rw [← crossing]
  generalize crossing line plane = a at hmem
  by_cases hfirst : (a : WithTop K) < scan.bMin
  · rw [if_pos hfirst]
    by_cases hcross : a < 0 ∨ (a : WithBot K) < scan.fMax
    · rw [if_pos hcross]
      refine .inr ⟨rfl, fun t ht hin => ?_⟩
      obtain ⟨hta, hft, -⟩ := (hmem t).1 hin
      rcases hcross with hneg | hcross
      · exact absurd (ht.le.trans hta) (not_le.2 hneg)
      · exact absurd (hcross.trans_le hft) (not_lt.2 (WithBot.coe_le_coe.2 hta))
    · rw [if_neg hcross]
      obtain ⟨hnonneg, hfront⟩ := not_or.1 hcross
      refine .inl ⟨_, rfl, ?_, WithTop.coe_le_coe.2 (not_lt.1 hnonneg), ?_, h.tangent_cons hs.ne'⟩
      · intro t
        rw [hmem, WithTop.coe_le_coe]
        constructor
        · exact fun ⟨hta, hft, _⟩ => ⟨hft, hta⟩
        · exact fun ⟨hft, hta⟩ => ⟨hta, hft, (WithTop.coe_le_coe.2 hta).trans hfirst.le⟩
      · intro f b hf hb
        obtain rfl := WithTop.coe_inj.1 hb
        simp only at hf
        rw [hf, not_lt, WithBot.coe_le_coe] at hfront
        exact hfront
  · rw [if_neg hfirst]
    refine .inl ⟨_, rfl, ?_, h.nonneg, h.meet, h.tangent_cons hs.ne'⟩
    intro t
    rw [hmem]
    refine and_iff_right_of_imp fun ⟨_, htb⟩ => ?_
    exact WithTop.coe_le_coe.1 (htb.trans (not_lt.1 hfirst))

/-- A plane more: the loop goes on with what it must keep, or the ray misses the planes. -/
theorem Scanned.scanPlane {scan : Scan K} (h : Scanned line planes scan) (plane : Plane K) :
    (∃ scan', scanPlane line scan plane = some scan' ∧ Scanned line (plane :: planes) scan') ∨
      (scanPlane line scan plane = none ∧ ∀ t ≥ 0, ¬InPolytope (plane :: planes) (line.getPointAt t)) := by
  rcases lt_trichotomy (line.direction.dot3 plane.normal) 0 with hs | hs | hs
  · exact h.scanPlane_front hs
  · exact h.scanPlane_parallel hs
  · exact h.scanPlane_back hs

omit [IsStrictOrderedRing K] in
theorem inPolytope_perm {planes' : List (Plane K)} (hperm : planes'.Perm planes) (point : Vec4 K) :
    InPolytope planes' point ↔ InPolytope planes point :=
  ⟨fun hin plane hplane => hin plane (hperm.mem_iff.2 hplane),
    fun hin plane hplane => hin plane (hperm.mem_iff.1 hplane)⟩

omit [IsStrictOrderedRing K] in
theorem Scanned.perm {planes' : List (Plane K)} {scan : Scan K} (h : Scanned line planes scan)
    (hperm : planes'.Perm planes) : Scanned line planes' scan where
  mem_iff t := (inPolytope_perm hperm _).trans (h.mem_iff t)
  nonneg := h.nonneg
  meet := h.meet
  tangent := by
    rw [h.tangent]
    simp only [hperm.mem_iff]

/-- The whole loop. -/
theorem foldlM_scanPlane (planes : List (Plane K)) : ∀ {done : List (Plane K)} {scan : Scan K},
    Scanned line done scan →
      (∃ scan', planes.foldlM (Polytope.scanPlane line) scan = some scan' ∧ Scanned line (planes ++ done) scan') ∨
        (planes.foldlM (Polytope.scanPlane line) scan = none ∧
          ∀ t ≥ 0, ¬InPolytope (planes ++ done) (line.getPointAt t)) := by
  induction planes with
  | nil => exact fun h => .inl ⟨_, rfl, h⟩
  | cons plane planes ih =>
    intro done scan h
    have hperm : (plane :: planes ++ done).Perm (planes ++ plane :: done) := List.perm_middle.symm
    rw [List.foldlM_cons]
    rcases h.scanPlane plane with ⟨scan', hscan, h'⟩ | ⟨hscan, hmiss⟩
    · rw [hscan]
      rcases ih h' with ⟨scan'', hscan', h''⟩ | ⟨hscan', hmiss⟩
      · exact .inl ⟨scan'', hscan', h''.perm hperm⟩
      · exact .inr ⟨hscan', fun t ht hin => hmiss t ht ((inPolytope_perm hperm.symm _).2 hin)⟩
    · rw [hscan]
      refine .inr ⟨rfl, fun t ht hin => hmiss t ht fun plane' hplane => hin plane' (hperm.mem_iff.2 ?_)⟩
      exact List.mem_append_right _ hplane

/-- What is kept does not depend on how it was found. -/
theorem Scanned.fMax_le {scan scan' : Scan K} (h : Scanned line planes scan) (h' : Scanned line planes scan') :
    scan.fMax ≤ scan'.fMax := by
  have hsame : ∀ t : K, scan'.fMax ≤ (t : WithBot K) ∧ (t : WithTop K) ≤ scan'.bMin → scan.fMax ≤ (t : WithBot K) :=
    fun t ht => ((h.mem_iff t).1 ((h'.mem_iff t).2 ht)).1
  cases hf' : scan'.fMax with
  | coe f' =>
    refine hsame f' ⟨hf'.le, ?_⟩
    cases hb' : scan'.bMin with
    | top => exact le_top
    | coe b' => exact WithTop.coe_le_coe.2 (h'.meet f' b' hf' hb')
  | bot =>
    cases hf : scan.fMax with
    | bot => exact le_rfl
    | coe f =>
      -- a parameter before `f` is inside all the same
      have hbefore : ∃ t < f, (t : WithTop K) ≤ scan'.bMin := by
        cases hb' : scan'.bMin with
        | top => exact ⟨f - 1, sub_one_lt f, le_top⟩
        | coe b' => exact ⟨min (f - 1) b', (min_le_left _ _).trans_lt (sub_one_lt f),
            WithTop.coe_le_coe.2 (min_le_right _ _)⟩
      obtain ⟨t, htf, htb⟩ := hbefore
      have hle := hsame t ⟨hf'.le.trans bot_le, htb⟩
      rw [hf, WithBot.coe_le_coe] at hle
      exact absurd htf (not_lt.2 hle)

theorem Scanned.bMin_le {scan scan' : Scan K} (h : Scanned line planes scan) (h' : Scanned line planes scan') :
    scan'.bMin ≤ scan.bMin := by
  have hsame : ∀ t : K, scan'.fMax ≤ (t : WithBot K) ∧ (t : WithTop K) ≤ scan'.bMin → (t : WithTop K) ≤ scan.bMin :=
    fun t ht => ((h.mem_iff t).1 ((h'.mem_iff t).2 ht)).2
  cases hb' : scan'.bMin with
  | coe b' =>
    refine hsame b' ⟨?_, hb'.ge⟩
    cases hf' : scan'.fMax with
    | bot => exact bot_le
    | coe f' => exact WithBot.coe_le_coe.2 (h'.meet f' b' hf' hb')
  | top =>
    cases hb : scan.bMin with
    | top => exact le_rfl
    | coe b =>
      have hafter : ∃ t > b, scan'.fMax ≤ (t : WithBot K) := by
        cases hf' : scan'.fMax with
        | bot => exact ⟨b + 1, lt_add_one b, bot_le⟩
        | coe f' => exact ⟨max (b + 1) f', (lt_add_one b).trans_le (le_max_left _ _),
            WithBot.coe_le_coe.2 (le_max_right _ _)⟩
      obtain ⟨t, htb, htf⟩ := hafter
      have hle := hsame t ⟨htf, le_top.trans hb'.ge⟩
      rw [hb, WithTop.coe_le_coe] at hle
      exact absurd htb (not_lt.2 hle)

theorem Scanned.eq {scan scan' : Scan K} (h : Scanned line planes scan) (h' : Scanned line planes scan') :
    scan = scan' := by
  have hfront := le_antisymm (h.fMax_le h') (h'.fMax_le h)
  have hback := le_antisymm (h'.bMin_le h) (h.bMin_le h')
  have htangent : scan.isTangent = scan'.isTangent := Bool.eq_iff_iff.2 (h.tangent.trans h'.tangent.symm)
  obtain ⟨fMax, bMin, isTangent⟩ := scan
  obtain ⟨fMax', bMin', isTangent'⟩ := scan'
  simp only at hfront hback htangent
  rw [hfront, hback, htangent]

/-! ## The end of the ray -/

theorem lengthSquared_pos {v : Vec4 K} (h : v ≠ ⟨0, 0, 0⟩) : 0 < v.getLengthSquared3 := by
  refine lt_of_le_of_ne (add_nonneg (add_nonneg (mul_self_nonneg _) (mul_self_nonneg _)) (mul_self_nonneg _)) ?_
  intro h0
  rw [Vec4.getLengthSquared3] at h0
  refine h ?_
  ext <;> nlinarith [mul_self_nonneg v.x, mul_self_nonneg v.y, mul_self_nonneg v.z]

/-- A line has points as far away as one likes, behind every parameter. -/
theorem exists_far (hu : line.direction ≠ ⟨0, 0, 0⟩) (start bound : K) :
    ∃ t ≥ start, bound < (line.getPointAt t).getLengthSquared3 := by
  have hA := lengthSquared_pos hu
  have hlength : ∀ t, (line.getPointAt t).getLengthSquared3 = line.origin.getLengthSquared3 +
      2 * line.origin.dot3 line.direction * t + line.direction.getLengthSquared3 * (t * t) := by
    intro t
    simp only [Line.getPointAt, Vec4.getLengthSquared3, Vec4.dot3]
    ring
  generalize line.direction.getLengthSquared3 = A at hA hlength
  generalize line.origin.getLengthSquared3 = C at hlength
  generalize 2 * line.origin.dot3 line.direction = B at hlength
  obtain ⟨t, hstart, hone, hfar⟩ : ∃ t ≥ start, 1 ≤ t ∧ (|B| + |bound - C| + 1) / A ≤ t :=
    ⟨max start (max 1 ((|B| + |bound - C| + 1) / A)), le_max_left _ _, (le_max_left _ _).trans (le_max_right _ _),
      (le_max_right _ _).trans (le_max_right _ _)⟩
  refine ⟨t, hstart, ?_⟩
  rw [div_le_iff₀ hA] at hfar
  have hgrow : (|B| + |bound - C| + 1) * t ≤ A * (t * t) := by nlinarith
  have hB : -|B| * t ≤ B * t := mul_le_mul_of_nonneg_right (neg_abs_le B) (by linarith)
  have hC : |bound - C| * 1 ≤ |bound - C| * t := mul_le_mul_of_nonneg_left hone (abs_nonneg _)
  rw [hlength]
  nlinarith [le_abs_self (bound - C)]

theorem Scanned.exists_bMin {scan : Scan K} (h : Scanned line planes scan) (hu : line.direction ≠ ⟨0, 0, 0⟩)
    (hbounded : Bounded planes) : ∃ b : K, scan.bMin = b ∧ 0 ≤ b ∧ InPolytope planes (line.getPointAt b) := by
  cases hb : scan.bMin with
  | coe b =>
    refine ⟨b, rfl, WithTop.coe_le_coe.1 (h.nonneg.trans hb.le), (h.mem_iff b).2 ⟨?_, hb.ge⟩⟩
    cases hf : scan.fMax with
    | bot => exact bot_le
    | coe f => exact WithBot.coe_le_coe.2 (h.meet f b hf hb)
  | top =>
    obtain ⟨bound, hbound⟩ := hbounded
    have hafter : ∃ start : K, scan.fMax ≤ (start : WithBot K) := by
      cases hf : scan.fMax with
      | bot => exact ⟨0, bot_le⟩
      | coe f => exact ⟨f, le_rfl⟩
    obtain ⟨start, hstart⟩ := hafter
    obtain ⟨t, ht, hfar⟩ : ∃ t ≥ start, bound < (line.getPointAt t).getLengthSquared3 := exists_far hu start bound
    have hin : InPolytope planes (line.getPointAt t) :=
      (h.mem_iff t).2 ⟨hstart.trans (WithBot.coe_le_coe.2 ht), hb ▸ le_top⟩
    exact absurd (hbound _ hin) (not_le.2 hfar)

/-- The line is inside also before a point of the interior. -/
theorem exists_before (hu : line.direction ≠ ⟨0, 0, 0⟩) (h : Interior planes line.origin) :
    ∃ t < 0, InPolytope planes (line.getPointAt t) := by
  obtain ⟨radius, hradius, hnear⟩ := h
  have hA := lengthSquared_pos hu
  have hpos : 0 < radius / (2 * line.direction.getLengthSquared3) := div_pos hradius (mul_pos two_pos hA)
  obtain ⟨step, hstep, hone, hshort⟩ : ∃ step : K, 0 < step ∧ step ≤ 1 ∧
      step * (2 * line.direction.getLengthSquared3) ≤ radius :=
    ⟨min 1 (radius / (2 * line.direction.getLengthSquared3)), lt_min one_pos hpos, min_le_left _ _,
      (le_div_iff₀ (mul_pos two_pos hA)).1 (min_le_right _ _)⟩
  refine ⟨-step, neg_lt_zero.2 hstep, hnear _ ?_⟩
  have hlength : ((line.getPointAt (-step)).subtract3 line.origin).getLengthSquared3 =
      step * (step * line.direction.getLengthSquared3) := by
    simp only [Line.getPointAt, Vec4.getLengthSquared3, Vec4.subtract3]
    ring
  rw [hlength]
  nlinarith [mul_pos hstep hA]

/-! ## The points -/

/-- No points where the ray misses the polytope, else the one where it leaves it, behind the one where it
enters it when
the origin is outside and alone when that is in the interior. -/
def Answers (planes : List (Plane K)) (line : Line K) (result : Option (List (Vec4 K × Bool))) : Prop :=
  (result = none ↔ ∀ t ≥ 0, ¬InPolytope planes (line.getPointAt t)) ∧
    ∀ points, result = some points → ∃ leaving, LeavesAt planes line leaving ∧
      (points.map Prod.fst).getLast? = some (line.getPointAt leaving) ∧
      (¬InPolytope planes line.origin → ∃ entering, EntersAt planes line entering ∧
        points.map Prod.fst = [line.getPointAt entering, line.getPointAt leaving]) ∧
      (Interior planes line.origin → points.map Prod.fst = [line.getPointAt leaving])

theorem Scanned.answers {scan : Scan K} (h : Scanned line planes scan) (hu : line.direction ≠ ⟨0, 0, 0⟩)
    (hbounded : Bounded planes) (maxValue : K) :
    Answers planes line (some (if scan.fMax ≥ 0 then
      [(line.getPointAt (scan.fMax.unbotD (-maxValue)), scan.isTangent),
        (line.getPointAt (scan.bMin.untopD maxValue), scan.isTangent)]
      else [(line.getPointAt (scan.bMin.untopD maxValue), scan.isTangent)])) := by
  obtain ⟨b, hb, hb0, hleaves⟩ := h.exists_bMin hu hbounded
  have horigin : line.getPointAt 0 = line.origin := by simp [Line.getPointAt]
  refine ⟨iff_of_false (by simp) fun hmiss => hmiss b hb0 hleaves, ?_⟩
  rintro points hpoints
  cases hpoints
  refine ⟨b, ⟨hb0, hleaves, fun t ht hin => ?_⟩, ?_, ?_, ?_⟩
  · have hle := ((h.mem_iff t).1 hin).2
    rw [hb, WithTop.coe_le_coe] at hle
    exact absurd ht (not_lt.2 hle)
  · rw [hb]
    split <;> rfl
  · intro hout
    rw [← horigin, h.mem_iff, not_and_or, not_le, not_le, hb, WithTop.coe_lt_coe, or_iff_left (not_lt.2 hb0)] at hout
    have hfirst : scan.fMax ≥ 0 := hout.le
    rw [if_pos hfirst, hb]
    cases hf : scan.fMax with
    | bot => simp [hf] at hout
    | coe f =>
      rw [hf, WithBot.coe_lt_coe] at hout
      refine ⟨f, ⟨hout.le, (h.mem_iff f).2 ⟨hf.le, ?_⟩, fun t _ ht hin => ?_⟩, rfl⟩
      · rw [hb, WithTop.coe_le_coe]
        exact h.meet f b hf hb
      · have hle := ((h.mem_iff t).1 hin).1
        rw [hf, WithBot.coe_le_coe] at hle
        exact absurd ht (not_lt.2 hle)
  · intro hinterior
    obtain ⟨t, ht, hin⟩ := exists_before hu hinterior
    have hneg : scan.fMax < 0 := (((h.mem_iff t).1 hin).1).trans_lt (WithBot.coe_lt_coe.2 ht)
    rw [if_neg (not_le.2 hneg), hb]
    rfl

/-- The loop ends with what it must keep, or stops where the ray misses the polytope. -/
theorem scan_cases (line : Line K) (planes : List (Plane K)) :
    (∃ scan, planes.foldlM (Polytope.scanPlane line) ⟨⊥, ⊤, false⟩ = some scan ∧ Scanned line planes scan) ∨
      (planes.foldlM (Polytope.scanPlane line) ⟨⊥, ⊤, false⟩ = none ∧
        ∀ t ≥ 0, ¬InPolytope planes (line.getPointAt t)) := by
  rcases foldlM_scanPlane planes (scanned_nil line) with ⟨scan, hscan, h⟩ | ⟨hscan, hmiss⟩
  · rw [List.append_nil] at h
    exact .inl ⟨scan, hscan, h⟩
  · rw [List.append_nil] at hmiss
    exact .inr ⟨hscan, hmiss⟩

/-- The points of the intersection, whatever the order of the planes. -/
theorem polytopeIntersect_right (maxValue : K) (line : Line K) (planes : List (Plane K))
    (hu : line.direction ≠ ⟨0, 0, 0⟩) (hbounded : Bounded planes) :
    Answers planes line (polytopeIntersect maxValue line planes) ∧ ∀ planes', planes'.Perm planes →
      polytopeIntersect maxValue line planes' = polytopeIntersect maxValue line planes := by
  rcases scan_cases line planes with ⟨scan, hscan, h⟩ | ⟨hscan, hmiss⟩
  · refine ⟨?_, fun planes' hperm => ?_⟩
    · rw [polytopeIntersect, hscan]
      exact h.answers hu hbounded maxValue
    · rcases scan_cases line planes' with ⟨scan', hscan', h'⟩ | ⟨hscan', hmiss'⟩
      · rw [polytopeIntersect, polytopeIntersect, hscan, hscan', h.eq (h'.perm hperm.symm)]
      · obtain ⟨b, -, hb, hin⟩ := h.exists_bMin hu hbounded
        exact absurd ((inPolytope_perm hperm _).2 hin) (hmiss' b hb)
  · have hnone : polytopeIntersect maxValue line planes = none := by
      rw [polytopeIntersect, hscan]
      rfl
    refine ⟨⟨iff_of_true hnone hmiss, fun points hpoints => by simp [hnone] at hpoints⟩, fun planes' hperm => ?_⟩
    rcases scan_cases line planes' with ⟨scan', -, h'⟩ | ⟨hscan', -⟩
    · obtain ⟨b, -, hb, hin⟩ := (h'.perm hperm.symm).exists_bMin hu hbounded
      exact absurd hin (hmiss b hb)
    · rw [hnone, polytopeIntersect, hscan']
      rfl

end

/-- The unit cube. -/
def unitCube : List (Plane ℚ) :=
  [⟨⟨1, 0, 0⟩, -1⟩, ⟨⟨-1, 0, 0⟩, 0⟩, ⟨⟨0, 1, 0⟩, -1⟩, ⟨⟨0, -1, 0⟩, 0⟩, ⟨⟨0, 0, 1⟩, -1⟩, ⟨⟨0, 0, -1⟩, 0⟩]

/-- A line along an axis of the cube. -/
def cubeLine : Line ℚ := ⟨⟨-1, 1 / 2, 1 / 2⟩, ⟨1, 0, 0⟩⟩

theorem unitCube_bounded : Bounded unitCube := by
  refine ⟨3, fun point hin => ?_⟩
  simp only [InPolytope, unitCube, List.forall_mem_cons, Plane.Inside, Vec4.dot3] at hin
  obtain ⟨hx1, hx0, hy1, hy0, hz1, hz0, -⟩ := hin
  rw [Vec4.getLengthSquared3]
  nlinarith

theorem unitCube_right : Answers unitCube cubeLine (polytopeIntersect (2 ^ 1024) cubeLine unitCube) ∧
    ∀ planes', planes'.Perm unitCube →
      polytopeIntersect (2 ^ 1024) cubeLine planes' = polytopeIntersect (2 ^ 1024) cubeLine unitCube :=
  polytopeIntersect_right _ _ _ (by simp [cubeLine]) unitCube_bounded

end WorldWind.Geom.Exact.Polytope
