import WorldWind.Geom.Exact
import WorldWind.Lib.ClosedPath
/-!
# `WWMath.isLocationInside`

Whether a location is inside a polygon: the parity of the edges that cross its latitude
east of it. Around a convex polygon one edge at most comes up through a latitude, on the
one side of the polygon, and one at most goes down, on the other (`countP_enters_le`).
-/

namespace WorldWind.Geom.Exact

open Lib.ClosedPath
open scoped Lib.Numerals

/-! ## The code -/

section Code

variable {K : Type*} [Field K] [LinearOrder K]

/-- The test of an edge. -/
def crosses (location p1 p2 : LatLon K) : Bool :=
  ((p2.latitude ≤ location.latitude ∧ location.latitude < p1.latitude) ∨
    (p1.latitude ≤ location.latitude ∧ location.latitude < p2.latitude)) ∧
  location.longitude < (p1.longitude - p2.longitude) * (location.latitude - p2.latitude) /
    (p1.latitude - p2.latitude) + p2.longitude

/-- The loop behind the location `p1`. -/
def insideLoop (location : LatLon K) : LatLon K → Bool → List (LatLon K) → Bool
  | _, result, [] => result
  | p1, result, p2 :: iter => insideLoop location p2 (if crosses location p1 p2 then !result else result) iter

def isLocationInside (location : LatLon K) : List (LatLon K) → Bool
  | [] => false
  | p1 :: iter => insideLoop location p1 false iter

/-! ## Parity -/

/-- A location north of `q`. -/
def north (q p : LatLon K) : Bool := q.latitude < p.latitude

def crossings (location : LatLon K) (locations : List (LatLon K)) : Nat :=
  (steps locations).countP fun s => crosses location s.1 s.2

theorem insideLoop_eq (location p1 : LatLon K) (result : Bool) (iter : List (LatLon K)) :
    insideLoop location p1 result iter = (result ^^ decide (crossings location (p1 :: iter) % 2 = 1)) := by
  induction iter generalizing p1 result with
  | nil => simp [insideLoop, crossings]
  | cons p2 iter ih =>
    have hcount : crossings location (p1 :: p2 :: iter) =
        crossings location (p2 :: iter) + if crosses location p1 p2 then 1 else 0 := List.countP_cons
    rw [insideLoop, ih, hcount]
    by_cases hcross : crosses location p1 p2 = true
    · rw [if_pos hcross, if_pos hcross]
      rcases Nat.mod_two_eq_zero_or_one (crossings location (p2 :: iter)) with h | h <;> simp [Nat.add_mod, h]
    · rw [if_neg hcross, if_neg hcross, Nat.add_zero]

theorem isLocationInside_eq (location : LatLon K) (locations : List (LatLon K)) :
    isLocationInside location locations = decide (crossings location locations % 2 = 1) := by
  cases locations with
  | nil => rfl
  | cons p1 iter => rw [isLocationInside, insideLoop_eq, Bool.false_xor]

/-- An edge is crossed as much in the other direction. -/
theorem crosses_comm [IsStrictOrderedRing K] (location p1 p2 : LatLon K) :
    crosses location p1 p2 = crosses location p2 p1 := by
  by_cases hlat : p1.latitude = p2.latitude
  · refine decide_eq_decide.2 (iff_of_false ?_ ?_)
    · rintro ⟨⟨hle, hlt⟩ | ⟨hle, hlt⟩, -⟩ <;> linarith
    · rintro ⟨⟨hle, hlt⟩ | ⟨hle, hlt⟩, -⟩ <;> linarith
  · have h12 : p1.latitude - p2.latitude ≠ 0 := sub_ne_zero.2 hlat
    have h21 : p2.latitude - p1.latitude ≠ 0 := sub_ne_zero.2 (Ne.symm hlat)
    have hmeet : (p1.longitude - p2.longitude) * (location.latitude - p2.latitude) / (p1.latitude - p2.latitude) +
        p2.longitude = (p2.longitude - p1.longitude) * (location.latitude - p1.latitude) /
          (p2.latitude - p1.latitude) + p1.longitude := by
      field_simp
      ring
    rw [crosses, crosses, hmeet]
    exact decide_eq_decide.2 (and_congr_left' or_comm)

theorem crossings_reverse [IsStrictOrderedRing K] (location : LatLon K) (locations : List (LatLon K)) :
    crossings location locations.reverse = crossings location locations := by
  rw [crossings, steps_reverse, List.countP_reverse, List.countP_map, crossings]
  exact List.countP_congr fun s _ => by rw [Function.comp_apply, Prod.fst_swap, Prod.snd_swap, crosses_comm]

/-- A closed list has its crossings in whatever point it starts. -/
theorem crossings_rotate {locations : List (LatLon K)} (h : locations.head? = locations.getLast?)
    (location : LatLon K)
    (k : Nat) : crossings location (close (locations.dropLast.rotate k)) = crossings location locations := by
  have hclose : crossings location (close locations.dropLast) = crossings location locations := by
    rw [crossings, steps_close_dropLast h]
    rfl
  rw [← hclose]
  exact (perm_steps_close locations.dropLast k).countP_eq _

end Code

/-! ## Convex polygons -/

def toPoint (p : LatLon ℝ) : ℝ × ℝ := (p.longitude, p.latitude)

/-- Positive for the points on the left of the way from `a` to `b`. -/
def side (a b x : ℝ × ℝ) : ℝ := (b.1 - a.1) * (x.2 - a.2) - (b.2 - a.2) * (x.1 - a.1)

/-- The polygon around which a list goes. -/
def polygon (l : List (LatLon ℝ)) : Set (ℝ × ℝ) := convexHull ℝ {x | ∃ p ∈ l, toPoint p = x}

/-- The list goes around a convex polygon: all of it on one side of each edge, and no point between the ends of an
edge on another one. -/
structure TraversesOnce (l : List (LatLon ℝ)) : Prop where
  oneSide : (∀ s ∈ steps l, ∀ p ∈ l, 0 ≤ side (toPoint s.1) (toPoint s.2) (toPoint p)) ∨
    ∀ s ∈ steps l, ∀ p ∈ l, side (toPoint s.1) (toPoint s.2) (toPoint p) ≤ 0
  once : (steps l).Pairwise fun s s' => s.1 ≠ s.2 → s'.1 ≠ s'.2 →
    Disjoint (openSegment ℝ (toPoint s.1) (toPoint s.2)) (openSegment ℝ (toPoint s'.1) (toPoint s'.2))

theorem side_nonneg {l : List (LatLon ℝ)} {a b : ℝ × ℝ} (h : ∀ p ∈ l, 0 ≤ side a b (toPoint p)) {x : ℝ × ℝ}
    (hx : x ∈ polygon l) : 0 ≤ side a b x := by
  have hconvex : Convex ℝ {x | 0 ≤ side a b x} := by
    intro x hx y hy s t hs ht hst
    have heq : side a b (s • x + t • y) = s * side a b x + t * side a b y := by
      obtain rfl : s = 1 - t := by linarith
      simp only [side, Prod.fst_add, Prod.snd_add, Prod.smul_fst, Prod.smul_snd, smul_eq_mul]
      ring
    rw [Set.mem_ofPred_eq, heq]
    exact add_nonneg (mul_nonneg hs hx) (mul_nonneg ht hy)
  refine convexHull_min ?_ hconvex hx
  rintro _ ⟨p, hp, rfl⟩
  exact h p hp

/-- Where the line through two points has a latitude. -/
noncomputable def meet (a b : ℝ × ℝ) (y : ℝ) : ℝ := (a.1 - b.1) * (y - b.2) / (a.2 - b.2) + b.1

theorem side_eq {a b : ℝ × ℝ} (h : a.2 ≠ b.2) (x y : ℝ) : side a b (x, y) = (b.2 - a.2) * (meet a b y - x) := by
  have hne : a.2 - b.2 ≠ 0 := sub_ne_zero.2 h
  rw [side, meet]
  field_simp
  ring

/-- Between the latitudes of its ends a segment has a point at each latitude. -/
theorem meet_eq_lineMap {a b : ℝ × ℝ} (h : a.2 ≠ b.2) (y : ℝ) :
    (meet a b y, y) = AffineMap.lineMap a b ((y - a.2) / (b.2 - a.2)) := by
  have hne : a.2 - b.2 ≠ 0 := sub_ne_zero.2 h
  have hne' : b.2 - a.2 ≠ 0 := sub_ne_zero.2 (Ne.symm h)
  rw [AffineMap.lineMap_apply_module]
  ext
  · simp only [meet, Prod.fst_add, Prod.smul_fst, smul_eq_mul]
    field_simp
    ring
  · simp only [Prod.snd_add, Prod.smul_snd, smul_eq_mul]
    field_simp
    ring

theorem meet_comm {a b : ℝ × ℝ} (h : a.2 ≠ b.2) (y : ℝ) : meet a b y = meet b a y := by
  have hne : a.2 - b.2 ≠ 0 := sub_ne_zero.2 h
  have hne' : b.2 - a.2 ≠ 0 := sub_ne_zero.2 (Ne.symm h)
  rw [meet, meet]
  field_simp
  ring

theorem meet_mem_segment {a b : ℝ × ℝ} {y : ℝ} (ha : a.2 ≤ y) (hb : y < b.2) : (meet a b y, y) ∈ segment ℝ a b := by
  have hpos : 0 < b.2 - a.2 := by linarith
  rw [meet_eq_lineMap (by linarith), segment_eq_image_lineMap]
  exact ⟨_, ⟨div_nonneg (by linarith) hpos.le, (div_le_one hpos).2 (by linarith)⟩, rfl⟩

theorem meet_mem_openSegment {a b : ℝ × ℝ} {y : ℝ} (ha : a.2 < y) (hb : y < b.2) :
    (meet a b y, y) ∈ openSegment ℝ a b := by
  have hpos : 0 < b.2 - a.2 := by linarith
  rw [meet_eq_lineMap (by linarith), openSegment_eq_image_lineMap]
  exact ⟨_, ⟨div_pos (by linarith) hpos, (div_lt_one hpos).2 (by linarith)⟩, rfl⟩

theorem mem_segment_latitude {a b x y : ℝ} (ha : a ≤ x) (hb : x ≤ b) : (x, y) ∈ segment ℝ (a, y) (b, y) := by
  rw [← Prod.image_mk_segment_left, segment_eq_Icc (ha.trans hb)]
  exact ⟨x, ⟨ha, hb⟩, rfl⟩

/-- A point of the interior has the points near it in the polygon. -/
theorem exists_near {P : Set (ℝ × ℝ)} {x : ℝ × ℝ} (h : x ∈ interior P) :
    ∃ δ > 0, ∀ dx dy : ℝ, |dx| ≤ δ → |dy| ≤ δ → (x.1 + dx, x.2 + dy) ∈ P := by
  obtain ⟨ε, hε, hball⟩ := Metric.mem_nhds_iff.1 (mem_interior_iff_mem_nhds.1 h)
  refine ⟨ε / 2, by linarith, fun dx dy hdx hdy => hball ?_⟩
  rw [Metric.mem_ball, Prod.dist_eq, max_lt_iff, Real.dist_eq, Real.dist_eq]
  constructor
  · simp only [add_sub_cancel_left]
    linarith
  · simp only [add_sub_cancel_left]
    linarith

theorem countP_le_one {α : Type*} {R : α → α → Prop} {p : α → Bool} {l : List α} (h : l.Pairwise R)
    (hp : ∀ a ∈ l, ∀ b ∈ l, p a = true → p b = true → ¬R a b) : l.countP p ≤ 1 := by
  induction l with
  | nil => simp
  | cons a l ih =>
    obtain ⟨ha, hl⟩ := List.pairwise_cons.1 h
    have hrest := ih hl fun b hb c hc => hp b (List.mem_cons_of_mem _ hb) c (List.mem_cons_of_mem _ hc)
    by_cases hpa : p a = true
    · have hnone : l.countP p = 0 := by
        refine List.countP_eq_zero.2 fun b hb hpb => ?_
        exact hp a List.mem_cons_self b (List.mem_cons_of_mem _ hb) hpa hpb (ha b hb)
      rw [List.countP_cons_of_pos hpa, hnone]
    · rw [List.countP_cons_of_neg hpa]
      exact hrest

/-! ## Around a polygon counterclockwise -/

section Around

variable {l : List (LatLon ℝ)} (hside : ∀ s ∈ steps l, ∀ p ∈ l, 0 ≤ side (toPoint s.1) (toPoint s.2) (toPoint p))
  (honce : (steps l).Pairwise fun s s' => s.1 ≠ s.2 → s'.1 ≠ s'.2 →
    Disjoint (openSegment ℝ (toPoint s.1) (toPoint s.2)) (openSegment ℝ (toPoint s'.1) (toPoint s'.2)))
  {q : LatLon ℝ}

theorem enters_north {s : LatLon ℝ × LatLon ℝ} :
    enters (north q) s = true ↔ (toPoint s.1).2 ≤ q.latitude ∧ q.latitude < (toPoint s.2).2 := by
  simp [enters, north, toPoint]

theorem leaves_north {s : LatLon ℝ × LatLon ℝ} :
    leaves (north q) s = true ↔ (toPoint s.2).2 ≤ q.latitude ∧ q.latitude < (toPoint s.1).2 := by
  simp [leaves, north, toPoint, and_comm]

theorem segment_subset_polygon {s : LatLon ℝ × LatLon ℝ} (hs : s ∈ steps l) :
    segment ℝ (toPoint s.1) (toPoint s.2) ⊆ polygon l :=
  segment_subset_convexHull ⟨s.1, (mem_of_mem_steps hs).1, rfl⟩ ⟨s.2, (mem_of_mem_steps hs).2, rfl⟩

include hside in
/-- An edge that comes up has the polygon west of it. -/
theorem le_meet {s : LatLon ℝ × LatLon ℝ} (hs : s ∈ steps l) (hup : (toPoint s.1).2 < (toPoint s.2).2) {x y : ℝ}
    (hx : (x, y) ∈ polygon l) : x ≤ meet (toPoint s.1) (toPoint s.2) y := by
  have h := side_nonneg (hside s hs) hx
  rw [side_eq hup.ne] at h
  linarith [nonneg_of_mul_nonneg_right h (sub_pos.2 hup)]

include hside in
/-- An edge that goes down has it east of it. -/
theorem meet_le {s : LatLon ℝ × LatLon ℝ} (hs : s ∈ steps l) (hdown : (toPoint s.2).2 < (toPoint s.1).2) {x y : ℝ}
    (hx : (x, y) ∈ polygon l) : meet (toPoint s.1) (toPoint s.2) y ≤ x := by
  have h := side_nonneg (hside s hs) hx
  rw [side_eq hdown.ne', ← neg_mul_neg, neg_sub, neg_sub] at h
  linarith [nonneg_of_mul_nonneg_right h (sub_pos.2 hdown)]

include hside honce in
theorem countP_enters_le : (steps l).countP (enters (north q)) ≤ 1 := by
  refine countP_le_one honce fun s hs s' hs' henters henters' hdisjoint => ?_
  obtain ⟨ha, hb⟩ := enters_north.1 henters
  obtain ⟨ha', hb'⟩ := enters_north.1 henters'
  -- a latitude that both edges come through
  obtain ⟨y, hy, hyb, hyb'⟩ : ∃ y, q.latitude < y ∧ y < (toPoint s.2).2 ∧ y < (toPoint s'.2).2 := by
    obtain ⟨y, hy, hlt⟩ := exists_between (lt_min hb hb')
    exact ⟨y, hy, hlt.trans_le (min_le_left _ _), hlt.trans_le (min_le_right _ _)⟩
  have hmem := meet_mem_openSegment (ha.trans_lt hy) hyb
  have hmem' := meet_mem_openSegment (ha'.trans_lt hy) hyb'
  have hle := le_meet hside hs' (ha'.trans_lt hb') (segment_subset_polygon hs (openSegment_subset_segment _ _ _ hmem))
  have hle' := le_meet hside hs (ha.trans_lt hb) (segment_subset_polygon hs' (openSegment_subset_segment _ _ _ hmem'))
  rw [le_antisymm hle hle'] at hmem
  refine Set.disjoint_left.1 (hdisjoint ?_ ?_) hmem hmem'
  · intro heq
    rw [heq] at ha
    exact absurd (ha.trans_lt hb) (lt_irrefl _)
  · intro heq
    rw [heq] at ha'
    exact absurd (ha'.trans_lt hb') (lt_irrefl _)

/-- The location is west of where the edge has its latitude. -/
noncomputable def eastOf (q : LatLon ℝ) (s : LatLon ℝ × LatLon ℝ) : Bool :=
  q.longitude < meet (toPoint s.1) (toPoint s.2) q.latitude

/-- The crossings are of edges that come up and of edges that go down. -/
theorem crossings_eq (q : LatLon ℝ) (l : List (LatLon ℝ)) : crossings q l =
    (steps l).countP (fun s => enters (north q) s && eastOf q s) +
      (steps l).countP fun s => leaves (north q) s && eastOf q s := by
  rw [crossings]
  induction steps l with
  | nil => rfl
  | cons s rest ih =>
    have hcrosses : crosses q s.1 s.2 = ((leaves (north q) s || enters (north q) s) && eastOf q s) := by
      by_cases h1 : q.latitude < s.1.latitude <;> by_cases h2 : q.latitude < s.2.latitude <;>
        simp [crosses, leaves, enters, north, eastOf, meet, toPoint, h1, h2, not_lt.1, not_le.2]
      all_goals exact decide_eq_decide.2 Iff.rfl
    rw [List.countP_cons, List.countP_cons, List.countP_cons, ih, hcrosses]
    cases henters : enters (north q) s <;> cases hleaves : leaves (north q) s <;> cases eastOf q s <;> simp
    · omega
    · omega
    · simp [enters, leaves] at henters hleaves
      rw [hleaves.1] at henters
      simp at henters

include hside in
theorem eastOf_up {s s' : LatLon ℝ × LatLon ℝ} (hs : s ∈ steps l) (hs' : s' ∈ steps l)
    (henters : enters (north q) s = true) (henters' : enters (north q) s' = true) : eastOf q s = eastOf q s' := by
  obtain ⟨ha, hb⟩ := enters_north.1 henters
  obtain ⟨ha', hb'⟩ := enters_north.1 henters'
  have hle := le_meet hside hs' (ha'.trans_lt hb') (segment_subset_polygon hs (meet_mem_segment ha hb))
  have hle' := le_meet hside hs (ha.trans_lt hb) (segment_subset_polygon hs' (meet_mem_segment ha' hb'))
  rw [eastOf, eastOf, le_antisymm hle hle']

/-- The point of an edge that goes down. -/
theorem down_mem_polygon {s : LatLon ℝ × LatLon ℝ} (hs : s ∈ steps l) (hleaves : leaves (north q) s = true) :
    (meet (toPoint s.1) (toPoint s.2) q.latitude, q.latitude) ∈ polygon l := by
  obtain ⟨ha, hb⟩ := leaves_north.1 hleaves
  have hmem := meet_mem_segment ha hb
  rw [segment_symm, meet_comm (ha.trans_lt hb).ne] at hmem
  exact segment_subset_polygon hs hmem

include hside in
theorem eastOf_down {s s' : LatLon ℝ × LatLon ℝ} (hs : s ∈ steps l) (hs' : s' ∈ steps l)
    (hleaves : leaves (north q) s = true) (hleaves' : leaves (north q) s' = true) : eastOf q s = eastOf q s' := by
  obtain ⟨ha, hb⟩ := leaves_north.1 hleaves
  obtain ⟨ha', hb'⟩ := leaves_north.1 hleaves'
  have hle := meet_le hside hs' (ha'.trans_lt hb') (down_mem_polygon hs hleaves)
  have hle' := meet_le hside hs (ha.trans_lt hb) (down_mem_polygon hs' hleaves')
  rw [eastOf, eastOf, le_antisymm hle hle']

/-- Edges that all are on one side of the location are counted all or not at all. -/
theorem countP_and_eq {α : Type*} {l : List α} {p e : α → Bool} {a : α} (ha : ∀ b ∈ l, p b = true → e b = e a) :
    l.countP (fun b => p b && e b) = if e a then l.countP p else 0 := by
  have hcongr : l.countP (fun b => p b && e b) = l.countP fun b => p b && e a := by
    refine List.countP_congr fun b hb => ?_
    cases hp : p b
    · simp
    · rw [ha b hb hp]
  rw [hcongr]
  cases e a <;> simp

include hside honce in
/-- Outside: the latitude does not meet the polygon, or does so on one side of the location. -/
theorem not_inside_of_outside (hclosed : l.head? = l.getLast?) (hq : toPoint q ∉ polygon l) :
    isLocationInside q l = false := by
  have hequal := enters_eq_leaves (p := north q) hclosed
  have hone := countP_enters_le hside honce (q := q)
  rw [isLocationInside_eq, crossings_eq, decide_eq_false_iff_not]
  rcases Nat.eq_zero_or_pos ((steps l).countP (enters (north q))) with hzero | hpos
  · have hup : ∀ s ∈ steps l, ¬enters (north q) s = true := List.countP_eq_zero.1 hzero
    have hdown : ∀ s ∈ steps l, ¬leaves (north q) s = true := List.countP_eq_zero.1 (hequal ▸ hzero)
    rw [List.countP_eq_zero.2 fun s hs => by simp [hup s hs], List.countP_eq_zero.2 fun s hs => by simp [hdown s hs]]
    decide
  · obtain ⟨s, hs, henters⟩ := List.countP_pos_iff.1 hpos
    obtain ⟨s', hs', hleaves⟩ := List.countP_pos_iff.1 (hequal ▸ hpos)
    obtain ⟨ha, hb⟩ := enters_north.1 henters
    have hup := segment_subset_polygon hs (meet_mem_segment ha hb)
    have hdown := down_mem_polygon hs' hleaves
    have hle := le_meet hside hs (ha.trans_lt hb) hdown
    rw [countP_and_eq fun b hb henters' => eastOf_up hside hb hs henters' henters,
      countP_and_eq fun b hb hleaves' => eastOf_down hside hb hs' hleaves' hleaves, ← hequal]
    -- the location is not between the two edges
    have hboth : eastOf q s = eastOf q s' := by
      rw [eastOf, eastOf, decide_eq_decide]
      constructor
      · intro hlt
        by_contra hge
        exact hq ((convex_convexHull ℝ _).segment_subset hdown hup (mem_segment_latitude (not_lt.1 hge) hlt.le))
      · exact fun hlt => hlt.trans_le hle
    rw [hboth]
    split <;> omega

include hside honce in
/-- In the interior: the polygon is on both sides, above and below the location. -/
theorem inside_of_interior (hclosed : l.head? = l.getLast?) (hq : toPoint q ∈ interior (polygon l)) :
    isLocationInside q l = true := by
  have hequal := enters_eq_leaves (p := north q) hclosed
  have hone := countP_enters_le hside honce (q := q)
  obtain ⟨δ, hδ, hnear⟩ := exists_near hq
  have habs : |δ| ≤ δ := (abs_of_pos hδ).le
  have hzero : |(0 : ℝ)| ≤ δ := by rw [abs_zero]; exact hδ.le
  have hpos : 0 < (steps l).countP (enters (north q)) := by
    -- a polygon that is neither entered nor left northwards would lie on one side of the latitude
    obtain ⟨p, hp, hnorth⟩ : ∃ p ∈ l, q.latitude < p.latitude := by
      by_contra hnone
      have hsouth := side_nonneg (l := l) (a := (0, q.latitude)) (b := (-1, q.latitude)) (fun p hp => by
        have hle := not_lt.1 fun hlt => hnone ⟨p, hp, hlt⟩
        simp only [side, toPoint]
        linarith) (hnear 0 δ hzero habs)
      simp only [side, toPoint] at hsouth
      linarith
    obtain ⟨p', hp', hsouth⟩ : ∃ p ∈ l, p.latitude < q.latitude := by
      by_contra hnone
      have hnorth := side_nonneg (l := l) (a := (0, q.latitude)) (b := (1, q.latitude)) (fun p hp => by
        have hle := not_lt.1 fun hlt => hnone ⟨p, hp, hlt⟩
        simp only [side, toPoint]
        linarith) (hnear 0 (-δ) hzero (by rw [abs_neg]; exact habs))
      simp only [side, toPoint] at hnorth
      linarith
    by_contra hnone
    have hnone := Nat.eq_zero_of_not_pos hnone
    have hsame := same_of_not_enters hnone (hequal ▸ hnone) hp hp'
    rw [north, north, decide_eq_true hnorth, decide_eq_false hsouth.not_gt] at hsame
    cases hsame
  have hup : ∀ s ∈ steps l, enters (north q) s = true → eastOf q s = true := by
    intro s hs henters
    obtain ⟨ha, hb⟩ := enters_north.1 henters
    have hle := le_meet hside hs (ha.trans_lt hb) (hnear δ 0 habs hzero)
    rw [add_zero] at hle
    exact decide_eq_true (by linarith [show (toPoint q).1 + δ ≤ meet (toPoint s.1) (toPoint s.2) q.latitude from hle,
      show (toPoint q).1 = q.longitude from rfl])
  have hdown : ∀ s ∈ steps l, leaves (north q) s = true → eastOf q s = false := by
    intro s hs hleaves
    obtain ⟨ha, hb⟩ := leaves_north.1 hleaves
    have hle := meet_le hside hs (ha.trans_lt hb) (hnear (-δ) 0 (by rw [abs_neg]; exact habs) hzero)
    rw [add_zero] at hle
    exact decide_eq_false (by linarith [show meet (toPoint s.1) (toPoint s.2) q.latitude ≤
      (toPoint q).1 + -δ from hle, show (toPoint q).1 = q.longitude from rfl])
  rw [isLocationInside_eq, crossings_eq, decide_eq_true_eq]
  have hcountUp : (steps l).countP (fun s => enters (north q) s && eastOf q s) = 1 := by
    rw [← le_antisymm hone hpos]
    refine List.countP_congr fun s hs => ?_
    rw [Bool.and_eq_true]
    exact and_iff_left_of_imp (hup s hs)
  have hcountDown : (steps l).countP (fun s => leaves (north q) s && eastOf q s) = 0 := by
    refine List.countP_eq_zero.2 fun s hs hboth => ?_
    rw [Bool.and_eq_true] at hboth
    rw [hdown s hs hboth.1] at hboth
    exact absurd hboth.2 (by decide)
  rw [hcountUp, hcountDown]

end Around

/-! ## Both ways around -/

theorem polygon_reverse (l : List (LatLon ℝ)) : polygon l.reverse = polygon l := by
  simp only [polygon, List.mem_reverse]

theorem side_swap (a b x : ℝ × ℝ) : side b a x = -side a b x := by
  simp only [side]
  ring

/-- A polygon that is gone around clockwise is gone around counterclockwise from its end. -/
theorem TraversesOnce.counterclockwise {l : List (LatLon ℝ)} (h : TraversesOnce l) :
    ∃ l', (l' = l ∨ l' = l.reverse) ∧ (∀ s ∈ steps l', ∀ p ∈ l', 0 ≤ side (toPoint s.1) (toPoint s.2) (toPoint p)) ∧
      (steps l').Pairwise fun s s' => s.1 ≠ s.2 → s'.1 ≠ s'.2 →
        Disjoint (openSegment ℝ (toPoint s.1) (toPoint s.2)) (openSegment ℝ (toPoint s'.1) (toPoint s'.2)) := by
  rcases h.oneSide with hside | hside
  · exact ⟨l, .inl rfl, hside, h.once⟩
  · refine ⟨l.reverse, .inr rfl, ?_, ?_⟩
    · intro s hs p hp
      rw [steps_reverse, List.mem_reverse] at hs
      obtain ⟨t, ht, rfl⟩ := List.mem_map.1 hs
      rw [Prod.fst_swap, Prod.snd_swap, side_swap]
      exact neg_nonneg.2 (hside t ht p (List.mem_reverse.1 hp))
    · rw [steps_reverse, List.pairwise_reverse, List.pairwise_map]
      refine h.once.imp fun {s s'} hdisjoint hne hne' => ?_
      rw [Prod.fst_swap, Prod.snd_swap, Prod.fst_swap, Prod.snd_swap, openSegment_symm ℝ (toPoint s'.2),
        openSegment_symm ℝ (toPoint s.2)]
      exact (hdisjoint (Ne.symm hne') (Ne.symm hne)).symm

/-- The answer for a closed list. It is right where the list goes around a convex polygon, and the same for the
list from
its end and from any of its points. -/
theorem isLocationInside_right (l : List (LatLon ℝ)) (hclosed : l.head? = l.getLast?) (q : LatLon ℝ) :
    (TraversesOnce l → (toPoint q ∈ interior (polygon l) → isLocationInside q l = true) ∧
      (toPoint q ∉ polygon l → isLocationInside q l = false)) ∧
    isLocationInside q l.reverse = isLocationInside q l ∧
    ∀ k, isLocationInside q (close (l.dropLast.rotate k)) = isLocationInside q l := by
  have hreverse : isLocationInside q l.reverse = isLocationInside q l := by
    rw [isLocationInside_eq, isLocationInside_eq, crossings_reverse]
  refine ⟨fun h => ?_, hreverse, fun k => ?_⟩
  · obtain ⟨l', rfl | rfl, hside, honce⟩ := h.counterclockwise
    · exact ⟨inside_of_interior hside honce hclosed, not_inside_of_outside hside honce hclosed⟩
    · have hclosed' : l.reverse.head? = l.reverse.getLast? := by
        rw [List.head?_reverse, List.getLast?_reverse, hclosed]
      rw [← hreverse, ← polygon_reverse l]
      exact ⟨inside_of_interior hside honce hclosed', not_inside_of_outside hside honce hclosed'⟩
  · rw [isLocationInside_eq, isLocationInside_eq, crossings_rotate hclosed]

/-- Edges are disjoint where one has the other on its left. -/
theorem disjoint_of_side {a b c d : ℝ × ℝ} (ha : 0 ≤ side c d a) (hb : 0 ≤ side c d b)
    (hpos : 0 < side c d a + side c d b) : Disjoint (openSegment ℝ a b) (openSegment ℝ c d) := by
  rw [Set.disjoint_left]
  rintro _ ⟨s, t, hs, ht, hst, rfl⟩ ⟨s', t', hs', ht', hst', heq⟩
  obtain rfl : s = 1 - t := by linarith
  obtain rfl : s' = 1 - t' := by linarith
  have hleft : side c d ((1 - t) • a + t • b) = (1 - t) * side c d a + t * side c d b := by
    simp only [side, Prod.fst_add, Prod.snd_add, Prod.smul_fst, Prod.smul_snd, smul_eq_mul]
    ring
  have hon : side c d ((1 - t') • c + t' • d) = 0 := by
    simp only [side, Prod.fst_add, Prod.snd_add, Prod.smul_fst, Prod.smul_snd, smul_eq_mul]
    ring
  rw [heq, hleft] at hon
  rcases ha.eq_or_lt with h0 | hapos
  · rw [← h0] at hpos hon
    nlinarith
  · nlinarith [mul_pos hs hapos, mul_nonneg ht.le hb]

/-- A triangle with a corner given twice. -/
def cornerTwice : List (LatLon ℝ) := [⟨0, 0⟩, ⟨0, 0⟩, ⟨0, 4⟩, ⟨4, 0⟩, ⟨0, 0⟩]

theorem cornerTwice_traverses : TraversesOnce cornerTwice where
  oneSide := by
    refine .inl fun s hs p hp => ?_
    simp only [cornerTwice, steps, List.tail_cons, List.zip_cons_cons, List.zip_nil_right, List.mem_cons,
      List.not_mem_nil, or_false] at hs hp
    rcases hs with rfl | rfl | rfl | rfl <;> rcases hp with rfl | rfl | rfl | rfl | rfl <;> norm_num [side, toPoint]
  once := by
    simp only [cornerTwice, steps, List.tail_cons, List.zip_cons_cons, List.zip_nil_right, List.pairwise_cons,
      List.mem_cons, List.not_mem_nil, or_false, forall_eq_or_imp, forall_eq, List.Pairwise.nil, and_true]
    refine ⟨by simp, ⟨fun _ _ => ?_, fun _ _ => ?_⟩, ⟨fun _ _ => ?_, by simp⟩⟩
    · exact disjoint_of_side (by norm_num [side, toPoint]) (by norm_num [side, toPoint]) (by norm_num [side, toPoint])
    · exact disjoint_of_side (by norm_num [side, toPoint]) (by norm_num [side, toPoint]) (by norm_num [side, toPoint])
    · exact disjoint_of_side (by norm_num [side, toPoint]) (by norm_num [side, toPoint]) (by norm_num [side, toPoint])

theorem mem_interior_cornerTwice : toPoint ⟨1, 1⟩ ∈ interior (polygon cornerTwice) := by
  have hopen : IsOpen {x : ℝ × ℝ | 0 < x.1 ∧ 0 < x.2 ∧ x.1 + x.2 < 4} :=
    (isOpen_lt continuous_const continuous_fst).inter ((isOpen_lt continuous_const continuous_snd).inter
      (isOpen_lt (continuous_fst.add continuous_snd) continuous_const))
  refine interior_maximal ?_ hopen (by norm_num [toPoint])
  rintro ⟨x, y⟩ ⟨hx, hy, hxy⟩
  have hconvex := convex_convexHull ℝ {x | ∃ p ∈ cornerTwice, toPoint p = x}
  have hmem : ∀ p ∈ cornerTwice, toPoint p ∈ polygon cornerTwice := fun p hp => subset_convexHull ℝ _ ⟨p, hp, rfl⟩
  have h0 := hmem ⟨0, 0⟩ (by simp [cornerTwice])
  have hsum : 0 < x + y := by
    simp only at hx hy
    linarith
  simp only at hx hy hxy
  -- on the segment between two points of the axes
  have heast : (x + y, (0 : ℝ)) ∈ polygon cornerTwice :=
      hconvex.segment_subset h0 (hmem ⟨0, 4⟩ (by simp [cornerTwice]))
    ⟨1 - (x + y) / 4, (x + y) / 4, by linarith, by linarith, by ring, by ext <;> simp [toPoint]⟩
  have hnorth : ((0 : ℝ), x + y) ∈ polygon cornerTwice :=
      hconvex.segment_subset h0 (hmem ⟨4, 0⟩ (by simp [cornerTwice]))
    ⟨1 - (x + y) / 4, (x + y) / 4, by linarith, by linarith, by ring, by ext <;> simp [toPoint]⟩
  refine hconvex.segment_subset heast hnorth ⟨x / (x + y), y / (x + y), (div_pos hx hsum).le, (div_pos hy hsum).le,
    ?_, ?_⟩
  · rw [← add_div, div_self hsum.ne']
  · ext
    · simp [div_mul_cancel₀ _ hsum.ne']
    · simp [div_mul_cancel₀ _ hsum.ne']

theorem not_mem_cornerTwice : toPoint ⟨-1, 1⟩ ∉ polygon cornerTwice := by
  intro hmem
  have hside := side_nonneg (l := cornerTwice) (a := (0, 0)) (b := (4, 0)) (fun p hp => by
    simp only [cornerTwice, List.mem_cons, List.not_mem_nil, or_false] at hp
    rcases hp with rfl | rfl | rfl | rfl | rfl <;> norm_num [side, toPoint]) hmem
  norm_num [side, toPoint] at hside

theorem cornerTwice_right : isLocationInside ⟨1, 1⟩ cornerTwice = true ∧
    isLocationInside ⟨-1, 1⟩ cornerTwice = false :=
  ⟨((isLocationInside_right cornerTwice rfl ⟨1, 1⟩).1 cornerTwice_traverses).1 mem_interior_cornerTwice,
    ((isLocationInside_right cornerTwice rfl ⟨-1, 1⟩).1 cornerTwice_traverses).2 not_mem_cornerTwice⟩

end WorldWind.Geom.Exact
