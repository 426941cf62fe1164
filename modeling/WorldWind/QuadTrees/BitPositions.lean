import WorldWind.QuadTrees.Cells
import WorldWind.QuadTrees.Removal
import WorldWind.Lib.Loops
/-!
# The bit numbers of `BitSetQuadTreeFilter`

The traversal with its `path` array, which all calls of `testAndDo` write to and which
keeps what earlier traversals left in it. Every call of `doOperation` is written down,
with the positions on the way down from level zero and the number that
`computeBitPosition` has there. The entries before a cell's level are those positions, so
the number is one of the cell; all cells have different numbers, and those of a level are
the ones between its size and the next (`bitNumbers_right`).
-/

namespace WorldWind.QuadTrees

open Lib.JavaInt Lib.Loops

/-! ## The code -/

/-- No result stands for a read behind the end of `path`. -/
def computeBitPositionAt (path : List Nat) (level position : Nat) : Option Int :=
  ((List.range level).foldlM (fun (bitPosition : Int) i =>
    path[i]?.map fun p => int (bitPosition + int (p * powersOf4 (level - i)))) (position : Int)).map
      fun bitPosition => int (bitPosition + levelSizes level)

/-- A call of `doOperation`: the cell, by the positions of the cells above it and its own, and the number there. -/
structure Visit where
  ancestors : List Nat
  position : Nat
  bitNumber : Option Int

/-- The filter's array, the calls until now and what the subclass keeps. -/
structure Traversal (S : Type*) where
  path : List Nat
  visits : List Visit
  state : S

section

variable {S : Type*} (doOperation : List Nat → Nat → Nat → Region → S → Except S (S × Bool)) (itemCoords : ItemCoords)

/-- `testAndDo` with the number of levels below; only `visits` has a use for `ancestors`. -/
def testAndDoAt : Nat → List Nat → Nat → Nat → Region → Traversal S → Except (Traversal S) (Traversal S)
  | levels, ancestors, level, position, cellRegion, t =>
    if intersects cellRegion itemCoords then
      let path := t.path.set level position
      let visits := t.visits ++ [⟨ancestors, position, computeBitPositionAt path level position⟩]
      match doOperation path level position cellRegion t.state with
      | .error state => .error ⟨path, visits, state⟩
      | .ok (state, false) => .ok ⟨path, visits, state⟩
      | .ok (state, true) =>
        match levels with
        | 0 => .ok ⟨path, visits, state⟩
        | levels + 1 =>
          cellRegion.subRegions.zipIdx.foldlM (fun t (subRegion, position') =>
            testAndDoAt levels (ancestors ++ [position]) (level + 1) position' subRegion t) ⟨path, visits, state⟩
    else .ok t

/-- The loop over the regions of level zero; a filter has at least one level. -/
def testTopRegions (numLevels : Nat) (topRegions : List Region) (t : Traversal S) :
    Except (Traversal S) (Traversal S) :=
  topRegions.zipIdx.foldlM (fun t (topRegion, i) =>
    testAndDoAt doOperation itemCoords (numLevels - 1) [] 0 i topRegion t) t

end

/-! ## The array -/

/-- Where the array begins with the positions above the cell, the number is that of the cell. -/
theorem computeBitPositionAt_eq {path ancestors : List Nat} (h : ancestors <+: path) (position : Nat) :
    computeBitPositionAt path ancestors.length position = some (computeBitPosition ancestors position) := by
  obtain ⟨stale, rfl⟩ := h
  -- what the loop has added up before the entry `i`
  obtain ⟨bitPosition, hloop, hsum⟩ :
      ∃ bitPosition, (List.range ancestors.length).foldlM (fun (bitPosition : Int) i =>
      ((ancestors ++ stale)[i]?).map fun p => int (bitPosition + int (p * powersOf4 (ancestors.length - i))))
        (position : Int) = some bitPosition ∧
      bitPosition = (ancestors.take ancestors.length).zipIdx.foldl
        (fun bitPosition p => int (bitPosition + int (p.1 * powersOf4 (ancestors.length - p.2))))
        (position : Int) := by
    refine foldlM_range (fun i bitPosition => bitPosition = (ancestors.take i).zipIdx.foldl
      (fun bitPosition p => int (bitPosition + int (p.1 * powersOf4 (ancestors.length - p.2))))
      (position : Int)) rfl ?_
    intro i b hi hb
    refine ⟨_, by rw [List.getElem?_append_left hi, List.getElem?_eq_getElem hi]; rfl, ?_⟩
    rw [List.take_succ_eq_append_getElem hi, List.zipIdx_append, List.foldl_append, ← hb, List.length_take,
      min_eq_left hi.le, Nat.zero_add]
    rfl
  rw [List.take_length] at hsum
  rw [computeBitPositionAt, hloop, hsum]
  rfl

/-! ## A traversal -/

/-- The cells of the filter. -/
def IsCell (numLevels : Nat) (ancestors : List Nat) (position : Nat) : Prop :=
  Placed ancestors position ∧ ancestors.length < numLevels

/-- A call for a cell of the filter, with the cell's number. -/
def Visit.Right (numLevels : Nat) (number : List Nat → Nat → Int) (visit : Visit) : Prop :=
  IsCell numLevels visit.ancestors visit.position ∧ visit.bitNumber = some (number visit.ancestors visit.position)

section

variable {S : Type*} {doOperation : List Nat → Nat → Nat → Region → S → Except S (S × Bool)} {itemCoords : ItemCoords}
  {numLevels : Nat}

/-- Between the calls below a cell: the array still begins with the positions down to there. -/
def Traversal.Ok (numLevels : Nat) (ancestors : List Nat) (t : Traversal S) : Prop :=
  t.path.length = numLevels ∧ ancestors <+: t.path ∧ ∀ visit ∈ t.visits, visit.Right numLevels computeBitPosition

theorem Traversal.Ok.weaken {ancestors : List Nat} {position : Nat} {t : Traversal S}
    (h : t.Ok numLevels (ancestors ++ [position])) : t.Ok numLevels ancestors :=
  ⟨h.1, (List.prefix_append _ _).trans h.2.1, h.2.2⟩

theorem prefix_set {ancestors path : List Nat} (h : ancestors <+: path) (hlength : ancestors.length < path.length)
    (position : Nat) : ancestors ++ [position] <+: path.set ancestors.length position := by
  obtain ⟨stale, rfl⟩ := h
  cases stale with
  | nil => simp at hlength
  | cons p stale =>
    refine ⟨stale, ?_⟩
    rw [List.set_append_right _ _ le_rfl, Nat.sub_self, List.set_cons_zero, List.append_assoc]
    rfl

/-- The call of `doOperation` for a cell. -/
theorem Traversal.Ok.visit {ancestors : List Nat} {position : Nat} {t : Traversal S} (h : t.Ok numLevels ancestors)
    (hcell : IsCell numLevels ancestors position) (state : S) :
    Traversal.Ok numLevels (ancestors ++ [position]) ⟨t.path.set ancestors.length position,
      t.visits ++ [⟨ancestors, position, computeBitPositionAt (t.path.set ancestors.length position) ancestors.length
        position⟩], state⟩ := by
  obtain ⟨hlength, hpath, hvisits⟩ := h
  have hset := prefix_set hpath (hlength ▸ hcell.2) position
  refine ⟨(List.length_set ..).trans hlength, hset, ?_⟩
  intro visit hvisit
  rcases List.mem_append.1 hvisit with hvisit | hvisit
  · exact hvisits visit hvisit
  · obtain rfl := List.mem_singleton.1 hvisit
    exact ⟨hcell, computeBitPositionAt_eq ((List.prefix_append _ _).trans hset) position⟩

/-- The part of the traversal below a cell. -/
theorem testAndDoAt_ok (levels : Nat) : ∀ {ancestors : List Nat} {position : Nat} (cellRegion : Region)
    {t : Traversal S}, IsCell numLevels ancestors position → ancestors.length + levels < numLevels →
      t.Ok numLevels ancestors →
      (left (testAndDoAt doOperation itemCoords levels ancestors ancestors.length position cellRegion t)).Ok numLevels
        ancestors := by
  induction levels with
  | zero =>
    intro ancestors position cellRegion t hcell _ h
    rw [testAndDoAt]
    split
    · simp only
      split
      · exact (h.visit hcell _).weaken
      · exact (h.visit hcell _).weaken
      · exact (h.visit hcell _).weaken
    · exact h
  | succ levels ih =>
    intro ancestors position cellRegion t hcell hlevels h
    rw [testAndDoAt]
    split
    · simp only
      split
      · exact (h.visit hcell _).weaken
      · exact (h.visit hcell _).weaken
      · refine (foldlM_preserves (P := Traversal.Ok numLevels (ancestors ++ [position])) _
          (fun t entry hentry ht => ?_) _ (h.visit hcell _)).weaken
        have hchild : IsCell numLevels (ancestors ++ [position]) entry.2 := by
          have hentry4 := (List.mem_zipIdx hentry).2.1
          refine ⟨⟨?_, by simpa [Region.subRegions] using hentry4⟩, by simp; omega⟩
          intro p hp
          rcases List.mem_append.1 hp with hp | hp
          · exact hcell.1.1 p hp
          · obtain rfl := List.mem_singleton.1 hp
            exact hcell.1.2
        have hnext := ih entry.1 hchild (by simp; omega) ht
        rwa [List.length_append, List.length_singleton] at hnext
    · exact h

theorem testTopRegions_ok {topRegions : List Region} (htop : topRegions.length ≤ 4) (hlevels : 1 ≤ numLevels)
    {t : Traversal S} (h : t.Ok numLevels []) :
    (left (testTopRegions doOperation itemCoords numLevels topRegions t)).Ok numLevels [] := by
  refine foldlM_preserves _ (fun t entry hentry ht => ?_) t h
  have hentry4 := (List.mem_zipIdx hentry).2.1
  have hcell : IsCell numLevels [] entry.2 := ⟨⟨by simp, by omega⟩, hlevels⟩
  exact testAndDoAt_ok (numLevels - 1) entry.1 hcell (by simp; omega) ht

end

/-! ## A traversal of all cells -/

/-- The cells at and below one, by the positions that are left on the way down. -/
def VisitsCover (levels : Nat) (ancestors : List Nat) (position : Nat) (visits : List Visit) : Prop :=
  ∀ rest : List Nat, rest.length ≤ levels → (∀ p ∈ rest, p < 4) →
    ∃ visit ∈ visits, visit.ancestors ++ [visit.position] = ancestors ++ position :: rest

theorem VisitsCover.mono {levels : Nat} {ancestors : List Nat} {position : Nat} {visits visits' : List Visit}
    (h : VisitsCover levels ancestors position visits) (hsub : visits ⊆ visits') :
    VisitsCover levels ancestors position visits' := by
  intro rest hlength hrest
  obtain ⟨visit, hvisit, heq⟩ := h rest hlength hrest
  exact ⟨visit, hsub hvisit, heq⟩

/-- A loop whose calls all go through. -/
theorem foldlM_covers {α S : Type*} {f : Traversal S → α → Except (Traversal S) (Traversal S)}
    {P : α → List Visit → Prop} (hmono : ∀ a visits visits', P a visits → visits ⊆ visits' → P a visits') (l : List α)
    (hf : ∀ t, ∀ a ∈ l, ∃ t', f t a = .ok t' ∧ t.visits ⊆ t'.visits ∧ P a t'.visits) :
    ∀ t, ∃ t', l.foldlM f t = .ok t' ∧ t.visits ⊆ t'.visits ∧ ∀ a ∈ l, P a t'.visits := by
  induction l with
  | nil => exact fun t => ⟨t, rfl, fun _ h => h, by simp⟩
  | cons a l ih =>
    intro t
    obtain ⟨t', ht', hsub, ha⟩ := hf t a List.mem_cons_self
    obtain ⟨t'', ht'', hsub', hl⟩ := ih (fun t b hb => hf t b (List.mem_cons_of_mem _ hb)) t'
    refine ⟨t'', ?_, fun _ h => hsub' (hsub h), ?_⟩
    · rw [List.foldlM_cons, ht']
      exact ht''
    · intro b hb
      rcases List.mem_cons.1 hb with rfl | hb
      · exact hmono _ _ _ ha hsub'
      · exact hl b hb

/-- The region of a point: its cells are all that region again. -/
def pointRegion : Region := ⟨0, 0, 0, 0⟩

theorem subRegions_pointRegion : pointRegion.subRegions = List.replicate 4 pointRegion := by decide +kernel

/-- An operation that never stops the traversal. -/
def goOn (_ : List Nat) (_ _ : Nat) (_ : Region) (s : Unit) : Except Unit (Unit × Bool) := .ok (s, true)

theorem foldlM_pointRegion {levels level : Nat} {ancestors : List Nat}
    (h : ∀ (position : Nat) (t : Traversal Unit),
      ∃ t', testAndDoAt goOn (.location 0 0) levels ancestors level position pointRegion t = .ok t' ∧
        t.visits ⊆ t'.visits ∧ VisitsCover levels ancestors position t'.visits) (t : Traversal Unit) :
    ∃ t', (List.replicate 4 pointRegion).zipIdx.foldlM (fun t (subRegion, position') =>
        testAndDoAt goOn (.location 0 0) levels ancestors level position' subRegion t) t = .ok t' ∧
      t.visits ⊆ t'.visits ∧ ∀ position < 4, VisitsCover levels ancestors position t'.visits := by
  obtain ⟨t', ht', hsub, hcovers⟩ := foldlM_covers
    (P := fun (entry : Region × Nat) visits => VisitsCover levels ancestors entry.2 visits) (fun _ _ _ h => h.mono)
    (List.replicate 4 pointRegion).zipIdx
    (f := fun t (subRegion, position') =>
      testAndDoAt goOn (.location 0 0) levels ancestors level position' subRegion t)
    (by
      rintro t ⟨region, position⟩ hentry
      obtain rfl : region = pointRegion := List.eq_of_mem_replicate (List.fst_mem_of_mem_zipIdx hentry)
      exact h position t) t
  refine ⟨t', ht', hsub, fun position hposition => hcovers (pointRegion, position) ?_⟩
  rw [List.mk_mem_zipIdx_iff_getElem?, List.getElem?_replicate, if_pos hposition]

theorem testAndDoAt_covers (levels : Nat) : ∀ (ancestors : List Nat) (level position : Nat) (t : Traversal Unit),
    ∃ t', testAndDoAt goOn (.location 0 0) levels ancestors level position pointRegion t = .ok t' ∧
      t.visits ⊆ t'.visits ∧ VisitsCover levels ancestors position t'.visits := by
  have hmeets : intersects pointRegion (.location 0 0) = true := by decide +kernel
  induction levels with
  | zero =>
    intro ancestors level position t
    refine ⟨_, by rw [testAndDoAt, if_pos hmeets]; rfl, List.subset_append_left _ _, ?_⟩
    intro rest hlength _
    obtain rfl := List.eq_nil_of_length_eq_zero (Nat.le_zero.1 hlength)
    exact ⟨_, List.mem_append_right _ List.mem_cons_self, rfl⟩
  | succ levels ih =>
    intro ancestors level position t
    obtain ⟨t', ht', hsub, hbelow⟩ := foldlM_pointRegion (ih (ancestors ++ [position]) (level + 1))
      ⟨t.path.set level position, t.visits ++ [⟨ancestors, position, computeBitPositionAt (t.path.set level position)
        level position⟩], t.state⟩
    refine ⟨t', ?_, fun _ h => hsub (List.mem_append_left _ h), ?_⟩
    · rw [testAndDoAt, if_pos hmeets, subRegions_pointRegion]
      exact ht'
    · intro rest hlength hrest
      cases rest with
      | nil => exact ⟨_, hsub (List.mem_append_right _ List.mem_cons_self), rfl⟩
      | cons p rest =>
        obtain ⟨visit, hvisit, heq⟩ := hbelow p (hrest p List.mem_cons_self) rest (Nat.le_of_succ_le_succ hlength)
          fun q hq => hrest q (List.mem_cons_of_mem _ hq)
        exact ⟨visit, hvisit, by rw [heq, List.append_assoc]; rfl⟩

theorem testTopRegions_covers {numLevels : Nat} (t : Traversal Unit) :
    ∃ t', testTopRegions goOn (.location 0 0) numLevels (List.replicate 4 pointRegion) t = .ok t' ∧
      ∀ ancestors position, IsCell numLevels ancestors position →
        ∃ visit ∈ t'.visits, visit.ancestors = ancestors ∧ visit.position = position := by
  obtain ⟨t', ht', -, hcovers⟩ := foldlM_pointRegion (testAndDoAt_covers (numLevels - 1) [] 0) t
  refine ⟨t', ht', fun ancestors position ⟨⟨hancestors, hposition⟩, hlevel⟩ => ?_⟩
  have haddress : ∀ p ∈ ancestors ++ [position], p < 4 := by
    simpa [or_imp, forall_and] using And.intro hancestors hposition
  cases haddressed : ancestors ++ [position] with
  | nil => simp at haddressed
  | cons p rest =>
    rw [haddressed] at haddress
    have hlength := congrArg List.length haddressed
    rw [List.length_append, List.length_singleton, List.length_cons] at hlength
    obtain ⟨visit, hvisit, heq⟩ := hcovers p (haddress p List.mem_cons_self) rest (by omega)
      fun q hq => haddress q (List.mem_cons_of_mem _ hq)
    rw [List.nil_append, ← haddressed] at heq
    obtain ⟨h1, h2⟩ := List.append_inj' heq rfl
    exact ⟨visit, hvisit, h1, List.singleton_inj.1 h2⟩

/-! ## The numbers -/

/-- The cell at a place of its level. -/
theorem exists_place (level n : Nat) (h : n < 4 ^ (level + 1)) :
    ∃ path position, Placed path position ∧ path.length = level ∧ place path position = n := by
  induction level generalizing n with
  | zero => exact ⟨[], n, ⟨by simp, h⟩, rfl, by simp [place]⟩
  | succ level ih =>
    have hdiv : n / 4 < 4 ^ (level + 1) := by
      rw [Nat.div_lt_iff_lt_mul (by decide), ← pow_succ]
      exact h
    obtain ⟨path, position, hplaced, hlength, hplace⟩ := ih (n / 4) hdiv
    refine ⟨path ++ [position], n % 4, ⟨?_, Nat.mod_lt _ (by decide)⟩, by simp [hlength], ?_⟩
    · intro p hp
      rcases List.mem_append.1 hp with hp | hp
      · exact hplaced.1 p hp
      · obtain rfl := List.mem_singleton.1 hp
        exact hplaced.2
    · have hdigits : Nat.ofDigits 4 (path ++ [position]).reverse = place path position := by
        rw [List.reverse_append, List.reverse_singleton, List.singleton_append, Nat.ofDigits_cons, place]
      rw [place, hdigits, hplace]
      exact Nat.mod_add_div n 4

/-- How the cells of a filter are numbered: different cells differently, each level through its interval. -/
structure Numbering (numLevels : Nat) (number : List Nat → Nat → Int) : Prop where
  injective : ∀ {path path' position position'}, IsCell numLevels path position → IsCell numLevels path' position' →
    number path position = number path' position' → path = path' ∧ position = position'
  within : ∀ {path position}, IsCell numLevels path position →
    levelSizes path.length ≤ number path position ∧ number path position < levelSizes (path.length + 1)
  fills : ∀ level < numLevels, ∀ n, levelSizes level ≤ n → n < levelSizes (level + 1) →
    ∃ path position, IsCell numLevels path position ∧ path.length = level ∧ number path position = n

theorem numbering_computeBitPosition {numLevels : Nat} (h : numLevels ≤ 15) :
    Numbering numLevels computeBitPosition where
  injective := by
    intro path path' position position' hcell hcell' heq
    have hlevel : path.length ≤ 14 := Nat.le_of_lt_succ (hcell.2.trans_le h)
    have hlevel' : path'.length ≤ 14 := Nat.le_of_lt_succ (hcell'.2.trans_le h)
    rcases Nat.lt_trichotomy path.length path'.length with hlt | hlength | hlt
    · exact absurd heq (hcell.1.number_lt hcell'.1 hlevel' hlt).ne
    · exact hcell.1.eq_of_number_eq hcell'.1 hlevel hlength heq
    · exact absurd heq (hcell'.1.number_lt hcell.1 hlevel hlt).ne'
  within := by
    intro path position hcell
    have hlevel : path.length ≤ 14 := Nat.le_of_lt_succ (hcell.2.trans_le h)
    have hlt : (place path position : Int) < 4 ^ (path.length + 1) := by exact_mod_cast hcell.1.place_lt
    have hsize := three_mul_levelSizes path.length (by omega)
    have hsize' := three_mul_levelSizes (path.length + 1) (by omega)
    have hstep : (4 : Int) ^ (path.length + 1 + 1) = 4 * 4 ^ (path.length + 1) := by rw [pow_succ, mul_comm]
    rw [hcell.1.computeBitPosition_eq hlevel]
    omega
  fills := by
    intro level hlevel n hlow hhigh
    have hsize := three_mul_levelSizes level (by omega)
    have hsize' := three_mul_levelSizes (level + 1) (by omega)
    have hstep : (4 : Int) ^ (level + 1 + 1) = 4 * 4 ^ (level + 1) := by rw [pow_succ, mul_comm]
    have hplace : (n - levelSizes level).toNat < 4 ^ (level + 1) := by
      zify
      omega
    obtain ⟨path, position, hplaced, rfl, hn⟩ := exists_place level _ hplace
    refine ⟨path, position, ⟨hplaced, hlevel⟩, rfl, ?_⟩
    rw [hplaced.computeBitPosition_eq (by omega), hn]
    omega

theorem le_of_levelSizes_fit {numLevels : Nat}
    (hfit : ((List.range numLevels).map fun i => (4 : Int) ^ (i + 1)).sum < 2 ^ 31) :
    numLevels ≤ 15 := by
  by_contra h
  have hsum := three_mul_levelSize numLevels
  have hpow : (4 : Int) ^ 17 ≤ 4 ^ (numLevels + 1) := pow_le_pow_right₀ (by norm_num) (by omega)
  omega

/-- The number that a call of `doOperation` has is one of its cell: every traversal, whatever the array holds at its
beginning, numbers the cells that it comes to by one numbering, and one traversal comes to all cells. -/
def NumbersCells (numLevels : Nat) : Prop :=
  ∃ number, Numbering numLevels number ∧
    (∀ {S : Type} (doOperation : List Nat → Nat → Nat → Region → S → Except S (S × Bool)) (itemCoords : ItemCoords)
      (topRegions : List Region) (path : List Nat) (s : S), topRegions.length ≤ 4 → path.length = numLevels →
        ∀ visit ∈ (left (testTopRegions doOperation itemCoords numLevels topRegions ⟨path, [], s⟩)).visits,
          visit.Right numLevels number) ∧
    ∀ path, ∃ t', testTopRegions goOn (.location 0 0) numLevels (List.replicate 4 pointRegion) ⟨path, [], ()⟩ =
      .ok t' ∧
      ∀ ancestors position, IsCell numLevels ancestors position →
        ∃ visit ∈ t'.visits, visit.ancestors = ancestors ∧ visit.position = position

theorem bitNumbers_right (numLevels : Nat) (hlevels : 1 ≤ numLevels)
    (hfit : ((List.range numLevels).map fun i => (4 : Int) ^ (i + 1)).sum < 2 ^ 31) : NumbersCells numLevels := by
  refine ⟨computeBitPosition, numbering_computeBitPosition (le_of_levelSizes_fit hfit), ?_, ?_⟩
  · intro S doOperation itemCoords topRegions path s htop hpath
    exact (testTopRegions_ok htop hlevels ⟨hpath, List.nil_prefix, by simp⟩).2.2
  · exact fun path => testTopRegions_covers _

theorem bitNumbers_right_three : NumbersCells 3 := bitNumbers_right 3 (by decide) (by decide +kernel)

end WorldWind.QuadTrees
