import WorldWind.Interpolator.Model
/-!
# A search finds the first accepting leaf

The bounds of a cell's children give the bounds of its locations
(`computeExtremesFromChildren_eq`), so it makes no difference where a cell
comes from: built in advance, from the cache, or new. A cell that does not
intersect a location has no leaf that does, so nothing that is passed over
would have been found.
-/

namespace WorldWind.Interpolator

open Lib.Extreme Lib.JavaFloat

/-! ## The order of floats -/

theorem rank_injective {a b : JavaDouble} (ha : a ≠ .nan) (hb : b ≠ .nan) (h : a.rank = b.rank) : a = b := by
  cases a with
  | nan => exact absurd rfl ha
  | finite x =>
    cases b with
    | nan => exact absurd rfl hb
    | finite y => simpa [JavaDouble.rank] using h
    | infinity negative => cases negative <;> simp [JavaDouble.rank] at h
  | infinity negative =>
    cases b with
    | nan => exact absurd rfl hb
    | finite y => cases negative <;> simp [JavaDouble.rank] at h
    | infinity negative' => cases negative <;> cases negative' <;> simp [JavaDouble.rank] at h ⊢

theorem lt_iff {a b : JavaDouble} : a.lt b = true ↔ a ≠ .nan ∧ b ≠ .nan ∧ a.rank < b.rank := by
  simp [JavaDouble.lt, and_assoc]

theorem strict_lt : Strict JavaDouble.lt (· ≠ .nan) where
  irrefl a := by
    rw [← Bool.not_eq_true, lt_iff]
    exact fun h => absurd h.2.2 (lt_irrefl _)
  trans a b c hab hbc := by
    rw [lt_iff] at hab hbc ⊢
    exact ⟨hab.1, hbc.2.1, hab.2.2.trans hbc.2.2⟩
  compares_left a b h := (lt_iff.1 h).1
  connected a b ha hb := by
    rcases lt_trichotomy a.rank b.rank with h | h | h
    · exact .inl (lt_iff.2 ⟨ha, hb, h⟩)
    · exact .inr (.inl (rank_injective ha hb h))
    · exact .inr (.inr (lt_iff.2 ⟨hb, ha, h⟩))

theorem strict_gt : Strict (fun a b => JavaDouble.lt b a) (· ≠ .nan) where
  irrefl := strict_lt.irrefl
  trans a b c hab hbc := strict_lt.trans c b a hbc hab
  compares_left a b h := (lt_iff.1 h).2.1
  connected a b ha hb := by
    rcases strict_lt.connected a b ha hb with h | h | h
    · exact .inr (.inr h)
    · exact .inr (.inl h)
    · exact .inl h

theorem ge_iff {a b : JavaDouble} : ge a b = true ↔ a ≠ .nan ∧ b ≠ .nan ∧ a.lt b = false := by
  simp [ge, and_assoc]

theorem MAX_VALUE_compares : MAX_VALUE ≠ .nan ∧ NEG_MAX_VALUE ≠ .nan := ⟨nofun, nofun⟩

/-! ## Splits -/

namespace Extent

def size (e : Extent) : Nat := (e.m1 - e.m0) + (e.n1 - e.n0)

/-- Each part of a split lies in the cell. -/
theorem split_within (e : Extent) (i : Fin 4) :
    e.m0 ≤ (e.split i).m0 ∧ (e.split i).m1 ≤ e.m1 ∧ e.n0 ≤ (e.split i).n0 ∧ (e.split i).n1 ≤ e.n1 := by
  have hm := e.m_lt
  have hn := e.n_lt
  fin_cases i <;> simp [split] <;> grind

theorem split_size (e : Extent) {cellSize : Nat} (hpos : 1 ≤ cellSize) (h : ¬e.isSmall cellSize) (i : Fin 4) :
    (e.split i).size < e.size := by
  have hm := e.m_lt
  have hn := e.n_lt
  have hsize : 1 < e.m1 - e.m0 ∨ 1 < e.n1 - e.n0 := by
    simp only [isSmall, decide_eq_true_eq, not_and_or, not_le] at h
    omega
  fin_cases i <;> simp [split, size] <;> grind

/-- What is no larger than a unit square lies in a part of the split. -/
theorem exists_split (e : Extent) {i i' j j' : Nat} (hi : e.m0 ≤ i ∧ i' ≤ e.m1) (hi' : i ≤ i' ∧ i' ≤ i + 1)
    (hj : e.n0 ≤ j ∧ j' ≤ e.n1) (hj' : j ≤ j' ∧ j' ≤ j + 1) :
    ∃ k, ((e.split k).m0 ≤ i ∧ i' ≤ (e.split k).m1) ∧ (e.split k).n0 ≤ j ∧ j' ≤ (e.split k).n1 := by
  by_cases hm : i' ≤ (e.split 0).m1 <;> by_cases hn : j' ≤ (e.split 0).n1
  · exact ⟨0, by simp [split] at hm hn ⊢; grind⟩
  · exact ⟨2, by simp [split] at hm hn ⊢; grind⟩
  · exact ⟨1, by simp [split] at hm hn ⊢; grind⟩
  · exact ⟨3, by simp [split] at hm hn ⊢; grind⟩

end Extent

/-! ## Bounds -/

namespace Grid

variable (grid : Grid)

theorem mem_locations {e : Extent} {l : Nat × Nat} :
    l ∈ locations e ↔ (e.m0 ≤ l.1 ∧ l.1 ≤ e.m1) ∧ e.n0 ≤ l.2 ∧ l.2 ≤ e.n1 := by
  have hm := e.m_lt
  have hn := e.n_lt
  obtain ⟨i, j⟩ := l
  simp only [locations, List.mem_flatMap, List.mem_map, List.mem_range'_1, Prod.mk.injEq]
  constructor
  · rintro ⟨j', hj, i', hi, rfl, rfl⟩
    omega
  · rintro ⟨hi, hj⟩
    exact ⟨j, by omega, i, by omega, rfl, rfl⟩

/-- The locations of the root are in the arrays. -/
theorem index_lt {i j : Nat} (h : (i, j) ∈ locations grid.rootExtent) :
    grid.index i j < grid.xs.length ∧ grid.index i j < grid.ys.length := by
  obtain ⟨hi, hj⟩ := mem_locations.1 h
  have hwidth := grid.two_le_width
  have hheight := grid.two_le_height
  have hindex : grid.index i j < grid.width * grid.height := by
    have hi : i < grid.width := by
      have := hi.2
      simp only [rootExtent] at this
      omega
    have hj : j + 1 ≤ grid.height := by
      have := hj.2
      simp only [rootExtent] at this
      omega
    calc j * grid.width + i < (j + 1) * grid.width := by rw [Nat.add_mul, Nat.one_mul]; omega
      _ ≤ grid.height * grid.width := Nat.mul_le_mul_right _ hj
      _ = grid.width * grid.height := Nat.mul_comm _ _
  exact ⟨hindex.trans_le grid.xs_length, hindex.trans_le grid.ys_length⟩

theorem mem_locations_split {e : Extent} {l : Nat × Nat} :
    l ∈ locations e ↔ ∃ k, l ∈ locations (e.split k) := by
  constructor
  · intro h
    obtain ⟨hi, hj⟩ := mem_locations.1 h
    obtain ⟨k, hk⟩ := e.exists_split hi ⟨le_refl _, Nat.le_succ _⟩ hj ⟨le_refl _, Nat.le_succ _⟩
    exact ⟨k, mem_locations.2 hk⟩
  · rintro ⟨k, hk⟩
    obtain ⟨hi, hj⟩ := mem_locations.1 hk
    have hwithin := e.split_within k
    exact mem_locations.2 (by omega)

/-- The extreme of a cell is that of its parts. -/
theorem extreme_split {before : JavaDouble → JavaDouble → Bool} (h : Strict before (· ≠ .nan)) {start : JavaDouble}
    (hstart : start ≠ .nan) (e : Extent) (f : Nat × Nat → JavaDouble) :
    extreme before start (List.ofFn fun k => extreme before start ((locations (e.split k)).map f))
      = extreme before start ((locations e).map f) := by
  have hmap : (List.ofFn fun k => extreme before start ((locations (e.split k)).map f))
      = (List.ofFn fun k => (locations (e.split k)).map f).map (extreme before start) := by
    rw [List.map_ofFn]
    rfl
  rw [hmap, h.extreme_flatten hstart]
  refine h.extreme_congr hstart fun x => ?_
  simp only [List.mem_flatten, List.mem_ofFn]
  constructor
  · rintro ⟨_, ⟨k, rfl⟩, hx⟩
    obtain ⟨l, hl, rfl⟩ := List.mem_map.1 hx
    exact List.mem_map_of_mem (mem_locations_split.2 ⟨k, hl⟩)
  · intro hx
    obtain ⟨l, hl, rfl⟩ := List.mem_map.1 hx
    obtain ⟨k, hk⟩ := mem_locations_split.1 hl
    exact ⟨_, ⟨k, rfl⟩, List.mem_map_of_mem hk⟩

/-- Bounds from children are bounds from locations. -/
theorem computeExtremesFromChildren_eq {e : Extent} {children : Fin 4 → Cell}
    (h : ∀ k, (children k).bounds = grid.computeExtremesFromLocations (e.split k)) :
    computeExtremesFromChildren children = grid.computeExtremesFromLocations e := by
  simp only [computeExtremesFromChildren, h, computeExtremesFromLocations, computeExtremes]
  rw [extreme_split strict_lt MAX_VALUE_compares.1, extreme_split strict_gt MAX_VALUE_compares.2,
    extreme_split strict_lt MAX_VALUE_compares.1, extreme_split strict_gt MAX_VALUE_compares.2]

/-- A location that intersects a part of a cell intersects the cell. -/
theorem intersects_of_subset {e e' : Extent} (hsub : locations e' ⊆ locations e) {x y : JavaDouble}
    (h : (grid.computeExtremesFromLocations e').intersects x y = true) :
    (grid.computeExtremesFromLocations e).intersects x y = true := by
  have hmin : ∀ (f : Nat × Nat → JavaDouble) {a : JavaDouble},
      ge a (extreme JavaDouble.lt MAX_VALUE ((locations e').map f)) = true →
      ge a (extreme JavaDouble.lt MAX_VALUE ((locations e).map f)) = true := by
    intro f a ha
    obtain ⟨h1, h2, h3⟩ := ge_iff.1 ha
    have hcompares := strict_lt.compares_extreme (l := (locations e).map f) MAX_VALUE_compares.1
    exact ge_iff.2 ⟨h1, hcompares, strict_lt.not_before_trans h2 hcompares h3
      (strict_lt.extreme_of_subset MAX_VALUE_compares.1 (List.map_subset f hsub))⟩
  have hmax : ∀ (f : Nat × Nat → JavaDouble) {a : JavaDouble},
      ge (extreme (fun a b => JavaDouble.lt b a) NEG_MAX_VALUE ((locations e').map f)) a = true →
      ge (extreme (fun a b => JavaDouble.lt b a) NEG_MAX_VALUE ((locations e).map f)) a = true := by
    intro f a ha
    obtain ⟨h1, h2, h3⟩ := ge_iff.1 ha
    have hcompares := strict_gt.compares_extreme (l := (locations e).map f) MAX_VALUE_compares.2
    exact ge_iff.2 ⟨hcompares, h2, strict_gt.not_before_trans h1 hcompares h3
      (strict_gt.extreme_of_subset MAX_VALUE_compares.2 (List.map_subset f hsub))⟩
  simp only [Bounds.intersects, Bool.and_eq_true] at h ⊢
  obtain ⟨⟨⟨h1, h2⟩, h3⟩, h4⟩ := h
  exact ⟨⟨⟨hmin _ h1, hmax _ h2⟩, hmin _ h3⟩, hmax _ h4⟩

/-! ## The full recursive split -/

/-- The cells that are not split, in order. -/
def leaves (e : Extent) : List Extent :=
  if _h : e.isSmall grid.cellSize then [e]
  else (List.ofFn fun k => leaves (e.split k)).flatten
termination_by e.size
decreasing_by exact e.split_size grid.cellSize_pos _h k

/-- What a leaf gives: nothing if it does not intersect or contain the location. -/
def accept (invertBilinear : InvertBilinear) (x y : JavaDouble) (e : Extent) : Option ContainingCell :=
  if (grid.computeExtremesFromLocations e).intersects x y then
    grid.checkContainment invertBilinear x y e (grid.computeExtremesFromLocations e)
  else none

theorem leaves_of_small {e : Extent} (h : e.isSmall grid.cellSize = true) : grid.leaves e = [e] := by
  rw [leaves, dif_pos h]

theorem leaves_of_not_small {e : Extent} (h : ¬e.isSmall grid.cellSize = true) :
    grid.leaves e = (List.ofFn fun k => grid.leaves (e.split k)).flatten := by
  rw [leaves, dif_neg h]

theorem leaves_subset {e e' : Extent} (h : e' ∈ grid.leaves e) : locations e' ⊆ locations e := by
  induction e using leaves.induct grid with
  | case1 e hsmall =>
    rw [leaves_of_small grid hsmall, List.mem_singleton] at h
    rw [h]
    exact List.Subset.refl _
  | case2 e hsmall ih =>
    rw [leaves_of_not_small grid hsmall] at h
    obtain ⟨l, hl, h⟩ := List.mem_flatten.1 h
    obtain ⟨k, rfl⟩ := List.mem_ofFn.1 hl
    exact fun p hp => mem_locations_split.2 ⟨k, ih k h hp⟩

/-- A cell that does not intersect a location has no leaf that does. -/
theorem findSome_of_not_intersects {invertBilinear : InvertBilinear} {x y : JavaDouble} {e : Extent}
    (h : ¬(grid.computeExtremesFromLocations e).intersects x y = true) :
    (grid.leaves e).findSome? (grid.accept invertBilinear x y) = none := by
  rw [List.findSome?_eq_none_iff]
  intro e' he'
  exact if_neg fun hin => h (grid.intersects_of_subset (grid.leaves_subset he') hin)

/-- With cells of size one, the leaves have every unit square. -/
theorem unit_mem_leaves (hsize : grid.cellSize = 1) {e square : Extent} (hm : square.m1 = square.m0 + 1)
    (hn : square.n1 = square.n0 + 1) (hi : e.m0 ≤ square.m0 ∧ square.m1 ≤ e.m1)
    (hj : e.n0 ≤ square.n0 ∧ square.n1 ≤ e.n1) : square ∈ grid.leaves e := by
  induction e using leaves.induct grid with
  | case1 e hsmall =>
    rw [leaves_of_small grid hsmall, List.mem_singleton]
    simp only [Extent.isSmall, decide_eq_true_eq, hsize] at hsmall
    cases e
    cases square
    simp only [Extent.mk.injEq] at hm hn hi hj hsmall ⊢
    omega
  | case2 e hsmall ih =>
    rw [leaves_of_not_small grid hsmall]
    obtain ⟨k, h1, h2⟩ := e.exists_split hi ⟨square.m_lt.le, hm.le⟩ hj ⟨square.n_lt.le, hn.le⟩
    exact List.mem_flatten.2 ⟨_, List.mem_ofFn.2 ⟨k, rfl⟩, ih k h1 h2⟩

end Grid

/-! ## Cells that are built in advance -/

/-- The cell was created, and its children are the parts of its split. -/
def Placed (created : Created) : Cell → Prop
  | .childless id e _ => created[id]? = some e
  | .parent _ e _ children => ∀ k, (children k).extent = e.split k ∧ Placed created (children k)

/-- The bounds are those of the cell's locations. -/
def Bounded (grid : Grid) : Cell → Prop
  | .childless _ e bounds => bounds = grid.computeExtremesFromLocations e
  | .parent _ e bounds children => bounds = grid.computeExtremesFromLocations e ∧ ∀ k, Bounded grid (children k)

theorem created_mono {created created' : Created} (h : created <+: created') {id : Nat} {e : Extent}
    (hid : created[id]? = some e) : created'[id]? = some e := by
  obtain ⟨t, rfl⟩ := h
  rw [List.getElem?_append_left (List.getElem?_eq_some_iff.1 hid).1, hid]

theorem Placed.mono {created created' : Created} (h : created <+: created') {cell : Cell}
    (hplaced : Placed created cell) : Placed created' cell := by
  induction cell with
  | childless id e _ =>
    rw [Placed] at hplaced ⊢
    exact created_mono h hplaced
  | parent _ e _ children ih =>
    rw [Placed] at hplaced ⊢
    exact fun k => ⟨(hplaced k).1, ih k (hplaced k).2⟩

theorem Bounded.bounds_eq {grid : Grid} {cell : Cell} (h : Bounded grid cell) :
    cell.bounds = grid.computeExtremesFromLocations cell.extent := by
  cases cell with
  | childless _ _ _ => exact h
  | parent _ _ _ _ => exact h.1

/-- The cells of a split are created. -/
theorem splitCells_placed (created : Created) (e : Extent) (k : Fin 4) :
    (splitCells created e).2[((splitCells created e).1 k).id]? = some (e.split k) := by
  simp only [splitCells, Cell.id]
  rw [List.getElem?_append_right (Nat.le_add_right _ _), Nat.add_sub_cancel_left, List.getElem?_ofFn]
  simp

theorem splitCells_prefix (created : Created) (e : Extent) : created <+: (splitCells created e).2 :=
  List.prefix_append _ _

theorem build_placed {cellSize : Nat} (numLevels : Nat) : ∀ {id : Nat} {e : Extent} {created : Created},
    created[id]? = some e → (build cellSize numLevels id e created).1.extent = e ∧
      Placed (build cellSize numLevels id e created).2 (build cellSize numLevels id e created).1 ∧
      created <+: (build cellSize numLevels id e created).2 := by
  induction numLevels with
  | zero =>
    intro id e created h
    exact ⟨rfl, h, List.prefix_refl _⟩
  | succ numLevels ih =>
    intro id e created h
    rw [build]
    split
    · exact ⟨rfl, h, List.prefix_refl _⟩
    · have hplaced := splitCells_placed created e
      have hgrown := splitCells_prefix created e
      generalize splitCells created e = cells at hplaced hgrown
      obtain ⟨cells, c⟩ := cells
      dsimp only at hplaced hgrown ⊢
      -- each part is built on what was created before it
      obtain ⟨e0, p0, h0⟩ := ih (hplaced 0)
      obtain ⟨e1, p1, h1⟩ := ih (created_mono h0 (hplaced 1))
      obtain ⟨e2, p2, h2⟩ := ih (created_mono (h0.trans h1) (hplaced 2))
      obtain ⟨e3, p3, h3⟩ := ih (created_mono (h0.trans (h1.trans h2)) (hplaced 3))
      refine ⟨rfl, fun k => ?_, hgrown.trans (h0.trans (h1.trans (h2.trans h3)))⟩
      fin_cases k
      · exact ⟨e0, p0.mono (h1.trans (h2.trans h3))⟩
      · exact ⟨e1, p1.mono (h2.trans h3)⟩
      · exact ⟨e2, p2.mono h3⟩
      · exact ⟨e3, p3⟩

theorem computeBounds_bounded {grid : Grid} {created : Created} {cell : Cell} (h : Placed created cell) :
    (grid.computeBounds cell).extent = cell.extent ∧ Placed created (grid.computeBounds cell) ∧
      Bounded grid (grid.computeBounds cell) := by
  induction cell with
  | childless id e _ => exact ⟨rfl, h, rfl⟩
  | parent id e _ children ih =>
    have hext : ∀ k, (grid.computeBounds (children k)).extent = e.split k := fun k => (ih k (h k).2).1.trans (h k).1
    refine ⟨rfl, fun k => ⟨hext k, (ih k (h k).2).2.1⟩, ?_, fun k => (ih k (h k).2).2.2⟩
    exact grid.computeExtremesFromChildren_eq fun k => (ih k (h k).2).2.2.bounds_eq.trans (by rw [hext])

/-! ## Searches -/

/-- The kids in the cache are the parts of the split of the cell that was
created under their number. -/
def Inv (grid : Grid) (s : State) : Prop :=
  ∀ entry ∈ s.kidCache, ∃ e, s.created[entry.1]? = some e ∧
    ∀ k, (entry.2 k).extent = e.split k ∧ Placed s.created (entry.2 k) ∧ Bounded grid (entry.2 k)

section
variable {grid : Grid} {invertBilinear : InvertBilinear} {eviction : Eviction} {s : State}

theorem kidsOf_spec {cell : Cell} (hinv : Inv grid s) (hplaced : Placed s.created cell)
    (hbounded : Bounded grid cell) :
    Inv grid (grid.kidsOf eviction cell s).2 ∧ s.created <+: (grid.kidsOf eviction cell s).2.created ∧
      ∀ k, ((grid.kidsOf eviction cell s).1 k).extent = cell.extent.split k ∧
        Placed (grid.kidsOf eviction cell s).2.created ((grid.kidsOf eviction cell s).1 k) ∧
        Bounded grid ((grid.kidsOf eviction cell s).1 k) := by
  cases cell with
  | parent id e bounds children =>
    exact ⟨hinv, List.prefix_refl _, fun k => ⟨(hplaced k).1, (hplaced k).2, hbounded.2 k⟩⟩
  | childless id e bounds =>
    rw [Grid.kidsOf]
    dsimp only [Cell.children, Cell.id, Cell.extent]
    cases hget : s.getObject id with
    | some kids =>
      obtain ⟨entry, hfind, rfl⟩ := Option.map_eq_some_iff.1 hget
      obtain ⟨e', he', hkids⟩ := hinv entry (List.mem_of_find?_eq_some hfind)
      have hid : entry.1 = id := by simpa using List.find?_some hfind
      -- the entry's cell is this one
      obtain rfl : e' = e := Option.some.inj (he'.symm.trans (hid ▸ hplaced))
      exact ⟨hinv, List.prefix_refl _, hkids⟩
    | none =>
      have hnew := splitCells_placed s.created e
      have hgrown := splitCells_prefix s.created e
      have hext : ∀ k, ((splitCells s.created e).1 k).extent = e.split k := fun k => rfl
      generalize splitCells s.created e = cells at hnew hgrown hext
      obtain ⟨kids, created⟩ := cells
      dsimp only at hnew hgrown hext ⊢
      have hkids : ∀ k, (Cell.childless (kids k).id (kids k).extent
          (grid.computeExtremesFromLocations (kids k).extent)).extent = e.split k ∧
          Placed created (Cell.childless (kids k).id (kids k).extent
            (grid.computeExtremesFromLocations (kids k).extent)) ∧
          Bounded grid (Cell.childless (kids k).id (kids k).extent
            (grid.computeExtremesFromLocations (kids k).extent)) := by
        intro k
        refine ⟨hext k, ?_, rfl⟩
        rw [Placed, hext k]
        exact hnew k
      refine ⟨fun entry hentry => ?_, hgrown, hkids⟩
      rcases List.mem_cons.1 (eviction.keep_subset _ _ hentry) with rfl | hold
      · exact ⟨e, created_mono hgrown hplaced, hkids⟩
      · obtain ⟨e', he', hkids'⟩ := hinv entry (List.mem_of_mem_filter hold)
        exact ⟨e', created_mono hgrown he',
          fun k => ⟨(hkids' k).1, (hkids' k).2.1.mono hgrown, (hkids' k).2.2⟩⟩

/-- A search that ends with the first accepting leaf of the cell. -/
def Finds (grid : Grid) (invertBilinear : InvertBilinear) (x y : JavaDouble) (cells : List Extent) (s : State)
    (result : Option (Option ContainingCell × State)) : Prop :=
  ∃ s', result = some ((cells.flatMap grid.leaves).findSome? (grid.accept invertBilinear x y), s') ∧
    Inv grid s' ∧ s.created <+: s'.created

theorem findFirst_finds {x y : JavaDouble} {find : Cell → State → Option (Option ContainingCell × State)}
    {created : Created} {cells : List Cell} (hinv : Inv grid s) (hgrown : created <+: s.created)
    (hcells : ∀ cell ∈ cells, ∀ s, Inv grid s → created <+: s.created →
      Finds grid invertBilinear x y [cell.extent] s (find cell s)) :
    Finds grid invertBilinear x y (cells.map Cell.extent) s (Grid.findFirst find cells s) := by
  induction cells generalizing s with
  | nil => exact ⟨s, rfl, hinv, List.prefix_refl _⟩
  | cons cell cells ih =>
    obtain ⟨s1, hfind, hinv1, hgrown1⟩ := hcells cell List.mem_cons_self s hinv hgrown
    rw [Grid.findFirst, hfind, Option.bind_eq_bind, Option.bind_some, List.map_cons, Finds]
    rw [List.flatMap_cons, List.flatMap_nil, List.append_nil, List.flatMap_cons, List.findSome?_append]
    cases (grid.leaves cell.extent).findSome? (grid.accept invertBilinear x y) with
    | some found => exact ⟨s1, rfl, hinv1, hgrown1⟩
    | none =>
      obtain ⟨s2, hrest, hinv2, hgrown2⟩ := ih hinv1 (hgrown.trans hgrown1)
        fun c hc => hcells c (List.mem_cons_of_mem _ hc)
      exact ⟨s2, hrest, hinv2, hgrown1.trans hgrown2⟩

theorem findContainingCell_finds {x y : JavaDouble} (fuel : Nat) : ∀ {cell : Cell} {s : State},
    Inv grid s → Placed s.created cell → Bounded grid cell → cell.extent.size < fuel →
    Finds grid invertBilinear x y [cell.extent] s
      (grid.findContainingCell invertBilinear eviction x y fuel cell s) := by
  induction fuel with
  | zero => exact fun _ _ _ h => absurd h (Nat.not_lt_zero _)
  | succ fuel ih =>
    intro cell s hinv hplaced hbounded hfuel
    rw [Grid.findContainingCell, hbounded.bounds_eq, Finds, List.flatMap_cons, List.flatMap_nil, List.append_nil]
    by_cases hin : (grid.computeExtremesFromLocations cell.extent).intersects x y = true
    · rw [hin, Bool.not_true, if_neg Bool.false_ne_true]
      by_cases hsmall : cell.extent.isSmall grid.cellSize = true
      · rw [if_pos hsmall, grid.leaves_of_small hsmall, List.findSome?_cons, List.findSome?_nil, Grid.accept,
          if_pos hin]
        refine ⟨s, ?_, hinv, List.prefix_refl _⟩
        cases grid.checkContainment invertBilinear x y cell.extent (grid.computeExtremesFromLocations cell.extent) <;>
          rfl
      · rw [if_neg hsmall, grid.leaves_of_not_small hsmall]
        obtain ⟨hinv1, hgrown1, hkids⟩ := @kidsOf_spec grid eviction s cell hinv hplaced hbounded
        generalize grid.kidsOf eviction cell s = kids at hinv1 hgrown1 hkids
        obtain ⟨kids, s1⟩ := kids
        dsimp only at hinv1 hgrown1 hkids ⊢
        -- the kids are smaller, and were created before the loop over them
        have hloop : Finds grid invertBilinear x y ((List.ofFn kids).map Cell.extent) s1 (Grid.findFirst
            (grid.findContainingCell invertBilinear eviction x y fuel) (List.ofFn kids) s1) := by
          refine findFirst_finds hinv1 (List.prefix_refl _) fun kid hkid s2 hinv2 hgrown2 => ?_
          obtain ⟨k, rfl⟩ := List.mem_ofFn.1 hkid
          refine ih hinv2 ((hkids k).2.1.mono hgrown2) (hkids k).2.2 ?_
          have hsize := cell.extent.split_size grid.cellSize_pos hsmall k
          rw [(hkids k).1]
          omega
        obtain ⟨s2, hfound, hinv2, hgrown2⟩ := hloop
        have hleaves : ((List.ofFn kids).map Cell.extent).flatMap grid.leaves
            = (List.ofFn fun k => grid.leaves (cell.extent.split k)).flatten := by
          rw [List.flatMap, List.map_map, List.map_ofFn]
          congr 2
          funext k
          simp only [Function.comp, (hkids k).1]
        rw [hleaves] at hfound
        exact ⟨s2, hfound, hinv2, hgrown1.trans hgrown2⟩
    · rw [grid.findSome_of_not_intersects hin, if_pos (by simpa using hin)]
      exact ⟨s, rfl, hinv, List.prefix_refl _⟩

theorem findAll_eq {fuel : Nat} {root : Cell} (hbounded : Bounded grid root) (hfuel : root.extent.size < fuel)
    (queries : List (JavaDouble × JavaDouble)) (hinv : Inv grid s) (hplaced : Placed s.created root) :
    grid.findAll invertBilinear eviction fuel root queries s =
      some (queries.map fun q => (grid.leaves root.extent).findSome? (grid.accept invertBilinear q.1 q.2)) := by
  induction queries generalizing s with
  | nil => rfl
  | cons q queries ih =>
    obtain ⟨s1, hfind, hinv1, hgrown⟩ := @findContainingCell_finds grid invertBilinear eviction q.1 q.2 fuel root s
      hinv hplaced hbounded hfuel
    rw [List.flatMap_cons, List.flatMap_nil, List.append_nil] at hfind
    rw [Grid.findAll, hfind, Option.bind_eq_bind, Option.bind_some]
    dsimp only
    rw [ih hinv1 (hplaced.mono hgrown)]
    rfl

end

/-- The root and the state that the constructor makes. -/
theorem new_spec (grid : Grid) (depth : Nat) :
    (grid.new depth).1.extent = grid.rootExtent ∧ Placed (grid.new depth).2.created (grid.new depth).1 ∧
      Bounded grid (grid.new depth).1 ∧ Inv grid (grid.new depth).2 := by
  obtain ⟨hext, hplaced, -⟩ := @build_placed grid.cellSize depth 0 grid.rootExtent [grid.rootExtent] rfl
  obtain ⟨hext', hplaced', hbounded⟩ := @computeBounds_bounded grid _ _ hplaced
  exact ⟨hext'.trans hext, hplaced', hbounded, fun _ h => absurd h List.not_mem_nil⟩

/-- Every search ends, and gives the first accepting leaf of the full recursive
split, whatever was built in advance, searched before and forgotten. -/
theorem findContainingCell_firstLeaf (grid : Grid) (invertBilinear : InvertBilinear) :
    (∀ (depth : Nat) (eviction : Eviction) (queries : List (JavaDouble × JavaDouble)) (fuel : Nat),
      grid.width + grid.height ≤ fuel →
      grid.findAll invertBilinear eviction fuel (grid.new depth).1 queries (grid.new depth).2 =
        some (queries.map fun q =>
          (grid.leaves grid.rootExtent).findSome? (grid.accept invertBilinear q.1 q.2))) ∧
    (grid.cellSize = 1 → ∀ i j, i + 1 < grid.width → j + 1 < grid.height →
      (⟨i, i + 1, j, j + 1, Nat.lt_succ_self i, Nat.lt_succ_self j⟩ : Extent) ∈ grid.leaves grid.rootExtent) := by
  constructor
  · intro depth eviction queries fuel hfuel
    obtain ⟨hext, hplaced, hbounded, hinv⟩ := new_spec grid depth
    have hwidth := grid.two_le_width
    have hsize : (grid.new depth).1.extent.size < fuel := by
      rw [hext]
      simp only [Extent.size, Grid.rootExtent]
      omega
    rw [findAll_eq hbounded hsize queries hinv hplaced, hext]
  · intro hcellSize i j hi hj
    refine grid.unit_mem_leaves hcellSize rfl rfl ?_ ?_
    · simp only [Grid.rootExtent]
      omega
    · simp only [Grid.rootExtent]
      omega

/-- Three columns and two rows. -/
def threeByTwo : Grid where
  width := 3
  height := 2
  xs := [.finite 0, .finite 1, .finite 2, .finite 0, .finite 1, .finite 2]
  ys := [.finite 0, .finite 0, .finite 0, .finite 1, .finite 1, .finite 1]
  cellSize := 1
  two_le_width := by decide
  two_le_height := by decide
  xs_length := by decide
  ys_length := by decide
  cellSize_pos := by decide

/-- The coordinates in a rectangle. -/
def invertRectangle : InvertBilinear := fun location corner00 _ corner11 _ =>
  match location, corner00, corner11 with
  | (.finite x, .finite y), (.finite x0, .finite y0), (.finite x1, .finite y1) =>
    some (.finite ((x - x0) / (x1 - x0)), .finite ((y - y0) / (y1 - y0)))
  | _, _, _ => none

/-- Nothing is kept. -/
def evictAll : Eviction := ⟨fun _ _ => [], fun _ _ => List.nil_subset _⟩

/-- The second square, found twice over with nothing built in advance and an
empty cache. -/
theorem threeByTwo_firstLeaf :
    (threeByTwo.leaves threeByTwo.rootExtent).findSome?
        (threeByTwo.accept invertRectangle (.finite (3 / 2)) (.finite (1 / 2)))
      = some ⟨⟨1, 2, 0, 1, by decide, by decide⟩, ⟨.finite 1, .finite 2, .finite 0, .finite 1⟩,
        (.finite (1 / 2), .finite (1 / 2)), [1, 2, 5, 4]⟩ ∧
    (⟨1, 2, 0, 1, by decide, by decide⟩ : Extent) ∈ threeByTwo.leaves threeByTwo.rootExtent := by
  have hfound := (findContainingCell_firstLeaf threeByTwo invertRectangle).1 0 evictAll
    [(.finite (3 / 2), .finite (1 / 2)), (.finite (3 / 2), .finite (1 / 2))] 5 (by decide)
  have hvalue : threeByTwo.findAll invertRectangle evictAll 5 (threeByTwo.new 0).1
      [(.finite (3 / 2), .finite (1 / 2)), (.finite (3 / 2), .finite (1 / 2))] (threeByTwo.new 0).2
      = some (List.replicate 2 (some ⟨⟨1, 2, 0, 1, by decide, by decide⟩,
        ⟨.finite 1, .finite 2, .finite 0, .finite 1⟩, (.finite (1 / 2), .finite (1 / 2)),
        [1, 2, 5, 4]⟩)) := by decide +kernel
  rw [hvalue] at hfound
  exact ⟨(List.cons.inj (Option.some.inj hfound)).1.symm,
    (findContainingCell_firstLeaf threeByTwo invertRectangle).2 rfl 1 0 (by decide) (by decide)⟩

end WorldWind.Interpolator
