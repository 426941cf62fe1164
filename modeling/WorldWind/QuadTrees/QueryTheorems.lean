import WorldWind.QuadTrees.Queries
/-!
# Which quadtrees answer queries rightly

A query must find the items on the shelves of the leaf cells it meets, and miss
no item that was added and not removed. With sixteen levels or more a cell has
a negative number: an item over it cannot be added, nor can a search pass by.
In a sector whose bounds are turned around, a leaf reaches past the cells above
it.
-/

namespace WorldWind.QuadTrees

open Geom Lib.JavaInt

/-! ## Histories and queries -/

/-- The region of a sector. -/
def sectorRegion (sector : Sector) : Region :=
  ⟨sector.minLatitude.degrees, sector.maxLatitude.degrees, sector.minLongitude.degrees, sector.maxLongitude.degrees⟩

/-- A location is part of an item or of a query. -/
def Covers (latitude longitude : ℚ) : ItemCoords → Prop
  | .location latitude' longitude' => latitude' = latitude ∧ longitude' = longitude
  | .region region => intersects region (.location latitude longitude) = true

/-- Two items have a common location in the sector. -/
def Meet (sector : Sector) (coords coords' : ItemCoords) : Prop :=
  ∃ latitude longitude, intersects (sectorRegion sector) (.location latitude longitude) = true ∧
    Covers latitude longitude coords ∧ Covers latitude longitude coords'

theorem Covers.intersects {latitude longitude : ℚ} {coords : ItemCoords} (h : Covers latitude longitude coords)
    {cell : Region} (hcell : QuadTrees.intersects cell (.location latitude longitude) = true) :
    QuadTrees.intersects cell coords = true := by
  cases coords with
  | location latitude' longitude' =>
    obtain ⟨rfl, rfl⟩ := h
    exact hcell
  | region region =>
    simp only [Covers, QuadTrees.intersects, decide_eq_true_eq, not_or, not_lt, gt_iff_lt] at h hcell ⊢
    exact ⟨hcell.1.trans h.2.1, h.1.trans hcell.2.1, hcell.2.2.1.trans h.2.2.2, h.2.2.1.trans hcell.2.2.2⟩

/-- A location in the sector lies in a leaf cell. -/
theorem exists_leafCell {sector : Sector} {latitude longitude : ℚ} (maxLevel : Nat)
    (h : intersects (sectorRegion sector) (.location latitude longitude) = true) :
    ∃ leaf ∈ leafCells maxLevel (makeLevelZeroCells sector), intersects leaf.region (.location latitude longitude) =
      true := by
  obtain ⟨cell, hcell, hmeets⟩ := @exists_part [] _ _ _ h
  obtain ⟨leaf, hleaf, hmeets⟩ := @Cell.exists_leaf latitude longitude maxLevel cell hmeets
  exact ⟨leaf, List.mem_flatMap.2 ⟨cell, hcell, hleaf⟩, hmeets⟩

section
variable {T : Type*} [DecidableEq T]

/-- None of the calls takes the item out of the tree. -/
def Keeps (item : T) : BasicQuadTree T → List (Operation T) → Prop
  | _, [] => True
  | tree, operation :: operations =>
    (match operation with
      | .add _ _ _ => True
      | .remove other => other ≠ item
      | .removeByName name => tree.getByName name ≠ some item
      | .clear => False) ∧ Keeps item (exec tree operation) operations

variable (T) in
/-- The queries answer with the items on the shelves of the leaf cells they
meet, and miss none that was added and not removed. -/
structure Answers (maxLevel : Nat) (sector : Sector) : Prop where
  exact : ∀ (operations : List (Operation T)) (testCoords : ItemCoords), ∃ answer,
    (operations.foldl exec (.new maxLevel sector)).getItemsIn testCoords = some answer ∧
      ∀ item, item ∈ answer ↔ ∃ leaf ∈ leafCells maxLevel (makeLevelZeroCells sector),
        intersects leaf.region testCoords = true ∧
          item ∈ (operations.foldl (Shelves.exec (leafCells maxLevel (makeLevelZeroCells sector))) .empty).on leaf
  complete : ∀ (before : List (Operation T)) item itemCoords name after testCoords,
    Meet sector itemCoords testCoords →
    Keeps item (exec (before.foldl exec (.new maxLevel sector)) (.add item itemCoords name)) after →
      ∃ answer, ((before ++ .add item itemCoords name :: after).foldl exec
        (.new maxLevel sector)).getItemsIn testCoords =
        some answer ∧ item ∈ answer

/-- The tree has at most fifteen levels, and the sector is not turned around
unless there is only one level. -/
def Numbered (maxLevel : Nat) (sector : Sector) : Prop :=
  maxLevel ≤ 14 ∧ (maxLevel = 0 ∨ (sectorRegion sector).Ordered)

theorem Numbered.sound {maxLevel : Nat} {sector : Sector} (h : Numbered maxLevel sector) :
    BasicQuadTree.Sound maxLevel (makeLevelZeroCells sector) :=
  ⟨h.1, le_rfl, h.2.imp_right fun hordered _ hregion => (hordered.subRegion hregion).1⟩

theorem holds_run {maxLevel : Nat} {levelZeroCells : List Region}
    (sound : BasicQuadTree.Sound maxLevel levelZeroCells)
    (operations : List (Operation T)) : ∀ {tree : BasicQuadTree T} {shelves : Shelves T},
    tree.Holds maxLevel levelZeroCells shelves → (operations.foldl exec tree).Holds maxLevel levelZeroCells
      (operations.foldl (Shelves.exec (leafCells maxLevel levelZeroCells)) shelves) := by
  induction operations with
  | nil =>
    intro tree shelves h
    exact h
  | cons operation operations ih =>
    intro tree shelves h
    exact ih (BasicQuadTree.holds_exec sound h operation)

omit [DecidableEq T] in
theorem holds_new (maxLevel : Nat) (sector : Sector) :
    (BasicQuadTree.new maxLevel sector : BasicQuadTree T).Holds maxLevel (makeLevelZeroCells sector) .empty := by
  refine ⟨rfl, rfl, fun _ _ => rfl, rfl, fun _ _ hne => absurd rfl hne, List.nodup_nil, ?_⟩
  intro number hnumber
  cases hnumber

/-- An item stays on its shelf while no call takes it out. -/
theorem on_of_keeps {maxLevel : Nat} {levelZeroCells : List Region}
    (sound : BasicQuadTree.Sound maxLevel levelZeroCells) {item : T} {leaf : Cell} (operations : List (Operation T)) :
    ∀ {tree : BasicQuadTree T} {shelves : Shelves T}, tree.Holds maxLevel levelZeroCells shelves →
      Keeps item tree operations → item ∈ shelves.on leaf →
        item ∈ (operations.foldl (Shelves.exec (leafCells maxLevel levelZeroCells)) shelves).on leaf := by
  induction operations with
  | nil =>
    intro tree shelves _ _ hitem
    exact hitem
  | cons operation operations ih =>
    intro tree shelves h hkeeps hitem
    obtain ⟨hkept, hkeeps⟩ := hkeeps
    refine ih (BasicQuadTree.holds_exec sound h operation) hkeeps ?_
    cases operation with
    | add other itemCoords name =>
      show item ∈ if intersects leaf.region itemCoords then shelves.on leaf ++ [other] else shelves.on leaf
      split
      · exact List.mem_append_left _ hitem
      · exact hitem
    | remove other => exact (List.mem_erase_of_ne (Ne.symm hkept)).2 hitem
    | removeByName name =>
      have hname : shelves.names name ≠ some item := by
        rw [← h.names]
        exact hkept
      rw [Shelves.exec]
      cases hother : shelves.names name with
      | none => exact hitem
      | some other =>
        refine (List.mem_erase_of_ne ?_).2 hitem
        rintro rfl
        exact hname hother
    | clear => exact hkept.elim

theorem Numbered.answers {maxLevel : Nat} {sector : Sector} (h : Numbered maxLevel sector) :
    Answers T maxLevel sector where
  exact operations testCoords :=
    BasicQuadTree.holds_query h.sound (holds_run h.sound operations (holds_new maxLevel sector)) testCoords
  complete before item itemCoords name after testCoords hmeet hkeeps := by
    have hbefore := holds_run h.sound before (holds_new (T := T) maxLevel sector)
    have hadd := BasicQuadTree.holds_exec h.sound hbefore (.add item itemCoords name)
    obtain ⟨answer, hanswer, hmem⟩ := BasicQuadTree.holds_query h.sound (holds_run h.sound after hadd) testCoords
    refine ⟨answer, by rw [List.foldl_append]; exact hanswer, (hmem item).2 ?_⟩
    obtain ⟨latitude, longitude, hin, hitem, htest⟩ := hmeet
    obtain ⟨leaf, hleaf, hmeets⟩ := exists_leafCell maxLevel hin
    refine ⟨leaf, hleaf, htest.intersects hmeets, on_of_keeps h.sound after hadd hkeeps ?_⟩
    rw [Shelves.exec]
    simp only [if_pos (hitem.intersects hmeets)]
    exact List.mem_append_right _ (List.mem_singleton_self item)

end

/-! ## Where they fail -/

/-- All bounds of a region lie in the span of another. -/
structure Region.Spanned (region outer : Region) : Prop where
  minLat : outer.minLat ≤ region.minLat ∧ region.minLat ≤ outer.maxLat
  maxLat : outer.minLat ≤ region.maxLat ∧ region.maxLat ≤ outer.maxLat
  minLon : outer.minLon ≤ region.minLon ∧ region.minLon ≤ outer.maxLon
  maxLon : outer.minLon ≤ region.maxLon ∧ region.maxLon ≤ outer.maxLon

theorem Region.Spanned.subRegion {region outer subRegion : Region} (h : region.Spanned outer)
    (hsub : subRegion ∈ region.subRegions) : subRegion.Spanned outer := by
  obtain ⟨⟨h1, h2⟩, ⟨h3, h4⟩, ⟨h5, h6⟩, h7, h8⟩ := h
  have hlat : outer.minLat ≤ (region.maxLat + region.minLat) / 2 ∧
      (region.maxLat + region.minLat) / 2 ≤ outer.maxLat :=
    ⟨by linarith, by linarith⟩
  have hlon : outer.minLon ≤ (region.maxLon + region.minLon) / 2 ∧
      (region.maxLon + region.minLon) / 2 ≤ outer.maxLon :=
    ⟨by linarith, by linarith⟩
  simp only [Region.subRegions, List.mem_cons, List.not_mem_nil, or_false] at hsub
  rcases hsub with rfl | rfl | rfl | rfl
  · exact ⟨⟨h1, h2⟩, hlat, ⟨h5, h6⟩, hlon⟩
  · exact ⟨⟨h1, h2⟩, hlat, hlon, ⟨h7, h8⟩⟩
  · exact ⟨hlat, ⟨h3, h4⟩, hlon, ⟨h7, h8⟩⟩
  · exact ⟨hlat, ⟨h3, h4⟩, ⟨h5, h6⟩, hlon⟩

theorem Region.Spanned.intersects {region outer : Region} (h : region.Spanned outer) :
    QuadTrees.intersects region (.region outer) = true := by
  simp only [QuadTrees.intersects, decide_eq_true_eq, not_or, not_lt, gt_iff_lt]
  exact ⟨h.minLat.2, h.maxLat.1, h.minLon.2, h.maxLon.1⟩

/-- A region over the whole sector, turned around or not. -/
def wholeRegion (sector : Sector) : Region :=
  let region := sectorRegion sector
  ⟨min region.minLat region.maxLat, max region.minLat region.maxLat, min region.minLon region.maxLon,
    max region.minLon region.maxLon⟩

theorem spanned_wholeRegion (sector : Sector) : (sectorRegion sector).Spanned (wholeRegion sector) :=
  ⟨⟨min_le_left _ _, le_max_left _ _⟩, ⟨min_le_right _ _, le_max_right _ _⟩, ⟨min_le_left _ _, le_max_left _ _⟩,
    ⟨min_le_right _ _, le_max_right _ _⟩⟩

namespace BasicQuadTree

section
variable {T : Type*} {item : T} {name : Option String} {itemCoords : ItemCoords} {maxLevel : Nat}

/-- Adding sets bits and clears none. -/
def Grown (tree tree' : BasicQuadTree T) : Prop :=
  tree'.maxLevel = tree.maxLevel ∧ tree'.levelZeroCells = tree.levelZeroCells ∧
    ∀ number, tree.bits number = true → tree'.bits number = true

theorem Grown.refl (tree : BasicQuadTree T) : Grown tree tree := ⟨rfl, rfl, fun _ hbit => hbit⟩

theorem grown_doOperation (tree : BasicQuadTree T) (path : List Nat) (position : Nat) (tree' : BasicQuadTree T)
    (h : Grown tree tree') : Grown tree (left ((doOperation item name path position tree').map Prod.fst)) := by
  have hset : Grown tree (tree'.setBit (computeBitPosition path position)) := by
    refine ⟨h.1, h.2.1, fun number hbit => ?_⟩
    show Function.update tree'.bits _ true number = true
    rw [Function.update_apply, h.2.2 number hbit, ite_self]
  rw [doOperation]
  split
  · exact h
  · split
    · exact hset
    · exact hset

variable (item name itemCoords) in
theorem grown_visit (levels : Nat) {tree tree' : BasicQuadTree T} (cell : Cell) (h : Grown tree tree') :
    Grown tree (left (visit (doOperation item name) itemCoords levels tree' cell)) :=
  testAndDo_preserves (grown_doOperation tree) levels cell.path cell.position cell.region tree' h

variable (item name itemCoords) in
theorem grown_foldlM (levels : Nat) (cells : List Cell) {tree tree' : BasicQuadTree T} (h : Grown tree tree') :
    Grown tree (left (cells.foldlM (visit (doOperation item name) itemCoords levels) tree')) :=
  foldlM_preserves cells (fun _ cell _ hs => grown_visit item name itemCoords levels cell hs) tree' h

/-! ### A search through the cells of an `add` that threw -/

variable {bits : Int → Bool}

theorem foldlM_find_throws {levels : Nat} {cells : List Cell}
    (h : ∀ cell ∈ cells, ∀ tree tree' : BasicQuadTree T, tree.maxLevel = maxLevel →
      visit (doOperation item name) itemCoords levels tree cell = .error tree' →
        (∀ number, tree'.bits number = true → bits number = true) →
          ∀ ids, ∃ e, visit (findDoOperation bits maxLevel) itemCoords levels ids cell = .error e) :
    ∀ tree tree' : BasicQuadTree T, tree.maxLevel = maxLevel →
      cells.foldlM (visit (doOperation item name) itemCoords levels) tree = .error tree' →
        (∀ number, tree'.bits number = true → bits number = true) →
          ∀ ids, ∃ e, cells.foldlM (visit (findDoOperation bits maxLevel) itemCoords levels) ids = .error e := by
  induction cells with
  | nil =>
    intro tree tree' _ herror
    cases herror
  | cons cell cells ih =>
    intro tree tree' hmaxLevel herror hbits ids
    rw [List.foldlM_cons] at herror
    rw [List.foldlM_cons]
    rcases hfind : visit (findDoOperation bits maxLevel) itemCoords levels ids cell with e | ids'
    · exact ⟨e, rfl⟩
    · rcases hadd : visit (doOperation item name) itemCoords levels tree cell with e | next
      · rw [hadd] at herror
        obtain rfl : e = tree' := Except.error.inj herror
        obtain ⟨e', herror'⟩ := h cell List.mem_cons_self tree e hmaxLevel hadd hbits ids
        rw [hfind] at herror'
        cases herror'
      · rw [hadd] at herror
        have hnext := grown_visit item name itemCoords levels cell (.refl tree)
        rw [hadd] at hnext
        exact ih (fun cell' hcell' => h cell' (List.mem_cons_of_mem _ hcell')) next tree'
          (hnext.1.trans hmaxLevel) herror
          hbits ids'

theorem visit_find_throws {levels : Nat} : ∀ {cell : Cell} {tree tree' : BasicQuadTree T},
    cell.path.length + levels = maxLevel → tree.maxLevel = maxLevel →
      visit (doOperation item name) itemCoords levels tree cell = .error tree' →
        (∀ number, tree'.bits number = true → bits number = true) →
          ∀ ids, ∃ e, visit (findDoOperation bits maxLevel) itemCoords levels ids cell = .error e := by
  induction levels with
  | zero =>
    intro cell tree tree' hlength hmaxLevel herror hbits ids
    rw [visit_zero, doOperation] at herror
    split at herror
    · rename_i hmeets
      by_cases hneg : computeBitPosition cell.path cell.position < 0
      · exact ⟨ids, by rw [visit_zero, if_pos hmeets, findDoOperation, if_pos hneg]; rfl⟩
      · rw [if_neg hneg, if_neg (by omega)] at herror
        cases herror
    · cases herror
  | succ levels ih =>
    intro cell tree tree' hlength hmaxLevel herror hbits ids
    rw [visit_succ, doOperation] at herror
    rw [visit_succ, findDoOperation]
    split at herror
    · rename_i hmeets
      rw [if_pos hmeets]
      by_cases hneg : computeBitPosition cell.path cell.position < 0
      · exact ⟨ids, by rw [if_pos hneg]; rfl⟩
      · rw [if_neg hneg, if_pos (by omega)] at herror
        have hgrown := grown_foldlM item name itemCoords levels cell.children
          (.refl (tree.setBit (computeBitPosition cell.path cell.position)))
        have herror' : cell.children.foldlM (visit (doOperation item name) itemCoords levels)
            (tree.setBit (computeBitPosition cell.path cell.position)) = .error tree' := herror
        rw [herror'] at hgrown
        have hbit := hbits _ (hgrown.2.2 _ (Function.update_self _ _ _))
        rw [if_neg hneg, if_neg (not_not.2 hbit), if_pos (by omega)]
        have hset : (tree.setBit (computeBitPosition cell.path cell.position)).maxLevel = maxLevel := hmaxLevel
        refine foldlM_find_throws (fun child hchild before after hbefore hadd hafter ids =>
          ?_) _ tree' hset herror' hbits
          ids
        exact ih (by rw [Cell.length_child hchild]; omega) hbefore hadd hafter ids
    · cases herror

/-! ### A negative number below a cell -/

/-- The cells that the traversal can reach from a cell. -/
def Reaches : Nat → Cell → Cell → Prop
  | 0, cell, target => target = cell
  | levels + 1, cell, target => target = cell ∨ ∃ child ∈ cell.children, Reaches levels child target

theorem exists_reaches (positions : List Nat) : ∀ (levels : Nat) (cell : Cell), (∀ p ∈ positions, p < 4) →
    positions.length ≤ levels → ∃ target, Reaches levels cell target ∧
      target.address = cell.address ++ positions := by
  induction positions with
  | nil =>
    intro levels cell _ _
    refine ⟨cell, ?_, (List.append_nil _).symm⟩
    cases levels with
    | zero => rfl
    | succ levels => exact .inl rfl
  | cons p positions ih =>
    intro levels cell hlt hlength
    obtain ⟨levels, rfl⟩ : ∃ n, levels = n + 1 := ⟨levels - 1, by rw [List.length_cons] at hlength; omega⟩
    obtain ⟨child, hchild, hposition⟩ : ∃ child ∈ cell.children, child.position = p := by
      have hp := hlt p List.mem_cons_self
      have hchildren : cell.children = cellsOf cell.address cell.region.subRegions := rfl
      rw [hchildren, Region.subRegions]
      interval_cases p <;> simp [cellsOf]
    obtain ⟨target, hreaches, haddress⟩ := ih levels child (fun q hq => hlt q (List.mem_cons_of_mem _ hq))
      (by rw [List.length_cons] at hlength; omega)
    refine ⟨target, .inr ⟨child, hchild, hreaches⟩, ?_⟩
    have hchildAddress : child.address = cell.address ++ [p] := by
      rw [Cell.address, (Cell.mem_children hchild).1, hposition]
    rw [haddress, hchildAddress, List.append_assoc]
    rfl

theorem foldlM_add_throws {levels : Nat} {cells : List Cell} {cell : Cell} (hcell : cell ∈ cells)
    (h : ∀ tree : BasicQuadTree T, tree.maxLevel = maxLevel →
      ∃ tree', visit (doOperation item name) itemCoords levels tree cell = .error tree') :
    ∀ tree : BasicQuadTree T, tree.maxLevel = maxLevel →
      ∃ tree', cells.foldlM (visit (doOperation item name) itemCoords levels) tree = .error tree' := by
  induction cells with
  | nil => cases hcell
  | cons first cells ih =>
    intro tree hmaxLevel
    rw [List.foldlM_cons]
    rcases hadd : visit (doOperation item name) itemCoords levels tree first with e | next
    · exact ⟨e, rfl⟩
    · have hnext := grown_visit item name itemCoords levels first (.refl tree)
      rw [hadd] at hnext
      rcases List.mem_cons.1 hcell with rfl | hcell
      · obtain ⟨tree', herror⟩ := h tree hmaxLevel
        rw [hadd] at herror
        cases herror
      · exact ih hcell next (hnext.1.trans hmaxLevel)

/-- An item over all cells cannot be added if one of them has a negative
number. -/
theorem visit_add_throws {outer : Region} {target : Cell} (hneg : target.number < 0) {levels : Nat} :
    ∀ {cell : Cell}, cell.region.Spanned outer → cell.path.length + levels = maxLevel → Reaches levels cell target →
      ∀ tree : BasicQuadTree T, tree.maxLevel = maxLevel →
        ∃ tree', visit (doOperation item name) (.region outer) levels tree cell = .error tree' := by
  induction levels with
  | zero =>
    rintro cell hspanned - rfl tree -
    exact ⟨tree, by rw [visit_zero, if_pos hspanned.intersects, doOperation]; exact congrArg _ (if_pos hneg)⟩
  | succ levels ih =>
    intro cell hspanned hlength hreaches tree hmaxLevel
    rw [visit_succ, if_pos hspanned.intersects, doOperation]
    by_cases hcell : computeBitPosition cell.path cell.position < 0
    · exact ⟨tree, by rw [if_pos hcell]; rfl⟩
    · rcases hreaches with rfl | ⟨child, hchild, hreaches⟩
      · exact absurd hneg hcell
      · rw [if_neg hcell, if_pos (by omega)]
        refine foldlM_add_throws hchild
          (ih (hspanned.subRegion (Cell.mem_children hchild).2.2) ?_ hreaches) _ hmaxLevel
        rw [Cell.length_child hchild]
        omega

end

end BasicQuadTree

section
variable {T : Type*} [DecidableEq T]

/-- A tree whose cell has a negative number cannot find what covers it all. -/
theorem query_throws {maxLevel : Nat} {sector : Sector} (item : T) {cell target : Cell}
    (hcell : cell ∈ cellsOf [] (makeLevelZeroCells sector)) (hreaches : BasicQuadTree.Reaches maxLevel cell target)
    (hneg : target.number < 0) :
    (exec (.new maxLevel sector) (.add item (.region (wholeRegion sector)) none)).getItemsIn
      (.region (wholeRegion sector)) = none := by
  obtain ⟨hpath, -, hregion⟩ := mem_cellsOf hcell
  have hspanned : cell.region.Spanned (wholeRegion sector) := (spanned_wholeRegion sector).subRegion hregion
  have hlength : ∀ cell ∈ cellsOf [] (makeLevelZeroCells sector), cell.path.length + maxLevel = maxLevel := by
    intro cell hcell
    rw [(mem_cellsOf hcell).1, List.length_nil, Nat.zero_add]
  obtain ⟨tree, hadd⟩ : ∃ tree, (cellsOf [] (makeLevelZeroCells sector)).foldlM
      (visit (BasicQuadTree.doOperation item none) (.region (wholeRegion sector)) maxLevel)
      (BasicQuadTree.new maxLevel sector) = .error tree :=
    BasicQuadTree.foldlM_add_throws hcell
      (BasicQuadTree.visit_add_throws hneg hspanned (hlength cell hcell) hreaches) _ rfl
  have hexec : exec (.new maxLevel sector) (.add item (.region (wholeRegion sector)) none) = tree := by
    rw [exec, BasicQuadTree.addItem, testLevelZero_eq]
    exact congrArg left hadd
  have hgrown := BasicQuadTree.grown_foldlM item none (.region (wholeRegion sector)) maxLevel
    (cellsOf [] (makeLevelZeroCells sector)) (.refl (BasicQuadTree.new maxLevel sector))
  rw [hadd] at hgrown
  obtain ⟨hmaxLevel, hcells, -⟩ := hgrown
  obtain ⟨e, herror⟩ := @BasicQuadTree.foldlM_find_throws T item none
      (.region (wholeRegion sector)) maxLevel tree.bits
    maxLevel _ (fun cell hcell before after hbefore herror hbits ids =>
      BasicQuadTree.visit_find_throws (hlength cell hcell) hbefore herror hbits ids) _ tree rfl hadd
        (fun _ hbit => hbit) []
  have htree : tree.maxLevel = maxLevel ∧ tree.levelZeroCells = makeLevelZeroCells sector := ⟨hmaxLevel, hcells⟩
  rw [hexec, BasicQuadTree.getItemsIn, testLevelZero_eq, htree.1, htree.2, herror]

/-- In a tree of sixteen levels or more a cell has a negative number. -/
theorem exists_negative {maxLevel : Nat} (h : 15 ≤ maxLevel) (sector : Sector) :
    ∃ cell ∈ cellsOf [] (makeLevelZeroCells sector), ∃ target, BasicQuadTree.Reaches maxLevel cell target ∧
      target.number < 0 := by
  have htop : ∀ i < 4, ∃ cell ∈ cellsOf [] (makeLevelZeroCells sector), cell.address = [i] := by
    intro i hi
    rw [makeLevelZeroCells, Region.subRegions]
    interval_cases i <;> simp [cellsOf, Cell.address]
  have hnumber : ∀ (target : Cell) (path : List Nat) (position : Nat), target.address = path ++ [position] →
      target.number = int (place path position + levelSizes path.length) := by
    intro target path position haddress
    obtain ⟨hpath, hposition⟩ := List.append_inj' haddress rfl
    rw [Cell.number, hpath, (List.cons.inj hposition).1, computeBitPosition_eq]
  rcases Nat.lt_or_ge 15 maxLevel with hdeep | hdeep
  · -- the size of level sixteen is capped at the largest int
    obtain ⟨cell, hcell, hcellAddress⟩ := htop 0 (by decide)
    obtain ⟨target, hreaches, haddress⟩ := BasicQuadTree.exists_reaches (List.replicate 15 0 ++ [1]) maxLevel cell
      (by decide) (by rw [List.length_append, List.length_replicate, List.length_singleton]; omega)
    rw [hcellAddress] at haddress
    refine ⟨cell, hcell, target, hreaches, ?_⟩
    have hplace : place (List.replicate 16 0) 1 = 1 := by decide
    have hsize : levelSizes (List.replicate 16 0).length = 2 ^ 31 - 1 := levelSizes_deep (by decide)
    rw [hnumber target (List.replicate 16 0) 1 haddress, hplace, hsize]
    exact int_overflow (by norm_num) (by norm_num)
  · obtain ⟨cell, hcell, hcellAddress⟩ := htop 1 (by decide)
    obtain ⟨target, hreaches, haddress⟩ :=
        BasicQuadTree.exists_reaches (List.replicate 15 0) maxLevel cell (by decide)
      (by rw [List.length_replicate]; omega)
    rw [hcellAddress] at haddress
    refine ⟨cell, hcell, target, hreaches, ?_⟩
    have hplace : place (1 :: List.replicate 14 0) 0 = 4 ^ 15 := by decide
    have hsize : 3 * levelSizes 15 = 4 ^ (15 + 1) - 4 := three_mul_levelSizes 15 le_rfl
    have hlength : (1 :: List.replicate 14 0).length = 15 := rfl
    rw [hnumber target (1 :: List.replicate 14 0) 0 haddress, hplace, hlength]
    exact int_overflow (by norm_num; omega) (by norm_num; omega)

/-! ### A sector that is turned around -/

/-- The south-west leaf of a cell that is turned around reaches past its
maximum. -/
theorem exists_turned {outer : Region} (levels : Nat) : ∀ cell : Cell, cell.region.Spanned outer →
    ∃ leaf ∈ cell.leaves levels, leaf.region.Spanned outer ∧
      (cell.region.maxLat < cell.region.minLat → leaf.region.minLat = cell.region.minLat ∧
        cell.region.maxLat ≤ leaf.region.maxLat ∧ (levels ≠ 0 → cell.region.maxLat < leaf.region.maxLat)) ∧
      (cell.region.maxLon < cell.region.minLon → leaf.region.minLon = cell.region.minLon ∧
        cell.region.maxLon ≤ leaf.region.maxLon ∧ (levels ≠ 0 → cell.region.maxLon < leaf.region.maxLon)) := by
  induction levels with
  | zero =>
    intro cell hspanned
    exact ⟨cell, List.mem_singleton_self _, hspanned, fun _ => ⟨rfl, le_rfl, fun h => absurd rfl h⟩,
      fun _ => ⟨rfl, le_rfl, fun h => absurd rfl h⟩⟩
  | succ levels ih =>
    intro cell hspanned
    have hchild : ⟨cell.address, 0,
        ⟨cell.region.minLat, (cell.region.maxLat + cell.region.minLat) / 2, cell.region.minLon,
        (cell.region.maxLon + cell.region.minLon) / 2⟩⟩ ∈ cell.children := List.mem_cons_self
    obtain ⟨leaf, hleaf, hleafSpanned, hlat, hlon⟩ := ih _ (hspanned.subRegion (Cell.mem_children hchild).2.2)
    refine ⟨leaf, List.mem_flatMap.2 ⟨_, hchild, hleaf⟩, hleafSpanned, fun hturned => ?_, fun hturned => ?_⟩
    · have hmid : cell.region.maxLat < (cell.region.maxLat + cell.region.minLat) / 2 := by linarith
      obtain ⟨hmin, hmax, -⟩ := hlat (by simp only; linarith)
      exact ⟨hmin, hmid.le.trans hmax, fun _ => hmid.trans_le hmax⟩
    · have hmid : cell.region.maxLon < (cell.region.maxLon + cell.region.minLon) / 2 := by linarith
      obtain ⟨hmin, hmax, -⟩ := hlon (by simp only; linarith)
      exact ⟨hmin, hmid.le.trans hmax, fun _ => hmid.trans_le hmax⟩

omit [DecidableEq T] in
/-- A search that meets no cell of level zero finds nothing. -/
theorem query_missing {tree : BasicQuadTree T} {testCoords : ItemCoords}
    (h : ∀ region ∈ tree.levelZeroCells, intersects region testCoords = false) :
    tree.getItemsIn testCoords = some [] := by
  have hvisit : ∀ levels ids, ∀ cell ∈ cellsOf [] tree.levelZeroCells,
      visit (BasicQuadTree.findDoOperation tree.bits tree.maxLevel) testCoords levels ids cell = .ok ids := by
    intro levels ids cell hcell
    have hmeets := h cell.region (mem_cellsOf hcell).2.2
    cases levels with
    | zero => rw [visit_zero, if_neg (by rw [hmeets]; decide)]
    | succ levels => rw [visit_succ, if_neg (by rw [hmeets]; decide)]
  have hfold : ∀ cells : List Cell, (∀ cell ∈ cells, cell ∈ cellsOf [] tree.levelZeroCells) →
      cells.foldlM (visit (BasicQuadTree.findDoOperation tree.bits tree.maxLevel) testCoords tree.maxLevel) [] =
        .ok [] := by
    intro cells
    induction cells with
    | nil => exact fun _ => rfl
    | cons cell cells ih =>
      intro hcells
      rw [List.foldlM_cons, hvisit _ _ cell (hcells cell List.mem_cons_self)]
      exact ih fun cell' hcell' => hcells cell' (List.mem_cons_of_mem _ hcell')
  rw [BasicQuadTree.getItemsIn, testLevelZero_eq, hfold _ fun _ hcell => hcell]
  rfl

theorem levelZeroCells_exec (maxLevel : Nat) (sector : Sector) (item : T) (itemCoords : ItemCoords) :
    (exec (.new maxLevel sector) (.add item itemCoords none)).levelZeroCells = makeLevelZeroCells sector := by
  have hgrown := BasicQuadTree.grown_foldlM item none itemCoords maxLevel
    (cellsOf [] (makeLevelZeroCells sector)) (.refl (BasicQuadTree.new maxLevel sector))
  rw [exec, BasicQuadTree.addItem, testLevelZero_eq]
  exact hgrown.2.1

/-- An item over all cells sits in every leaf cell, so a query that meets a leaf
but no cell of level zero is answered wrongly. -/
theorem not_answers_of_leaf {maxLevel : Nat} {sector : Sector} (item : T) {leaf : Cell} {testCoords : ItemCoords}
    (hleaf : leaf ∈ leafCells maxLevel (makeLevelZeroCells sector))
    (hspanned : leaf.region.Spanned (wholeRegion sector))
    (hmeets : intersects leaf.region testCoords = true)
    (hnone : ∀ region ∈ makeLevelZeroCells sector, intersects region testCoords = false) :
    ¬ Answers T maxLevel sector := by
  intro h
  obtain ⟨answer, hanswer, hmem⟩ := h.exact [.add item (.region (wholeRegion sector)) none] testCoords
  have hempty := @query_missing T (exec (.new maxLevel sector)
      (.add item (.region (wholeRegion sector)) none)) testCoords
    (by rw [levelZeroCells_exec]; exact hnone)
  obtain rfl : [] = answer := Option.some.inj (hempty.symm.trans hanswer)
  have hitem : item ∈ (Shelves.empty.exec (leafCells maxLevel (makeLevelZeroCells sector))
      (.add item (.region (wholeRegion sector)) none)).on leaf := by
    rw [Shelves.exec]
    simp only [if_pos hspanned.intersects]
    exact List.mem_append_right _ (List.mem_singleton_self item)
  cases (hmem item).2 ⟨leaf, hleaf, hmeets, hitem⟩

theorem not_answers_of_deep {maxLevel : Nat} (h : 15 ≤ maxLevel) (sector : Sector) (item : T) :
    ¬ Answers T maxLevel sector := by
  intro hanswers
  obtain ⟨cell, hcell, target, hreaches, hneg⟩ := exists_negative h sector
  obtain ⟨answer, hanswer, -⟩ := hanswers.exact [.add item (.region (wholeRegion sector)) none]
    (.region (wholeRegion sector))
  have hnone := query_throws (T := T) item hcell hreaches hneg
  rw [List.foldl_cons, List.foldl_nil, hnone] at hanswer
  cases hanswer

theorem not_answers_of_turned {maxLevel : Nat} (h : maxLevel ≠ 0) {sector : Sector}
    (hturned : ¬ (sectorRegion sector).Ordered) (item : T) : ¬ Answers T maxLevel sector := by
  obtain ⟨cell, hcell, hregion⟩ : ∃ cell ∈ cellsOf [] (makeLevelZeroCells sector), cell.region =
      ⟨(sectorRegion sector).minLat, ((sectorRegion sector).maxLat + (sectorRegion sector).minLat) / 2,
        (sectorRegion sector).minLon, ((sectorRegion sector).maxLon + (sectorRegion sector).minLon) / 2⟩ :=
    ⟨⟨[], 0, _⟩, List.mem_cons_self, rfl⟩
  obtain ⟨leaf, hleaf, hspanned, hlat, hlon⟩ := exists_turned maxLevel cell
    ((spanned_wholeRegion sector).subRegion (mem_cellsOf hcell).2.2)
  rw [hregion] at hlat hlon
  have hmem : leaf ∈ leafCells maxLevel (makeLevelZeroCells sector) := List.mem_flatMap.2 ⟨cell, hcell, hleaf⟩
  obtain ⟨hlonMin, hlonMax⟩ := (⟨hspanned.minLon.2, hspanned.maxLon.1⟩ : _ ∧ _)
  obtain ⟨hlatMin, hlatMax⟩ := (⟨hspanned.minLat.2, hspanned.maxLat.1⟩ : _ ∧ _)
  have hcases : (sectorRegion sector).maxLat < (sectorRegion sector).minLat ∨
      (sectorRegion sector).maxLon < (sectorRegion sector).minLon := by
    by_contra hnot
    rw [not_or, not_lt, not_lt] at hnot
    exact hturned ⟨hnot.1, hnot.2⟩
  rcases hcases with hless | hless
  · obtain ⟨hmin, -, hmax⟩ := hlat (by simp only; linarith)
    have hmax := hmax h
    refine @not_answers_of_leaf T _ _ _ item leaf (.region ⟨leaf.region.maxLat, leaf.region.minLat,
      (wholeRegion sector).minLon, (wholeRegion sector).maxLon⟩) hmem hspanned ?_ fun region hregion => ?_
    · simp only [intersects, decide_eq_true_eq, not_or, not_lt, gt_iff_lt]
      exact ⟨le_rfl, le_rfl, hlonMin, hlonMax⟩
    · have hbelow : region.maxLat < leaf.region.maxLat := by
        simp only [makeLevelZeroCells, Region.subRegions, List.mem_cons, List.not_mem_nil, or_false] at hregion
        simp only [sectorRegion] at hmax hless
        rcases hregion with rfl | rfl | rfl | rfl <;> simp only <;> linarith
      simp only [intersects, decide_eq_false_iff_not, not_not]
      exact .inr (.inl hbelow)
  · obtain ⟨hmin, -, hmax⟩ := hlon (by simp only; linarith)
    have hmax := hmax h
    refine @not_answers_of_leaf T _ _ _ item leaf (.region ⟨(wholeRegion sector).minLat, (wholeRegion sector).maxLat,
      leaf.region.maxLon, leaf.region.minLon⟩) hmem hspanned ?_ fun region hregion => ?_
    · simp only [intersects, decide_eq_true_eq, not_or, not_lt, gt_iff_lt]
      exact ⟨hlatMin, hlatMax, le_rfl, le_rfl⟩
    · have hbelow : region.maxLon < leaf.region.maxLon := by
        simp only [makeLevelZeroCells, Region.subRegions, List.mem_cons, List.not_mem_nil, or_false] at hregion
        simp only [sectorRegion] at hmax hless
        rcases hregion with rfl | rfl | rfl | rfl <;> simp only <;> linarith
      simp only [intersects, decide_eq_false_iff_not, not_not]
      exact .inr (.inr (.inr hbelow))

end

/-- **The queries answer rightly exactly for trees of at most fifteen levels over
a sector that is not turned around.** -/
theorem queries_iff {T : Type*} [DecidableEq T] [Inhabited T] (maxLevel : Nat) (sector : Sector) :
    Answers T maxLevel sector ↔ Numbered maxLevel sector := by
  refine ⟨fun h => ⟨?_, ?_⟩, Numbered.answers⟩
  · by_contra hdeep
    exact not_answers_of_deep (by omega) sector default h
  · by_contra hnot
    rw [not_or] at hnot
    exact not_answers_of_turned hnot.1 hnot.2 default h

/-- A tree of sixteen levels over the sphere. -/
theorem sixteenLevels_unanswered : ¬ Answers Nat 15 fullSphere := not_answers_of_deep le_rfl fullSphere 1

end WorldWind.QuadTrees
