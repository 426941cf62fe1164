import WorldWind.QuadTrees.Cells
import WorldWind.QuadTrees.Removal
/-!
# What a quadtree finds

The shelves are what the tree is for: every leaf cell has its items, in the
order they were added. A query finds the items on the shelves of the leaf cells
it meets, because a leaf cell with items has its bit set and so have the cells
above it. This needs bit numbers that do not wrap, so at most fifteen levels.
-/

namespace WorldWind.QuadTrees

open Geom Lib.JavaInt

/-- The leaf cells of a tree. -/
def leafCells (maxLevel : Nat) (levelZeroCells : List Region) : List Cell :=
  (cellsOf [] levelZeroCells).flatMap (Cell.leaves maxLevel)

/-! ## The shelves -/

/-- The items of the leaf cells, and the names. -/
structure Shelves (T : Type*) where
  on : Cell → List T
  names : String → Option T

namespace Shelves

variable {T : Type*} [DecidableEq T]

def empty : Shelves T := ⟨fun _ => [], fun _ => none⟩

/-- One of the item taken from every cell. -/
def erase (shelves : Shelves T) (item : T) : Shelves T :=
  { shelves with on := fun cell => (shelves.on cell).erase item }

/-- An item goes to all leaf cells it meets; its name is kept if there are any. -/
def exec (cells : List Cell) (shelves : Shelves T) : Operation T → Shelves T
  | .add item itemCoords itemName =>
    { on := fun cell => if intersects cell.region itemCoords then shelves.on cell ++ [item] else shelves.on cell
      names :=
        if cells.any fun cell =>
          intersects cell.region itemCoords then BasicQuadTree.putName shelves.names item itemName
        else shelves.names }
  | .remove item => shelves.erase item
  | .removeByName name =>
    let rest := { shelves with names := Function.update shelves.names name none }
    match shelves.names name with
    | none => rest
    | some item => rest.erase item
  | .clear => { shelves with on := fun _ => [] }

end Shelves

/-! ## Traversal -/

section
variable {S : Type*} (doOperation : List Nat → Nat → S → Except S (S × Bool)) (itemCoords : ItemCoords)

/-- The traversal from a cell on. -/
def visit (levels : Nat) (s : S) (cell : Cell) : Except S S :=
  testAndDo doOperation itemCoords levels cell.path cell.position cell.region s

theorem visit_zero (s : S) (cell : Cell) : visit doOperation itemCoords 0 s cell =
    if intersects cell.region itemCoords then (doOperation cell.path cell.position s).map Prod.fst else .ok s := by
  rw [visit, testAndDo]

theorem visit_succ (levels : Nat) (s : S) (cell : Cell) : visit doOperation itemCoords (levels + 1) s cell =
    if intersects cell.region itemCoords then
      (doOperation cell.path cell.position s).bind fun answer =>
        if answer.2 then cell.children.foldlM (visit doOperation itemCoords levels) answer.1 else .ok answer.1
    else .ok s := by
  have hfold : ∀ s : S, cell.children.foldlM (visit doOperation itemCoords levels) s =
      cell.region.subRegions.zipIdx.foldlM (fun s entry =>
        testAndDo doOperation itemCoords levels (cell.path ++ [cell.position]) entry.2 entry.1 s) s := fun s => by
    rw [Cell.children, cellsOf, List.foldlM_map]
    rfl
  simp only [hfold]
  rw [visit, testAndDo]

theorem testLevelZero_eq (maxLevel : Nat) (levelZeroCells : List Region) (s : S) :
    testLevelZero doOperation itemCoords maxLevel levelZeroCells s =
      (cellsOf [] levelZeroCells).foldlM (visit doOperation itemCoords maxLevel) s := by
  rw [cellsOf, List.foldlM_map]
  rfl

end

/-- The bits of the cells from one on down to a leaf are set. -/
def LitTo (bits : Int → Bool) : Nat → Cell → Cell → Prop
  | 0, cell, leaf => leaf = cell ∧ bits cell.number = true
  | levels + 1, cell, leaf => bits cell.number = true ∧ ∃ child ∈ cell.children, LitTo bits levels child leaf

theorem LitTo.mono {bits bits' : Int → Bool} (h : ∀ number, bits number = true → bits' number = true) {leaf : Cell}
    {levels : Nat} : ∀ {cell : Cell}, LitTo bits levels cell leaf → LitTo bits' levels cell leaf := by
  induction levels with
  | zero =>
    rintro cell ⟨heq, hbit⟩
    exact ⟨heq, h _ hbit⟩
  | succ levels ih =>
    rintro cell ⟨hbit, child, hchild, hlit⟩
    exact ⟨h _ hbit, child, hchild, ih hlit⟩

/-- Only the bits of cells above the leaves and that of the leaf matter. -/
theorem LitTo.of_bits {bits bits' : Int → Bool} {maxLevel : Nat} {leaf : Cell}
    (habove : ∀ cell : Cell, cell.Ok → cell.path.length < maxLevel → bits cell.number = true →
      bits' cell.number = true)
    (hleaf : bits leaf.number = true → bits' leaf.number = true) {levels : Nat} : ∀ {cell : Cell},
    LitTo bits levels cell leaf → cell.Ok → cell.path.length + levels = maxLevel → LitTo bits' levels cell leaf := by
  induction levels with
  | zero =>
    rintro cell ⟨rfl, hbit⟩ - -
    exact ⟨rfl, hleaf hbit⟩
  | succ levels ih =>
    rintro cell ⟨hbit, child, hchild, hlit⟩ hok hlength
    refine ⟨habove cell hok (by omega) hbit, child, hchild, ih hlit (hok.child hchild) ?_⟩
    rw [Cell.length_child hchild]
    omega

namespace BasicQuadTree

variable {T : Type*}

/-! ## Search -/

/-- The bits a search collects. -/
def found (bits : Int → Bool) (testCoords : ItemCoords) : Nat → Cell → List Int
  | 0, cell => if intersects cell.region testCoords ∧ bits cell.number then [cell.number] else []
  | levels + 1, cell =>
    if intersects cell.region testCoords ∧
      bits cell.number then cell.children.flatMap (found bits testCoords levels) else []

section
variable {bits : Int → Bool} {testCoords : ItemCoords} {maxLevel : Nat}

theorem findDoOperation_eq {cell : Cell} (hok : cell.Ok) (hlevel : cell.path.length ≤ 14) (ids : List Int) :
    findDoOperation bits maxLevel cell.path cell.position ids =
      if bits cell.number then if cell.path.length < maxLevel then .ok (ids, true) else .ok
        (ids ++ [cell.number], false)
      else .ok (ids, false) := by
  rw [findDoOperation, if_neg (not_lt.2 (Placed.nonneg hok hlevel)), ite_not]
  rfl

theorem foldlM_found {levels : Nat} {cells : List Cell}
    (h : ∀ cell ∈ cells, ∀ ids, visit (findDoOperation bits maxLevel) testCoords levels ids cell =
      .ok (ids ++ found bits testCoords levels cell)) : ∀ ids,
    cells.foldlM (visit (findDoOperation bits maxLevel) testCoords levels) ids =
      .ok (ids ++ cells.flatMap (found bits testCoords levels)) := by
  induction cells with
  | nil =>
    intro ids
    simp [pure, Except.pure]
  | cons cell cells ih =>
    intro ids
    rw [List.foldlM_cons, h cell List.mem_cons_self]
    show cells.foldlM _ _ = _
    rw [ih (fun cell hcell => h cell (List.mem_cons_of_mem _ hcell)), List.flatMap_cons, List.append_assoc]

theorem visit_found (hmaxLevel : maxLevel ≤ 14) {levels : Nat} : ∀ {cell : Cell}, cell.Ok →
    cell.path.length + levels = maxLevel → ∀ ids,
      visit (findDoOperation bits maxLevel) testCoords levels ids cell =
        .ok (ids ++ found bits testCoords levels cell) := by
  induction levels with
  | zero =>
    intro cell hok hlength ids
    rw [visit_zero, found, findDoOperation_eq hok (by omega)]
    by_cases hmeets : intersects cell.region testCoords = true
    · by_cases hbit : bits cell.number = true
      · rw [if_pos hmeets, if_pos hbit, if_neg (by omega), if_pos ⟨hmeets, hbit⟩]
        rfl
      · rw [if_pos hmeets, if_neg hbit, if_neg (fun h => hbit h.2), List.append_nil]
        rfl
    · rw [if_neg hmeets, if_neg (fun h => hmeets h.1), List.append_nil]
  | succ levels ih =>
    intro cell hok hlength ids
    rw [visit_succ, found, findDoOperation_eq hok (by omega)]
    by_cases hmeets : intersects cell.region testCoords = true
    · by_cases hbit : bits cell.number = true
      · rw [if_pos hmeets, if_pos hbit, if_pos (by omega), if_pos ⟨hmeets, hbit⟩]
        refine foldlM_found (fun child hchild ids => ih (hok.child hchild) ?_ ids) ids
        rw [Cell.length_child hchild]
        omega
      · rw [if_pos hmeets, if_neg hbit, if_neg (fun h => hbit h.2), List.append_nil]
        rfl
    · rw [if_neg hmeets, if_neg (fun h => hmeets h.1), List.append_nil]

/-- Every bit found is that of a leaf the query meets. -/
theorem leaf_of_mem_found {number : Int} {levels : Nat} : ∀ {cell : Cell},
    number ∈ found bits testCoords levels cell →
    ∃ leaf ∈ cell.leaves levels, leaf.number = number ∧ intersects leaf.region testCoords = true := by
  induction levels with
  | zero =>
    intro cell hnumber
    rw [found] at hnumber
    split at hnumber
    · rename_i hmeets
      exact ⟨cell, List.mem_singleton_self _, (List.mem_singleton.1 hnumber).symm, hmeets.1⟩
    · cases hnumber
  | succ levels ih =>
    intro cell hnumber
    rw [found] at hnumber
    split at hnumber
    · obtain ⟨child, hchild, hnumber⟩ := List.mem_flatMap.1 hnumber
      obtain ⟨leaf, hleaf, hrest⟩ := ih hnumber
      exact ⟨leaf, List.mem_flatMap.2 ⟨child, hchild, hleaf⟩, hrest⟩
    · cases hnumber

/-- A leaf that the query meets is found if the bits on the way are set. -/
theorem mem_found {leaf : Cell} (hmeets : intersects leaf.region testCoords = true) {levels : Nat} : ∀ {cell : Cell},
    levels = 0 ∨ cell.region.Ordered → LitTo bits levels cell leaf →
      leaf ∈ cell.leaves levels ∧ leaf.number ∈ found bits testCoords levels cell := by
  induction levels with
  | zero =>
    rintro cell - ⟨rfl, hbit⟩
    refine ⟨List.mem_singleton_self _, ?_⟩
    rw [found, if_pos ⟨hmeets, hbit⟩]
    exact List.mem_singleton_self _
  | succ levels ih =>
    rintro cell hordered ⟨hbit, child, hchild, hlit⟩
    have hcell := hordered.resolve_left (by omega)
    obtain ⟨hleaf, hnumber⟩ := ih (.inr (Cell.ordered_child hcell hchild).1) hlit
    have hmem : leaf ∈ cell.leaves (levels + 1) := List.mem_flatMap.2 ⟨child, hchild, hleaf⟩
    refine ⟨hmem, ?_⟩
    rw [found, if_pos ⟨Cell.intersects_of_leaf hordered hmem hmeets, hbit⟩]
    exact List.mem_flatMap.2 ⟨child, hchild, hnumber⟩

end

/-! ## Adding -/

def itemsAt (tree : BasicQuadTree T) (number : Int) : List T := (getItems tree.items number).getD []

theorem getItems_addTo (items : List (Int × List T)) (bitName number : Int) (item : T) :
    (getItems (addTo items bitName item) number).getD [] =
      (getItems items number).getD [] ++ if number = bitName then [item] else [] := by
  induction items with
  | nil =>
    by_cases h : number = bitName
    · simp [addTo, getItems, h]
    · simp [addTo, getItems, h, Ne.symm h]
  | cons entry items ih =>
    have hcons : ∀ (entry : Int × List T) items, (getItems (entry :: items) number).getD [] =
        if entry.1 = number then entry.2 else (getItems items number).getD [] := by
      intro entry items
      by_cases h : entry.1 = number <;> simp [getItems, h]
    rw [addTo]
    by_cases hentry : entry.1 = bitName
    · rw [if_pos hentry, hcons, hcons, hentry]
      by_cases hnumber : bitName = number
      · simp [hnumber]
      · simp [hnumber, Ne.symm hnumber]
    · rw [if_neg hentry, hcons, hcons, ih]
      by_cases hnumber : entry.1 = number
      · rw [if_pos hnumber, if_pos hnumber, if_neg (fun h => hentry (hnumber.trans h)), List.append_nil]
      · rw [if_neg hnumber, if_neg hnumber]

theorem getItems_eq {items : List (Int × List T)} (hnodup : (items.map Prod.fst).Nodup) {number : Int} {list : List T}
    (hentry : (number, list) ∈ items) : getItems items number = some list := by
  induction items with
  | nil => cases hentry
  | cons entry items ih =>
    rw [List.map_cons, List.nodup_cons] at hnodup
    rcases List.mem_cons.1 hentry with rfl | hentry
    · simp [getItems]
    · have hne : entry.1 ≠ number := fun heq => hnodup.1 (heq ▸ List.mem_map.2 ⟨_, hentry, rfl⟩)
      have hrest := ih hnodup.2 hentry
      simpa [getItems, hne] using hrest

theorem keys_addTo (items : List (Int × List T)) (bitName : Int) (item : T) :
    (addTo items bitName item).map Prod.fst =
      if bitName ∈ items.map Prod.fst then items.map Prod.fst else items.map Prod.fst ++ [bitName] := by
  induction items with
  | nil => simp [addTo]
  | cons entry items ih =>
    rw [addTo]
    by_cases hentry : entry.1 = bitName
    · simp [hentry]
    · rw [if_neg hentry, List.map_cons, ih]
      simp only [List.map_cons, List.mem_cons, Ne.symm hentry, false_or]
      split
      · rfl
      · rfl

/-- The item has been added in the given leaf cells. -/
structure Added (item : T) (name : Option String) (leaves : List Cell) (tree tree' : BasicQuadTree T) : Prop where
  maxLevel : tree'.maxLevel = tree.maxLevel
  levelZeroCells : tree'.levelZeroCells = tree.levelZeroCells
  items : ∀ number, tree'.itemsAt number =
    tree.itemsAt number ++ List.replicate ((leaves.map Cell.number).count number) item
  names : tree'.nameMap = if leaves = [] then tree.nameMap else putName tree.nameMap item name
  bits : ∀ number, tree.bits number = true → tree'.bits number = true
  nodup : (tree.items.map Prod.fst).Nodup → (tree'.items.map Prod.fst).Nodup
  keys : ∀ number ∈ tree'.items.map Prod.fst, number ∈ tree.items.map Prod.fst ∨ number ∈ leaves.map Cell.number

section
variable {item : T} {name : Option String} {tree tree' tree'' : BasicQuadTree T}

theorem putName_putName (nameMap : String → Option T) :
    putName (putName nameMap item name) item name = putName nameMap item name := by
  cases name with
  | none => rfl
  | some name => exact Function.update_idem _ _ _

theorem Added.refl : Added item name [] tree tree :=
  ⟨rfl, rfl, fun _ => by simp, rfl, fun _ h => h, fun h => h, fun _ h => .inl h⟩

theorem Added.trans {leaves leaves' : List Cell} (h : Added item name leaves tree tree')
    (h' : Added item name leaves' tree' tree'') : Added item name (leaves ++ leaves') tree tree'' where
  maxLevel := h'.maxLevel.trans h.maxLevel
  levelZeroCells := h'.levelZeroCells.trans h.levelZeroCells
  items number := by
    rw [h'.items, h.items, List.append_assoc, List.replicate_append_replicate, List.map_append, List.count_append]
  names := by
    rw [h'.names, h.names]
    cases leaves with
    | nil => rfl
    | cons cell leaves =>
      cases leaves' with
      | nil => simp
      | cons cell' leaves' =>
        simp only [List.cons_append, if_neg (List.cons_ne_nil _ _)]
        exact putName_putName _
  bits number hbit := h'.bits number (h.bits number hbit)
  nodup hnodup := h'.nodup (h.nodup hnodup)
  keys number hnumber := by
    rw [List.map_append, List.mem_append, ← or_assoc]
    exact (h'.keys number hnumber).imp_left (h.keys number)

theorem added_setBit (bitNum : Int) : Added item name [] tree (tree.setBit bitNum) where
  maxLevel := rfl
  levelZeroCells := rfl
  items number := by
    rw [List.map_nil, List.count_nil, List.replicate_zero, List.append_nil]
    rfl
  names := rfl
  bits number hbit := by
    show Function.update tree.bits bitNum true number = true
    rw [Function.update_apply, hbit, ite_self]
  nodup hnodup := hnodup
  keys _ hnumber := .inl hnumber

theorem added_putItem (cell : Cell) : Added item name [cell] tree (tree.putItem cell.number item name) where
  maxLevel := rfl
  levelZeroCells := rfl
  items number := by
    have hcount : List.replicate (([cell].map Cell.number).count number) item =
        if number = cell.number then [item] else [] := by
      by_cases h : number = cell.number
      · simp [h]
      · simp [h, Ne.symm h]
    rw [hcount]
    exact getItems_addTo tree.items cell.number number item
  names := rfl
  bits _ hbit := hbit
  nodup hnodup := by
    rw [putItem, keys_addTo]
    split
    · exact hnodup
    · rename_i hnot
      exact List.nodup_append.2 ⟨hnodup, List.nodup_singleton _, fun a ha b hb hab =>
        hnot (List.mem_singleton.1 hb ▸ hab ▸ ha)⟩
  keys number hnumber := by
    rw [putItem, keys_addTo] at hnumber
    split at hnumber
    · exact .inl hnumber
    · exact List.mem_append.1 hnumber

/-- The leaves below a cell that an item meets. -/
def metLeaves (itemCoords : ItemCoords) (levels : Nat) (cell : Cell) : List Cell :=
  (cell.leaves levels).filter fun leaf => intersects leaf.region itemCoords

/-- Adding at some cells, one after the other. -/
structure AddedBelow (item : T) (name : Option String) (itemCoords : ItemCoords) (levels : Nat) (cells : List Cell)
    (tree tree' : BasicQuadTree T) : Prop extends
    Added item name (cells.flatMap (metLeaves itemCoords levels)) tree tree' where
  lit : ∀ cell ∈ cells, ∀ leaf ∈ metLeaves itemCoords levels cell, LitTo tree'.bits levels cell leaf

variable {itemCoords : ItemCoords}

theorem foldlM_added {levels : Nat} {cells : List Cell}
    (h : ∀ cell ∈ cells, ∀ tree' : BasicQuadTree T, tree'.maxLevel = tree.maxLevel →
      ∃ tree'', visit (doOperation item name) itemCoords levels tree' cell = .ok tree'' ∧
        AddedBelow item name itemCoords levels [cell] tree' tree'') :
    ∃ tree', cells.foldlM (visit (doOperation item name) itemCoords levels) tree = .ok tree' ∧
      AddedBelow item name itemCoords levels cells tree tree' := by
  induction cells generalizing tree with
  | nil => exact ⟨tree, rfl, .refl, by simp⟩
  | cons cell cells ih =>
    obtain ⟨tree', hvisit, hadded⟩ := h cell List.mem_cons_self tree rfl
    obtain ⟨tree'', hfold, hrest⟩ := @ih tree' fun cell hcell tree'' hmaxLevel =>
      h cell (List.mem_cons_of_mem _ hcell) tree'' (hmaxLevel.trans hadded.maxLevel)
    refine ⟨tree'', ?_, ?_, ?_⟩
    · rw [List.foldlM_cons, hvisit]
      exact hfold
    · have hboth := hadded.toAdded.trans hrest.toAdded
      rwa [List.flatMap_singleton, ← List.flatMap_cons] at hboth
    · intro cell' hcell' leaf hleaf
      rcases List.mem_cons.1 hcell' with rfl | hcell'
      · exact (hadded.lit _ List.mem_cons_self leaf hleaf).mono hrest.bits
      · exact hrest.lit cell' hcell' leaf hleaf

theorem metLeaves_succ (levels : Nat) (cell : Cell) :
    metLeaves itemCoords (levels + 1) cell = cell.children.flatMap (metLeaves itemCoords levels) := by
  rw [metLeaves, Cell.leaves, List.filter_flatMap]
  rfl

theorem metLeaves_of_not_intersects {levels : Nat} {cell : Cell} (hordered : levels = 0 ∨ cell.region.Ordered)
    (hmeets : ¬ intersects cell.region itemCoords = true) : metLeaves itemCoords levels cell = [] :=
  List.filter_eq_nil_iff.2 fun _ hleaf h => hmeets (Cell.intersects_of_leaf hordered hleaf h)

/-- An item is added in all leaves it meets. -/
theorem visit_added {levels : Nat} : ∀ {cell : Cell} {tree : BasicQuadTree T}, tree.maxLevel ≤ 14 → cell.Ok →
    cell.path.length + levels = tree.maxLevel → levels = 0 ∨ cell.region.Ordered →
      ∃ tree', visit (doOperation item name) itemCoords levels tree cell = .ok tree' ∧
        AddedBelow item name itemCoords levels [cell] tree tree' := by
  induction levels with
  | zero =>
    intro cell tree hmaxLevel hok hlength hordered
    have hnonneg : ¬ computeBitPosition cell.path cell.position < 0 := not_lt.2 (Placed.nonneg hok (by omega))
    rw [visit_zero]
    by_cases hmeets : intersects cell.region itemCoords = true
    · have hmet : metLeaves itemCoords 0 cell =
          [cell] := by rw [metLeaves, Cell.leaves, List.filter_singleton, hmeets]; rfl
      rw [if_pos hmeets, doOperation, if_neg hnonneg, if_neg (by omega)]
      refine ⟨_, rfl, ?_, ?_⟩
      · rw [List.flatMap_singleton, hmet]
        exact (added_setBit cell.number).trans (added_putItem cell)
      · intro cell' hcell' leaf hleaf
        obtain rfl := List.mem_singleton.1 hcell'
        rw [hmet] at hleaf
        exact ⟨List.mem_singleton.1 hleaf, Function.update_self _ _ _⟩
    · have hmet := metLeaves_of_not_intersects hordered hmeets
      rw [if_neg hmeets]
      refine ⟨tree, rfl, ?_, ?_⟩
      · rw [List.flatMap_singleton, hmet]
        exact .refl
      · intro cell' hcell' leaf hleaf
        obtain rfl := List.mem_singleton.1 hcell'
        rw [hmet] at hleaf
        cases hleaf
  | succ levels ih =>
    intro cell tree hmaxLevel hok hlength hordered
    have hnonneg : ¬ computeBitPosition cell.path cell.position < 0 := not_lt.2 (Placed.nonneg hok (by omega))
    have hcell := hordered.resolve_left (by omega)
    rw [visit_succ]
    by_cases hmeets : intersects cell.region itemCoords = true
    · rw [if_pos hmeets, doOperation, if_neg hnonneg, if_pos (by omega)]
      have hstep : ∀ child ∈ cell.children, ∀ tree' : BasicQuadTree T,
          tree'.maxLevel = (tree.setBit cell.number).maxLevel →
            ∃ tree'', visit (doOperation item name) itemCoords levels tree' child = .ok tree'' ∧
              AddedBelow item name itemCoords levels [child] tree' tree'' := by
        intro child hchild tree' htree'
        have hsame : tree'.maxLevel = tree.maxLevel := htree'
        refine ih (hsame ▸ hmaxLevel) (hok.child hchild) ?_ (.inr (Cell.ordered_child hcell hchild).1)
        rw [Cell.length_child hchild, hsame]
        omega
      obtain ⟨tree', hfold, hadded⟩ := foldlM_added hstep
      refine ⟨tree', hfold, ?_, ?_⟩
      · rw [List.flatMap_singleton, metLeaves_succ]
        exact (added_setBit cell.number).trans hadded.toAdded
      · intro cell' hcell' leaf hleaf
        obtain rfl := List.mem_singleton.1 hcell'
        rw [metLeaves_succ] at hleaf
        obtain ⟨child, hchild, hleaf⟩ := List.mem_flatMap.1 hleaf
        exact ⟨hadded.bits _ (Function.update_self _ _ _), child, hchild, hadded.lit child hchild leaf hleaf⟩
    · have hmet := metLeaves_of_not_intersects hordered hmeets
      rw [if_neg hmeets]
      refine ⟨tree, rfl, ?_, ?_⟩
      · rw [List.flatMap_singleton, hmet]
        exact .refl
      · intro cell' hcell' leaf hleaf
        obtain rfl := List.mem_singleton.1 hcell'
        rw [hmet] at hleaf
        cases hleaf

end

/-! ## The tree keeps the shelves -/

theorem left_clearBits_bits (bitsToClear : List Int) : ∀ tree : BasicQuadTree T,
    (left (tree.clearBits bitsToClear)).maxLevel = tree.maxLevel ∧
      (left (tree.clearBits bitsToClear)).levelZeroCells = tree.levelZeroCells ∧
      ∀ number ∉ bitsToClear, (left (tree.clearBits bitsToClear)).bits number = tree.bits number := by
  induction bitsToClear with
  | nil =>
    intro tree
    exact ⟨rfl, rfl, fun _ _ => rfl⟩
  | cons bitNum bitsToClear ih =>
    intro tree
    rw [clearBits]
    split
    · exact ⟨rfl, rfl, fun _ _ => rfl⟩
    · obtain ⟨hmaxLevel, hcells, hbits⟩ := ih { tree with bits := Function.update tree.bits bitNum false }
      refine ⟨hmaxLevel, hcells, fun number hnumber => ?_⟩
      rw [List.mem_cons, not_or] at hnumber
      obtain ⟨hne, hnotMem⟩ := hnumber
      rw [hbits number hnotMem]
      exact Function.update_of_ne hne _ _

/-- A tree with numbers that do not wrap. -/
structure Sound (maxLevel : Nat) (levelZeroCells : List Region) : Prop where
  level : maxLevel ≤ 14
  four : levelZeroCells.length ≤ 4
  ordered : maxLevel = 0 ∨ ∀ region ∈ levelZeroCells, region.Ordered

/-- The tree keeps what is on the shelves. -/
structure Holds (maxLevel : Nat) (levelZeroCells : List Region) (tree : BasicQuadTree T) (shelves : Shelves T) :
    Prop where
  maxLevel_eq : tree.maxLevel = maxLevel
  cells_eq : tree.levelZeroCells = levelZeroCells
  items : ∀ leaf ∈ leafCells maxLevel levelZeroCells, tree.itemsAt leaf.number = shelves.on leaf
  names : tree.nameMap = shelves.names
  lit : ∀ leaf ∈ leafCells maxLevel levelZeroCells, shelves.on leaf ≠ [] →
    ∃ cell ∈ cellsOf [] levelZeroCells, LitTo tree.bits maxLevel cell leaf
  nodup : (tree.items.map Prod.fst).Nodup
  keys : ∀ number ∈ tree.items.map Prod.fst, number ∈ (leafCells maxLevel levelZeroCells).map Cell.number

section
variable {maxLevel : Nat} {levelZeroCells : List Region} (sound : Sound maxLevel levelZeroCells)
include sound

theorem Sound.top {cell : Cell} (h : cell ∈ cellsOf [] levelZeroCells) :
    cell.Ok ∧ cell.path.length + maxLevel = maxLevel ∧ (maxLevel = 0 ∨ cell.region.Ordered) := by
  obtain ⟨hpath, hposition, hregion⟩ := mem_cellsOf h
  refine ⟨⟨by rw [hpath]; simp, hposition.trans_le sound.four⟩, by rw [hpath]; simp, ?_⟩
  exact sound.ordered.imp_right fun hordered => hordered _ hregion

theorem Sound.leaf {leaf : Cell} (h : leaf ∈ leafCells maxLevel levelZeroCells) :
    leaf.Ok ∧ leaf.path.length = maxLevel := by
  obtain ⟨cell, hcell, hleaf⟩ := List.mem_flatMap.1 h
  obtain ⟨hok, hlength, -⟩ := sound.top hcell
  exact ⟨hok.leaf hleaf, (Cell.length_leaf hleaf).1.trans hlength⟩

theorem Sound.nodup_numbers : ((leafCells maxLevel levelZeroCells).map Cell.number).Nodup := by
  have hnodup : ((leafCells maxLevel levelZeroCells).map Cell.address).Nodup :=
    nodup_flatMap_leaves (nodup_leaves maxLevel) [] levelZeroCells
  refine (List.nodup_map_iff_inj_on (List.Nodup.of_map _ hnodup)).2 fun leaf hleaf leaf' hleaf' heq => ?_
  obtain ⟨hok, hlength⟩ := sound.leaf hleaf
  obtain ⟨hok', hlength'⟩ := sound.leaf hleaf'
  have hlevel := sound.level
  obtain ⟨hpath, hposition⟩ := Placed.eq_of_number_eq hok hok' (by omega) (hlength.trans hlength'.symm) heq
  exact List.inj_on_of_nodup_map hnodup hleaf hleaf' (by rw [Cell.address, Cell.address, hpath, hposition])

theorem Sound.eq_of_number_eq {leaf leaf' : Cell} (hleaf : leaf ∈ leafCells maxLevel levelZeroCells)
    (hleaf' : leaf' ∈ leafCells maxLevel levelZeroCells) (heq : leaf.number = leaf'.number) : leaf = leaf' :=
  List.inj_on_of_nodup_map sound.nodup_numbers hleaf hleaf' heq

/-- An item goes once to a leaf cell it meets. -/
theorem Sound.count_met (itemCoords : ItemCoords) {leaf : Cell} (hleaf : leaf ∈ leafCells maxLevel levelZeroCells) :
    (((leafCells maxLevel levelZeroCells).filter fun leaf => intersects leaf.region itemCoords).map Cell.number).count
      leaf.number = if intersects leaf.region itemCoords then 1 else 0 := by
  have hsub : (((leafCells maxLevel levelZeroCells).filter fun leaf => intersects leaf.region itemCoords).map
      Cell.number).Sublist ((leafCells maxLevel levelZeroCells).map Cell.number) :=
        List.filter_sublist.map Cell.number
  have hmem : leaf.number ∈ ((leafCells maxLevel levelZeroCells).filter
      fun leaf => intersects leaf.region itemCoords).map Cell.number ↔ intersects leaf.region itemCoords = true := by
    rw [List.mem_map]
    constructor
    · rintro ⟨leaf', hleaf', heq⟩
      obtain ⟨hleaf', hmeets⟩ := List.mem_filter.1 hleaf'
      exact sound.eq_of_number_eq hleaf' hleaf heq ▸ hmeets
    · exact fun hmeets => ⟨leaf, List.mem_filter.2 ⟨hleaf, hmeets⟩, rfl⟩
  rw [(sound.nodup_numbers.sublist hsub).count]
  simp only [hmem]

/-- **A query finds what is on the shelves of the leaf cells it meets.** -/
theorem holds_query {tree : BasicQuadTree T} {shelves : Shelves T} (h : tree.Holds maxLevel levelZeroCells shelves)
    (testCoords : ItemCoords) : ∃ answer, tree.getItemsIn testCoords = some answer ∧ ∀ item, item ∈ answer ↔
      ∃ leaf ∈ leafCells maxLevel levelZeroCells, intersects leaf.region testCoords = true ∧
        item ∈ shelves.on leaf := by
  have hvisit : ∀ cell ∈ cellsOf [] levelZeroCells, ∀ ids,
      visit (findDoOperation tree.bits maxLevel) testCoords maxLevel ids cell =
        .ok (ids ++ found tree.bits testCoords maxLevel cell) :=
    fun cell hcell ids => visit_found sound.level (sound.top hcell).1 (sound.top hcell).2.1 ids
  have hfold := foldlM_found hvisit []
  refine ⟨_, by rw [getItemsIn, testLevelZero_eq, h.maxLevel_eq, h.cells_eq, hfold], fun item => ?_⟩
  rw [List.nil_append, List.mem_flatMap]
  constructor
  · rintro ⟨number, hnumber, hitem⟩
    obtain ⟨cell, hcell, hnumber⟩ := List.mem_flatMap.1 hnumber
    obtain ⟨leaf, hleaf, rfl, hmeets⟩ := leaf_of_mem_found hnumber
    have hmem : leaf ∈ leafCells maxLevel levelZeroCells := List.mem_flatMap.2 ⟨cell, hcell, hleaf⟩
    refine ⟨leaf, hmem, hmeets, ?_⟩
    rw [← h.items leaf hmem]
    exact hitem
  · rintro ⟨leaf, hleaf, hmeets, hitem⟩
    obtain ⟨cell, hcell, hlit⟩ := h.lit leaf hleaf (List.ne_nil_of_mem hitem)
    refine ⟨leaf.number, List.mem_flatMap.2 ⟨cell, hcell, (mem_found hmeets (sound.top hcell).2.2 hlit).2⟩, ?_⟩
    rw [← h.items leaf hleaf] at hitem
    exact hitem

variable [DecidableEq T]

theorem holds_add {tree : BasicQuadTree T} {shelves : Shelves T} (h : tree.Holds maxLevel levelZeroCells shelves)
    (item : T) (itemCoords : ItemCoords) (name : Option String) :
    (exec tree (.add item itemCoords name)).Holds maxLevel levelZeroCells
      (shelves.exec (leafCells maxLevel levelZeroCells) (.add item itemCoords name)) := by
  have hstep : ∀ cell ∈ cellsOf [] levelZeroCells, ∀ tree' : BasicQuadTree T, tree'.maxLevel = tree.maxLevel →
      ∃ tree'', visit (doOperation item name) itemCoords maxLevel tree' cell = .ok tree'' ∧
        AddedBelow item name itemCoords maxLevel [cell] tree' tree'' := by
    intro cell hcell tree' htree'
    obtain ⟨hok, hlength, hordered⟩ := sound.top hcell
    have hmaxLevel := htree'.trans h.maxLevel_eq
    exact visit_added (hmaxLevel ▸ sound.level) hok (hlength.trans hmaxLevel.symm) hordered
  obtain ⟨tree', hfold, hadded⟩ := foldlM_added hstep
  have hexec : exec tree (.add item itemCoords name) = tree' := by
    rw [exec, addItem, testLevelZero_eq, h.maxLevel_eq, h.cells_eq, hfold]
    rfl
  have hmet : (cellsOf [] levelZeroCells).flatMap (metLeaves itemCoords maxLevel) =
      (leafCells maxLevel levelZeroCells).filter fun leaf => intersects leaf.region itemCoords := by
    rw [leafCells, List.filter_flatMap]
    rfl
  have hadd := hadded.toAdded
  rw [hmet] at hadd
  rw [hexec]
  refine ⟨hadd.maxLevel.trans h.maxLevel_eq, hadd.levelZeroCells.trans h.cells_eq, ?_, ?_, ?_, hadd.nodup h.nodup, ?_⟩
  · intro leaf hleaf
    rw [hadd.items, h.items leaf hleaf, sound.count_met itemCoords hleaf, Shelves.exec]
    by_cases hmeets : intersects leaf.region itemCoords = true
    · simp [hmeets]
    · simp [hmeets]
  · rw [hadd.names, h.names, Shelves.exec]
    simp only [List.filter_eq_nil_iff, List.any_eq_true, Bool.not_eq_true]
    by_cases hany : ∃ leaf ∈ leafCells maxLevel levelZeroCells, intersects leaf.region itemCoords = true
    · rw [if_pos hany, if_neg]
      obtain ⟨leaf, hleaf, hmeets⟩ := hany
      exact fun hnone => absurd hmeets (by rw [hnone leaf hleaf]; decide)
    · rw [if_neg hany, if_pos]
      exact fun leaf hleaf => Bool.eq_false_iff.2 fun hmeets => hany ⟨leaf, hleaf, hmeets⟩
  · intro leaf hleaf hne
    by_cases hmeets : intersects leaf.region itemCoords = true
    · obtain ⟨cell, hcell, hbelow⟩ := List.mem_flatMap.1 hleaf
      exact ⟨cell, hcell, hadded.lit cell hcell leaf (List.mem_filter.2 ⟨hbelow, hmeets⟩)⟩
    · rw [Shelves.exec] at hne
      simp only [if_neg hmeets] at hne
      obtain ⟨cell, hcell, hlit⟩ := h.lit leaf hleaf hne
      exact ⟨cell, hcell, hlit.mono hadd.bits⟩
  · intro number hnumber
    rcases hadd.keys number hnumber with hnumber | hnumber
    · exact h.keys number hnumber
    · exact (List.filter_sublist.map Cell.number).subset hnumber

omit sound in
theorem itemsAt_removeFrom {tree after : BasicQuadTree T} {item : T}
    (hitems : after.items = removeFrom tree.items item)
    (number : Int) : after.itemsAt number = (tree.itemsAt number).erase item := by
  rw [itemsAt, itemsAt, hitems]
  induction tree.items with
  | nil => rfl
  | cons entry items ih =>
    simp only [getItems, removeFrom, List.map_cons, List.find?_cons] at ih ⊢
    by_cases hentry : entry.1 = number
    · simp [hentry]
    · simpa [hentry] using ih

omit sound in
theorem keys_removeFrom (items : List (Int × List T)) (item : T) :
    (removeFrom items item).map Prod.fst = items.map Prod.fst := by
  rw [removeFrom, List.map_map]
  rfl

/-- An item taken from all lists, where only bits of cells without items are
cleared. -/
theorem holds_erase {tree after : BasicQuadTree T} {shelves : Shelves T} {names : String → Option T}
    (h : tree.Holds maxLevel levelZeroCells shelves) {item : T} (hmaxLevel : after.maxLevel = tree.maxLevel)
    (hcells : after.levelZeroCells = tree.levelZeroCells) (hitems : after.items = removeFrom tree.items item)
    (hnames : after.nameMap = names)
    (hbits : ∀ number, (number ∈ tree.items.map Prod.fst → after.itemsAt number ≠ []) →
      after.bits number = tree.bits number) :
    after.Holds maxLevel levelZeroCells ({ shelves with names := names }.erase item) := by
  have hon : ∀ leaf ∈ leafCells maxLevel levelZeroCells, after.itemsAt leaf.number = (shelves.on leaf).erase item :=
    fun leaf hleaf => by rw [itemsAt_removeFrom hitems, h.items leaf hleaf]
  refine ⟨hmaxLevel.trans h.maxLevel_eq, hcells.trans h.cells_eq, hon, hnames, ?_, ?_, ?_⟩
  · intro leaf hleaf hne
    have hnonempty : shelves.on leaf ≠ [] := fun hempty => hne (by
      show (shelves.on leaf).erase item = []
      rw [hempty]
      rfl)
    obtain ⟨cell, hcell, hlit⟩ := h.lit leaf hleaf hnonempty
    obtain ⟨hok, hlength, -⟩ := sound.top hcell
    refine ⟨cell, hcell, LitTo.of_bits ?_ ?_ hlit hok hlength⟩
    · -- the number of a cell that is no leaf is no key
      intro above hok hlevel hbit
      rw [hbits above.number fun hkey => ?_, hbit]
      obtain ⟨leaf', hleaf', heq⟩ := List.mem_map.1 (h.keys _ hkey)
      obtain ⟨hok', hlength'⟩ := sound.leaf hleaf'
      have hlt := Placed.number_lt hok hok' (hlength' ▸ sound.level) (by omega)
      exact absurd heq (ne_of_gt hlt)
    · intro hbit
      rw [hbits leaf.number fun _ => ?_, hbit]
      rw [hon leaf hleaf]
      exact hne
  · rw [hitems, keys_removeFrom]
    exact h.nodup
  · rw [hitems, keys_removeFrom]
    exact h.keys

theorem holds_remove {tree : BasicQuadTree T} {shelves : Shelves T} (h : tree.Holds maxLevel levelZeroCells shelves)
    (item : T) : (exec tree (.remove item)).Holds maxLevel levelZeroCells (shelves.erase item) := by
  have hitems := left_clearBits (((removeFrom tree.items item).filter fun entry => entry.2.isEmpty).map Prod.fst)
    { tree with items := removeFrom tree.items item }
  have hbits := left_clearBits_bits (((removeFrom tree.items item).filter fun entry => entry.2.isEmpty).map Prod.fst)
    { tree with items := removeFrom tree.items item }
  refine holds_erase sound h hbits.1 hbits.2.1 hitems.1 (hitems.2.trans h.names) fun number hnumber =>
    hbits.2.2 number ?_
  intro hcleared
  obtain ⟨⟨number, list⟩, hentry, rfl⟩ := List.mem_map.1 hcleared
  obtain ⟨hentry, hempty⟩ := List.mem_filter.1 hentry
  have hkey : number ∈ tree.items.map Prod.fst := by
    rw [← keys_removeFrom tree.items item]
    exact List.mem_map.2 ⟨_, hentry, rfl⟩
  refine hnumber hkey ?_
  have hnodup : ((removeFrom tree.items item).map Prod.fst).Nodup := by
    rw [keys_removeFrom]
    exact h.nodup
  have hlist : getItems (removeFrom tree.items item) number = some list := getItems_eq hnodup hentry
  have hleft : (exec tree (.remove item)).items = removeFrom tree.items item := hitems.1
  rw [itemsAt, hleft, hlist]
  exact List.isEmpty_iff.1 hempty

theorem holds_exec {tree : BasicQuadTree T} {shelves : Shelves T} (h : tree.Holds maxLevel levelZeroCells shelves)
    (operation : Operation T) : (exec tree operation).Holds maxLevel levelZeroCells
      (shelves.exec (leafCells maxLevel levelZeroCells) operation) := by
  cases operation with
  | add item itemCoords name => exact holds_add sound h item itemCoords name
  | remove item => exact holds_remove sound h item
  | removeByName name =>
    have hname : tree.getByName name = shelves.names name := by rw [getByName, h.names]
    have hmap : Function.update tree.nameMap name none = Function.update shelves.names name none := by rw [h.names]
    rw [exec, removeByName, Shelves.exec, hname]
    cases shelves.names name with
    | none => exact ⟨h.maxLevel_eq, h.cells_eq, h.items, hmap, h.lit, h.nodup, h.keys⟩
    | some item => exact holds_erase sound h rfl rfl rfl hmap fun _ _ => rfl
  | clear =>
    refine ⟨h.maxLevel_eq, h.cells_eq, fun _ _ => rfl, h.names, fun _ _ hne => absurd rfl hne, List.nodup_nil, ?_⟩
    intro number hnumber
    cases hnumber

end

end BasicQuadTree

end WorldWind.QuadTrees
