import WorldWind.Lib.Runs
import WorldWind.QuadTrees.Model
/-!
# What is left of a removed item

An item sits in the lists of leaf cells and under names. `remove` takes its
first occurrence out of each list and leaves the names; `removeByName` leaves
the other names; `clear` leaves all names. Empty lists stay in the map, so a
tree that has lost its last item says that it has items. A history keeps what
the calls promise exactly if no step meets one of these cases.
-/

namespace WorldWind.QuadTrees

open Lib.Iterators Lib.Runs

/-! ## Traversal -/

section
variable {S : Type*} {doOperation : List Nat → Nat → S → Except S (S × Bool)} {itemCoords : ItemCoords} {P : S → Prop}

theorem foldlM_preserves {α : Type*} {f : S → α → Except S S} (l : List α)
    (hf : ∀ s, ∀ a ∈ l, P s → P (left (f s a))) : ∀ s, P s → P (left (l.foldlM f s)) := by
  induction l with
  | nil =>
    intro s hs
    exact hs
  | cons a l ih =>
    intro s hs
    have hnext := hf s a List.mem_cons_self hs
    rw [List.foldlM_cons]
    rcases h : f s a with e | s'
    · rw [h] at hnext
      exact hnext
    · rw [h] at hnext
      exact ih (fun s a ha => hf s a (List.mem_cons_of_mem _ ha)) s' hnext

/-- What the operation keeps at every cell, the traversal keeps. -/
theorem testAndDo_preserves (hop : ∀ path position s, P s → P (left ((doOperation path position s).map Prod.fst))) :
    ∀ (levels : Nat) (path : List Nat) (position : Nat) (cellRegion : Region) (s : S), P s →
      P (left (testAndDo doOperation itemCoords levels path position cellRegion s)) := by
  intro levels
  induction levels with
  | zero =>
    intro path position cellRegion s hs
    rw [testAndDo]
    split
    · exact hop path position s hs
    · exact hs
  | succ levels ih =>
    intro path position cellRegion s hs
    have hnext := hop path position s hs
    rw [testAndDo]
    split
    · rcases h : doOperation path position s with e | ⟨s', goOn⟩
      · rw [h] at hnext
        exact hnext
      · rw [h] at hnext
        cases goOn
        · exact hnext
        · exact foldlM_preserves _ (fun s _ _ hs => ih _ _ _ s hs) s' hnext
    · exact hs

theorem testLevelZero_preserves
    (hop : ∀ path position s, P s → P (left ((doOperation path position s).map Prod.fst))) (maxLevel : Nat)
    (levelZeroCells : List Region) {s : S} (hs : P s) :
    P (left (testLevelZero doOperation itemCoords maxLevel levelZeroCells s)) :=
  foldlM_preserves _ (fun s _ _ h => testAndDo_preserves hop _ _ _ _ s h) s hs

end

namespace BasicQuadTree

variable {T : Type*} (tree : BasicQuadTree T)

/-! ## The iterator -/

/-- All items, those of one list after those of another. -/
def contents : List T := tree.items.flatMap Prod.snd

/-- What the iterator has still to give. -/
def TreeIterator.rest (it : TreeIterator T) : List T :=
    it.nextItem.toList ++ it.listIterator ++ it.mapIterator.flatten

theorem nextList_rest (mapIterator : List (List T)) :
    (nextList mapIterator).rest = mapIterator.flatten ∧
      ((nextList mapIterator).nextItem = none → mapIterator.flatten = []) := by
  induction mapIterator with
  | nil => exact ⟨rfl, fun _ => rfl⟩
  | cons list mapIterator ih =>
    cases list with
    | nil => exact ih
    | cons item listIterator => exact ⟨rfl, by rintro ⟨⟩⟩

theorem moveToNextItem_rest {it : TreeIterator T} (h : it.nextItem = none) :
    (moveToNextItem it).rest = it.rest ∧ ((moveToNextItem it).nextItem = none → it.rest = []) := by
  obtain ⟨mapIterator, listIterator, nextItem⟩ := it
  obtain rfl : nextItem = none := h
  cases listIterator with
  | nil => exact nextList_rest mapIterator
  | cons item listIterator => exact ⟨rfl, by rintro ⟨⟩⟩

theorem hasNext_rest (it : TreeIterator T) :
    (hasNext it).1 = !it.rest.isEmpty ∧ (hasNext it).2.rest = it.rest ∧
      ((hasNext it).2.nextItem = none → it.rest = []) := by
  rw [hasNext]
  rcases h : it.nextItem with _ | item
  · obtain ⟨hrest, hnone⟩ := moveToNextItem_rest h
    rw [if_neg (by simp)]
    refine ⟨?_, hrest, hnone⟩
    rcases hnext : (moveToNextItem it).nextItem with _ | item
    · show (moveToNextItem it).nextItem.isSome = _
      rw [hnone hnext, hnext]
      rfl
    · show (moveToNextItem it).nextItem.isSome = _
      rw [← hrest, TreeIterator.rest, hnext]
      rfl
  · rw [if_pos (show (some item).isSome = true from rfl)]
    refine ⟨?_, rfl, fun hn => absurd (h.symm.trans hn) (by simp)⟩
    rw [TreeIterator.rest, h]
    rfl

theorem iterator_iteratesOver : IteratesOver iteratorCall tree.iterator tree.contents := by
  refine iteratesOver_of_simulation (R := fun it l => it.rest = l) ?_ (by
    rw [TreeIterator.rest, contents, List.flatMap_def]
    rfl)
  rintro it l (_ | _) rfl
  · obtain ⟨hhas, hrest, -⟩ := hasNext_rest it
    exact ⟨by rw [iteratorCall, hhas]; rfl, hrest⟩
  · obtain ⟨-, hrest, hnone⟩ := hasNext_rest it
    rw [iteratorCall, next]
    rcases h : (hasNext it).2.nextItem with _ | item
    · rw [hnone h]
      rw [hnone h] at hrest
      exact ⟨rfl, hrest⟩
    · rw [TreeIterator.rest, h] at hrest
      rw [← hrest]
      exact ⟨rfl, rfl⟩

/-- The iterator can give the item. -/
def Yields (item : T) : Prop := ∃ calls, Answer.element item ∈ answers iteratorCall tree.iterator calls

theorem yields_iff (item : T) : tree.Yields item ↔ item ∈ tree.contents := tree.iterator_iteratesOver.element_iff item

/-! ## Items and names -/

theorem hasItems_iff : tree.hasItems = true ↔ tree.items ≠ [] := by
  simp [hasItems]

/-- `hasItems` is right. -/
def Populated : Prop := tree.hasItems = true ↔ ∃ item, tree.Yields item

theorem populated_iff : tree.Populated ↔ tree.items = [] ∨ ∃ item, item ∈ tree.contents := by
  simp only [Populated, hasItems_iff, yields_iff]
  constructor
  · intro h
    by_cases hempty : tree.items = []
    · exact .inl hempty
    · exact .inr (h.1 hempty)
  · rintro (h | h)
    · simp [contents, h]
    · refine ⟨fun _ => h, fun ⟨item, hmem⟩ hempty => ?_⟩
      simp [contents, hempty] at hmem

/-- Bits are not items. -/
theorem left_clearBits (bitsToClear : List Int) : ∀ tree : BasicQuadTree T,
    (left (tree.clearBits bitsToClear)).items = tree.items ∧
    (left (tree.clearBits bitsToClear)).nameMap = tree.nameMap := by
  induction bitsToClear with
  | nil =>
    intro tree
    exact ⟨rfl, rfl⟩
  | cons bitNum bitsToClear ih =>
    intro tree
    rw [clearBits]
    split
    · exact ⟨rfl, rfl⟩
    · exact ih _

theorem addTo_contents (items : List (Int × List T)) (bitName : Int) (item : T) :
    ∃ other, other ∈ (addTo items bitName item).flatMap Prod.snd := by
  induction items with
  | nil => exact ⟨item, by simp [addTo]⟩
  | cons entry items ih =>
    rw [addTo]
    split
    · exact ⟨item, by simp⟩
    · obtain ⟨other, hmem⟩ := ih
      exact ⟨other, by rw [List.flatMap_cons]; exact List.mem_append_right _ hmem⟩

theorem add_populated {item : T} {itemCoords : ItemCoords} {name : Option String} (h : tree.Populated) :
    (left (tree.addItem item itemCoords name)).Populated := by
  refine testLevelZero_preserves (P := Populated) (fun path position s hs => ?_) _ _ h
  rw [doOperation]
  split
  · exact hs
  · split
    · exact hs
    · exact (populated_iff _).2 (.inr (addTo_contents _ _ _))

section
variable [DecidableEq T]

theorem contains_iff (item : T) : tree.contains item = true ↔ item ∈ tree.contents := by
  simp [contains, contents]

/-- Nothing is left of the item. -/
structure Gone (item : T) : Prop where
  contains : tree.contains item = false
  yields : ¬ tree.Yields item
  names : ∀ name, tree.getByName name ≠ some item

theorem gone_iff (item : T) :
    tree.Gone item ↔ item ∉ tree.contents ∧ ∀ name, tree.getByName name ≠ some item := by
  constructor
  · intro h
    exact ⟨fun hmem => h.yields ((tree.yields_iff item).2 hmem), h.names⟩
  · rintro ⟨hmem, hnames⟩
    refine ⟨?_, fun h => hmem ((tree.yields_iff item).1 h), hnames⟩
    rw [← Bool.not_eq_true, contains_iff]
    exact hmem

/-! ## What the calls do -/

/-- No list has the item twice. -/
def OncePerCell (item : T) : Prop := ∀ entry ∈ tree.items, entry.2.count item ≤ 1

/-- The tree is empty or has another item. -/
def HasOthers (item : T) : Prop := tree.items = [] ∨ ∃ other, other ∈ tree.contents ∧ other ≠ item

theorem mem_removeFrom {item other : T} (h : other ≠ item) :
    other ∈ (removeFrom tree.items item).flatMap Prod.snd ↔ other ∈ tree.contents := by
  simp [removeFrom, contents, List.mem_erase_of_ne h]

theorem item_removeFrom (item : T) :
    item ∉ (removeFrom tree.items item).flatMap Prod.snd ↔ tree.OncePerCell item := by
  have hone : ∀ l : List T, item ∉ l.erase item ↔ l.count item ≤ 1 := by
    intro l
    rw [← List.count_eq_zero, List.count_erase_self]
    omega
  simp [removeFrom, OncePerCell, hone]

/-- Taking an item out of all lists. -/
theorem removed_iff {item : T} {names : String → Option T} {after : BasicQuadTree T}
    (hitems : after.items = removeFrom tree.items item) (hnames : after.nameMap = names) :
    (after.Populated ∧ after.Gone item) ↔
      tree.OncePerCell item ∧ (∀ name, names name ≠ some item) ∧ tree.HasOthers item := by
  have hempty : after.items = [] ↔ tree.items = [] := by
    rw [hitems, removeFrom, List.map_eq_nil_iff]
  have hcontents : after.contents = (removeFrom tree.items item).flatMap Prod.snd := by
    rw [contents, hitems]
  rw [populated_iff, gone_iff, hempty, hcontents, item_removeFrom, HasOthers]
  simp only [getByName, hnames]
  constructor
  · rintro ⟨hpopulated, hone, hnone⟩
    refine ⟨hone, hnone, hpopulated.imp_right ?_⟩
    rintro ⟨other, hmem⟩
    have hne : other ≠ item := by
      rintro rfl
      exact (tree.item_removeFrom other).2 hone hmem
    exact ⟨other, (tree.mem_removeFrom hne).1 hmem, hne⟩
  · rintro ⟨hone, hnone, hothers⟩
    refine ⟨hothers.imp_right ?_, hone, hnone⟩
    rintro ⟨other, hmem, hne⟩
    exact ⟨other, (tree.mem_removeFrom hne).2 hmem⟩

end

end BasicQuadTree

/-! ## Histories -/

section
variable {T : Type*} [DecidableEq T]

/-- What a call promises of the tree before and after it. -/
def Promised (before : BasicQuadTree T) (operation : Operation T) (after : BasicQuadTree T) : Prop :=
  match operation with
  | .add _ _ _ => True
  | .remove item => after.Gone item
  | .removeByName name => ∀ item, before.getByName name = some item → after.Gone item
  | .clear => ∀ name, after.getByName name = none

/-- The step is none of those that leave something. -/
def StepOk (tree : BasicQuadTree T) : Operation T → Prop
  | .add _ _ _ => True
  | .remove item => tree.OncePerCell item ∧ (∀ name, tree.getByName name ≠ some item) ∧ tree.HasOthers item
  | .removeByName name => ∀ item, tree.getByName name = some item →
    tree.OncePerCell item ∧ (∀ other, other ≠ name → tree.getByName other ≠ some item) ∧ tree.HasOthers item
  | .clear => ∀ name, tree.getByName name = none

/-- A tree, and the last call with the tree it was made on. -/
abbrev History (T : Type*) := BasicQuadTree T × Option (BasicQuadTree T × Operation T)

def step (history : History T) (operation : Operation T) : Option (History T) :=
  some (exec history.1 operation, some (history.1, operation))

/-- `hasItems` is right, and the last call has done what it promises. -/
structure Consistent (history : History T) : Prop where
  populated : history.1.Populated
  promised : ∀ before operation, history.2 = some (before, operation) → Promised before operation history.1

theorem exec_iff {tree : BasicQuadTree T} (h : tree.Populated) (operation : Operation T) :
    ((exec tree operation).Populated ∧ Promised tree operation (exec tree operation)) ↔ StepOk tree operation := by
  cases operation with
  | add item itemCoords name => exact ⟨fun _ => trivial, fun _ => ⟨tree.add_populated h, trivial⟩⟩
  | remove item =>
    obtain ⟨hitems, hnames⟩ := BasicQuadTree.left_clearBits
      (((BasicQuadTree.removeFrom tree.items item).filter fun entry => entry.2.isEmpty).map Prod.fst)
      { tree with items := BasicQuadTree.removeFrom tree.items item }
    exact tree.removed_iff hitems hnames
  | removeByName name =>
    rcases hname : tree.getByName name with _ | item
    · have hexec : exec tree (.removeByName name) =
          { tree with nameMap := Function.update tree.nameMap name none } := by
        rw [exec, BasicQuadTree.removeByName, hname]
      rw [hexec]
      refine ⟨fun _ item hitem => ?_, fun _ => ⟨h, fun item hitem => ?_⟩⟩
      · rw [hname] at hitem
        cases hitem
      · rw [hname] at hitem
        cases hitem
    · have hexec : exec tree (.removeByName name) =
          { tree with
            nameMap := Function.update tree.nameMap name none, items :=
              BasicQuadTree.removeFrom tree.items item } := by
        rw [exec, BasicQuadTree.removeByName, hname]
      have hitems : (exec tree (.removeByName name)).items = BasicQuadTree.removeFrom tree.items item := by rw [hexec]
      have hmap : (exec tree (.removeByName name)).nameMap = Function.update tree.nameMap name none := by rw [hexec]
      have hremoved := tree.removed_iff hitems hmap
      have hnames : (∀ other, Function.update tree.nameMap name none other ≠ some item) ↔
          ∀ other, other ≠ name → tree.getByName other ≠ some item := by
        refine forall_congr' fun other => ?_
        by_cases heq : other = name
        · simp [heq]
        · simp [heq, BasicQuadTree.getByName]
      rw [hnames] at hremoved
      simpa only [Promised, StepOk, hname, Option.some.injEq, forall_eq'] using hremoved
  | clear => exact ⟨fun h => h.2, fun hnames => ⟨(BasicQuadTree.populated_iff _).2 (.inl rfl), hnames⟩⟩

/-- **A history keeps its promises exactly if none of its steps leaves something
behind.** -/
theorem history_consistent_iff (maxLevel : Nat) (sector : Geom.Sector) (operations : List (Operation T)) :
    Always step Consistent (BasicQuadTree.new maxLevel sector, none) operations ↔
      Along step (fun history operation => StepOk history.1 operation) (BasicQuadTree.new maxLevel sector, none)
        operations := by
  refine always_iff_along (I := fun _ => True) (fun _ _ _ _ _ _ => trivial)
    (fun history operation _ h => ?_) operations
    trivial ?_
  · rw [← exec_iff h.populated operation]
    constructor
    · rintro ⟨_, heq, hafter⟩
      obtain rfl := Option.some.inj heq
      exact ⟨hafter.populated, hafter.promised _ _ rfl⟩
    · rintro ⟨hpopulated, hpromised⟩
      refine ⟨_, rfl, hpopulated, fun before operation' heq => ?_⟩
      obtain ⟨rfl, rfl⟩ := Prod.mk.inj (Option.some.inj heq)
      exact hpromised
  · exact ⟨(BasicQuadTree.populated_iff _).2 (.inl rfl), fun _ _ heq => by cases heq⟩

/-- The sphere. -/
def fullSphere : Geom.Sector := ⟨⟨-90⟩, ⟨90⟩, ⟨-180⟩, ⟨180⟩⟩

/-- A tree of five levels with one item, under a name. -/
def namedItem : BasicQuadTree Nat := exec (.new 4 fullSphere) (.add 1 (.location 10 20) (some "a"))

/-- The name is left when the item is removed, and the tree says that it has
items. -/
theorem remove_leaves_name :
    ¬ Promised namedItem (.remove 1) (exec namedItem (.remove 1)) ∧ ¬ (exec namedItem (.remove 1)).Populated := by
  constructor
  · intro h
    exact h.names "a" (by decide +kernel)
  · rw [BasicQuadTree.populated_iff]
    rintro (h | ⟨item, hmem⟩)
    · exact absurd h (by decide +kernel)
    · have hempty : (exec namedItem (.remove 1)).contents = [] := by decide +kernel
      rw [hempty] at hmem
      cases hmem

end

end WorldWind.QuadTrees
