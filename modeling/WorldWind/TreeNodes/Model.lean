import Mathlib
/-!
# `util/tree/BasicTreeNode.java`, `WWObjectImpl.java`

A forest gives every node its fields. A node listens to property changes of
its children: each event makes it forget its answer and is fired again to its
own listeners (`WWObjectImpl.propertyChange`). A child keeps its listeners in
the order in which they were added, and one listener can be there twice.

A chain of nested calls that is longer than the number of nodes repeats a node
and does not end; the result is `none` (a `StackOverflowError`). The text, the
images and the visibility of a node do not appear, nor do listeners other than
nodes.
-/

namespace WorldWind.TreeNodes

inductive TreeSelected where
  | SELECTED
  | NOT_SELECTED
  | PARTIALLY_SELECTED
  deriving DecidableEq, Repr

/-- `children` is `none` before the first child is added. -/
structure BasicTreeNode (N : Type) where
  parent : Option N
  children : Option (List N)
  selected : Bool
  treeSelected : Option TreeSelected
  listeners : List N
  deriving Repr

abbrev Forest (N : Type) := N → BasicTreeNode N

namespace Forest

variable {N : Type} [DecidableEq N]

def new : Forest N := fun _ => ⟨none, none, false, none, []⟩

def update (s : Forest N) (n : N) (f : BasicTreeNode N → BasicTreeNode N) : Forest N :=
  Function.update s n (f (s n))

def getChildren (s : Forest N) (n : N) : List N := (s n).children.getD []

/-- `this.treeSelected = null`. -/
def forget (s : Forest N) (n : N) : Forest N := s.update n fun x => { x with treeSelected := none }

/-- The listeners of a node are told of a change. Each forgets its answer and
tells its own. -/
def firePropertyChange : Nat → Forest N → N → Option (Forest N)
  | 0, _, _ => none
  | depth + 1, s, n => (s n).listeners.foldlM (fun s l => firePropertyChange depth (s.forget l) l) s

/-! ## Queries -/

/-- The loop over the children, up to the first that differs. -/
def compareChildren (isTreeSelected : Forest N → N → Option (Forest N × TreeSelected)) (selected : TreeSelected) :
    Forest N → List N → Option (Forest N × TreeSelected)
  | s, [] => some (s, selected)
  | s, child :: children =>
    (isTreeSelected s child).bind fun r =>
      if selected ≠ r.2 then some (r.1, .PARTIALLY_SELECTED)
      else compareChildren isTreeSelected selected r.1 children

def computeTreeSelected (isTreeSelected : Forest N → N → Option (Forest N × TreeSelected)) (s : Forest N) (n : N) :
    Option (Forest N × TreeSelected) :=
  compareChildren isTreeSelected (if (s n).selected then .SELECTED else .NOT_SELECTED) s (s.getChildren n)

def isTreeSelected : Nat → Forest N → N → Option (Forest N × TreeSelected)
  | 0, _, _ => none
  | depth + 1, s, n =>
    match (s n).treeSelected with
    | some v => some (s, v)
    | none =>
      (computeTreeSelected (isTreeSelected depth) s n).map fun r =>
        (r.1.update n fun x => { x with treeSelected := some r.2 }, r.2)

/-! ## Changes -/

section Changes
variable [Fintype N]

/-- `this.firePropertyChange(AVKey.TREE_NODE, null, this)`. -/
def fire (s : Forest N) (n : N) : Option (Forest N) := s.firePropertyChange (Fintype.card N) n

def setSelected (s : Forest N) (n : N) (selected : Bool) : Option (Forest N) :=
  let prevSelected := (s n).selected
  let s' := s.update n fun x => { x with selected := selected, treeSelected := none }
  if prevSelected ≠ selected then s'.fire n else some s'

/-- `addChild(int, TreeNode)`. An index past the end throws, and only leaves
the list that was created for the children. -/
def addChildAt (s : Forest N) (n : N) (index : Nat) (child : N) : Option (Forest N) :=
  let children := s.getChildren n
  if children.length < index then some (s.update n fun x => { x with children := some children })
  else
    let s' := s.update n fun x => { x with children := some (children.insertIdx index child), treeSelected := none }
    (s'.update child fun x => { x with parent := some n, listeners := x.listeners ++ [n] }).fire n

def addChild (s : Forest N) (n child : N) : Option (Forest N) := s.addChildAt n (s.getChildren n).length child

/-- `child.setParent(null)` and `child.removePropertyChangeListener(this)`. -/
def leave (s : Forest N) (n child : N) : Forest N :=
  s.update child fun x => { x with parent := none, listeners := x.listeners.erase n }

def removeChild (s : Forest N) (n child : N) : Option (Forest N) :=
  let s' := s.update n fun x => { x with children := x.children.map fun l => l.erase child }
  if (s' child).parent = some n then ((s'.forget n).leave n child).fire n else some s'

def removeAllChildren (s : Forest N) (n : N) : Option (Forest N) :=
  match (s n).children with
  | none | some [] => some s
  | some children =>
    let s' := s.update n fun x => { x with children := some [] }
    ((children.foldl (fun s child => s.leave n child) s').forget n).fire n

inductive Action (N : Type) where
  | addChild (n child : N)
  | addChildAt (n : N) (index : Nat) (child : N)
  | removeChild (n child : N)
  | removeAllChildren (n : N)
  | setSelected (n : N) (selected : Bool)
  | isTreeSelected (n : N)

def act (s : Forest N) : Action N → Option (Forest N)
  | .addChild n child => s.addChild n child
  | .addChildAt n index child => s.addChildAt n index child
  | .removeChild n child => s.removeChild n child
  | .removeAllChildren n => s.removeAllChildren n
  | .setSelected n selected => s.setSelected n selected
  | .isTreeSelected n => (s.isTreeSelected (Fintype.card N) n).map Prod.fst

end Changes

end Forest

end WorldWind.TreeNodes
