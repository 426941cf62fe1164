import WorldWind.Lib.JavaInt
import WorldWind.Lib.Walk
/-!
# `formats/vpf/VPFWingedEdgeTraverser.java`

A ring of a face is walked edge by edge. Each edge names the next edge on its
left and on its right, and which faces lie there. The loop has no bound in the
code, so here it is given a number of passes.

The edge table is an array of `EdgeInfo`. Of an edge only what the traverser
reads is kept.
-/

namespace WorldWind.Vpf

open Lib.JavaInt Lib.Walk

/-- `VPFPrimitiveData.EdgeInfo`. -/
structure EdgeInfo where
  startNode : Int
  endNode : Int
  leftFace : Int
  rightFace : Int
  leftEdge : Int
  rightEdge : Int
  deriving DecidableEq, Repr

inductive Orientation where
  | LEFT
  | RIGHT
  | LEFT_AND_RIGHT
  deriving DecidableEq, Repr

/-- `VPFBufferedRecordData.indexFromId`. -/
def indexFromId (rowId : Int) : Int := rowId - 1

/-- None where the index is outside of the array. -/
def getEdgeInfo (edgeInfo : List EdgeInfo) (id : Int) : Option EdgeInfo :=
  if indexFromId id < 0 then none else edgeInfo[(indexFromId id).toNat]?

/-- The inner none is `null`. -/
def getOrientation (faceId edgeId : Int) (edgeInfo : List EdgeInfo) : Option (Option Orientation) :=
  (getEdgeInfo edgeInfo edgeId).map fun thisInfo =>
    if thisInfo.leftFace = faceId ∧ thisInfo.rightFace = faceId then some .LEFT_AND_RIGHT
    else if thisInfo.leftFace = faceId then some .LEFT
    else if thisInfo.rightFace = faceId then some .RIGHT
    else none

/-- The edge behind an auxiliary edge that is entered from `prevInfo`. -/
def edgeBehind (prevInfo curInfo : EdgeInfo) (curEdgeId : Int) : Int :=
  -- previous edge is adjacent to starting node
  if curInfo.startNode = prevInfo.startNode ∨ curInfo.startNode = prevInfo.endNode then
    if curInfo.rightEdge ≠ curEdgeId then curInfo.rightEdge else curInfo.leftEdge
  -- previous edge is adjacent to ending node
  else if curInfo.endNode = prevInfo.startNode ∨ curInfo.endNode = prevInfo.endNode then
    if curInfo.leftEdge ≠ curEdgeId then curInfo.leftEdge else curInfo.rightEdge
  else -1

def auxiliaryNextEdgeId (prevEdgeId curEdgeId : Int) (edgeInfo : List EdgeInfo) : Option Int :=
  (getEdgeInfo edgeInfo prevEdgeId).bind fun prevInfo =>
  (getEdgeInfo edgeInfo curEdgeId).map fun curInfo => edgeBehind prevInfo curInfo curEdgeId

def nextEdgeId (faceId prevEdgeId curEdgeId : Int) (edgeInfo : List EdgeInfo) : Option Int :=
  (getOrientation faceId curEdgeId edgeInfo).bind fun o =>
    match o with
    | none => some (-1)
    | some .LEFT => (getEdgeInfo edgeInfo curEdgeId).map (·.leftEdge)
    | some .RIGHT => (getEdgeInfo edgeInfo curEdgeId).map (·.rightEdge)
    | some .LEFT_AND_RIGHT =>
      if 0 < prevEdgeId then auxiliaryNextEdgeId prevEdgeId curEdgeId edgeInfo else some (-1)

def auxiliaryMustReverseCoordinates (prevEdgeId curEdgeId : Int) (edgeInfo : List EdgeInfo) : Option Bool :=
  (getEdgeInfo edgeInfo prevEdgeId).bind fun prevInfo =>
  (getEdgeInfo edgeInfo curEdgeId).map fun curInfo =>
    curInfo.endNode = prevInfo.startNode ∨ curInfo.endNode = prevInfo.endNode

def getMustReverseCoordinates (faceId prevEdgeId curEdgeId : Int) (edgeInfo : List EdgeInfo) : Option Bool :=
  (getOrientation faceId curEdgeId edgeInfo).bind fun o =>
    match o with
    | none => some false
    | some .LEFT => some true
    | some .RIGHT => some false
    | some .LEFT_AND_RIGHT =>
      if 0 < prevEdgeId then auxiliaryMustReverseCoordinates prevEdgeId curEdgeId edgeInfo else some false

/-! ## The loop -/

/-- A call of `EdgeTraversalListener.nextEdge`. -/
structure EdgeCall where
  index : Int
  primitiveId : Int
  reverseCoordinates : Bool
  deriving DecidableEq, Repr

/-- The edge the loop is at, and the one it came from. -/
structure Place where
  prevEdgeId : Int
  curEdgeId : Int
  deriving DecidableEq, Repr

/-- What the loop has counted and told its listener. -/
structure Progress where
  count : Int
  calls : List EdgeCall
  deriving DecidableEq, Repr

inductive Exception where
  | arrayIndexOutOfBounds
  deriving DecidableEq, Repr

/-- The body of the loop, and where its test leads: none where it ends the loop. -/
def pass (faceId startEdgeId : Int) (edgeInfo : List EdgeInfo) (listening : Bool) (p : Place) (done : Progress) :
    Option (Progress × Option Place) :=
  let called :=
    if listening then
      (getMustReverseCoordinates faceId p.prevEdgeId p.curEdgeId edgeInfo).map fun reverse =>
        done.calls ++ [⟨done.count, p.curEdgeId, reverse⟩]
    else some done.calls
  called.bind fun calls =>
  (nextEdgeId faceId p.prevEdgeId p.curEdgeId edgeInfo).map fun next =>
    (⟨int (done.count + 1), calls⟩, if 0 < next ∧ next ≠ startEdgeId then some ⟨p.curEdgeId, next⟩ else none)

def traverseLoop (faceId startEdgeId : Int) (edgeInfo : List EdgeInfo) (listening : Bool) :
    Nat → Place → Progress → Outcome Exception Progress
  | 0, _, _ => .running
  | passes + 1, p, done =>
    match pass faceId startEdgeId edgeInfo listening p done with
    | none => .thrown .arrayIndexOutOfBounds
    | some (done, none) => .returned done
    | some (done, some p) => traverseLoop faceId startEdgeId edgeInfo listening passes p done

/-- The code returns the count. -/
def traverseRing (passes : Nat) (faceId startEdgeId : Int) (edgeInfo : List EdgeInfo) (listening : Bool) :
    Outcome Exception Progress :=
  traverseLoop faceId startEdgeId edgeInfo listening passes ⟨-1, startEdgeId⟩ ⟨0, []⟩

end WorldWind.Vpf
