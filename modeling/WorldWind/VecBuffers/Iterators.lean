import WorldWind.Lib.Iterators
import WorldWind.VecBuffers.Compound
/-!
# `CompoundVecBuffer.java`, `VecBuffer.java`: iterators

A `VecBuffer` is iterated by a position, forwards from -1 or backwards from its
size. A compound iterator opens the iterator of a sub-buffer when a call comes
and the one before has no element left. It may open several, where sub-buffers
are empty.

`γ` is an element of the backing buffer and `D` a `double`; reading an element
widens it.
-/

namespace WorldWind.VecBuffers

open Lib.Iterators Lib.JavaArray Lib.JavaInt

variable {γ D : Type}

/-! ## Vectors of a buffer -/

section Get
variable (toDouble : γ → D)

/-- `VecBuffer.get`: the array with the coordinates written into it. -/
def VecBuffer.get (b : VecBuffer γ) (position : Int) (array : List D) : Option (List D) :=
  if position < 0 ∨ b.getSize ≤ position then none
  else
    let index := int (b.coordsPerVec * position)
    let length := if array.length > b.coordsPerVec then b.coordsPerVec else array.length
    if length ≤ 0 then some array
    else if 0 ≤ index ∧ index + length ≤ b.values.length then
      some (blit array 0 (((b.values.drop index.toNat).take length).map toDouble))
    else none

variable [Zero D]

/-- `CoordAccessor.getElement`. -/
def getElement (minCoordsPerVec : Int) (b : VecBuffer γ) (position : Int) : Option (List D) :=
  let numCoords := if (b.coordsPerVec : Int) < minCoordsPerVec then minCoordsPerVec else b.coordsPerVec
  b.get toDouble position (List.replicate numCoords.toNat 0)

end Get

/-! ## Iterators of a buffer -/

/-- A `BasicIterator` or a `ReverseIterator`. -/
structure BufferIterator (γ : Type) where
  buffer : VecBuffer γ
  position : Int
  deriving DecidableEq, Repr

section Buffer
variable {α : Type} (accessor : VecBuffer γ → Int → Option α)

/-- What an accessor gives. -/
def elementAt (b : VecBuffer γ) (position : Int) : Answer α := (accessor b position).elim .thrown .element

namespace BasicIterator

def new (b : VecBuffer γ) : BufferIterator γ := ⟨b, -1⟩

def hasNext (it : BufferIterator γ) : Bool := it.position < (it.buffer.getSize : Int) - 1

def next (it : BufferIterator γ) : Answer α × BufferIterator γ :=
  let position := int (it.position + 1)
  (if position < it.buffer.getSize then elementAt accessor it.buffer position else .noSuchElement,
    { it with position })

end BasicIterator

namespace ReverseIterator

def new (b : VecBuffer γ) : BufferIterator γ := ⟨b, b.getSize⟩

def hasNext (it : BufferIterator γ) : Bool := 0 < it.position

def next (it : BufferIterator γ) : Answer α × BufferIterator γ :=
  let position := int (it.position - 1)
  (if 0 ≤ position then elementAt accessor it.buffer position else .noSuchElement, { it with position })

end ReverseIterator

end Buffer

/-! ## Compound iterators -/

/-- The iterators of sub-buffers that a compound iterator uses. -/
structure SubIterators (σ α : Type) where
  iterator : Int → Option σ
  hasNext : σ → Bool
  next : σ → Answer α × σ

structure CompoundIterator (σ : Type) where
  subBuffer : Int
  subIterator : Option σ
  deriving DecidableEq, Repr

namespace CompoundIterator

variable {σ α : Type} (sub : SubIterators σ α)

/-- `this.subIterator == null || !this.subIterator.hasNext()`. -/
def exhausted (s : CompoundIterator σ) : Bool := s.subIterator.elim true fun it => !sub.hasNext it

/-- The loop of `CompoundIterator`, and whether it ended without an exception. -/
def updateSubIterator (subBufferCount : Nat) (s : CompoundIterator σ) : CompoundIterator σ × Bool :=
  if s.subBuffer < subBufferCount ∧ s.exhausted sub then
    match sub.iterator s.subBuffer with
    | none => (s, false)
    | some it => updateSubIterator subBufferCount ⟨s.subBuffer + 1, some it⟩
  else (s, true)
termination_by (subBufferCount - s.subBuffer).toNat

/-- The loop of `ReverseCompoundIterator`. -/
def updateSubIteratorReverse (s : CompoundIterator σ) : CompoundIterator σ × Bool :=
  if 0 ≤ s.subBuffer ∧ s.exhausted sub then
    match sub.iterator s.subBuffer with
    | none => (s, false)
    | some it => updateSubIteratorReverse ⟨s.subBuffer - 1, some it⟩
  else (s, true)
termination_by (s.subBuffer + 1).toNat

/-- `hasNext` and `next`, with the loop of the class. -/
def call (update : CompoundIterator σ → CompoundIterator σ × Bool) (s : CompoundIterator σ) :
    Call → Answer α × CompoundIterator σ
  | .hasNext =>
    let r := update s
    (if r.2 then .has (!r.1.exhausted sub) else .thrown, r.1)
  | .next =>
    let r := update s
    if r.2 then
      match r.1.subIterator with
      | none => (.noSuchElement, r.1)
      | some it =>
        if sub.hasNext it then ((sub.next it).1, { r.1 with subIterator := some (sub.next it).2 })
        else (.noSuchElement, r.1)
    else (.thrown, r.1)

end CompoundIterator

section Coords
variable [Zero D] (toDouble : γ → D) (createSubBuffer : Int → Int → Option (VecBuffer γ)) (coordsPerVec : Nat)
  (minCoordsPerVec : Int) (c : CompoundVecBuffer)

/-- `CoordIterable.iterator`. -/
def coordIterators : SubIterators (BufferIterator γ) (List D) where
  iterator index := (c.subBuffer createSubBuffer coordsPerVec index).map BasicIterator.new
  hasNext := BasicIterator.hasNext
  next := BasicIterator.next (getElement toDouble minCoordsPerVec)

/-- `CoordIterable.reverseIterator`. -/
def coordReverseIterators : SubIterators (BufferIterator γ) (List D) where
  iterator index := (c.subBuffer createSubBuffer coordsPerVec index).map ReverseIterator.new
  hasNext := ReverseIterator.hasNext
  next := ReverseIterator.next (getElement toDouble minCoordsPerVec)

/-- The calls of the iterator of `getCoords(minCoordsPerVec)`. -/
def getCoords : CompoundIterator (BufferIterator γ) → Call → Answer (List D) × CompoundIterator (BufferIterator γ) :=
  let sub := coordIterators toDouble createSubBuffer coordsPerVec minCoordsPerVec c
  CompoundIterator.call sub (CompoundIterator.updateSubIterator sub c.count)

/-- The calls of the iterator of `getReverseCoords(minCoordsPerVec)`. -/
def getReverseCoords :
    CompoundIterator (BufferIterator γ) → Call → Answer (List D) × CompoundIterator (BufferIterator γ) :=
  let sub := coordReverseIterators toDouble createSubBuffer coordsPerVec minCoordsPerVec c
  CompoundIterator.call sub (CompoundIterator.updateSubIteratorReverse sub)

/-- The iterators as they are made. -/
def firstCoords : CompoundIterator (BufferIterator γ) := ⟨0, none⟩

def lastCoords : CompoundIterator (BufferIterator γ) := ⟨c.count - 1, none⟩

end Coords

end WorldWind.VecBuffers
