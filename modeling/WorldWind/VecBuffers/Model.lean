import WorldWind.Lib.JavaArray
import WorldWind.Lib.JavaInt
/-!
# `util/VecBufferSequence.java`, `CompoundVecBuffer.java`, `VecBuffer.java`

A sequence holds sub-buffers one behind the other in one backing buffer, and
for each the offset and the length, counted in vectors. A slice has offsets,
lengths and a fill count of its own and the backing buffer of the sequence it
was taken from. So the backing buffers are cells of a heap, and a sequence
knows its buffer by the address.

`γ` is a coordinate as the backing buffer's type stores it. Whether there is
memory for a new buffer is up to the parameter `Memory`. A call that throws
leaves what it has changed until then.
-/

namespace WorldWind.VecBuffers

open Lib.JavaArray Lib.JavaInt

variable {γ : Type} [Inhabited γ]

/-- Which lengths there is memory for. -/
structure Memory where
  coords : Nat → Bool
  ints : Nat → Bool

/-- What a `BufferWrapper` wraps; nothing for the empty wrapper. -/
abbrev Store (γ : Type) := Option (List γ)

def Store.length : Store γ → Nat
  | none => 0
  | some l => l.length

/-- A buffer handed to `append`. `backing` is its address if it wraps the
backing buffer of a sequence. -/
structure VecBuffer (γ : Type) where
  coordsPerVec : Nat
  values : List γ
  backing : Option Nat
  deriving DecidableEq, Repr

def VecBuffer.getSize (b : VecBuffer γ) : Nat := b.values.length / b.coordsPerVec

/-! ## Vectors in a backing buffer -/

section Buffer
variable (coordsPerVec : Nat)

/-- `VecBuffer.getSize` of a buffer of the heap. -/
def getSize (s : Store γ) : Nat := s.length / coordsPerVec

/-- `VecBuffer.getSubBuffer`, read at once. -/
def getSubBuffer (s : Store γ) (position size : Nat) : Option (List γ) :=
  if getSize coordsPerVec s ≤ position then none
  else match s with
    | none => none
    | some l =>
      let index := coordsPerVec * position
      let length := coordsPerVec * size
      if index + length ≤ l.length then some ((l.drop index).take length) else none

/-- `VecBuffer.putSubBuffer` into the buffer at `address`. -/
def putSubBuffer (s : Store γ) (address position : Nat) (buffer : VecBuffer γ) : Option (Store γ) :=
  if getSize coordsPerVec s ≤ position then none
  else if coordsPerVec ≠ buffer.coordsPerVec then none
  else if getSize coordsPerVec s < int (position + buffer.getSize) then none
  else if buffer.backing = some address then none
  else match s with
    | none => none
    | some l =>
      let index := coordsPerVec * position
      let length := coordsPerVec * buffer.getSize
      if length ≤ 0 then some s
      else if index + length ≤ l.length then some (some (blit l index (buffer.values.take length)))
      else none

/-- `VecBuffer.copyOf`. The empty wrapper is copied to an empty wrapper. -/
def copyOf (mem : Memory) (s : Store γ) (newSize : Int) : Option (Store γ) :=
  if newSize < getSize coordsPerVec s then none
  else match s with
    | none => some none
    | some l =>
      let n := int (coordsPerVec * newSize)
      if n < l.length then none
      else if mem.coords n.toNat then some (some (l ++ List.replicate (n.toNat - l.length) default))
      else none

end Buffer

/-! ## Sequences -/

structure VecBufferSequence where
  offsets : List Nat
  lengths : List Nat
  capacity : Nat
  vecCount : Nat
  buffer : Nat
  deriving DecidableEq, Repr

/-- `2 * capacity`, the largest `int` if that wraps, and at least
`minCapacity`. -/
def newCapacity (capacity : Nat) (minCapacity : Int) : Int :=
  let n := int (2 * capacity)
  if n < 0 then 2 ^ 31 - 1 else if n < minCapacity then minCapacity else n

namespace VecBufferSequence

/-- A sequence without sub-buffers. Throws for a capacity below one. -/
def new (buffer : Nat) (capacity : Nat) : Option VecBufferSequence :=
  if capacity < 1 then none else some ⟨[], [], capacity, 0, buffer⟩

def count (v : VecBufferSequence) : Nat := v.offsets.length

/-- `subBuffer(index)`, read at once. -/
def subBuffer (coordsPerVec : Nat) (heap : List (Store γ)) (v : VecBufferSequence) (index : Nat) :
    Option (List γ) :=
  match v.offsets[index]?, v.lengths[index]?, heap[v.buffer]? with
  | some off, some len, some s => if 0 < len then getSubBuffer coordsPerVec s off len else some []
  | _, _, _ => none

/-- `expandCapacity`: new arrays for the offsets and the lengths. -/
def expandCapacity (mem : Memory) (v : VecBufferSequence) (minCapacity : Int) : Option VecBufferSequence :=
  let n := newCapacity v.capacity minCapacity
  if n < v.capacity ∨ ¬ mem.ints n.toNat then none else some { v with capacity := n.toNat }

/-- `addSubBuffer`. The index of the new sub-buffer is the old `count`. -/
def addSubBuffer (mem : Memory) (v : VecBufferSequence) (offset length : Nat) : Option VecBufferSequence :=
  let minCount := int (1 + v.count)
  let expanded := if v.capacity < minCount then v.expandCapacity mem minCount else some v
  expanded.bind fun v =>
    if v.count < v.capacity then
      some { v with offsets := v.offsets ++ [offset], lengths := v.lengths ++ [length] }
    else none

/-- `return this.addSubBuffer(offset, length)`: the heap, the sequence, and the
index unless the call threw. -/
def addLast (mem : Memory) (heap : List (Store γ)) (v : VecBufferSequence) (offset length : Nat) :
    List (Store γ) × VecBufferSequence × Option Nat :=
  (v.addSubBuffer mem offset length).elim (heap, v, none) fun w => (heap, w, some v.count)

/-- The end of `append`, behind the expansion. -/
def put (mem : Memory) (coordsPerVec : Nat) (heap : List (Store γ)) (v : VecBufferSequence) (buffer : VecBuffer γ) :
    List (Store γ) × VecBufferSequence × Option Nat :=
  (heap[v.buffer]?.bind fun s => putSubBuffer coordsPerVec s v.buffer v.vecCount buffer).elim (heap, v, none) fun s =>
    addLast mem (heap.set v.buffer s) { v with vecCount := v.vecCount + buffer.getSize } v.vecCount buffer.getSize

def append (mem : Memory) (coordsPerVec : Nat) (heap : List (Store γ)) (v : VecBufferSequence)
    (buffer : VecBuffer γ) : List (Store γ) × VecBufferSequence × Option Nat :=
  match heap[v.buffer]? with
  | none => (heap, v, none)
  | some s =>
    let minVecCount := int (buffer.getSize + v.vecCount)
    if getSize coordsPerVec s < minVecCount then
      (copyOf coordsPerVec mem s (newCapacity (getSize coordsPerVec s) minVecCount)).elim (heap, v, none) fun t =>
        put mem coordsPerVec (heap ++ [t]) { v with buffer := heap.length } buffer
    else put mem coordsPerVec heap v buffer

/-- `slice(beginIndex, endIndex)`. -/
def slice (mem : Memory) (v : VecBufferSequence) (beginIndex endIndex : Int) : Option VecBufferSequence :=
  if beginIndex < 0 ∨ v.count ≤ beginIndex then none
  else if endIndex < 0 ∨ v.count ≤ endIndex then none
  else if endIndex < beginIndex then none
  else
    let length := (endIndex - beginIndex + 1).toNat
    if mem.ints length then
      some {
        offsets := (v.offsets.drop beginIndex.toNat).take length
        lengths := (v.lengths.drop beginIndex.toNat).take length
        capacity := length
        vecCount := v.vecCount
        buffer := v.buffer }
    else none

/-- The indices the loop `for (i = offset; i < offset + length; i++)` meets. -/
def visited (indices : List Int) (offset length : Int) : List Int :=
  (indices.drop offset.toNat).take (int (offset + length) - offset).toNat

/-- `slice(indices, offset, length)`. Where the loop does not reach, the new
offsets and lengths are 0. -/
def sliceIndices (mem : Memory) (v : VecBufferSequence) (indices : List Int) (offset length : Int) :
    Option VecBufferSequence :=
  if length < 0 ∨ indices.length < length then none
  else if offset < 0 ∨ indices.length < int (offset + length) then none
  else if (visited indices offset length).any fun i => i < 0 ∨ v.count ≤ i then none
  else if mem.ints length.toNat then
    let seen := visited indices offset length
    let pad := List.replicate (length.toNat - seen.length) 0
    some {
      offsets := seen.map (fun i => v.offsets.getD i.toNat 0) ++ pad
      lengths := seen.map (fun i => v.lengths.getD i.toNat 0) ++ pad
      capacity := length.toNat
      vecCount := v.vecCount
      buffer := v.buffer }
  else none

end VecBufferSequence

end WorldWind.VecBuffers
