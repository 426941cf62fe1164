import WorldWind.Lib.Nio
import WorldWind.VecBuffers.Model
/-!
# `util/CompoundVecBuffer.java`, `VecBufferBlocks.java`

A compound buffer keeps the offsets and the lengths of its sub-buffers in two
int buffers that are larger than the number of sub-buffers. How a sub-buffer is
made of an offset and a length is up to the subclass. `VecBufferBlocks` counts
both in bytes of one `ByteBuffer`: to make a sub-buffer it moves the limit and
the position of that buffer, wraps what is between them, and moves them back.

A call that throws leaves what it has changed until then.
-/

namespace WorldWind.VecBuffers

open Lib Lib.JavaArray Lib.JavaInt Lib.Nio

/-- `WWBufferUtil.newIntBuffer`, over a direct buffer of bytes. -/
def newIntBuffer (mem : Memory) (size : Int) : Option (List Int) :=
  if size < 0 then none
  else
    let bytes := int (4 * size)
    if bytes < 0 ∨ ¬ mem.ints (bytes / 4).toNat then none else some (List.replicate (bytes / 4).toNat 0)

/-- `WWBufferUtil.copyOf`. -/
def copyOfInts (mem : Memory) (buffer : List Int) (newSize : Int) : Option (List Int) :=
  if newSize < 0 ∨ newSize < buffer.length then none
  else (newIntBuffer mem newSize).bind fun newBuffer =>
    if buffer.length ≤ newBuffer.length then some (blit newBuffer 0 buffer) else none

structure CompoundVecBuffer where
  count : Nat
  capacity : Nat
  offsets : List Int
  lengths : List Int
  deriving DecidableEq, Repr

namespace CompoundVecBuffer

/-- New int buffers of a capacity, one after the other. Whether both are there. -/
def copyTo (mem : Memory) (c : CompoundVecBuffer) (newCapacity : Int) : CompoundVecBuffer × Bool :=
  match copyOfInts mem c.offsets newCapacity with
  | none => (c, false)
  | some offsets =>
    match copyOfInts mem c.lengths newCapacity with
    | none => ({ c with offsets }, false)
    | some lengths => ({ c with offsets, lengths, capacity := newCapacity.toNat }, true)

def expandCapacity (mem : Memory) (c : CompoundVecBuffer) (minCapacity : Int) : CompoundVecBuffer × Bool :=
  c.copyTo mem (newCapacity c.capacity minCapacity)

/-- The expansion in `addSubBuffer`. -/
def makeRoom (mem : Memory) (c : CompoundVecBuffer) (minCount : Int) : CompoundVecBuffer × Bool :=
  if c.capacity < minCount then c.expandCapacity mem minCount else (c, true)

/-- The two puts of `addSubBuffer`. -/
def putLast (c : CompoundVecBuffer) (offset length : Int) : CompoundVecBuffer × Option Nat :=
  if c.offsets.length ≤ c.count then (c, none)
  else
    let d := { c with offsets := c.offsets.set c.count offset }
    if d.lengths.length ≤ c.count then (d, none)
    else ({ d with lengths := d.lengths.set c.count length, count := c.count + 1 }, some c.count)

/-- `addSubBuffer` behind the expansion. -/
def putExpanded (expanded : CompoundVecBuffer × Bool) (offset length : Int) : CompoundVecBuffer × Option Nat :=
  if expanded.2 then expanded.1.putLast offset length else (expanded.1, none)

/-- The index of the new sub-buffer. -/
def addSubBuffer (mem : Memory) (c : CompoundVecBuffer) (offset length : Int) : CompoundVecBuffer × Option Nat :=
  putExpanded (c.makeRoom mem (int (1 + c.count))) offset length

/-- The offset and the length of a sub-buffer. Throws for an index out of range. -/
def range (c : CompoundVecBuffer) (index : Int) : Option (Int × Int) :=
  if index < 0 ∨ c.count ≤ index then none
  else
    match c.offsets[index.toNat]?, c.lengths[index.toNat]? with
    | some off, some len => some (off, len)
    | _, _ => none

end CompoundVecBuffer

/-- `new VecBuffer`. Throws for a wrapper that is `null`. -/
def newVecBuffer {γ : Type} (coordsPerVec : Nat) (buffer : Option (List γ)) : Option (VecBuffer γ) :=
  if coordsPerVec < 1 then none else buffer.map fun values => ⟨coordsPerVec, values, none⟩

def emptyVecBuffer {γ : Type} (coordsPerVec : Nat) : Option (VecBuffer γ) := newVecBuffer coordsPerVec (some [])

/-- `subBuffer(index)`, where `createSubBuffer` is the subclass's. -/
def CompoundVecBuffer.subBuffer {γ : Type} (createSubBuffer : Int → Int → Option (VecBuffer γ)) (coordsPerVec : Nat)
    (c : CompoundVecBuffer) (index : Int) : Option (VecBuffer γ) :=
  (c.range index).bind fun r => if 0 < r.2 then createSubBuffer r.1 r.2 else emptyVecBuffer coordsPerVec

/-! ## Blocks of bytes -/

/-- The constants of `AVKey`, and any other string. -/
inductive DataType where
  | INT8
  | INT16
  | INT32
  | FLOAT32
  | FLOAT64
  | other (name : String)
  deriving DecidableEq, Repr

/-- `WWBufferUtil.sizeOfPrimitiveType`. -/
def sizeOfPrimitiveType : DataType → Int
  | .INT8 => 1
  | .INT16 => 2
  | .INT32 => 4
  | .FLOAT32 => 4
  | .FLOAT64 => 8
  | .other _ => -1

/-- `BufferWrapper.wrap`: the elements, each as its bytes. The inner none is
`null`. -/
def wrap (byteBuffer : ByteBuffer) : DataType → Option (List (List Int8))
  | .INT8 => some (records 1 byteBuffer.remaining)
  | .INT16 => some (records 2 byteBuffer.remaining)
  | .INT32 => some (records 4 byteBuffer.remaining)
  | .FLOAT32 => some (records 4 byteBuffer.remaining)
  | .FLOAT64 => some (records 8 byteBuffer.remaining)
  | .other _ => none

structure VecBufferBlocks extends CompoundVecBuffer where
  coordsPerVec : Nat
  dataType : DataType
  buffer : ByteBuffer
  deriving DecidableEq, Repr

namespace VecBufferBlocks

def subBufferSize (b : VecBufferBlocks) (index : Int) : Option Int :=
  (b.range index).map fun r =>
    int ((int (r.2.tdiv (sizeOfPrimitiveType b.dataType))).tdiv b.coordsPerVec)

/-- A call of the superclass on these blocks. -/
def updated (b : VecBufferBlocks) (r : CompoundVecBuffer × Option Nat) : VecBufferBlocks × Option Nat :=
  ({ b with toCompoundVecBuffer := r.1 }, r.2)

/-- The index of the block; the end position is inclusive. -/
def addBlock (mem : Memory) (b : VecBufferBlocks) (beginPos endPos : Int) : VecBufferBlocks × Option Nat :=
  if endPos < 0 ∨ b.buffer.bytes.length < endPos then (b, none)
  else if beginPos < 0 ∨ endPos < beginPos then (b, none)
  else b.updated (b.addSubBuffer mem beginPos (int (endPos - beginPos + 1)))

/-- The body of the try block: the buffer as it leaves it, and its result. -/
def wrapRange (b : VecBufferBlocks) (offsetInBytes lengthInBytes : Int) :
    ByteBuffer × Option (VecBuffer (List Int8)) :=
  match b.buffer.setLimit (int (offsetInBytes + lengthInBytes)) with
  | none => (b.buffer, none)
  | some limited =>
    match limited.setPosition offsetInBytes with
    | none => (limited, none)
    | some moved => (moved, newVecBuffer b.coordsPerVec (wrap moved b.dataType))

/-- The limit and the position are put back in any case. -/
def createSubBuffer (b : VecBufferBlocks) (offsetInBytes lengthInBytes : Int) :
    ByteBuffer × Option (VecBuffer (List Int8)) :=
  let r := b.wrapRange offsetInBytes lengthInBytes
  match (r.1.setLimit b.buffer.limit).bind fun limited => limited.setPosition b.buffer.position with
  | none => (r.1, none)
  | some restored => (restored, r.2)

/-- The backing buffer as the call leaves it, and its result. -/
def subBuffer (b : VecBufferBlocks) (index : Int) : ByteBuffer × Option (VecBuffer (List Int8)) :=
  match b.range index with
  | none => (b.buffer, none)
  | some r =>
    if 0 < r.2 then b.createSubBuffer r.1 r.2 else (b.buffer, emptyVecBuffer b.coordsPerVec)

/-- Blocks as a subclass of the compound buffer. -/
theorem subBuffer_snd (b : VecBufferBlocks) (index : Int) :
    (b.subBuffer index).2 =
      b.toCompoundVecBuffer.subBuffer (fun off len => (b.createSubBuffer off len).2) b.coordsPerVec index := by
  rw [subBuffer, CompoundVecBuffer.subBuffer]
  cases b.range index with
  | none => rfl
  | some r =>
    rw [Option.bind_some]
    dsimp only
    split <;> rfl

end VecBufferBlocks

end WorldWind.VecBuffers
