import WorldWind.Lib.JavaArray
/-!
# `util/IntSet.java`

A set of `int` values in buckets. A value belongs to the bucket with the
number `value % numBuckets`; a bucket is created by the first value added to
it and doubles its array when it is full. A call that throws has no result.
-/

namespace WorldWind.IntSets

open Lib.JavaArray

/-- The first `length` cells of the array `values` are in use. -/
structure Bucket where
  values : List Int32
  length : Nat
  isArray : values.length < 2 ^ 31
  nonempty : 0 < values.length
  fits : length ≤ values.length

namespace Bucket

/-- Throws for a capacity below one. -/
def new (initialCapacity : Int32) : Option Bucket :=
  if h : initialCapacity < 1 then none
  else some {
    values := List.replicate initialCapacity.toInt.toNat 0
    length := 0
    isArray := by
      have := initialCapacity.toInt_lt
      rw [List.length_replicate]
      omega
    nonempty := by
      rw [Int32.lt_iff_toInt_lt, Int32.toInt_one] at h
      rw [List.length_replicate]
      omega
    fits := Nat.zero_le _ }

/-- The values in use. -/
def items (b : Bucket) : List Int32 := b.values.take b.length

theorem items_length (b : Bucket) : b.items.length = b.length := by
  rw [items, List.length_take, Nat.min_eq_left b.fits]

/-- A full bucket moves to an array of twice the length, which throws once
that is no longer an `int`. -/
def grow (b : Bucket) : Option Bucket :=
  if b.values.length ≤ b.length then
    let n := 2 * Int32.ofNat b.values.length
    if n < 0 then none
    else some {
      values := b.values ++ List.replicate (n.toInt.toNat - b.values.length) 0
      length := b.length
      isArray := by
        have := n.toInt_lt
        have := b.isArray
        rw [List.length_append, List.length_replicate]
        omega
      nonempty := by
        have := b.nonempty
        rw [List.length_append]
        omega
      fits := by
        have := b.fits
        rw [List.length_append]
        omega }
  else some b

/-- `values[length++] = value`. -/
def push (b : Bucket) (value : Int32) : Option Bucket :=
  if h : b.length < b.values.length then
    some {
      values := b.values.set b.length value
      length := b.length + 1
      isArray := by rw [List.length_set]; exact b.isArray
      nonempty := by rw [List.length_set]; exact b.nonempty
      fits := by rw [List.length_set]; exact h }
  else none

/-- The cells behind `i` move down by one. -/
def removeAt (b : Bucket) (i : Nat) : Bucket where
  values :=
    if i < b.length - 1 then
      b.values.take i ++ (b.values.drop (i + 1)).take (b.length - i - 1) ++ b.values.drop (b.length - 1)
    else b.values
  length := b.length - 1
  isArray := by
    have := b.isArray
    have := b.fits
    split <;> simp <;> omega
  nonempty := by
    have := b.nonempty
    have := b.fits
    split <;> simp <;> omega
  fits := by
    have := b.fits
    split <;> simp <;> omega

def clear (b : Bucket) : Bucket := { b with length := 0, fits := Nat.zero_le _ }

end Bucket

structure IntSet where
  buckets : List (Option Bucket)
  numBuckets : Int32
  bucketInitialCapacity : Int32
  size : Int32
  positive : 0 < numBuckets.toInt
  isArray : (buckets.length : Int) = numBuckets.toInt
  initial : 1 ≤ bucketInitialCapacity

namespace IntSet

/-- Throws if an argument is below one. -/
def new (numBuckets bucketInitialCapacity : Int32) : Option IntSet :=
  if h : numBuckets < 1 then none
  else if h' : bucketInitialCapacity < 1 then none
  else some {
    buckets := List.replicate numBuckets.toInt.toNat none
    numBuckets
    bucketInitialCapacity
    size := 0
    positive := by
      rw [Int32.lt_iff_toInt_lt, Int32.toInt_one] at h
      omega
    isArray := by
      rw [Int32.lt_iff_toInt_lt, Int32.toInt_one] at h
      rw [List.length_replicate]
      omega
    initial := Int32.not_lt.1 h' }

/-- `this.buckets[index]`: throws outside the array, otherwise maybe null. -/
def bucketAt (s : IntSet) (index : Int32) : Option (Option Bucket) :=
  if index < 0 then none else s.buckets[index.toInt.toNat]?

/-- `this.buckets[index] = bucket`. -/
def setBucket (s : IntSet) (index : Int32) (bucket : Bucket) : IntSet :=
  { s with
    buckets := s.buckets.set index.toInt.toNat (some bucket)
    isArray := by rw [List.length_set]; exact s.isArray }

/-- The end of `add`, for a bucket that does not hold the value. -/
def append (s : IntSet) (index : Int32) (bucket : Bucket) (value : Int32) : Option (IntSet × Bool) :=
  (bucket.grow.bind (·.push value)).map fun bucket => ({ s.setBucket index bucket with size := s.size + 1 }, true)

def add (s : IntSet) (value : Int32) : Option (IntSet × Bool) :=
  let index := value % s.numBuckets
  match s.bucketAt index with
  | none => none
  | some none => (Bucket.new s.bucketInitialCapacity).bind fun bucket => s.append index bucket value
  | some (some bucket) => if value ∈ bucket.items then some (s, false) else s.append index bucket value

def remove (s : IntSet) (value : Int32) : Option (IntSet × Bool) :=
  let index := value % s.numBuckets
  match s.bucketAt index with
  | none => none
  | some none => some (s, false)
  | some (some bucket) =>
    let i := bucket.items.idxOf value
    if bucket.length = 0 ∨ i = bucket.length then some (s, false)
    else some ({ s.setBucket index (bucket.removeAt i) with size := s.size - 1 }, true)

def contains (s : IntSet) (value : Int32) : Option Bool :=
  match s.bucketAt (value % s.numBuckets) with
  | none => none
  | some none => some false
  | some (some bucket) => some (decide (value ∈ bucket.items))

def clear (s : IntSet) : IntSet :=
  { s with
    buckets := s.buckets.map (Option.map Bucket.clear)
    size := 0
    isArray := by rw [List.length_map]; exact s.isArray }

/-- The loop of `toArray` over the buckets, with the offset reached. -/
def copyBuckets : List (Option Bucket) → List Int32 → Nat → Option (List Int32)
  | [], array, _ => some array
  | none :: bs, array, offset => copyBuckets bs array offset
  | some b :: bs, array, offset =>
    (arraycopy b.values 0 array offset b.length).bind fun array => copyBuckets bs array (offset + b.length)

/-- `none` for a null `array`. -/
def toArray (s : IntSet) (array : Option (List Int32)) : Option (List Int32) :=
  match array with
  | none => (newArray 0 s.size).bind fun array => copyBuckets s.buckets array 0
  | some array =>
    if (array.length : Int) < s.size.toInt then (newArray 0 s.size).bind fun array => copyBuckets s.buckets array 0
    else copyBuckets s.buckets array 0

end IntSet

/-! ## Calls -/

inductive Op where
  | add (value : Int32)
  | remove (value : Int32)
  | contains (value : Int32)
  | clear
  | toArray (array : Option (List Int32))
  deriving DecidableEq, Repr

/-- What a call returns. -/
inductive Answer where
  | done
  | bool (b : Bool)
  | array (l : List Int32)
  deriving DecidableEq, Repr

def exec (s : IntSet) : Op → Option (IntSet × Answer)
  | .add v => (s.add v).map fun r => (r.1, .bool r.2)
  | .remove v => (s.remove v).map fun r => (r.1, .bool r.2)
  | .contains v => (s.contains v).map fun b => (s, .bool b)
  | .clear => some (s.clear, .done)
  | .toArray a => (s.toArray a).map fun l => (s, .array l)

end WorldWind.IntSets
