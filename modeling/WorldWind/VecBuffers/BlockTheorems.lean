import WorldWind.VecBuffers.Compound
/-!
# Blocks and the end of the buffer

`addBlock` takes an inclusive end position and accepts one that is equal to the
capacity of the buffer. `createSubBuffer` sets the limit behind the end
position, and for that one it throws. A block that lies within the buffer reads
back if the data type has a size, however many blocks are added after it
(`addBlock_readsBack_iff`).
-/

namespace WorldWind.VecBuffers

open Lib Lib.JavaArray Lib.JavaInt Lib.Nio

namespace CompoundVecBuffer

/-! ## Adding sub-buffers -/

/-- A sub-buffer that is there. -/
structure Holds (c : CompoundVecBuffer) (index : Nat) (off len : Int) : Prop where
  count : index < c.count
  offset : c.offsets[index]? = some off
  length : c.lengths[index]? = some len

variable {c : CompoundVecBuffer} {index : Nat} {off len : Int}

theorem Holds.range (h : c.Holds index off len) : c.range index = some (off, len) := by
  have hcount := h.count
  rw [CompoundVecBuffer.range, if_neg (by omega), Int.toNat_natCast, h.offset, h.length]

theorem copyOfInts_getElem? {mem : Memory} {l m : List Int} {n : Int} (h : copyOfInts mem l n = some m) {i : Nat}
    {x : Int} (hx : l[i]? = some x) : m[i]? = some x := by
  simp only [copyOfInts, Option.ite_none_left_eq_some, Option.bind_eq_some_iff, Option.ite_none_right_eq_some,
    Option.some.injEq] at h
  obtain ⟨-, newBuffer, -, -, rfl⟩ := h
  rw [blit_zero, List.getElem?_append_left (List.getElem?_eq_some_iff.1 hx).1, hx]

/-- New int buffers have what the old ones had, whether or not both are there. -/
theorem Holds.copyTo (h : c.Holds index off len) (mem : Memory) (n : Int) :
    (c.copyTo mem n).1.Holds index off len := by
  unfold CompoundVecBuffer.copyTo
  split
  · exact h
  · rename_i offsets hoffsets
    split
    · exact ⟨h.count, copyOfInts_getElem? hoffsets h.offset, h.length⟩
    · rename_i lengths hlengths
      exact ⟨h.count, copyOfInts_getElem? hoffsets h.offset, copyOfInts_getElem? hlengths h.length⟩

theorem Holds.makeRoom (h : c.Holds index off len) (mem : Memory) (n : Int) :
    (c.makeRoom mem n).1.Holds index off len := by
  unfold CompoundVecBuffer.makeRoom
  split
  · exact h.copyTo mem _
  · exact h

theorem Holds.putLast (h : c.Holds index off len) (off' len' : Int) :
    (c.putLast off' len').1.Holds index off len := by
  have hne : c.count ≠ index := h.count.ne'
  unfold CompoundVecBuffer.putLast
  split
  · exact h
  · dsimp only
    split
    · exact ⟨h.count, (List.getElem?_set_ne hne).trans h.offset, h.length⟩
    · exact ⟨h.count.trans (Nat.lt_succ_self _), (List.getElem?_set_ne hne).trans h.offset,
        (List.getElem?_set_ne hne).trans h.length⟩

theorem Holds.putExpanded {expanded : CompoundVecBuffer × Bool} (h : expanded.1.Holds index off len)
    (off' len' : Int) : (putExpanded expanded off' len').1.Holds index off len := by
  unfold CompoundVecBuffer.putExpanded
  split
  · exact h.putLast off' len'
  · exact h

theorem Holds.addSubBuffer (h : c.Holds index off len) (mem : Memory) (off' len' : Int) :
    (c.addSubBuffer mem off' len').1.Holds index off len :=
  (h.makeRoom mem _).putExpanded off' len'

theorem putLast_holds (h : (c.putLast off len).2 = some index) : (c.putLast off len).1.Holds index off len := by
  unfold putLast at h ⊢
  split at h
  · cases h
  · rename_i hoffsets
    dsimp only at h ⊢
    split at h
    · cases h
    · rename_i hlengths
      rw [if_neg hoffsets, if_neg hlengths]
      cases h
      exact ⟨Nat.lt_succ_self _, List.getElem?_set_self (not_le.1 hoffsets),
        List.getElem?_set_self (not_le.1 hlengths)⟩

theorem putExpanded_holds {expanded : CompoundVecBuffer × Bool} (h : (putExpanded expanded off len).2 = some index) :
    (putExpanded expanded off len).1.Holds index off len := by
  unfold putExpanded at h ⊢
  split at h
  · rename_i hexpanded
    rw [if_pos hexpanded]
    exact putLast_holds h
  · cases h

theorem addSubBuffer_holds {mem : Memory} (h : (c.addSubBuffer mem off len).2 = some index) :
    (c.addSubBuffer mem off len).1.Holds index off len := by
  rw [addSubBuffer] at h ⊢
  exact putExpanded_holds h

end CompoundVecBuffer

namespace VecBufferBlocks

/-! ## What a block should give -/

/-- Calls of `addBlock`, whether or not they throw. -/
def addBlocks (mem : Memory) (b : VecBufferBlocks) (blocks : List (Int × Int)) : VecBufferBlocks :=
  blocks.foldl (fun b r => (b.addBlock mem r.1 r.2).1) b

/-- The bytes from the begin to the end position lie in the buffer. -/
def InBuffer (b : VecBufferBlocks) (beginPos endPos : Int) : Prop :=
  0 ≤ beginPos ∧ beginPos ≤ endPos ∧ endPos < b.buffer.bytes.length

/-- The bytes are a whole number of vectors. -/
def Whole (b : VecBufferBlocks) (beginPos endPos : Int) : Prop :=
  sizeOfPrimitiveType b.dataType * b.coordsPerVec ∣ endPos - beginPos + 1

/-- The sub-buffer is returned, has the size that is said, and the backing
buffer is as before. -/
structure ReadsBack (b : VecBufferBlocks) (index : Nat) (beginPos endPos : Int) : Prop where
  returns : ∃ sub, (b.subBuffer index).2 = some sub ∧
    (b.Whole beginPos endPos → b.subBufferSize index = some sub.getSize)
  position : (b.subBuffer index).1.position = b.buffer.position
  limit : (b.subBuffer index).1.limit = b.buffer.limit

/-- What the constructor and the types promise. -/
structure Valid (b : VecBufferBlocks) : Prop where
  coords : 1 ≤ b.coordsPerVec
  buffer : b.buffer.Valid
  capacity : b.buffer.bytes.length < 2 ^ 31

/-- The data type has a size and the block ends before the capacity. Or the
block is the largest there can be, one byte more than the buffer has, so that
its length wraps to a negative number, and nothing is asked of its size. -/
def Readable (b : VecBufferBlocks) (beginPos endPos : Int) : Prop :=
  (0 < sizeOfPrimitiveType b.dataType ∧ endPos < b.buffer.bytes.length) ∨
    (beginPos = 0 ∧ endPos = 2 ^ 31 - 1 ∧ ¬ b.Whole beginPos endPos)

variable {b : VecBufferBlocks} {mem : Memory} {index : Nat} {beginPos endPos : Int}

/-! ## Adding blocks -/

theorem updated_fst (b : VecBufferBlocks) (r : CompoundVecBuffer × Option Nat) :
    (b.updated r).1.toCompoundVecBuffer = r.1 := rfl

theorem updated_snd (b : VecBufferBlocks) (r : CompoundVecBuffer × Option Nat) : (b.updated r).2 = r.2 := rfl

theorem updated_same (b : VecBufferBlocks) (r : CompoundVecBuffer × Option Nat) :
    (b.updated r).1.buffer = b.buffer ∧ (b.updated r).1.coordsPerVec = b.coordsPerVec ∧
      (b.updated r).1.dataType = b.dataType := ⟨rfl, rfl, rfl⟩

/-- A call throws at once, or it is a call of the superclass with a range that
ends at the capacity at the latest. -/
theorem addBlock_cases (mem : Memory) (b : VecBufferBlocks) (beginPos endPos : Int) :
    (b.addBlock mem beginPos endPos = (b, none) ∧
      ¬ (0 ≤ beginPos ∧ beginPos ≤ endPos ∧ endPos ≤ b.buffer.bytes.length)) ∨
    (b.addBlock mem beginPos endPos = b.updated (b.addSubBuffer mem beginPos (int (endPos - beginPos + 1))) ∧
      0 ≤ beginPos ∧ beginPos ≤ endPos ∧ endPos ≤ b.buffer.bytes.length) := by
  unfold addBlock
  by_cases hend : endPos < 0 ∨ (b.buffer.bytes.length : Int) < endPos
  · exact .inl ⟨if_pos hend, by omega⟩
  · rw [if_neg hend]
    by_cases hbegin : beginPos < 0 ∨ endPos < beginPos
    · exact .inl ⟨if_pos hbegin, by omega⟩
    · exact .inr ⟨if_neg hbegin, by omega⟩

theorem addBlock_rejects (hne : endPos ≠ b.buffer.bytes.length) (h : ¬ b.InBuffer beginPos endPos) :
    b.addBlock mem beginPos endPos = (b, none) := by
  rcases addBlock_cases mem b beginPos endPos with ⟨heq, -⟩ | ⟨-, h1, h2, h3⟩
  · exact heq
  · exact absurd ⟨h1, h2, lt_of_le_of_ne h3 hne⟩ h

theorem addBlock_holds (h : (b.addBlock mem beginPos endPos).2 = some index) :
    (0 ≤ beginPos ∧ beginPos ≤ endPos ∧ endPos ≤ b.buffer.bytes.length) ∧
      (b.addBlock mem beginPos endPos).1.Holds index beginPos (int (endPos - beginPos + 1)) := by
  rcases addBlock_cases mem b beginPos endPos with ⟨heq, -⟩ | ⟨heq, hrange⟩
  · rw [heq] at h
    cases h
  · rw [heq, updated_snd] at h
    rw [heq, updated_fst]
    exact ⟨hrange, CompoundVecBuffer.addSubBuffer_holds h⟩

theorem addBlock_same (mem : Memory) (b : VecBufferBlocks) (beginPos endPos : Int) :
    (b.addBlock mem beginPos endPos).1.buffer = b.buffer ∧
      (b.addBlock mem beginPos endPos).1.coordsPerVec = b.coordsPerVec ∧
      (b.addBlock mem beginPos endPos).1.dataType = b.dataType := by
  rcases addBlock_cases mem b beginPos endPos with ⟨heq, -⟩ | ⟨heq, -⟩
  · rw [heq]
    exact ⟨rfl, rfl, rfl⟩
  · rw [heq]
    exact updated_same b _

theorem Holds.addBlock {off len : Int} (h : b.Holds index off len) (mem : Memory) (beginPos endPos : Int) :
    (b.addBlock mem beginPos endPos).1.Holds index off len := by
  rcases addBlock_cases mem b beginPos endPos with ⟨heq, -⟩ | ⟨heq, -⟩
  · rw [heq]
    exact h
  · rw [heq, updated_fst]
    exact CompoundVecBuffer.Holds.addSubBuffer h mem _ _

/-- Later blocks change nothing about a block that is there. -/
theorem addBlocks_spec {off len : Int} (h : b.Holds index off len) (mem : Memory) (later : List (Int × Int)) :
    (b.addBlocks mem later).Holds index off len ∧ (b.addBlocks mem later).buffer = b.buffer ∧
      (b.addBlocks mem later).coordsPerVec = b.coordsPerVec ∧ (b.addBlocks mem later).dataType = b.dataType := by
  induction later generalizing b with
  | nil => exact ⟨h, rfl, rfl, rfl⟩
  | cons r later ih =>
    obtain ⟨h1, h2, h3⟩ := addBlock_same mem b r.1 r.2
    obtain ⟨i1, i2, i3, i4⟩ := ih (Holds.addBlock h mem r.1 r.2)
    exact ⟨i1, i2.trans h1, i3.trans h2, i4.trans h3⟩

/-! ## Reading a block -/

theorem sizeOfPrimitiveType_cases (t : DataType) :
    (0 < sizeOfPrimitiveType t ∧ ∀ b : ByteBuffer, wrap b t =
      some (records (sizeOfPrimitiveType t).toNat b.remaining)) ∨
      (sizeOfPrimitiveType t = -1 ∧ ∀ b, wrap b t = none) := by
  cases t with
  | other name => exact .inr ⟨rfl, fun _ => rfl⟩
  | _ => exact .inl ⟨by decide, fun _ => rfl⟩

/-- The buffer is as before, whatever the try block did. -/
theorem createSubBuffer_restores (h : b.buffer.Valid) (off len : Int) :
    (b.createSubBuffer off len).1 = b.buffer ∧ (b.createSubBuffer off len).2 = (b.wrapRange off len).2 := by
  have hlim := h.limit_le
  have hpos := h.position_le
  have hrest : (b.wrapRange off len).1.bytes = b.buffer.bytes ∧ (b.wrapRange off len).1.order = b.buffer.order := by
    unfold wrapRange
    split
    · exact ⟨rfl, rfl⟩
    · rename_i limited hl
      simp only [ByteBuffer.setLimit, Option.ite_none_right_eq_some, Option.some.injEq] at hl
      obtain ⟨-, rfl⟩ := hl
      split
      · exact ⟨rfl, rfl⟩
      · rename_i moved hm
        simp only [ByteBuffer.setPosition, Option.ite_none_right_eq_some, Option.some.injEq] at hm
        obtain ⟨-, rfl⟩ := hm
        exact ⟨rfl, rfl⟩
  obtain ⟨hbytes, horder⟩ := hrest
  have hback : ((b.wrapRange off len).1.setLimit b.buffer.limit).bind (fun limited =>
      limited.setPosition b.buffer.position) = some b.buffer := by
    rw [ByteBuffer.setLimit, if_pos ⟨by omega, by rw [hbytes]; omega⟩, Option.bind_some, ByteBuffer.setPosition,
      if_pos ⟨by omega, by simpa using hpos⟩]
    simp only [Int.toNat_natCast, hbytes, horder]
  rw [createSubBuffer, hback]
  exact ⟨rfl, rfl⟩

/-- The try block succeeds if the range lies in the buffer and the data type
has a size, and throws otherwise. -/
theorem wrapRange_eq (h : b.Valid) (hbegin : 0 ≤ beginPos) (hle : beginPos ≤ endPos)
    (hend : endPos ≤ b.buffer.bytes.length) :
    (b.wrapRange beginPos (endPos - beginPos + 1)).2 =
      if 0 < sizeOfPrimitiveType b.dataType ∧ endPos < b.buffer.bytes.length then
        some ⟨b.coordsPerVec, records (sizeOfPrimitiveType b.dataType).toNat
          ((b.buffer.bytes.take (endPos + 1).toNat).drop beginPos.toNat), none⟩
      else none := by
  have hcap := h.capacity
  have hcoords := h.coords
  have hsum : beginPos + (endPos - beginPos + 1) = endPos + 1 := by omega
  rw [wrapRange, hsum]
  by_cases hlt : endPos < b.buffer.bytes.length
  · rw [int_eq (by omega) (by omega), ByteBuffer.setLimit, if_pos ⟨by omega, by omega⟩]
    dsimp only
    rw [ByteBuffer.setPosition, if_pos ⟨hbegin, by dsimp only; omega⟩]
    dsimp only
    rw [newVecBuffer, if_neg (by omega)]
    rcases sizeOfPrimitiveType_cases b.dataType with ⟨hsize, hwrap⟩ | ⟨hsize, hwrap⟩
    · rw [hwrap, if_pos ⟨hsize, hlt⟩]
      rfl
    · rw [hwrap, if_neg (by omega)]
      rfl
  · have hnone : b.buffer.setLimit (int (endPos + 1)) = none := by
      rw [ByteBuffer.setLimit, if_neg]
      rintro ⟨h1, h2⟩
      by_cases hbig : endPos + 1 < 2 ^ 31
      · rw [int_eq (by omega) hbig] at h2
        omega
      · have := int_overflow (x := endPos + 1) (by omega) (by omega)
        omega
    rw [hnone, if_neg (fun hc => hlt hc.2)]

/-- The size that is said of a block whose length wraps is not zero, if it is a
whole number of vectors. -/
theorem size_of_largest (t : DataType) {k : Nat} (h : sizeOfPrimitiveType t * k ∣ (2 ^ 31 : Int)) :
    int ((int ((-2 ^ 31 : Int).tdiv (sizeOfPrimitiveType t))).tdiv k) ≠ 0 := by
  obtain ⟨n, hn⟩ := h
  have hk : (k : Int) ≠ 0 := by
    rintro hk
    rw [hk, mul_zero, zero_mul] at hn
    cases hn
  have hn0 : n ≠ 0 := by
    rintro rfl
    rw [mul_zero] at hn
    cases hn
  -- The first quotient is exact, up to a sign that is lost where it wraps.
  have hquot : ∃ m : Int, int ((-2 ^ 31 : Int).tdiv (sizeOfPrimitiveType t)) = k * m ∧ m ≠ 0 := by
    rcases sizeOfPrimitiveType_cases t with ⟨hsize, -⟩ | ⟨hsize, -⟩
    · refine ⟨-n, ?_, neg_ne_zero.2 hn0⟩
      have hneg : (-2 ^ 31 : Int) = sizeOfPrimitiveType t * (k * -n) := by
        rw [hn]
        ring
      have hkn : (k : Int) * n ≤ 2 ^ 31 ∧ 0 < (k : Int) * n := by
        rw [mul_assoc] at hn
        constructor <;> nlinarith
      rw [hneg, Int.mul_tdiv_cancel_left _ hsize.ne', int_eq (by rw [mul_neg]; omega) (by rw [mul_neg]; omega)]
    · refine ⟨n, ?_, hn0⟩
      have hkn : (k : Int) * n = -2 ^ 31 := by
        rw [hsize] at hn
        linarith
      have hneg : (-2 ^ 31 : Int).tdiv (-1) = 2 ^ 31 := by decide
      rw [hsize, hkn, hneg, int_two_pow]
  obtain ⟨m, hm, hm0⟩ := hquot
  have hlow := le_int ((-2 ^ 31 : Int).tdiv (sizeOfPrimitiveType t))
  have hhigh := int_lt ((-2 ^ 31 : Int).tdiv (sizeOfPrimitiveType t))
  rw [hm] at hlow hhigh
  have hk1 : (1 : Int) ≤ k := by omega
  rw [hm, Int.mul_tdiv_cancel_left _ hk, int_eq (by nlinarith) (by nlinarith)]
  exact hm0

/-- The size that is said of a range of `n` bytes. -/
theorem size_of_part {s : Int} (hs : 0 < s) {length : Int} (hlen : length < 2 ^ 31) {n k : Nat}
    (hn : (n : Int) = length) :
    int ((int (length.tdiv s)).tdiv k) = ((n / s.toNat / k : Nat) : Int) := by
  obtain ⟨t, rfl⟩ := Int.eq_ofNat_of_zero_le hs.le
  subst hn
  have h1 := Nat.div_le_self n t
  have h2 := (Nat.div_le_self (n / t) k).trans h1
  have hint : ∀ m : Nat, m ≤ n → int m = m := fun m hm => int_eq (by omega) (by omega)
  rw [Int.toNat_natCast, ← Int.ofNat_tdiv, hint _ h1, ← Int.ofNat_tdiv, hint _ h2]

/-! ## What reads back -/

theorem readsBack_iff (h : b.Valid) (hbegin : 0 ≤ beginPos) (hle : beginPos ≤ endPos)
    (hend : endPos ≤ b.buffer.bytes.length) (hh : b.Holds index beginPos (int (endPos - beginPos + 1))) :
    b.ReadsBack index beginPos endPos ↔ b.Readable beginPos endPos := by
  have hcap := h.capacity
  have hcoords := h.coords
  have hsub : b.subBuffer index = if 0 < int (endPos - beginPos + 1) then
      b.createSubBuffer beginPos (int (endPos - beginPos + 1)) else (b.buffer, emptyVecBuffer b.coordsPerVec) := by
    rw [subBuffer, hh.range]
  have hsize : b.subBufferSize index = some (int ((int ((int (endPos - beginPos + 1)).tdiv
      (sizeOfPrimitiveType b.dataType))).tdiv b.coordsPerVec)) := by
    rw [subBufferSize, hh.range, Option.map_some]
  by_cases hlong : endPos - beginPos + 1 < 2 ^ 31
  · rw [int_eq (by omega) hlong] at hsub hsize
    obtain ⟨hback, hres⟩ := createSubBuffer_restores h.buffer beginPos (endPos - beginPos + 1)
    rw [if_pos (by omega)] at hsub
    rw [wrapRange_eq h hbegin hle hend] at hres
    constructor
    · rintro ⟨⟨sub, hreturns, -⟩, -, -⟩
      rw [hsub, hres, Option.ite_none_right_eq_some] at hreturns
      exact .inl hreturns.1
    · rintro (hin | ⟨rfl, rfl, -⟩)
      · rw [if_pos hin] at hres
        refine ⟨⟨_, by rw [hsub, hres], fun _ => ?_⟩, by rw [hsub, hback], by rw [hsub, hback]⟩
        rw [hsize, VecBuffer.getSize, length_records]
        exact congrArg some (size_of_part hin.1 (by omega) (by simp; omega))
      · omega
  · obtain ⟨rfl, rfl⟩ : beginPos = 0 ∧ endPos = 2 ^ 31 - 1 := by omega
    have hlength : int (2 ^ 31 - 1 - 0 + 1) = -2 ^ 31 := int_two_pow
    have hempty : emptyVecBuffer b.coordsPerVec = some ⟨b.coordsPerVec, ([] : List (List Int8)), none⟩ := by
      rw [emptyVecBuffer, newVecBuffer, if_neg (by omega)]
      rfl
    rw [hlength] at hsub hsize
    rw [if_neg (by decide), hempty] at hsub
    have hzero : (VecBuffer.mk b.coordsPerVec ([] : List (List Int8)) none).getSize = 0 := Nat.zero_div _
    constructor
    · rintro ⟨⟨sub, hreturns, hsame⟩, -, -⟩
      refine .inr ⟨rfl, rfl, fun hw => ?_⟩
      rw [hsub] at hreturns
      obtain rfl := Option.some.inj hreturns
      have hsaid := hsame hw
      rw [hsize, hzero] at hsaid
      exact size_of_largest b.dataType (by simpa [Whole] using hw) (Option.some.inj hsaid)
    · rintro (hin | ⟨-, -, hw⟩)
      · omega
      · refine ⟨⟨_, by rw [hsub], fun h => absurd h hw⟩, by rw [hsub], by rw [hsub]⟩

/-- A block that is accepted reads back, now and after any further blocks,
exactly if it is `Readable`. A block that does not lie in the buffer is
rejected, and nothing changes, unless it ends at the capacity. -/
theorem addBlock_readsBack_iff (mem : Memory) (b : VecBufferBlocks) (h : b.Valid) (beginPos endPos : Int) :
    (∀ c index, b.addBlock mem beginPos endPos = (c, some index) → ∀ later,
      ((c.addBlocks mem later).ReadsBack index beginPos endPos ↔ b.Readable beginPos endPos)) ∧
    (¬ b.InBuffer beginPos endPos → endPos ≠ b.buffer.bytes.length → b.addBlock mem beginPos endPos = (b, none)) := by
  refine ⟨fun c index hadd later => ?_, fun hout hne => addBlock_rejects hne hout⟩
  obtain ⟨⟨h1, h2, h3⟩, hholds⟩ := addBlock_holds (congrArg Prod.snd hadd)
  obtain ⟨s1, s2, s3⟩ := addBlock_same mem b beginPos endPos
  rw [hadd] at hholds s1 s2 s3
  obtain ⟨hl, l1, l2, l3⟩ := addBlocks_spec hholds mem later
  have hbuffer : (c.addBlocks mem later).buffer = b.buffer := l1.trans s1
  have hcoords : (c.addBlocks mem later).coordsPerVec = b.coordsPerVec := l2.trans s2
  have htype : (c.addBlocks mem later).dataType = b.dataType := l3.trans s3
  have hvalid : (c.addBlocks mem later).Valid :=
    ⟨hcoords ▸ h.coords, hbuffer ▸ h.buffer, hbuffer ▸ h.capacity⟩
  refine (readsBack_iff hvalid h1 h2 (hbuffer ▸ h3) hl).trans ?_
  simp only [Readable, Whole, hbuffer, hcoords, htype]

end VecBufferBlocks

/-- Blocks of bytes over four bytes. -/
def fourBytes : VecBufferBlocks :=
  ⟨⟨0, 1, [0], [0]⟩, 1, .INT8, ByteBuffer.wrap [1, 2, 3, 4]⟩

theorem fourBytes_valid : fourBytes.Valid := ⟨by decide, ⟨by decide, by decide⟩, by decide⟩

theorem addBlock_readsBack_fourBytes : (fourBytes.addBlock ⟨fun _ => true, fun _ => true⟩ 1 3).2 = some 0 ∧
    ((fourBytes.addBlock ⟨fun _ => true, fun _ => true⟩ 1 3).1.addBlocks ⟨fun _ => true, fun _ => true⟩
      [(0, 0), (0, 9)]).ReadsBack 0 1 3 :=
  ⟨by decide +kernel,
    ((VecBufferBlocks.addBlock_readsBack_iff ⟨fun _ => true, fun _ => true⟩ fourBytes fourBytes_valid 1 3).1
      (fourBytes.addBlock ⟨fun _ => true, fun _ => true⟩ 1 3).1 0 (by decide +kernel) [(0, 0), (0, 9)]).2
      (.inl (by decide))⟩

/-- The bytes from 1 to 4 are accepted, and do not read back. -/
theorem addBlock_capacity : (fourBytes.addBlock ⟨fun _ => true, fun _ => true⟩ 1 4).2 = some 0 ∧
    ¬ (fourBytes.addBlock ⟨fun _ => true, fun _ => true⟩ 1 4).1.ReadsBack 0 1 4 := by
  have hthrows : ((fourBytes.addBlock ⟨fun _ => true, fun _ => true⟩ 1 4).1.subBuffer 0).2 = none := by decide +kernel
  refine ⟨by decide +kernel, fun h => ?_⟩
  obtain ⟨sub, hsub, -⟩ := h.returns
  cases hthrows.symm.trans hsub

end WorldWind.VecBuffers
