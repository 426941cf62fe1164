import WorldWind.Lib.Walk
import WorldWind.Tiff.Geotiff
/-!
# `formats/tiff/GeotiffReader.java`: the chain of directories

`readTiffHeaders` reads the header of a file and its first directory. Behind
the entries of a directory stands the offset of the next one, zero at the end,
and `readIFD` calls itself for it. Nothing in the code bounds the number of
calls, so here it is given one.

The calls stay within each other, and an exception of any of them becomes an
`IOException`. Only the count of the first directory is read outside of that:
where the file ends before it, the caller gets a `BufferUnderflowException`.
The call is done exactly when the file does not lead it into a cycle of
directories (`readTiffHeaders_concludes_iff`).
-/

namespace WorldWind.Tiff

open Lib.Nio Lib.Walk
open GeotiffReader (readEntries)

namespace IfdChain

inductive Exception where
  | io
  | bufferUnderflow
  deriving DecidableEq, Repr

/-- The entries of a directory. -/
abbrev Directory := List (Option TiffIFDEntry)

/-- The count of the directory at an offset; none if the buffer underflows.
`bb` is the buffer it is read into. -/
def readCount (bb : ByteBuffer) (fc : FileChannel) (offset : Int) : Option (Int × FileChannel) :=
  (bb.clear.setLimit 2).bind fun bb =>
  let r := (fc.setPosition offset.toNat).read bb
  r.1.flip.getShort.map fun count => (count.1, r.2)

/-- The four bytes behind the entries of a directory. -/
def nextIFDOffset (order : ByteOrder) (fc : FileChannel) : Option (Int × ByteBuffer × FileChannel) :=
  (ByteBuffer.allocate 4).bind fun bb =>
  let r := fc.read { bb with order }
  (TIFFIFDFactory.getUnsignedInt r.1.flip).map fun offset => (offset.1, offset.2, r.2)

/-- The directory the channel is at, and the count of the next one with the
channel behind it: the inner none is the end of the chain. The outer none is an
exception. -/
def readOne (order : ByteOrder) (numEntries : Int) (fc : FileChannel) :
    Directory × Option (Option (Int × FileChannel)) :=
  let ifd := readEntries order numEntries.toNat fc
  (ifd.1, (nextIFDOffset order ifd.2).bind fun next =>
    if 0 < next.1 then (readCount next.2.1 next.2.2 next.1).map some else some none)

def readIFD (order : ByteOrder) : Nat → Int → FileChannel → List Directory → Outcome Exception (List Directory)
  | 0, _, _, _ => .running
  | calls + 1, numEntries, fc, tiffIFDs =>
    match readOne order numEntries fc with
    | (_, none) => .thrown .io
    | (ifd, some none) => .returned (tiffIFDs ++ [ifd])
    | (ifd, some (some next)) => readIFD order calls next.1 next.2 (tiffIFDs ++ [ifd])

/-- The channel and the eight bytes read from its start; zeros where the file
is shorter. -/
def readHeader (file : List Int8) : List Int8 × FileChannel :=
  let r := (FileChannel.mk file 0).read (ByteBuffer.wrap (List.replicate 8 0))
  (r.1.bytes, r.2)

/-- `MM` or `II`. -/
def byteOrderOf (array : List Int8) : Option ByteOrder :=
  if array[0]? = some 0x4D ∧ array[1]? = some 0x4D then some .bigEndian
  else if array[0]? = some 0x49 ∧ array[1]? = some 0x49 then some .littleEndian
  else none

/-- The magic number is skipped. -/
def firstIFDOffset (ifh : ByteBuffer) : Option (Int × ByteBuffer) :=
  (ifh.setPosition 4).bind TIFFIFDFactory.getUnsignedInt

/-- The directories of a file. What is then made of their entries is not part
of this. -/
def readTiffHeaders (calls : Nat) (file : List Int8) : Outcome Exception (List Directory) :=
  let header := readHeader file
  match byteOrderOf header.1 with
  | none => .thrown .io
  | some order =>
    let count := (firstIFDOffset { ByteBuffer.wrap header.1 with order }).bind fun ifd =>
      readCount ifd.2 header.2 ifd.1
    match count with
    | none => .thrown .bufferUnderflow
    | some count => readIFD order calls count.1 count.2 []

end IfdChain

open IfdChain

/-! ## The links of a file -/

/-- The count of a directory and the channel behind it; none if the file ends
before. -/
def directoryAt (order : ByteOrder) (file : List Int8) (offset : Int) : Option (Int × FileChannel) :=
  if ((file.drop offset.toNat).take 2).length = 2 then
    some (shortOf order ((file.drop offset.toNat).take 2), ⟨file, offset.toNat + 2⟩)
  else none

/-- The offset that stands behind a directory, unless it is zero or missing. -/
def nextDirectory (order : ByteOrder) (file : List Int8) (offset : Int) : Option Int :=
  (directoryAt order file offset).bind fun count =>
  (nextIFDOffset order (readEntries order count.1.toNat count.2).2).bind fun next =>
  if 0 < next.1 then some next.1 else none

/-- The offset in the header of a file. -/
def firstDirectory (order : ByteOrder) (file : List Int8) : Int :=
  uintOf order (((readHeader file).1.drop 4).take 4)

/-- The call has returned directories, or thrown an `IOException`. -/
def Concludes (o : Outcome Exception (List Directory)) : Prop := o = .thrown .io ∨ ∃ l, o = .returned l

/-! ## Reading in terms of the file -/

theorem TIFFIFDFactory.entryOf_content {header : ByteBuffer} {fc fc' : FileChannel} {order : ByteOrder}
    {e : TiffIFDEntry}
    (h : entryOf header fc order = some (e, fc')) : fc'.content = fc.content := by
  simp only [entryOf, readData, Option.bind_eq_some_iff] at h
  obtain ⟨tag, -, type, -, count, -, h⟩ := h
  split at h
  · simp only [Option.bind_eq_some_iff, Option.map_eq_some_iff, Prod.mk.injEq] at h
    obtain ⟨-, -, -, -, -, rfl⟩ := h
    rfl
  · split at h
    · simp only [Option.map_eq_some_iff, Prod.mk.injEq] at h
      obtain ⟨-, -, -, rfl⟩ := h
      rfl
    · simp only [Option.bind_eq_some_iff] at h
      obtain ⟨offset, -, h⟩ := h
      split at h
      · simp only [Option.map_map, Option.map_eq_some_iff, Function.comp, Prod.mk.injEq] at h
        obtain ⟨-, -, -, rfl⟩ := h
        rfl
      · simp only [Option.some.injEq, Prod.mk.injEq] at h
        obtain ⟨-, rfl⟩ := h
        rfl

theorem TIFFIFDFactory.create_content (fc : FileChannel) (order : ByteOrder) :
    (create fc order).2.content = fc.content := by
  unfold create
  dsimp only
  split
  · rename_i entry h
    exact (entryOf_content h : _ = (fc.read _).2.content)
  · rfl

theorem readEntries_content (order : ByteOrder) (n : Nat) (fc : FileChannel) :
    (readEntries order n fc).2.content = fc.content := by
  induction n generalizing fc with
  | zero => rfl
  | succ n ih =>
    simp only [readEntries]
    rw [ih, TIFFIFDFactory.create_content]

theorem readCount_eq {bb : ByteBuffer} (h : 2 ≤ bb.bytes.length) (fc : FileChannel) (offset : Int) :
    readCount bb fc offset = directoryAt bb.order fc.content offset := by
  have hlimit : bb.clear.setLimit 2 = some { bb with position := 0, limit := 2 } := by
    rw [ByteBuffer.setLimit, if_pos (by simp only [ByteBuffer.clear]; omega)]
    rfl
  obtain ⟨c, hget⟩ := FileChannel.read_flip_get fc.content offset.toNat
    (b := { bb with position := 0, limit := 2 }) ⟨Nat.zero_le _, h⟩ rfl rfl
  simp only [readCount, hlimit, Option.bind_some, ByteBuffer.getShort, FileChannel.setPosition, hget,
    FileChannel.read_flip_order, directoryAt]
  by_cases hlen : ((fc.content.drop offset.toNat).take 2).length = 2
  · rw [if_pos hlen, if_pos hlen]
    simp only [Option.map_some, FileChannel.read, hlen, Nat.sub_zero]
  · rw [if_neg hlen, if_neg hlen]
    rfl

/-- The offset behind the entries is an unsigned int. The buffer it is read
into is used for the next count. -/
theorem nextIFDOffset_some {order : ByteOrder} {fc : FileChannel} {next : Int × ByteBuffer × FileChannel}
    (h : nextIFDOffset order fc = some next) :
    0 ≤ next.1 ∧ next.1 < 2 ^ 32 ∧ 2 ≤ next.2.1.bytes.length ∧ next.2.1.order = order ∧
      next.2.2.content = fc.content := by
  have hv : (⟨List.replicate 4 0, 0, 4, order⟩ : ByteBuffer).Valid := ⟨Nat.zero_le _, by simp⟩
  have hlen := fc.read_bytes_length hv
  have hallocate : ByteBuffer.allocate 4 = some ⟨List.replicate 4 0, 0, 4, .bigEndian⟩ := rfl
  rw [List.length_replicate] at hlen
  simp only [nextIFDOffset, hallocate, TIFFIFDFactory.getUnsignedInt, ByteBuffer.getInt, ByteBuffer.get,
    Option.bind_some, Option.map_map, Option.map_eq_some_iff, Option.ite_none_right_eq_some, Option.some.injEq] at h
  obtain ⟨r, ⟨-, rfl⟩, rfl⟩ := h
  refine ⟨Int.emod_nonneg _ (by decide), Int.emod_lt_of_pos _ (by decide), ?_, rfl, rfl⟩
  show 2 ≤ (fc.read _).1.bytes.length
  omega

/-! ## The calls -/

variable {order : ByteOrder} {file : List Int8}

theorem directoryAt_content {offset : Int} {count : Int × FileChannel}
    (h : directoryAt order file offset = some count) :
    count.2.content = file := by
  simp only [directoryAt, Option.ite_none_right_eq_some, Option.some.injEq] at h
  obtain ⟨-, rfl⟩ := h
  rfl

/-- The call for a directory in terms of the links: it throws an `IOException`
or returns where there is no link, and goes on where there is one. -/
theorem readOne_eq {offset : Int} {count : Int × FileChannel} (h : directoryAt order file offset = some count) :
    (readOne order count.1 count.2).2 =
      match nextDirectory order file offset with
      | none => if (nextIFDOffset order (readEntries order count.1.toNat count.2).2).isSome then some none else none
      | some next => (directoryAt order file next).map some := by
  have hcontent := directoryAt_content h
  simp only [readOne, nextDirectory, h, Option.bind_some]
  cases hnext : nextIFDOffset order (readEntries order count.1.toNat count.2).2 with
  | none => rfl
  | some next =>
    obtain ⟨-, -, hlen, horder, hfile⟩ := nextIFDOffset_some hnext
    rw [readEntries_content, hcontent] at hfile
    simp only [Option.bind_some]
    split
    · rw [readCount_eq hlen, horder, hfile]
    · rfl

/-- The calls for the rest of the chain come to an end exactly when the links do. -/
theorem readIFD_concludes_iff {offset : Int} {count : Int × FileChannel}
    (h : directoryAt order file offset = some count) (tiffIFDs : List Directory) :
    (∃ calls, Concludes (readIFD order calls count.1 count.2 tiffIFDs)) ↔ Ends (nextDirectory order file) offset := by
  constructor
  · rintro ⟨calls, hc⟩
    induction calls generalizing offset count tiffIFDs with
    | zero =>
      rcases hc with hc | ⟨l, hc⟩ <;> cases hc
    | succ calls ih =>
      cases hnext : nextDirectory order file offset with
      | none => exact ends_of_none hnext
      | some next =>
        have hone := readOne_eq h
        rw [hnext] at hone
        dsimp only at hone
        refine (ends_iff_of_link hnext).2 ?_
        cases hd : directoryAt order file next with
        | none => exact ends_of_none (by simp [nextDirectory, hd])
        | some count' =>
          rw [hd, Option.map_some] at hone
          rw [readIFD, ← Prod.eta (readOne order count.1 count.2), hone] at hc
          exact ih hd _ hc
  · rintro ⟨n, hn⟩
    induction n generalizing offset count tiffIFDs with
    | zero => cases hn
    | succ n ih =>
      have hone := readOne_eq h
      cases hnext : nextDirectory order file offset with
      | none =>
        refine ⟨1, ?_⟩
        rw [readIFD, ← Prod.eta (readOne order count.1 count.2), hone, hnext]
        by_cases hread : (nextIFDOffset order (readEntries order count.1.toNat count.2).2).isSome
        · simp only [hread, if_true]
          exact .inr ⟨_, rfl⟩
        · simp only [hread, Bool.false_eq_true, if_false]
          exact .inl rfl
      | some next =>
        rw [hnext] at hone
        dsimp only at hone
        cases hd : directoryAt order file next with
        | none =>
          refine ⟨1, .inl ?_⟩
          rw [readIFD, ← Prod.eta (readOne order count.1 count.2), hone, hd]
          rfl
        | some count' =>
          have hn' : after (nextDirectory order file) n next = none := by simpa [after, hnext] using hn
          obtain ⟨calls, hc⟩ := ih hd (tiffIFDs ++ [(readOne order count.1 count.2).1]) hn'
          refine ⟨calls + 1, ?_⟩
          rw [readIFD, ← Prod.eta (readOne order count.1 count.2), hone, hd]
          exact hc

/-- One call of the reader without exceptions. -/
theorem readIFD_succ (order : ByteOrder) (count : Int × FileChannel) (calls : Nat) :
    GeotiffReader.readIFD order (calls + 1) count.1 count.2 =
      match (readOne order count.1 count.2).2 with
      | none => none
      | some none => some [(readOne order count.1 count.2).1]
      | some (some next) => (GeotiffReader.readIFD order calls next.1 next.2).map
          ((readOne order count.1 count.2).1 :: ·) := by
  let bb : ByteBuffer := { ByteBuffer.wrap (List.replicate 4 0) with order }
  have hoffset : TIFFIFDFactory.getUnsignedInt (((readEntries order count.1.toNat count.2).2.read bb).1.flip) =
      (nextIFDOffset order (readEntries order count.1.toNat count.2).2).map fun next => (next.1, next.2.1) := by
    show _ = ((TIFFIFDFactory.getUnsignedInt
      (((readEntries order count.1.toNat count.2).2.read bb).1.flip)).map _).map _
    rw [Option.map_map]
    exact Option.map_id'.symm
  have hchannel : ∀ next, nextIFDOffset order (readEntries order count.1.toNat count.2).2 = some next →
      ((readEntries order count.1.toNat count.2).2.read bb).2 = next.2.2 := by
    intro next hnext
    simp only [nextIFDOffset, ByteBuffer.allocate, Option.bind_eq_some_iff, Option.map_eq_some_iff] at hnext
    obtain ⟨bb', hbb, offset, -, rfl⟩ := hnext
    obtain rfl := Option.some.inj hbb
    rfl
  simp only [GeotiffReader.readIFD, readOne]
  show (TIFFIFDFactory.getUnsignedInt (((readEntries order count.1.toNat count.2).2.read bb).1.flip)).bind _ = _
  rw [hoffset, Option.bind_map]
  cases hnext : nextIFDOffset order (readEntries order count.1.toNat count.2).2 with
  | none => rfl
  | some next =>
    obtain ⟨-, -, hlen, horder, -⟩ := nextIFDOffset_some hnext
    simp only [Option.bind_some, Function.comp]
    by_cases hpos : 0 < next.1
    · have hcount : readCount { ByteBuffer.wrap (List.replicate 2 0) with order } next.2.2 next.1 =
          readCount next.2.1 next.2.2 next.1 := by
        rw [readCount_eq (by simp [ByteBuffer.wrap]), readCount_eq hlen, horder]
      have hread : readCount { ByteBuffer.wrap (List.replicate 2 0) with order } next.2.2 next.1 =
          ((next.2.2.setPosition next.1.toNat).read
            { ByteBuffer.wrap (List.replicate 2 0) with order }).1.flip.getShort.map
            fun n => (n.1, ((next.2.2.setPosition next.1.toNat).read
              { ByteBuffer.wrap (List.replicate 2 0) with order }).2) := rfl
      rw [if_pos hpos, if_pos hpos, hchannel next hnext, ← hcount, hread]
      cases ((next.2.2.setPosition next.1.toNat).read
        { ByteBuffer.wrap (List.replicate 2 0) with order }).1.flip.getShort with
      | none => rfl
      | some n => rfl
    · rw [if_neg hpos, if_neg hpos]

/-- Where the calls return, they return what the reader without exceptions
does. -/
theorem readIFD_returned {offset : Int} {count : Int × FileChannel} (h : directoryAt order file offset = some count)
    (calls : Nat) (tiffIFDs l : List Directory) :
    readIFD order calls count.1 count.2 tiffIFDs = .returned l ↔
      ∃ ifds, GeotiffReader.readIFD order calls count.1 count.2 = some ifds ∧ l = tiffIFDs ++ ifds := by
  induction calls generalizing offset count tiffIFDs with
  | zero => simp [readIFD, GeotiffReader.readIFD]
  | succ calls ih =>
    have hone := readOne_eq h
    rw [readIFD_succ, readIFD, ← Prod.eta (readOne order count.1 count.2)]
    dsimp only
    cases hlink : (readOne order count.1 count.2).2 with
    | none => simp
    | some next =>
      cases next with
      | none => simp [eq_comm]
      | some next =>
        -- A next directory is one that a link leads to.
        obtain ⟨offset', hnext⟩ : ∃ offset', directoryAt order file offset' = some next := by
          rw [hlink] at hone
          split at hone
          · split at hone <;> cases hone
          · rename_i offset' _
            obtain ⟨count', hc, hc'⟩ := Option.map_eq_some_iff.1 hone.symm
            cases hc'
            exact ⟨offset', hc⟩
        rw [ih hnext]
        simp only [Option.map_eq_some_iff, List.append_assoc, List.singleton_append]
        constructor
        · rintro ⟨ifds, hifds, rfl⟩
          exact ⟨_, ⟨ifds, hifds, rfl⟩, rfl⟩
        · rintro ⟨_, ⟨ifds, hifds, rfl⟩, rfl⟩
          exact ⟨ifds, hifds, rfl⟩

theorem nextDirectory_bounds {offset next : Int} (h : nextDirectory order file offset = some next) :
    0 ≤ next ∧ next < 2 ^ 32 := by
  simp only [nextDirectory, Option.bind_eq_some_iff, Option.ite_none_right_eq_some, Option.some.injEq] at h
  obtain ⟨count, -, found, hfound, -, rfl⟩ := h
  obtain ⟨h1, h2, -⟩ := nextIFDOffset_some hfound
  exact ⟨h1, h2⟩

/-! ## The header -/

theorem readHeader_length (file : List Int8) : (readHeader file).1.length = 8 :=
  FileChannel.read_bytes_length _ (b := ByteBuffer.wrap (List.replicate 8 0))
    ⟨Nat.zero_le _, by simp [ByteBuffer.wrap]⟩

theorem firstIFDOffset_eq (order : ByteOrder) (file : List Int8) :
    ∃ bb, firstIFDOffset { ByteBuffer.wrap (readHeader file).1 with order } = some (firstDirectory order file, bb) ∧
      bb.bytes.length = 8 ∧ bb.order = order := by
  have hlen := readHeader_length file
  refine ⟨⟨(readHeader file).1, 8, 8, order⟩, ?_, hlen, rfl⟩
  have hposition : ({ ByteBuffer.wrap (readHeader file).1 with order } : ByteBuffer).setPosition 4 =
      some ⟨(readHeader file).1, 4, 8, order⟩ := by
    simp only [ByteBuffer.setPosition, ByteBuffer.wrap, hlen]
    rfl
  rw [firstIFDOffset, hposition, Option.bind_some]
  simp only [TIFFIFDFactory.getUnsignedInt, ByteBuffer.getInt, ByteBuffer.get, Nat.reduceAdd, le_refl, if_true,
    Option.map_some, intOf_emod]
  rfl

/-- A file with a signature: the call concludes exactly when the first count is
there and the chain from it comes to no cycle. -/
theorem readTiffHeaders_of_order (h : byteOrderOf (readHeader file).1 = some order) :
    (∃ calls, Concludes (readTiffHeaders calls file)) ↔
      (directoryAt order file (firstDirectory order file)).isSome ∧
        NoCycle (nextDirectory order file) (firstDirectory order file) := by
  obtain ⟨bb, hfirst, hlen, horder⟩ := firstIFDOffset_eq order file
  have hcount : ((firstIFDOffset { ByteBuffer.wrap (readHeader file).1 with order }).bind fun ifd =>
      readCount ifd.2 (readHeader file).2 ifd.1) = directoryAt order file (firstDirectory order file) := by
    rw [hfirst, Option.bind_some, readCount_eq (by rw [hlen]; decide), horder]
    rfl
  have hends : Ends (nextDirectory order file) (firstDirectory order file) ↔
      NoCycle (nextDirectory order file) (firstDirectory order file) := by
    refine ends_iff_of_finite (Set.finite_Ico 0 (2 ^ 32)) (fun x _ y hy => nextDirectory_bounds hy) ⟨?_, ?_⟩
    · exact Int.natCast_nonneg _
    · have := uintOf_lt order (((readHeader file).1.drop 4).take 4)
      rw [firstDirectory]
      omega
  cases hd : directoryAt order file (firstDirectory order file) with
  | none =>
    refine iff_of_false ?_ (fun hs => by simp at hs)
    rintro ⟨calls, hc⟩
    simp only [readTiffHeaders, h, hcount, hd] at hc
    rcases hc with hc | ⟨l, hc⟩ <;> cases hc
  | some count =>
    simp only [readTiffHeaders, h, hcount, hd, Option.isSome_some, true_and]
    exact (readIFD_concludes_iff hd []).trans hends

/-- For every file: the call returns directories or throws an `IOException`
exactly when the file has no signature, or it has the count of the first
directory and no directory that the offsets lead to leads back to itself. -/
theorem readTiffHeaders_concludes_iff (file : List Int8) :
    (∃ calls, Concludes (readTiffHeaders calls file)) ↔
      ∀ order, byteOrderOf (readHeader file).1 = some order →
        (directoryAt order file (firstDirectory order file)).isSome ∧
          NoCycle (nextDirectory order file) (firstDirectory order file) := by
  cases h : byteOrderOf (readHeader file).1 with
  | none =>
    refine iff_of_true ⟨0, .inl ?_⟩ (fun order horder => by cases horder)
    simp only [readTiffHeaders, h]
  | some order =>
    refine (readTiffHeaders_of_order h).trans ⟨?_, fun hall => hall order rfl⟩
    rintro hc order' horder
    cases horder
    exact hc

/-- A directory without entries that names itself as the next one. -/
def selfLinked : List Int8 := [0x49, 0x49, 0x2A, 0, 8, 0, 0, 0, 0, 0, 8, 0, 0, 0]

theorem readTiffHeaders_selfLinked : ¬ ∃ calls, Concludes (readTiffHeaders calls selfLinked) := by
  have horder : byteOrderOf (readHeader selfLinked).1 = some .littleEndian := by decide
  have hcycle : ¬ NoCycle (nextDirectory .littleEndian selfLinked) (firstDirectory .littleEndian selfLinked) :=
    not_noCycle_of_after (b := 8) (n := 0) (m := 0) (by decide +kernel) (by decide +kernel)
  exact fun h => hcycle ((readTiffHeaders_of_order horder).1 h).2

-- The header names a first directory behind the end of the file.
example : readTiffHeaders 1 [0x49, 0x49, 0x2A, 0, 8, 0, 0, 0] = .thrown .bufferUnderflow := by decide +kernel

end WorldWind.Tiff
