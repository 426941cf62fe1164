import WorldWind.Dted.Model
/-!
# What `DTED.read` makes of a file

`readRecord` takes the size of a record from the number of records, and reads
an elevation as a two's complement `short`. So a file is cut into pieces of
`12 + 2 * width` bytes, whatever its records are, and `read` accepts it exactly
when the pieces are whole and carry their sums (`read_eq`). Where a cell is
square the pieces are the records (`piece_record`).
-/

namespace WorldWind.Dted

open Lib Lib.JavaArray Lib.JavaInt Lib.Nio Lib.Grid

/-! ## Files -/

/-- A number in `k` decimal digits. -/
def decimal : Nat → Nat → List Int8
  | 0, _ => []
  | k + 1, n => decimal k (n / 10) ++ [byte (48 + n % 10)]

/-- A data record with `height` elevations. -/
structure DataRecord (height : Nat) where
  header : List Int8
  words : List Nat
  checkSum : Nat
  header_length : header.length = REC_HEADER_SIZE
  words_length : words.length = height
  words_lt : ∀ w ∈ words, w < 2 ^ 16
  checkSum_lt : checkSum < 2 ^ 32

/-- What the checksum of a record is about. -/
def DataRecord.summed {height : Nat} (r : DataRecord height) : List Int8 :=
  r.header ++ r.words.flatMap fun w : Nat => shortBytes .bigEndian w

def DataRecord.bytes {height : Nat} (r : DataRecord height) : List Int8 :=
  r.summed ++ intBytes .bigEndian r.checkSum

def DataRecord.Right {height : Nat} (r : DataRecord height) : Prop := r.checkSum = (r.summed.map ubyte).sum

/-- The elevation in a word: a sign and a magnitude. -/
def signMagnitude (w : Nat) : Int := if w < 2 ^ 15 then w else -((w - 2 ^ 15 : Nat) : Int)

/-- An angle as `DDDMMSSH`. -/
structure IsAngle (s : List Int8) (limit : Nat) (hemispheres : List Int8) : Prop where
  spells : ∃ d m s', ∃ h ∈ hemispheres, d ≤ limit ∧ m < 60 ∧ s' < 60 ∧
    s = decimal 3 d ++ decimal 2 m ++ decimal 2 s' ++ [h]

/-- A file of `width` longitude lines with `height` latitude points each. -/
structure DtedFile where
  width : Nat
  height : Nat
  uhl : List Int8
  dsi : List Int8
  acc : List Int8
  records : List (DataRecord height)
  two_le_width : 2 ≤ width
  two_le_height : 2 ≤ height
  width_lt : width < 10000
  height_lt : height < 10000
  uhl_length : uhl.length = DTED_UHL_SIZE
  uhl_id : uhl.take 3 = [85, 72, 76]
  uhl_longitude : IsAngle (substring uhl 4 8) 180 [69, 87]
  uhl_latitude : IsAngle (substring uhl 12 8) 90 [78, 83]
  uhl_width : substring uhl 47 4 = decimal 4 width
  uhl_height : substring uhl 51 4 = decimal 4 height
  dsi_length : dsi.length = DTED_DSI_SIZE
  dsi_id : dsi.take 3 = [68, 83, 73]
  acc_length : acc.length = DTED_ACC_SIZE
  acc_id : acc.take 3 = [65, 67, 67]
  records_length : records.length = width

namespace DtedFile

def data (f : DtedFile) : List Int8 := f.records.flatMap DataRecord.bytes

def bytes (f : DtedFile) : List Int8 := f.uhl ++ f.dsi ++ f.acc ++ f.data

/-- Every record carries the sum of its bytes. -/
def AllRight (f : DtedFile) : Prop := ∀ r ∈ f.records, r.Right

/-- Elevation number `i` of record `x`. -/
def elevation (f : DtedFile) (x i : Nat) : Option Int :=
  f.records[x]?.bind fun r => r.words[i]?.map signMagnitude

/-- The elevations that are not void. -/
def nonVoid (f : DtedFile) : Set ℚ := {e | ∃ x i v, f.elevation x i = some v ∧ v ≠ DTED_NODATA_VALUE ∧ (v : ℚ) = e}

/-- A raster that holds the elevations of a file and the least and the greatest
of them. -/
structure Shows (f : DtedFile) (r : DataRaster) : Prop where
  width_eq : r.width = f.width
  height_eq : r.height = f.height
  samples_eq : ∀ y x, y < f.height → x < f.width → r.samples[y * f.width + x]? = f.elevation x (f.height - 1 - y)
  min_eq : ∀ m, IsLeast f.nonVoid m → r.elevationMin = m
  max_eq : ∀ m, IsGreatest f.nonVoid m → r.elevationMax = m

/-- `read` accepts a file exactly when its checksums are right, and then shows
it. -/
def ReadRight (f : DtedFile) : Prop := ((read f.bytes).isSome ↔ f.AllRight) ∧ ∀ r, read f.bytes = some r → f.Shows r

end DtedFile

/-! ## Strings and headers -/

theorem decimal_length (k n : Nat) : (decimal k n).length = k := by
  induction k generalizing n with
  | zero => rfl
  | succ k ih => rw [decimal, List.length_append, ih, List.length_singleton]

theorem mem_decimal {k n : Nat} {b : Int8} (h : b ∈ decimal k n) : ∃ c < 10, b = byte (48 + c) := by
  induction k generalizing n with
  | zero => cases h
  | succ k ih =>
    rw [decimal, List.mem_append] at h
    rcases h with h | h
    · exact ih h
    · exact ⟨n % 10, Nat.mod_lt _ (by omega), List.mem_singleton.1 h⟩

theorem digit_bounds {c : Nat} (h : c < 10) :
    48 ≤ byte (48 + c) ∧ byte (48 + c) ≤ 57 ∧ ((byte (48 + c)).toInt - 48).toNat = c := by
  interval_cases c <;> decide

theorem digits_decimal {k n : Nat} (hk : 0 < k) (h : n < 10 ^ k) : digits (decimal k n) = some n := by
  have hfold : ∀ k n : Nat, n < 10 ^ k → (decimal k n).foldlM addDigit 0 = some n := by
    intro k
    induction k with
    | zero =>
      intro n hn
      obtain rfl : n = 0 := by simpa using hn
      rfl
    | succ k ih =>
      intro n hn
      rw [Nat.pow_succ] at hn
      obtain ⟨h1, h2, h3⟩ := digit_bounds (Nat.mod_lt n (by omega : 0 < 10))
      rw [decimal, List.foldlM_append, ih (n / 10) (by omega)]
      show (addDigit (n / 10) (byte (48 + n % 10))).bind some = some n
      rw [addDigit, if_pos ⟨h1, h2⟩, h3, Option.bind_some]
      congr 1
      omega
  rw [digits, if_neg (by rw [← List.length_eq_zero_iff, decimal_length]; omega), hfold k n h]

theorem parseInt_decimal {k n : Nat} (hk : 0 < k) (h : n < 10 ^ k) : parseInt (decimal k n) = some (n : Int) := by
  have hlow : ∀ b ∈ decimal k n, 48 ≤ b := by
    intro b hb
    obtain ⟨c, hc, rfl⟩ := mem_decimal hb
    exact (digit_bounds hc).1
  have hdigits := digits_decimal hk h
  unfold parseInt
  split
  · rename_i heq
    exact absurd (hlow 45 (heq ▸ List.mem_cons_self)) (by decide)
  · rename_i heq
    exact absurd (hlow 43 (heq ▸ List.mem_cons_self)) (by decide)
  · rw [hdigits, Option.map_some]

theorem trim_eq {s : List Int8} (h : ∀ b ∈ s, 32 < b) : trim s = s := by
  have hkeep : ∀ t : List Int8, (∀ b ∈ t, 32 < b) → (t.dropWhile fun b => decide (0 ≤ b ∧ b ≤ 32)) = t := by
    intro t ht
    cases t with
    | nil => rfl
    | cons b t =>
      refine List.dropWhile_cons_of_neg ?_
      simp only [decide_eq_true_eq, not_and]
      exact fun _ => Int8.not_le.2 (ht b List.mem_cons_self)
  rw [trim, hkeep s h, hkeep s.reverse fun b hb => h b (List.mem_reverse.1 hb), List.reverse_reverse]

theorem readAngle_isSome {s : List Int8} {limit : Nat} {hemispheres : List Int8} (h : IsAngle s limit hemispheres)
    (hlimit : limit < 1000) (hh : ∀ b ∈ hemispheres, b = 69 ∨ b = 87 ∨ b = 78 ∨ b = 83) :
    ∃ angle, readAngle s = some angle := by
  obtain ⟨d, m, s', b, hb, hd, hm, hs, rfl⟩ := h.spells
  have hletter := hh b hb
  have hlow : ∀ c ∈ decimal 3 d ++ decimal 2 m ++ decimal 2 s' ++ [b], 32 < c := by
    intro c hc
    have hdigit : ∀ k n, c ∈ decimal k n → 32 < c := by
      intro k n hc
      obtain ⟨e, he, rfl⟩ := mem_decimal hc
      exact Int8.lt_of_lt_of_le (by decide) (digit_bounds he).1
    simp only [List.mem_append, List.mem_singleton] at hc
    rcases hc with ((hc | hc) | hc) | rfl
    · exact hdigit _ _ hc
    · exact hdigit _ _ hc
    · exact hdigit _ _ hc
    · rcases hletter with rfl | rfl | rfl | rfl <;> decide
  have hd3 : (decimal 3 d ++ decimal 2 m).length = 5 := by rw [List.length_append, decimal_length, decimal_length]
  have hd5 : (decimal 3 d ++ decimal 2 m ++ decimal 2 s').length = 7 := by
    rw [List.length_append, hd3, decimal_length]
  have hlen : (decimal 3 d ++ decimal 2 m ++ decimal 2 s' ++ [b]).length = 8 := by
    rw [List.length_append, hd5, List.length_singleton]
  have hdegrees : (decimal 3 d ++ decimal 2 m ++ decimal 2 s' ++ [b]).take 3 = decimal 3 d := by
    rw [List.append_assoc, List.append_assoc, List.take_left' (decimal_length 3 d)]
  have hminutes : ((decimal 3 d ++ decimal 2 m ++ decimal 2 s' ++ [b]).drop 3).take 2 = decimal 2 m := by
    rw [List.append_assoc, List.append_assoc, List.drop_left' (decimal_length 3 d),
      List.take_left' (decimal_length 2 m)]
  have hseconds : ((decimal 3 d ++ decimal 2 m ++ decimal 2 s' ++ [b]).drop 5).take 2 = decimal 2 s' := by
    rw [List.append_assoc, List.drop_left' hd3, List.take_left' (decimal_length 2 s')]
  simp only [readAngle, trim_eq hlow, hlen, hdegrees, hminutes, hseconds, List.drop_left' hd5]
  rw [fromDMS, digits_decimal (by omega) (by omega), Option.bind_some, digits_decimal (by omega) (by omega),
    Option.bind_some, digits_decimal (by omega) (by omega), Option.bind_some, if_neg (by omega)]
  rcases hletter with rfl | rfl | rfl | rfl <;> exact ⟨_, rfl⟩

/-- A header that is where it is read. -/
theorem readHeader_eq (before header after : List Int8) (channel : FileChannel)
    (hcontent : channel.content = before ++ header ++ after) {id : List Int8} (hid : header.take 3 = id) :
    ∃ c : FileChannel, c.content = channel.content ∧
      readHeader channel before.length header.length id = some (header, c) := by
  have hpart : ((before ++ header ++ after).drop before.length).take header.length = header := by
    rw [List.append_assoc, List.drop_left, List.take_left]
  have hbytes : ((channel.setPosition before.length).read
      (ByteBuffer.wrap (List.replicate header.length 0))).1.bytes = header := by
    simp only [FileChannel.read, FileChannel.setPosition, ByteBuffer.wrap, List.length_replicate, Nat.sub_zero,
      hcontent, hpart, blit_zero, List.drop_replicate, Nat.sub_self, List.replicate_zero, List.append_nil]
  refine ⟨((channel.setPosition before.length).read (ByteBuffer.wrap (List.replicate header.length 0))).2,
    by simp, ?_⟩
  rw [readHeader, hbytes, if_pos (by rw [hid, equalsIgnoreCase, beq_self_eq_true])]

/-- The header records of a file are read, and the data is left. -/
theorem DtedFile.read_bytes (f : DtedFile) :
    ∃ metadata : Metadata, ∃ channel : FileChannel, metadata.width = f.width ∧ metadata.height = f.height ∧
      channel.content = f.bytes ∧ read f.bytes = readElevations channel DTED_DATA_OFFSET metadata := by
  obtain ⟨lon, hlon⟩ := readAngle_isSome f.uhl_longitude (by omega) (by simp)
  obtain ⟨lat, hlat⟩ := readAngle_isSome f.uhl_latitude (by omega) (by simp)
  obtain ⟨c1, hc1, huhl⟩ := readHeader_eq [] f.uhl (f.dsi ++ f.acc ++ f.data) ⟨f.bytes, 0⟩
    (by simp [DtedFile.bytes]) f.uhl_id
  obtain ⟨c2, hc2, hdsi⟩ := readHeader_eq f.uhl f.dsi (f.acc ++ f.data) c1 (by simp [hc1, DtedFile.bytes]) f.dsi_id
  obtain ⟨c3, hc3, hacc⟩ := readHeader_eq (f.uhl ++ f.dsi) f.acc f.data c2
    (by simp [hc2, hc1, DtedFile.bytes]) f.acc_id
  rw [f.uhl_length] at huhl hdsi
  rw [f.dsi_length] at hdsi
  rw [List.length_append, f.uhl_length, f.dsi_length, f.acc_length] at hacc
  have hwidth := parseInt_decimal (k := 4) (by omega) f.width_lt
  have hheight := parseInt_decimal (k := 4) (by omega) f.height_lt
  have hmetadata : ∃ metadata : Metadata, metadata.width = f.width ∧ metadata.height = f.height ∧
      readUHL ⟨f.bytes, 0⟩ DTED_UHL_OFFSET = some (metadata, c1) := by
    rw [readUHL, show DTED_UHL_OFFSET = ([] : List Int8).length from rfl, huhl, Option.bind_some, f.uhl_width, hwidth,
      Option.bind_some, f.uhl_height, hheight, Option.bind_some, hlon, Option.bind_some, hlat, Option.map_some]
    exact ⟨_, rfl, rfl, rfl⟩
  obtain ⟨metadata, hw, hh, hmetadata⟩ := hmetadata
  refine ⟨metadata, c3, hw, hh, by rw [hc3, hc2, hc1], ?_⟩
  rw [read, hmetadata, Option.bind_some, readDSI, show DTED_DSI_OFFSET = DTED_UHL_SIZE from rfl, hdsi,
    Option.map_some,
    Option.bind_some, readACC, show DTED_ACC_OFFSET = DTED_UHL_SIZE + DTED_DSI_SIZE from rfl, hacc, Option.map_some,
    Option.bind_some]

/-! ## A piece of the data -/

/-- The size `readElevations` takes a record to have. -/
def recordSize (width : Nat) : Nat := REC_HEADER_SIZE + width * 16 / 8 + REC_CHKSUM_SIZE

theorem recordSize_eq (width : Nat) : recordSize width = 2 * width + 12 := by
  simp only [recordSize, REC_HEADER_SIZE, REC_CHKSUM_SIZE]
  omega

/-- The elevation a piece has for line `i`. -/
def elevationOf (piece : List Int8) (i : Nat) : Int := shortOf .bigEndian ((piece.drop (2 * (i + 4))).take 2)

/-- A piece is whole, has an elevation for each line and carries its sum. -/
structure Accepted (width height : Nat) (piece : List Int8) : Prop where
  length_eq : piece.length = recordSize width
  height_le : height ≤ width + 2
  sum_eq : uintOf .bigEndian (piece.drop (2 * width + 8)) = ((piece.take (2 * width + 8)).map ubyte).sum

/-- The samples a column gets. -/
def column (width height x : Nat) (piece : List Int8) : List (Nat × Int) :=
  (List.range height).map fun i => ((height - i - 1) * width + x, elevationOf piece i)

/-- The extremes after a column. -/
def Extremes.addAll (m : Extremes) (elevations : List Int) : Extremes := elevations.foldl Extremes.add m

theorem dataChkSum_eq (b : ByteBuffer) (hb : b.Valid) (n : Nat) (hn : n ≤ b.limit) :
    dataChkSum b n = some (int ((b.bytes.take n).map ubyte).sum) := by
  have hlim := hb.limit_le
  induction n with
  | zero =>
    rw [List.take_zero, List.map_nil, List.sum_nil, Nat.cast_zero, int_eq (by omega) (by omega)]
    rfl
  | succ n ih =>
    have hbyte : b.getAt n = some b.bytes[n] := by
      rw [ByteBuffer.getAt, if_pos (by omega), List.getElem?_eq_getElem (by omega)]
    have hsum : ((b.bytes.take (n + 1)).map ubyte).sum = ((b.bytes.take n).map ubyte).sum + ubyte b.bytes[n] := by
      rw [List.take_succ_eq_append_getElem (by omega), List.map_append, List.sum_append]
      simp
    rw [dataChkSum] at ih ⊢
    rw [List.range_succ, List.foldlM_append, ih (by omega), hsum, Nat.cast_add, ← int_int_add]
    show ((b.getAt n).map _).bind some = _
    rw [hbyte, Option.map_some, Option.bind_some]

/-- A short of a piece, if the piece reaches that far. -/
theorem getElem?_shorts (l : List Int8) (k : Nat) :
    ((ushortsOf .bigEndian l).map fun n : Nat => short n)[k]? =
      if 2 * k + 2 ≤ l.length then some (shortOf .bigEndian ((l.drop (2 * k)).take 2)) else none := by
  simp only [ushortsOf, records, List.map_map]
  by_cases hk : 2 * k + 2 ≤ l.length
  · rw [if_pos hk, List.getElem?_map, List.getElem?_range (by omega), Option.map_some, Function.comp_apply,
      Function.comp_apply, shortOf_eq]
  · rw [if_neg hk, List.getElem?_eq_none]
    rw [List.length_map, List.length_range]
    omega

theorem foldlM_readElevation (data : List Int) (v : Nat → Int) (width height x : Nat) (l : List Nat)
    (h : ∀ i ∈ l, data[i + 4]? = some (v i)) (samples : List Int) (m : Extremes) :
    l.foldlM (readElevation data width height x) (samples, m) =
      (writes samples (l.map fun i => ((height - i - 1) * width + x, v i))).map fun samples =>
        (samples, m.addAll (l.map v)) := by
  induction l generalizing samples m with
  | nil => rfl
  | cons i l ih =>
    rw [List.map_cons, List.map_cons, writes, List.foldlM_cons, List.foldlM_cons, readElevation,
      h i List.mem_cons_self, Option.bind_some]
    cases write samples ((height - i - 1) * width + x) (v i) with
    | none => rfl
    | some samples' => exact ih (fun j hj => h j (List.mem_cons_of_mem _ hj)) samples' (m.add (v i))

/-- A line that the data does not reach. -/
theorem foldlM_readElevation_none {data : List Int} {height : Nat} (width x : Nat) {i : Nat} (hi : i < height)
    (h : data[i + 4]? = none) (s : List Int × Extremes) :
    (List.range height).foldlM (readElevation data width height x) s = none := by
  obtain ⟨n, rfl⟩ : ∃ n, height = i + (n + 1) := ⟨height - i - 1, by omega⟩
  rw [List.range_add, List.range_succ_eq_map, List.map_cons, List.foldlM_append]
  refine Option.bind_eq_none_iff.2 fun t _ => ?_
  rw [List.foldlM_cons, readElevation, h]
  rfl

theorem sum_ubyte_le (l : List Int8) : (l.map ubyte).sum ≤ 255 * l.length := by
  induction l with
  | nil => simp
  | cons b l ih =>
    have := ubyte_lt b
    rw [List.map_cons, List.sum_cons, List.length_cons]
    omega

/-- Two shorts as an `int`. -/
theorem shorts_uintOf {l : List Int8} (h : l.length = 4) :
    shortOf .bigEndian (l.take 2) % 2 ^ 16 * 2 ^ 16 + shortOf .bigEndian (l.drop 2) % 2 ^ 16 =
      (uintOf .bigEndian l : Int) := by
  obtain ⟨a, b, c, d, rfl⟩ : ∃ a b c d, l = [a, b, c, d] := by
    match l, h with
    | [a, b, c, d], _ => exact ⟨a, b, c, d, rfl⟩
  rw [shortOf_emod, shortOf_emod]
  simp only [List.take_succ_cons, List.take_zero, List.drop_succ_cons, List.drop_zero, ushortOf, uintOf, wordOf]
  omega

/-- An `int` of four bytes is the `int` of a small number exactly when the bytes
are that number. -/
theorem int_eq_int_iff {n m : Nat} (hn : n < 2 ^ 32) (hm : m < 2 ^ 31) : int n = int m ↔ n = m := by
  rw [int_eq (x := m) (by omega) (by omega)]
  by_cases hsmall : n < 2 ^ 31
  · rw [int_eq (by omega) (by omega)]
    omega
  · have := int_overflow (x := n) (by omega) (by omega)
    omega

/-- One round accepts exactly an accepted piece, and fills a column with it. -/
theorem readRecord_eq {width : Nat} (height x : Nat) (hwidth : width < 10000) {s : State} (hv : s.bb.Valid)
    (hposition : s.bb.position = 0) (hlimit : s.bb.limit = recordSize width) (horder : s.bb.order = .bigEndian)
    {piece : List Int8} (hpiece : (s.theChannel.content.drop s.theChannel.position).take (recordSize width) = piece) :
    (Accepted width height piece → ∃ bb : ByteBuffer, bb.Valid ∧ bb.position = 0 ∧ bb.limit = recordSize width ∧
      bb.order = .bigEndian ∧ readRecord width height s x =
        (writes s.samples (column width height x piece)).map fun samples =>
          ⟨s.theChannel.setPosition (s.theChannel.position + recordSize width), bb, samples,
            s.extremes.addAll ((List.range height).map (elevationOf piece))⟩) ∧
    (¬ Accepted width height piece → readRecord width height s x = none) := by
  have hsize := recordSize_eq width
  have hle : piece.length ≤ recordSize width := hpiece ▸ List.length_take_le _ _
  obtain ⟨hfv, hfo, hfr⟩ := FileChannel.read_flip s.theChannel hv hposition
  rw [hlimit, hpiece] at hfr
  rw [horder] at hfo
  have hpart : (s.theChannel.read s.bb).2 = s.theChannel.setPosition (s.theChannel.position + piece.length) := by
    simp only [FileChannel.read, FileChannel.setPosition, hlimit, hposition, Nat.sub_zero, hpiece]
  have hfp : (s.theChannel.read s.bb).1.flip.position = 0 := rfl
  have hfl : (s.theChannel.read s.bb).1.flip.limit = piece.length := by
    rw [← hfr, ByteBuffer.remaining_length hfv, hfp, Nat.sub_zero]
  have hfc : (s.theChannel.read s.bb).1.flip.content = piece := by
    rw [← hfr, ByteBuffer.remaining, hfp, List.drop_zero]
  have hdata : ∀ k, (s.theChannel.read s.bb).1.flip.asShortBuffer[k]? =
      if 2 * k + 2 ≤ piece.length then some (shortOf .bigEndian ((piece.drop (2 * k)).take 2)) else none := by
    intro k
    rw [ByteBuffer.asShortBuffer, hfr, hfo, getElem?_shorts]
  unfold readRecord
  simp only [hpart]
  generalize (s.theChannel.read s.bb).1.flip = bb at *
  by_cases hlen : piece.length = recordSize width
  · by_cases hheight : height ≤ width + 2
    · have hsum : dataChkSum bb (recordSize width - REC_CHKSUM_SIZE) =
          some (int ((piece.take (2 * width + 8)).map ubyte).sum) := by
        have hn : recordSize width - REC_CHKSUM_SIZE = 2 * width + 8 := by
          rw [hsize, REC_CHKSUM_SIZE]
          omega
        rw [hn, dataChkSum_eq bb hfv _ (by omega), ← hfc, ByteBuffer.content, List.take_take,
          Nat.min_eq_left (by omega)]
      have hfold := foldlM_readElevation bb.asShortBuffer (elevationOf piece) width height x (List.range height)
        (fun i hi => by
          have := List.mem_range.1 hi
          rw [hdata, if_pos (by omega), elevationOf]) s.samples s.extremes
      have hhi : bb.asShortBuffer[width + REC_CHKSUM_SIZE]? =
          some (shortOf .bigEndian ((piece.drop (2 * width + 8)).take 2)) := by
        rw [hdata, if_pos (by rw [REC_CHKSUM_SIZE]; omega), REC_CHKSUM_SIZE, Nat.mul_add]
      have hlo : bb.asShortBuffer[width + REC_CHKSUM_SIZE + 1]? =
          some (shortOf .bigEndian ((piece.drop (2 * width + 8)).drop 2)) := by
        rw [hdata, if_pos (by rw [REC_CHKSUM_SIZE]; omega), List.drop_drop, List.take_of_length_le]
        · rw [REC_CHKSUM_SIZE, Nat.mul_add, Nat.mul_add]
        · rw [List.length_drop, REC_CHKSUM_SIZE]
          omega
      have hword := shorts_uintOf (l := piece.drop (2 * width + 8)) (by rw [List.length_drop]; omega)
      have hbound := sum_ubyte_le (piece.take (2 * width + 8))
      have hcheck := int_eq_int_iff (uintOf_lt .bigEndian (piece.drop (2 * width + 8)))
        (m := ((piece.take (2 * width + 8)).map ubyte).sum) (by rw [List.length_take] at hbound; omega)
      rw [show REC_HEADER_SIZE + width * 16 / 8 + REC_CHKSUM_SIZE = recordSize width from rfl, hsum, Option.bind_some,
        hfold, hlen]
      constructor
      · intro h
        refine ⟨bb, hfv, hfp, by rw [hfl, hlen], hfo, ?_⟩
        have hok := hcheck.2 h.sum_eq
        cases hw : writes s.samples (column width height x piece) with
        | none =>
          rw [column] at hw
          rw [hw]
          rfl
        | some samples =>
          rw [column] at hw
          rw [hw, Option.map_some, Option.bind_some, hhi, Option.bind_some, hlo, Option.bind_some, hword,
            if_neg (by rw [hok]; exact fun hne => hne rfl)]
          rfl
      · intro h
        have hbad : uintOf .bigEndian (piece.drop (2 * width + 8)) ≠
            ((piece.take (2 * width + 8)).map ubyte).sum := fun heq => h ⟨hlen, hheight, heq⟩
        refine Option.bind_eq_none_iff.2 fun t _ => ?_
        rw [hhi, Option.bind_some, hlo, Option.bind_some, hword, if_pos (fun heq => hbad (hcheck.1 heq))]
    · refine ⟨fun h => absurd h.height_le hheight, fun _ => Option.bind_eq_none_iff.2 fun sum _ => ?_⟩
      rw [foldlM_readElevation_none width x (i := width + 2) (by omega)]
      · rfl
      · rw [hdata, if_neg (by omega)]
  · refine ⟨fun h => absurd h.length_eq hlen, fun _ => Option.bind_eq_none_iff.2 fun sum _ =>
      Option.bind_eq_none_iff.2 fun t _ => Option.bind_eq_none_iff.2 fun hi _ => ?_⟩
    rw [hdata, if_neg (by rw [REC_CHKSUM_SIZE]; omega)]
    rfl

/-! ## All pieces -/

/-- What lies where `readElevations` looks for record `x`. -/
def pieceAt (data : List Int8) (width x : Nat) : List Int8 :=
  (data.drop (x * recordSize width)).take (recordSize width)

/-- The samples after `n` columns. -/
def columns (data : List Int8) (width height n : Nat) : List Int :=
  grid (height * width) width fun y x => if x < n then elevationOf (pieceAt data width x) (height - 1 - y) else 0

/-- The elevations of `n` columns in the order they are read. -/
def elevations (data : List Int8) (width height n : Nat) : List Int :=
  (List.range n).flatMap fun x => (List.range height).map (elevationOf (pieceAt data width x))

theorem columns_zero (data : List Int8) (width height : Nat) :
    columns data width height 0 = List.replicate (height * width) 0 := by
  simp [columns, grid]

theorem writes_column (data : List Int8) {width n : Nat} (height : Nat) (hn : n < width) :
    writes (columns data width height n) (column width height n (pieceAt data width n)) =
      some (columns data width height (n + 1)) := by
  refine writes_grid (by omega) (fun c hc => ?_) fun y x hx hlt hout => ?_
  · obtain ⟨i, hi, rfl⟩ := List.mem_map.1 hc
    have hi := List.mem_range.1 hi
    refine ⟨height - i - 1, n, hn, cell_lt (by omega) hn, ?_⟩
    rw [if_pos (by omega), show height - 1 - (height - i - 1) = i by omega]
  · have hy : y < height := by
      by_contra hge
      have := Nat.mul_le_mul_right width (Nat.le_of_not_lt hge)
      omega
    have hne : x ≠ n := by
      rintro rfl
      refine hout _ (List.mem_map.2 ⟨height - 1 - y, List.mem_range.2 (by omega), rfl⟩) ?_
      show (height - (height - 1 - y) - 1) * width + x = y * width + x
      rw [show height - (height - 1 - y) - 1 = y by omega]
    by_cases hxn : x < n
    · rw [if_pos hxn, if_pos (by omega)]
    · rw [if_neg hxn, if_neg (by omega)]

theorem elevations_succ (data : List Int8) (width height n : Nat) :
    elevations data width height (n + 1) =
      elevations data width height n ++ (List.range height).map (elevationOf (pieceAt data width n)) := by
  rw [elevations, elevations, List.range_succ, List.flatMap_append, List.flatMap_singleton]

section Run

variable {width : Nat} (height : Nat) (data before : List Int8) {s : State}

/-- The first `n` rounds. -/
theorem readRecords_eq (hwidth : width < 10000) (hcontent : s.theChannel.content = before ++ data)
    (hat : s.theChannel.position = before.length) (hv : s.bb.Valid) (hposition : s.bb.position = 0)
    (hlimit : s.bb.limit = recordSize width) (horder : s.bb.order = .bigEndian)
    (hsamples : s.samples = columns data width height 0) {n : Nat} (hn : n ≤ width) :
    ((∀ x < n, Accepted width height (pieceAt data width x)) → ∃ t : State,
      (List.range n).foldlM (readRecord width height) s = some t ∧
      t.theChannel = ⟨before ++ data, before.length + n * recordSize width⟩ ∧ t.bb.Valid ∧ t.bb.position = 0 ∧
      t.bb.limit = recordSize width ∧ t.bb.order = .bigEndian ∧ t.samples = columns data width height n ∧
      t.extremes = s.extremes.addAll (elevations data width height n)) ∧
    (¬ (∀ x < n, Accepted width height (pieceAt data width x)) →
      (List.range n).foldlM (readRecord width height) s = none) := by
  induction n with
  | zero =>
    refine ⟨fun _ => ⟨s, rfl, ?_, hv, hposition, hlimit, horder, hsamples, rfl⟩, fun h => absurd (by omega) h⟩
    rw [Nat.zero_mul, Nat.add_zero, ← hcontent, ← hat]
  | succ n ih =>
    obtain ⟨ihall, ihnot⟩ := ih (by omega)
    rw [List.range_succ, List.foldlM_append]
    by_cases hfront : ∀ x < n, Accepted width height (pieceAt data width x)
    · obtain ⟨t, hrun, hchannel, htv, htp, htl, hto, hts, hte⟩ := ihall hfront
      have hpiece : (t.theChannel.content.drop t.theChannel.position).take (recordSize width) =
          pieceAt data width n := by
        rw [hchannel, ← List.drop_drop, List.drop_left, pieceAt]
      obtain ⟨hacc, hrej⟩ := readRecord_eq height n hwidth htv htp htl hto hpiece
      rw [hrun]
      constructor
      · intro hall
        obtain ⟨bb, hbv, hbp, hbl, hbo, hround⟩ := hacc (hall n (by omega))
        refine ⟨⟨⟨before ++ data, before.length + (n + 1) * recordSize width⟩, bb, columns data width height (n + 1),
          s.extremes.addAll (elevations data width height (n + 1))⟩, ?_, rfl, hbv, hbp, hbl, hbo, rfl, rfl⟩
        show (readRecord width height t n).bind some = _
        rw [hround, hts, writes_column data height (by omega), hte, hchannel, elevations_succ, Extremes.addAll,
          Extremes.addAll, Extremes.addAll, List.foldl_append, Nat.succ_mul, ← Nat.add_assoc]
        rfl
      · intro hnot
        have hlast : ¬ Accepted width height (pieceAt data width n) := fun h => hnot fun x hx => by
          rcases Nat.lt_succ_iff_lt_or_eq.1 hx with hx | rfl
          · exact hfront x hx
          · exact h
        show (readRecord width height t n).bind some = none
        rw [hrej hlast]
        rfl
    · rw [ihnot hfront]
      exact ⟨fun h => absurd (fun x hx => h x (by omega)) hfront, fun _ => rfl⟩

end Run

/-- The raster of a file whose pieces are accepted. -/
def rasterOf (data : List Int8) (width height : Nat) : DataRaster :=
  let m := Extremes.addAll ⟨maxValue, minValue⟩ (elevations data width height width)
  ⟨width, height, columns data width height width, m.min, m.max⟩

/-- `read` on a file: it accepts the pieces, all or nothing. -/
theorem DtedFile.read_eq (f : DtedFile) :
    ((∀ x < f.width, Accepted f.width f.height (pieceAt f.data f.width x)) →
      read f.bytes = some (rasterOf f.data f.width f.height)) ∧
    (¬ (∀ x < f.width, Accepted f.width f.height (pieceAt f.data f.width x)) → read f.bytes = none) := by
  obtain ⟨metadata, channel, hw, hh, hcontent, hread⟩ := f.read_bytes
  have htwo := f.two_le_width
  have htwo' := f.two_le_height
  have hwidth : metadata.width.toNat = f.width := by rw [hw, Int.toNat_natCast]
  have hheight : metadata.height.toNat = f.height := by rw [hh, Int.toNat_natCast]
  have hlen : (f.uhl ++ f.dsi ++ f.acc).length = DTED_DATA_OFFSET := by
    rw [List.length_append, List.length_append, f.uhl_length, f.dsi_length, f.acc_length]
    rfl
  have hvalid : (⟨List.replicate (recordSize f.width) 0, 0, recordSize f.width, .bigEndian⟩ : ByteBuffer).Valid :=
    ⟨Nat.zero_le _, by rw [List.length_replicate]⟩
  obtain ⟨hall, hnot⟩ := readRecords_eq f.height f.data (f.uhl ++ f.dsi ++ f.acc)
    (s := ⟨channel.setPosition DTED_DATA_OFFSET,
      ⟨List.replicate (recordSize f.width) 0, 0, recordSize f.width, .bigEndian⟩,
      List.replicate (f.height * f.width) 0, ⟨maxValue, minValue⟩⟩)
    f.width_lt (by exact hcontent) hlen.symm hvalid rfl rfl rfl
    (columns_zero _ _ _).symm (le_refl f.width)
  have hgo : read f.bytes = ((List.range f.width).foldlM (readRecord f.width f.height)
      ⟨channel.setPosition DTED_DATA_OFFSET,
        ⟨List.replicate (recordSize f.width) 0, 0, recordSize f.width, .bigEndian⟩,
        List.replicate (f.height * f.width) 0, ⟨maxValue, minValue⟩⟩).map fun s =>
      ⟨f.width, f.height, s.samples, s.extremes.min, s.extremes.max⟩ := by
    have hallocate : ByteBuffer.allocate (recordSize f.width) =
        some ⟨List.replicate (recordSize f.width) 0, 0, recordSize f.width, .bigEndian⟩ := if_neg (by omega)
    rw [hread, readElevations, if_neg (by omega), hwidth, hheight]
    exact congrArg (fun o : Option ByteBuffer => o.bind _) hallocate
  rw [hgo]
  constructor
  · intro h
    obtain ⟨t, hrun, -, -, -, -, -, hts, hte⟩ := hall h
    rw [hrun, Option.map_some, hts, hte]
    rfl
  · intro h
    rw [hnot h]
    rfl

/-! ## Records -/

section Record

variable {height : Nat} (r : DataRecord height)

theorem DataRecord.summed_length : r.summed.length = 2 * height + 8 := by
  rw [summed, List.length_append, r.header_length, length_flatMap_const fun w : Nat => shortBytes_length .bigEndian w,
    r.words_length, REC_HEADER_SIZE, Nat.add_comm]

theorem DataRecord.bytes_length : r.bytes.length = 2 * height + 12 := by
  rw [bytes, List.length_append, r.summed_length, intBytes_length]

/-- The elevation in a word is read as a two's complement number. -/
theorem DataRecord.elevationOf_eq {i : Nat} (hi : i < height) {n : Nat} (hn : 2 * i + 10 ≤ n) (rest : List Int8) :
    ∃ w, r.words[i]? = some w ∧ elevationOf ((r.bytes ++ rest).take n) i = short w := by
  have hw : r.words[i]? = some (r.words.get ⟨i, r.words_length.symm ▸ hi⟩) := List.getElem?_eq_getElem _
  generalize r.words.get ⟨i, r.words_length.symm ▸ hi⟩ = w at hw
  have hlt : w < 2 ^ 16 := r.words_lt w (List.mem_of_getElem? hw)
  refine ⟨w, hw, ?_⟩
  have hdrop : (r.bytes ++ rest).drop (2 * (i + 4)) =
      shortBytes .bigEndian w ++ ((r.words.drop (i + 1)).flatMap fun w : Nat => shortBytes .bigEndian w) ++
        intBytes .bigEndian r.checkSum ++ rest := by
    obtain ⟨hi', hget⟩ := List.getElem?_eq_some_iff.1 hw
    have hhead : 2 * (i + 4) = r.header.length + 2 * i := by
      rw [r.header_length, REC_HEADER_SIZE]
      omega
    have hflat := length_flatMap_const (fun w : Nat => shortBytes_length .bigEndian w) r.words
    rw [DataRecord.bytes, DataRecord.summed, hhead, List.append_assoc, List.append_assoc, ← List.drop_drop,
      List.drop_left,
      List.drop_append_of_le_length (by omega), drop_flatMap fun w : Nat => shortBytes_length .bigEndian w,
      List.drop_eq_getElem_cons hi', List.flatMap_cons, hget, List.append_assoc, List.append_assoc, List.append_assoc]
  rw [elevationOf, List.drop_take, List.take_take, Nat.min_eq_left (by omega), hdrop, List.append_assoc,
    List.append_assoc, List.take_left' (shortBytes_length _ _), shortOf_eq, ushortOf_shortBytes _ hlt]

theorem DataRecord.accepted_iff : Accepted height height r.bytes ↔ r.Right := by
  have hdrop : r.bytes.drop (2 * height + 8) = intBytes .bigEndian r.checkSum := by
    rw [bytes, List.drop_left' r.summed_length]
  have htake : r.bytes.take (2 * height + 8) = r.summed := by
    rw [bytes, List.take_left' r.summed_length]
  constructor
  · intro h
    have := h.sum_eq
    rwa [hdrop, htake, uintOf_intBytes _ r.checkSum_lt] at this
  · intro h
    refine ⟨by rw [r.bytes_length, recordSize_eq], by omega, ?_⟩
    rw [hdrop, htake, uintOf_intBytes _ r.checkSum_lt]
    exact h

end Record

/-- Two's complement and a sign with a magnitude agree on the numbers that are
not negative, and on one that is. -/
theorem short_eq_signMagnitude {w : Nat} (h : w < 2 ^ 16) : short w = signMagnitude w ↔ w < 2 ^ 15 ∨ w = 0xC000 := by
  have hshort : short w = if w < 2 ^ 15 then (w : Int) else w - 2 ^ 16 := by
    split
    · have := short_emod (x := w) (by omega) (by omega)
      rwa [Int.emod_eq_of_lt (by omega) (by omega)] at this
    · have := short_emod (x := (w : Int) - 2 ^ 16) (by omega) (by omega)
      rwa [show ((w : Int) - 2 ^ 16) % 2 ^ 16 = w by omega] at this
  rw [hshort, signMagnitude]
  split <;> omega

/-! ## The extremes -/

/-- The elevations of a list that are not void. -/
def nonVoidOf (l : List Int) : Set ℚ := {e | ∃ v ∈ l, v ≠ DTED_NODATA_VALUE ∧ (v : ℚ) = e}

theorem nonVoidOf_cons (v : Int) (l : List Int) :
    nonVoidOf (v :: l) = if v ≠ DTED_NODATA_VALUE then insert (v : ℚ) (nonVoidOf l) else nonVoidOf l := by
  ext e
  split <;> simp [nonVoidOf, *, eq_comm]

theorem isLeast_insert_min {s : Set ℚ} {a b c : ℚ} (h : IsLeast (insert (min a b) s) c) :
    IsLeast (insert b (insert a s)) c := by
  refine ⟨?_, fun e he => ?_⟩
  · rcases h.1 with rfl | hc
    · rcases min_choice a b with hm | hm <;> simp [hm]
    · simp [hc]
  · rcases he with rfl | rfl | he
    · exact (h.2 (Set.mem_insert _ _)).trans (min_le_right a e)
    · exact (h.2 (Set.mem_insert _ _)).trans (min_le_left e b)
    · exact h.2 (Set.mem_insert_of_mem _ he)

theorem isGreatest_insert_max {s : Set ℚ} {a b c : ℚ} (h : IsGreatest (insert (max a b) s) c) :
    IsGreatest (insert a (insert b s)) c := by
  refine ⟨?_, fun e he => ?_⟩
  · rcases h.1 with rfl | hc
    · rcases max_choice a b with hm | hm <;> simp [hm]
    · simp [hc]
  · rcases he with rfl | rfl | he
    · exact (le_max_left e b).trans (h.2 (Set.mem_insert _ _))
    · exact (le_max_right a e).trans (h.2 (Set.mem_insert _ _))
    · exact h.2 (Set.mem_insert_of_mem _ he)

/-- The least and the greatest among what there was and what was added. -/
theorem addAll_extremes (m : Extremes) (l : List Int) :
    IsLeast (insert m.min (nonVoidOf l)) (m.addAll l).min ∧
      IsGreatest (insert m.max (nonVoidOf l)) (m.addAll l).max := by
  induction l generalizing m with
  | nil => simp [Extremes.addAll, nonVoidOf]
  | cons v l ih =>
    obtain ⟨hmin, hmax⟩ := ih (m.add v)
    show IsLeast _ ((m.add v).addAll l).min ∧ IsGreatest _ ((m.add v).addAll l).max
    rw [nonVoidOf_cons]
    by_cases hv : v ≠ DTED_NODATA_VALUE
    · have hadd : m.add v = ⟨min (v : ℚ) m.min, max m.max v⟩ := by
        rw [Extremes.add, if_pos hv, min_def_lt, max_def_lt]
      rw [if_pos hv]
      rw [hadd] at hmin hmax ⊢
      exact ⟨isLeast_insert_min hmin, isGreatest_insert_max hmax⟩
    · rw [if_neg hv]
      rw [Extremes.add, if_neg hv] at hmin hmax ⊢
      exact ⟨hmin, hmax⟩

theorem nonVoidOf_finite (l : List Int) : (nonVoidOf l).Finite := by
  refine ((List.finite_toSet l).image fun v : Int => (v : ℚ)).subset ?_
  rintro e ⟨v, hv, -, rfl⟩
  exact ⟨v, hv, rfl⟩

theorem minValue_pos : 0 < minValue := by
  rw [minValue]
  positivity

theorem minValue_le_one : minValue ≤ 1 := by
  rw [minValue, div_le_one (by positivity)]
  exact one_le_pow₀ one_le_two

theorem short_lt (x : Int) : short x < 2 ^ 15 := by
  have := Int.bmod_lt (x := x) (m := 2 ^ 16) (by decide)
  simpa [short] using this

theorem le_maxValue {v : Int} (h : v < 2 ^ 15) : (v : ℚ) ≤ maxValue := by
  have hbig : (2 : ℚ) ^ 15 ≤ maxValue := by
    rw [maxValue, show (2 : ℚ) ^ 1023 = 2 ^ 15 * 2 ^ 1008 from pow_add 2 15 1008]
    have hfront : (1 : ℚ) ≤ 2 - 1 / 2 ^ 52 := by norm_num
    have hone : (1 : ℚ) ≤ (2 - 1 / 2 ^ 52) * 2 ^ 1008 :=
        one_le_mul_of_one_le_of_one_le hfront (one_le_pow₀ one_le_two)
    calc (2 : ℚ) ^ 15 ≤ 2 ^ 15 * ((2 - 1 / 2 ^ 52) * 2 ^ 1008) := le_mul_of_one_le_right (by norm_num) hone
      _ = (2 - 1 / 2 ^ 52) * (2 ^ 15 * 2 ^ 1008) := mul_left_comm _ _ _
  have hv : (v : ℚ) ≤ 2 ^ 15 := by exact_mod_cast h.le
  exact hv.trans hbig

/-- From `MAX_VALUE` and `MIN_VALUE` on, the least is right, and the greatest is
if some elevation is positive. -/
theorem addAll_right {l : List Int} (hl : ∀ v ∈ l, v < 2 ^ 15) (hne : (nonVoidOf l).Nonempty) :
    ((∀ e, IsLeast (nonVoidOf l) e → (Extremes.addAll ⟨maxValue, minValue⟩ l).min = e) ∧
      ∀ e, IsGreatest (nonVoidOf l) e → (Extremes.addAll ⟨maxValue, minValue⟩ l).max = e) ↔ ∃ v ∈ l, 0 < v := by
  obtain ⟨hmin, hmax⟩ := addAll_extremes ⟨maxValue, minValue⟩ l
  have hleast : ∀ e, IsLeast (nonVoidOf l) e → (Extremes.addAll ⟨maxValue, minValue⟩ l).min = e := by
    intro e he
    refine hmin.unique ⟨Set.mem_insert_of_mem _ he.1, ?_⟩
    rintro e' (rfl | he')
    · obtain ⟨v, hv, -, rfl⟩ := he.1
      exact le_maxValue (hl v hv)
    · exact he.2 he'
  constructor
  · rintro ⟨-, hgreatest⟩
    obtain ⟨e, he, hle⟩ := Set.exists_max_image (nonVoidOf l) id (nonVoidOf_finite l) hne
    have heq := hgreatest e ⟨he, fun e' he' => hle e' he'⟩
    have hpos : (0 : ℚ) < e := minValue_pos.trans_le (heq ▸ hmax.2 (Set.mem_insert _ _))
    obtain ⟨v, hv, -, rfl⟩ := he
    exact ⟨v, hv, by exact_mod_cast hpos⟩
  · rintro ⟨v, hv, hpos⟩
    refine ⟨hleast, fun e he => hmax.unique ⟨Set.mem_insert_of_mem _ he.1, ?_⟩⟩
    rintro e' (rfl | he')
    · have hone : (1 : ℚ) ≤ v := by exact_mod_cast hpos
      exact minValue_le_one.trans (hone.trans (he.2 ⟨v, hv, by rw [DTED_NODATA_VALUE]; omega, rfl⟩))
    · exact he.2 he'

namespace DtedFile

variable (f : DtedFile)

/-- Where the elevations lie, if the data is cut into pieces, are the
elevations. -/
def PiecesAgree : Prop :=
  ∀ x < f.width, ∀ i < f.height, f.elevation x i = some (elevationOf (pieceAt f.data f.width x) i)

/-- Each piece carries the sum of its bytes. -/
def PiecesRight : Prop :=
  ∀ x < f.width, uintOf .bigEndian ((pieceAt f.data f.width x).drop (2 * f.width + 8)) =
    (((pieceAt f.data f.width x).take (2 * f.width + 8)).map ubyte).sum

/-- Some elevation is above zero. -/
def HasPositive : Prop := ∃ x i v, f.elevation x i = some v ∧ 0 < v

/-- The same words as signs with magnitudes and in two's complement. -/
def Plain : Prop := ∀ r ∈ f.records, ∀ w ∈ r.words, w < 2 ^ 15 ∨ w = 0xC000

/-- When `read` is right about a file. -/
def Readable : Prop :=
  if f.width = f.height then f.AllRight → f.Plain ∧ f.HasPositive
  else if f.width < f.height ∧ f.height ≤ f.width + 2 then
    (f.AllRight ↔ f.PiecesRight) ∧ (f.AllRight → f.PiecesAgree ∧ f.HasPositive)
  else ¬ f.AllRight

theorem elevation_some {x i : Nat} {v : Int} (h : f.elevation x i = some v) : x < f.width ∧ i < f.height := by
  obtain ⟨r, hr, hv⟩ := Option.bind_eq_some_iff.1 h
  obtain ⟨w, hw, -⟩ := Option.map_eq_some_iff.1 hv
  have hx := (List.getElem?_eq_some_iff.1 hr).1
  have hi := (List.getElem?_eq_some_iff.1 hw).1
  rw [f.records_length] at hx
  rw [r.words_length] at hi
  exact ⟨hx, hi⟩

theorem data_drop (x : Nat) (hx : x < f.width) : ∃ r, f.records[x]? = some r ∧ ∃ rest,
    f.data.drop (x * (2 * f.height + 12)) = r.bytes ++ rest := by
  have hx' : x < f.records.length := by rwa [f.records_length]
  refine ⟨f.records[x], List.getElem?_eq_getElem hx', (f.records.drop (x + 1)).flatMap DataRecord.bytes, ?_⟩
  rw [data, Nat.mul_comm, drop_flatMap fun r : DataRecord f.height => r.bytes_length, List.drop_eq_getElem_cons hx',
    List.flatMap_cons]

theorem data_length : f.data.length = f.width * (2 * f.height + 12) := by
  rw [data, length_flatMap_const fun r : DataRecord f.height => r.bytes_length, f.records_length, Nat.mul_comm]

/-- The pieces of a square cell are its records. -/
theorem pieceAt_square (h : f.width = f.height) {x : Nat} (hx : x < f.width) :
    ∃ r, f.records[x]? = some r ∧ pieceAt f.data f.width x = r.bytes := by
  obtain ⟨r, hr, rest, hdrop⟩ := f.data_drop x hx
  refine ⟨r, hr, ?_⟩
  rw [pieceAt, recordSize_eq, h, hdrop, List.take_left' r.bytes_length]

theorem samples_iff : (∀ y x, y < f.height → x < f.width →
      (rasterOf f.data f.width f.height).samples[y * f.width + x]? = f.elevation x (f.height - 1 - y)) ↔
    f.PiecesAgree := by
  have hsample : ∀ y x, y < f.height → x < f.width → (rasterOf f.data f.width f.height).samples[y * f.width + x]? =
      some (elevationOf (pieceAt f.data f.width x) (f.height - 1 - y)) := by
    intro y x hy hx
    show (columns f.data f.width f.height f.width)[y * f.width + x]? = _
    rw [columns, getElem?_grid _ hx (cell_lt hy hx), if_pos hx]
  constructor
  · intro h x hx i hi
    have := h (f.height - 1 - i) x (by omega) hx
    rw [hsample _ _ (by omega) hx, show f.height - 1 - (f.height - 1 - i) = i by omega] at this
    exact this.symm
  · intro h y x hy hx
    rw [hsample y x hy hx, h x hx _ (by omega)]

theorem nonVoid_eq (h : f.PiecesAgree) : f.nonVoid = nonVoidOf (elevations f.data f.width f.height f.width) := by
  ext e
  constructor
  · rintro ⟨x, i, v, hv, hne, rfl⟩
    obtain ⟨hx, hi⟩ := f.elevation_some hv
    have hval := (h x hx i hi).symm.trans hv
    exact ⟨v, List.mem_flatMap.2 ⟨x, List.mem_range.2 hx, List.mem_map.2 ⟨i, List.mem_range.2 hi,
      Option.some.inj hval⟩⟩, hne, rfl⟩
  · rintro ⟨v, hv, hne, rfl⟩
    obtain ⟨x, hx, hv⟩ := List.mem_flatMap.1 hv
    obtain ⟨i, hi, rfl⟩ := List.mem_map.1 hv
    exact ⟨x, i, _, h x (List.mem_range.1 hx) i (List.mem_range.1 hi), hne, rfl⟩

theorem hasPositive_iff (h : f.PiecesAgree) :
    f.HasPositive ↔ ∃ v ∈ elevations f.data f.width f.height f.width, 0 < v := by
  constructor
  · rintro ⟨x, i, v, hv, hpos⟩
    obtain ⟨hx, hi⟩ := f.elevation_some hv
    have hval := (h x hx i hi).symm.trans hv
    exact ⟨v, List.mem_flatMap.2 ⟨x, List.mem_range.2 hx, List.mem_map.2 ⟨i, List.mem_range.2 hi,
      Option.some.inj hval⟩⟩, hpos⟩
  · rintro ⟨v, hv, hpos⟩
    obtain ⟨x, hx, hv⟩ := List.mem_flatMap.1 hv
    obtain ⟨i, hi, rfl⟩ := List.mem_map.1 hv
    exact ⟨x, i, _, h x (List.mem_range.1 hx) i (List.mem_range.1 hi), hpos⟩

/-- The first elevation is read from its own place. Where it is read right it is
not void. -/
theorem nonVoid_nonempty (h : f.PiecesAgree) : f.nonVoid.Nonempty := by
  have htwo := f.two_le_width
  have htwo' := f.two_le_height
  obtain ⟨r, hr, rest, hdrop⟩ := f.data_drop 0 (by omega)
  obtain ⟨w, hw, hval⟩ := r.elevationOf_eq (i := 0) (by omega) (n := recordSize f.width)
    (by rw [recordSize_eq]; omega) rest
  have hfirst := h 0 (by omega) 0 (by omega)
  rw [Nat.zero_mul, List.drop_zero] at hdrop
  rw [pieceAt, Nat.zero_mul, List.drop_zero, hdrop, hval] at hfirst
  have hsign : f.elevation 0 0 = some (signMagnitude w) := by
    rw [elevation, hr, Option.bind_some, hw, Option.map_some]
  have hlt := r.words_lt w (List.mem_of_getElem? hw)
  have hplain := (short_eq_signMagnitude hlt).1 (Option.some.inj (hfirst.symm.trans hsign))
  refine ⟨_, 0, 0, _, hsign, ?_, rfl⟩
  rw [signMagnitude, DTED_NODATA_VALUE]
  split <;> omega

theorem shows_iff : f.Shows (rasterOf f.data f.width f.height) ↔ f.PiecesAgree ∧ f.HasPositive := by
  have hsmall : ∀ v ∈ elevations f.data f.width f.height f.width, v < 2 ^ 15 := by
    intro v hv
    obtain ⟨x, -, hv⟩ := List.mem_flatMap.1 hv
    obtain ⟨i, -, rfl⟩ := List.mem_map.1 hv
    exact short_lt _
  constructor
  · intro h
    have hagree := f.samples_iff.1 h.samples_eq
    have hset := f.nonVoid_eq hagree
    have hne := f.nonVoid_nonempty hagree
    have hmin := h.min_eq
    have hmax := h.max_eq
    rw [hset] at hne hmin hmax
    exact ⟨hagree, (f.hasPositive_iff hagree).2 ((addAll_right hsmall hne).1 ⟨hmin, hmax⟩)⟩
  · rintro ⟨hagree, hpos⟩
    have hset := f.nonVoid_eq hagree
    have hne := f.nonVoid_nonempty hagree
    rw [hset] at hne
    obtain ⟨hmin, hmax⟩ := (addAll_right hsmall hne).2 ((f.hasPositive_iff hagree).1 hpos)
    exact ⟨rfl, rfl, f.samples_iff.2 hagree, by rw [hset]; exact hmin, by rw [hset]; exact hmax⟩

/-- `read` is right exactly when the pieces are accepted as the records should
be, and then hold the same. -/
theorem readRight_iff : f.ReadRight ↔
    (f.AllRight ↔ ∀ x < f.width, Accepted f.width f.height (pieceAt f.data f.width x)) ∧
      (f.AllRight → f.PiecesAgree ∧ f.HasPositive) := by
  obtain ⟨hall, hnot⟩ := f.read_eq
  by_cases h : ∀ x < f.width, Accepted f.width f.height (pieceAt f.data f.width x)
  · rw [ReadRight, hall h, ← f.shows_iff]
    constructor
    · rintro ⟨hright, hshows⟩
      exact ⟨⟨fun _ => h, fun _ => hright.1 rfl⟩, fun _ => hshows _ rfl⟩
    · rintro ⟨hright, hshows⟩
      refine ⟨⟨fun _ => hright.2 h, fun _ => rfl⟩, fun r hr => ?_⟩
      obtain rfl := Option.some.inj hr
      exact hshows (hright.2 h)
  · rw [ReadRight, hnot h]
    constructor
    · rintro ⟨hright, -⟩
      have hwrong : ¬ f.AllRight := fun hr => absurd (hright.2 hr) (by simp)
      exact ⟨⟨fun hr => absurd hr hwrong, fun hacc => absurd hacc h⟩, fun hr => absurd hr hwrong⟩
    · rintro ⟨hright, -⟩
      exact ⟨⟨fun hs => absurd hs (by simp), fun hr => absurd (hright.1 hr) h⟩, fun r hr => by cases hr⟩

theorem accepted_square (h : f.width = f.height) :
    (∀ x < f.width, Accepted f.width f.height (pieceAt f.data f.width x)) ↔ f.AllRight := by
  have hpiece : ∀ x (hx : x < f.width) r, f.records[x]? = some r →
      (Accepted f.width f.height (pieceAt f.data f.width x) ↔ r.Right) := by
    intro x hx r hr
    obtain ⟨r', hr', hp⟩ := f.pieceAt_square h hx
    obtain rfl := Option.some.inj (hr.symm.trans hr')
    rw [hp, h]
    exact r.accepted_iff
  constructor
  · intro hall r hr
    obtain ⟨x, hx, hget⟩ := List.mem_iff_getElem.1 hr
    have hxw : x < f.width := f.records_length ▸ hx
    exact (hpiece x hxw r (List.getElem?_eq_some_iff.2 ⟨hx, hget⟩)).1 (hall x hxw)
  · intro hall x hx
    obtain ⟨r, hr, -⟩ := f.pieceAt_square h hx
    exact (hpiece x hx r hr).2 (hall r (List.mem_of_getElem? hr))

theorem agree_square (h : f.width = f.height) : f.PiecesAgree ↔ f.Plain := by
  have hword : ∀ x (hx : x < f.width) i (hi : i < f.height) r w, f.records[x]? = some r → r.words[i]? = some w →
      (f.elevation x i = some (elevationOf (pieceAt f.data f.width x) i) ↔ w < 2 ^ 15 ∨ w = 0xC000) := by
    intro x hx i hi r w hr hw
    obtain ⟨r', hr', hp⟩ := f.pieceAt_square h hx
    obtain rfl := Option.some.inj (hr.symm.trans hr')
    obtain ⟨w', hw', hval⟩ := r.elevationOf_eq hi (n := 2 * f.height + 12) (by omega) []
    obtain rfl := Option.some.inj (hw.symm.trans hw')
    rw [List.append_nil, List.take_of_length_le (by rw [r.bytes_length])] at hval
    rw [hp, hval, elevation, hr, Option.bind_some, hw, Option.map_some, Option.some_inj,
      ← short_eq_signMagnitude (r.words_lt w (List.mem_of_getElem? hw)), eq_comm]
  constructor
  · intro hagree r hr w hw
    obtain ⟨x, hx, hgetx⟩ := List.mem_iff_getElem.1 hr
    obtain ⟨i, hi, hgeti⟩ := List.mem_iff_getElem.1 hw
    have hxw : x < f.width := f.records_length ▸ hx
    have hih : i < f.height := r.words_length ▸ hi
    exact (hword x hxw i hih r w (List.getElem?_eq_some_iff.2 ⟨hx, hgetx⟩)
      (List.getElem?_eq_some_iff.2 ⟨hi, hgeti⟩)).1
      (hagree x hxw i hih)
  · intro hplain x hx i hi
    obtain ⟨r, hr, -⟩ := f.pieceAt_square h hx
    obtain ⟨w, hw, -⟩ := r.elevationOf_eq hi (le_refl _) []
    exact (hword x hx i hi r w hr hw).2 (hplain r (List.mem_of_getElem? hr) w (List.mem_of_getElem? hw))

/-- Records that are smaller than the pieces do not fill them. -/
theorem not_accepted (h : f.height < f.width ∨ f.width + 2 < f.height) :
    ¬ ∀ x < f.width, Accepted f.width f.height (pieceAt f.data f.width x) := by
  intro hall
  have htwo := f.two_le_width
  rcases h with h | h
  · have hlast := (hall (f.width - 1) (by omega)).length_eq
    obtain ⟨n, hn⟩ : ∃ n, f.width = n + 1 := ⟨f.width - 1, by omega⟩
    have hfull : f.width * (2 * f.height + 12) < f.width * (2 * f.width + 12) :=
      Nat.mul_lt_mul_of_pos_left (by omega) (by omega)
    have hsplit : f.width * (2 * f.width + 12) = (f.width - 1) * (2 * f.width + 12) + (2 * f.width + 12) := by
      rw [← Nat.succ_mul, Nat.succ_eq_add_one, Nat.sub_add_cancel (by omega)]
    rw [pieceAt, recordSize_eq, List.length_take, List.length_drop, f.data_length] at hlast
    omega
  · have := (hall 0 (by omega)).height_le
    omega

theorem accepted_tall (h1 : f.width < f.height) (h2 : f.height ≤ f.width + 2) :
    (∀ x < f.width, Accepted f.width f.height (pieceAt f.data f.width x)) ↔ f.PiecesRight := by
  constructor
  · exact fun hall x hx => (hall x hx).sum_eq
  · intro hright x hx
    refine ⟨?_, h2, hright x hx⟩
    have hfull : f.width * (2 * f.width + 12) ≤ f.width * (2 * f.height + 12) :=
      Nat.mul_le_mul_left _ (by omega)
    have hpart : (x + 1) * (2 * f.width + 12) ≤ f.width * (2 * f.width + 12) := Nat.mul_le_mul_right _ hx
    rw [Nat.succ_mul] at hpart
    rw [pieceAt, recordSize_eq, List.length_take, List.length_drop, f.data_length]
    omega

/-- `read` is right about exactly the readable files. -/
theorem readRight_iff_readable : f.ReadRight ↔ f.Readable := by
  rw [f.readRight_iff, Readable]
  by_cases hsquare : f.width = f.height
  · rw [if_pos hsquare, f.accepted_square hsquare, f.agree_square hsquare]
    exact ⟨fun h => h.2, fun h => ⟨Iff.rfl, h⟩⟩
  · rw [if_neg hsquare]
    by_cases htall : f.width < f.height ∧ f.height ≤ f.width + 2
    · rw [if_pos htall, f.accepted_tall htall.1 htall.2]
    · rw [if_neg htall]
      have hnot := f.not_accepted (by omega)
      exact ⟨fun h hright => hnot (h.1.1 hright), fun h => ⟨⟨fun hr => absurd hr h, fun hacc => absurd hacc hnot⟩,
        fun hr => absurd hr h⟩⟩

/-- A square cell with right checksums and one elevation below zero. -/
def belowZero : DtedFile where
  width := 2
  height := 2
  uhl := [85, 72, 76, 49] ++ [48, 48, 48, 48, 48, 48, 48, 69] ++ [48, 48, 48, 48, 48, 48, 48, 78] ++
    List.replicate 27 32 ++ [48, 48, 48, 50] ++ [48, 48, 48, 50] ++ List.replicate 25 32
  dsi := [68, 83, 73] ++ List.replicate 645 32
  acc := [65, 67, 67] ++ List.replicate 2697 32
  records := [⟨List.replicate 8 0, [1, 0x8001], 130, rfl, rfl, by decide, by decide⟩,
    ⟨List.replicate 8 0, [1, 1], 2, rfl, rfl, by decide, by decide⟩]
  two_le_width := Nat.lt_succ_self 1
  two_le_height := Nat.lt_succ_self 1
  width_lt := by decide
  height_lt := by decide
  uhl_length := rfl
  uhl_id := rfl
  uhl_longitude := ⟨0, 0, 0, 69, by decide, by decide, by decide, by decide, by decide⟩
  uhl_latitude := ⟨0, 0, 0, 78, by decide, by decide, by decide, by decide, by decide⟩
  uhl_width := by decide
  uhl_height := by decide
  dsi_length := by rw [List.length_append, List.length_replicate]; rfl
  dsi_id := rfl
  acc_length := by rw [List.length_append, List.length_replicate]; rfl
  acc_id := rfl
  records_length := rfl

/-- `-1` is read as `-32767`. -/
theorem belowZero_misread : ¬ belowZero.ReadRight := by
  intro h
  have hright : belowZero.AllRight := by
    intro r hr
    rcases List.mem_cons.1 hr with rfl | hr
    · show 130 = _
      decide
    · obtain rfl := List.mem_singleton.1 hr
      show 2 = _
      decide
  have hplain := (belowZero.agree_square rfl).1 ((belowZero.readRight_iff.1 h).2 hright).1
  exact absurd (hplain _ List.mem_cons_self 0x8001 (by decide)) (by decide)

end DtedFile

end WorldWind.Dted
