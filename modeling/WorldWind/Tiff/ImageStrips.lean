import WorldWind.Tiff.Images
import WorldWind.Tiff.GeotiffRoundTrip
/-!
# Bands in strips

The methods fill the array of a band strip by strip, and go on to the next band
when they have counted rows enough. The count is an `int`: the last strip of a
band is counted in full, and with it the sum can wrap (`readBand8_wrapped`).
-/

namespace WorldWind.Tiff

open Lib Lib.JavaArray Lib.JavaInt Lib.Nio

/-! ## Strips of a plane -/

section

/-- A plane of `height` rows needs so many strips. -/
def stripCount (height rowsPerStrip : Nat) : Nat := (height + rowsPerStrip - 1) / rowsPerStrip

/-- The byte counts of the strips from the one with the number `k`. -/
def stripBytes (height rowsPerStrip rowBytes k m : Nat) : List Nat :=
  (List.range' k m).map fun j => min rowsPerStrip (height - j * rowsPerStrip) * rowBytes

/-- The bytes of a strip. -/
def bytesOf (content : List Int8) (strip : Nat × Nat) : List Int8 := (content.drop strip.1).take strip.2

theorem length_bytesOf {content : List Int8} {strip : Nat × Nat} (h : strip.1 + strip.2 ≤ content.length) :
    (bytesOf content strip).length = strip.2 := by
  rw [bytesOf, List.length_take, List.length_drop]
  omega

variable {height rowsPerStrip : Nat}

variable (height) in
theorem mul_lt_iff (hrows : 0 < rowsPerStrip) (j : Nat) : j * rowsPerStrip < height ↔
    j < stripCount height rowsPerStrip := by
  have h : j + 1 ≤ (height + rowsPerStrip - 1) / rowsPerStrip ↔ (j + 1) * rowsPerStrip ≤ height + rowsPerStrip - 1 :=
    Nat.le_div_iff_mul_le hrows
  rw [Nat.succ_mul] at h
  rw [stripCount]
  omega

variable (height) in
theorem le_stripCount_mul (hrows : 0 < rowsPerStrip) : height ≤ stripCount height rowsPerStrip * rowsPerStrip :=
  not_lt.1 fun h => absurd ((mul_lt_iff height hrows _).1 h) (lt_irrefl _)

theorem stripCount_mul_lt (hrows : 0 < rowsPerStrip) (hheight : 0 < height) :
    stripCount height rowsPerStrip * rowsPerStrip < height + rowsPerStrip := by
  have hpos : 0 < stripCount height rowsPerStrip := (mul_lt_iff height hrows 0).1 (by omega)
  have hlast := (mul_lt_iff height hrows (stripCount height rowsPerStrip - 1)).2 (by omega)
  calc stripCount height rowsPerStrip * rowsPerStrip
      = (stripCount height rowsPerStrip - 1) * rowsPerStrip + rowsPerStrip := by
        rw [← Nat.succ_mul, Nat.succ_eq_add_one, Nat.sub_add_cancel hpos]
    _ < height + rowsPerStrip := by omega

variable (height rowsPerStrip) in
/-- The bytes of the first strips. -/
theorem rows_succ (k rowBytes : Nat) : min (k * rowsPerStrip) height * rowBytes +
    min rowsPerStrip (height - k * rowsPerStrip) * rowBytes = min ((k + 1) * rowsPerStrip) height * rowBytes := by
  rw [← Nat.add_mul, Nat.succ_mul]
  congr 1
  omega

end

theorem int_natCast {n : Nat} (h : n < 2 ^ 31) : int n = n := int_eq (by omega) (by omega)

namespace TIFFReader

/-! ## The buffer -/

/-- The buffer of `cap` bytes begins with `done`, and is behind it. -/
structure Filled (order : ByteOrder) (cap : Nat) (done : List Int8) (b : ByteBuffer) : Prop where
  length : b.bytes.length = cap
  take : b.bytes.take done.length = done
  position : b.position = done.length
  order : b.order = order

section

variable {order : ByteOrder} {cap : Nat} {done : List Int8} {b : ByteBuffer} {fc : FileChannel}

theorem Filled.le (h : Filled order cap done b) : done.length ≤ cap := by
  have := congrArg List.length h.take
  rw [List.length_take, h.length] at this
  omega

theorem Filled.bytes_eq (h : Filled order cap done b) (hfull : done.length = cap) : b.bytes = done := by
  rw [← h.take, hfull, ← h.length, List.take_length]

theorem Filled.zeros (n : Nat) : Filled .bigEndian n [] (ByteBuffer.wrap (List.replicate n 0)) :=
  ⟨List.length_replicate, rfl, rfl, rfl⟩

/-- A strip that is in the file, and that the buffer has room for. -/
theorem Filled.read (h : Filled order cap done b) (hcap : cap < 2 ^ 31) {strip : Nat × Nat}
    (hroom : done.length + strip.2 ≤ cap) (hfile : strip.1 + strip.2 ≤ fc.content.length) :
    ∃ c, b.setLimit (int (done.length + strip.2)) = some c ∧
      Filled order cap (done ++ bytesOf fc.content strip) ((fc.setPosition strip.1).read c).1 := by
  have hlength := h.length
  have hbytes := length_bytesOf hfile
  refine ⟨{ b with limit := done.length + strip.2, position := done.length }, ?_, ?_⟩
  · rw [int_eq (by omega) (by omega), ByteBuffer.setLimit, if_pos ⟨by omega, by omega⟩, ← Nat.cast_add,
      Int.toNat_natCast, h.position, Nat.min_eq_left (by omega)]
  · have hpart : (fc.content.drop strip.1).take (done.length + strip.2 - done.length) = bytesOf fc.content strip := by
      rw [Nat.add_sub_cancel_left, bytesOf]
    simp only [FileChannel.read, FileChannel.setPosition, hpart]
    refine ⟨?_, ?_, by rw [List.length_append], h.order⟩
    · rw [← hlength]
      exact length_blit (by omega)
    · rw [blit, h.take, List.take_left' (by rw [List.length_append])]

theorem readInto_eq (h : Filled order cap done b) (hcap : cap < 2 ^ 31) {strip : Nat × Nat}
    (hroom : done.length + strip.2 ≤ cap) (hfile : strip.1 + strip.2 ≤ fc.content.length) :
    ∃ c, readInto fc b done.length (strip.1, strip.2) = some c ∧
      Filled order cap (done ++ bytesOf fc.content strip) c := by
  obtain ⟨c, hset, hfilled⟩ := h.read hcap hroom hfile
  have hlen : (if int ((done.length : Int) + int strip.2) ≥ b.bytes.length then int
      (b.bytes.length - (done.length : Int))
      else int strip.2) = (strip.2 : Int) := by
    have hlength := h.length
    rw [int_eq (x := (strip.2 : Int)) (by omega) (by omega), int_eq (by omega) (by omega)]
    split
    · rw [int_eq (by omega) (by omega)]
      omega
    · rfl
  refine ⟨_, ?_, hfilled⟩
  simp only [readInto, hlen, hset, Option.map_some, Int.toNat_natCast]
  exact if_neg (by omega)

theorem readInto_none {offset : Int} {strip : Int × Int} (h : int (offset + int strip.2) < 0) :
    readInto fc b offset strip = none := by
  have hno : ¬int (offset + int strip.2) ≥ (b.bytes.length : Int) := by omega
  unfold readInto
  split
  · rfl
  · refine Option.map_eq_none_iff.2 ?_
    rw [if_neg hno, ByteBuffer.setLimit, if_neg fun hset => absurd hset.1 (by omega)]

end

/-- The tables of the strips. -/
def ints (strips : List (Nat × Nat)) : List (Int × Int) := strips.map fun strip => (strip.1, strip.2)

theorem foldlM_ints {σ : Type*} (f : σ → Int × Int → Option σ) (front : List (Nat × Nat)) (last : Nat × Nat) (s : σ) :
    (ints (front ++ [last])).foldlM f s = ((ints front).foldlM f s).bind fun s => f s (last.1, last.2) := by
  rw [ints, List.map_append, List.foldlM_append, List.map_singleton]
  refine Option.bind_congr fun s _ => ?_
  rw [List.foldlM_cons]
  exact bind_pure _

/-- Strips of a plane from the one with the number `k`, all in the file. -/
structure Stored (content : List Int8) (height rowsPerStrip rowBytes k : Nat) (strips : List (Nat × Nat)) : Prop where
  byteCounts : strips.map Prod.snd = stripBytes height rowsPerStrip rowBytes k strips.length
  inFile : ∀ strip ∈ strips, strip.1 + strip.2 ≤ content.length

variable {fc : FileChannel} {height rowsPerStrip rowBytes : Nat}

theorem Stored.head {content : List Int8} {k : Nat} {strip : Nat × Nat} {strips : List (Nat × Nat)}
    (h : Stored content height rowsPerStrip rowBytes k (strip :: strips)) :
    strip.2 = min rowsPerStrip (height - k * rowsPerStrip) * rowBytes ∧ strip.1 + strip.2 ≤ content.length ∧
      Stored content height rowsPerStrip rowBytes (k + 1) strips := by
  have hcounts := h.byteCounts
  rw [List.map_cons, List.length_cons, stripBytes, List.range'_succ, List.map_cons, List.cons.injEq] at hcounts
  exact ⟨hcounts.1, h.inFile strip List.mem_cons_self, hcounts.2, fun x hx => h.inFile x (List.mem_cons_of_mem _ hx)⟩

theorem Stored.append {content : List Int8} {k : Nat} {front back : List (Nat × Nat)}
    (h : Stored content height rowsPerStrip rowBytes k (front ++ back)) :
    Stored content height rowsPerStrip rowBytes k front ∧
      Stored content height rowsPerStrip rowBytes (k + front.length) back := by
  induction front generalizing k with
  | nil => exact ⟨⟨rfl, fun x hx => absurd hx List.not_mem_nil⟩, h⟩
  | cons strip front ih =>
    obtain ⟨hsize, hfile, hrest⟩ := h.head
    obtain ⟨hfront, hback⟩ := ih hrest
    refine ⟨⟨?_, ?_⟩, by rwa [List.length_cons, ← Nat.add_assoc, Nat.add_right_comm]⟩
    · rw [List.map_cons, List.length_cons, stripBytes, List.range'_succ, List.map_cons, hsize, hfront.byteCounts]
      rfl
    · intro x hx
      exact h.inFile x (List.mem_append_left _ hx)

/-- The next strip fits, and what is done then. -/
theorem Stored.room {content : List Int8} {k : Nat} {strip : Nat × Nat} {strips : List (Nat × Nat)} {done : List Int8}
    (h : Stored content height rowsPerStrip rowBytes k (strip :: strips))
    (hdone : done.length = min (k * rowsPerStrip) height * rowBytes) :
    done.length + strip.2 ≤ height * rowBytes ∧
      (done ++ bytesOf content strip).length = min ((k + 1) * rowsPerStrip) height * rowBytes := by
  obtain ⟨hsize, hfile, -⟩ := h.head
  have hsum := rows_succ height rowsPerStrip k rowBytes
  constructor
  · rw [hdone, hsize, hsum]
    exact Nat.mul_le_mul_right _ (Nat.min_le_right _ _)
  · rw [List.length_append, length_bytesOf hfile, hdone, hsize, hsum]

/-! ## Bands of bytes -/

/-- Strips of one band, after none of which the method goes on to the next. -/
theorem readStrips8_eq (hcap : height * rowBytes < 2 ^ 31) (strips : List (Nat × Nat)) {s : Planar8}
    {done : List Int8}
    {k : Nat} (hstored : Stored fc.content height rowsPerStrip rowBytes k strips)
    (hfilled : Filled .bigEndian (height * rowBytes) done s.buff)
    (hdone : done.length = min (k * rowsPerStrip) height * rowBytes) (hoffset : s.offset = done.length)
    (hnum : s.numRows = int (k * rowsPerStrip : Nat)) (hdata : s.data.set s.band s.buff.bytes = s.data)
    (hstay : ∀ j, k < j → j ≤ k + strips.length →
      ¬((height : Int) ≤ int (j * rowsPerStrip : Nat) ∧ s.band < s.data.length - 1)) :
    ∃ buff, Filled .bigEndian (height * rowBytes) (done ++ strips.flatMap (bytesOf fc.content)) buff ∧
      (ints strips).foldlM (readPlanarStrip8 fc height rowsPerStrip) s = some ⟨s.data.set s.band buff.bytes, s.band,
        (min ((k + strips.length) * rowsPerStrip) height * rowBytes : Nat),
        int ((k + strips.length) * rowsPerStrip : Nat), buff⟩ := by
  induction strips generalizing s done k with
  | nil =>
    refine ⟨s.buff, by rwa [List.flatMap_nil, List.append_nil], ?_⟩
    rw [hdata, List.length_nil, Nat.add_zero, ← hnum, ← hdone, ← hoffset]
    rfl
  | cons strip strips ih =>
    obtain ⟨hsize, hfile, hrest⟩ := hstored.head
    obtain ⟨hroom, hlength⟩ := hstored.room hdone
    obtain ⟨c, hread, hc⟩ := readInto_eq hfilled hcap hroom hfile
    have hoffset' : int (s.offset + strip.2) = (done ++ bytesOf fc.content strip).length := by
      rw [hoffset, int_eq (by omega) (by omega), List.length_append, length_bytesOf hfile, Nat.cast_add]
    have hnum' : int (s.numRows + rowsPerStrip) = int ((k + 1) * rowsPerStrip : Nat) := by
      rw [hnum, int_int_add, Nat.succ_mul, Nat.cast_add]
    have hlen : (s.data.set s.band c.bytes).length = s.data.length := List.length_set
    have hstep : readPlanarStrip8 fc height rowsPerStrip s (strip.1, strip.2) =
        some ⟨s.data.set s.band c.bytes, s.band,
        (done ++ bytesOf fc.content strip).length, int ((k + 1) * rowsPerStrip : Nat), c⟩ := by
      have hno := hstay (k + 1) (by omega) (by rw [List.length_cons]; omega)
      have hread' : readInto fc s.buff s.offset (strip.1, strip.2) = some c := by rw [hoffset, hread]
      rw [← hlen] at hno
      rw [readPlanarStrip8, hread', Option.bind_some, hnum', hoffset']
      exact if_neg hno
    rw [List.length_cons] at hstay ⊢
    obtain ⟨buff, hbuff, hfold⟩ := ih (k := k + 1)
      (s := ⟨s.data.set s.band c.bytes, s.band, (done ++ bytesOf fc.content strip).length,
        int ((k + 1) * rowsPerStrip : Nat), c⟩) hrest hc hlength rfl rfl (List.set_set ..)
      (fun j h1 h2 => by rw [hlen]; exact hstay j (by omega) (by omega))
    refine ⟨buff, by rwa [List.flatMap_cons, ← List.append_assoc], ?_⟩
    rw [ints, List.map_cons, List.foldlM_cons, hstep]
    refine hfold.trans ?_
    simp only [List.set_set]
    rw [Nat.add_right_comm k 1, ← Nat.add_assoc]

/-- A plane: all its strips. -/
structure Plane (content : List Int8) (height rowsPerStrip rowBytes : Nat) (strips : List (Nat × Nat)) : Prop
    extends Stored content height rowsPerStrip rowBytes 0 strips where
  length : strips.length = stripCount height rowsPerStrip

theorem Stored.length_bytes {content : List Int8} {strips : List (Nat × Nat)} {k : Nat}
    (h : Stored content height rowsPerStrip rowBytes k strips) (done : List Int8)
    (hdone : done.length = min (k * rowsPerStrip) height * rowBytes) :
    (done ++ strips.flatMap (bytesOf content)).length = min ((k + strips.length) * rowsPerStrip) height *
    rowBytes := by
  induction strips generalizing k done with
  | nil => rwa [List.flatMap_nil, List.append_nil, List.length_nil, Nat.add_zero]
  | cons strip strips ih =>
    obtain ⟨-, -, hrest⟩ := h.head
    rw [List.flatMap_cons, ← List.append_assoc, ih hrest _ (h.room hdone).2, List.length_cons,
      Nat.add_right_comm k 1, ← Nat.add_assoc]

theorem Plane.length_bytes {content : List Int8} {strips : List (Nat × Nat)} (hrows : 0 < rowsPerStrip)
    (h : Plane content height rowsPerStrip rowBytes strips) :
    (strips.flatMap (bytesOf content)).length = height * rowBytes := by
  have hall := h.toStored.length_bytes [] (by simp)
  rw [List.nil_append, Nat.zero_add, h.length, Nat.min_eq_right (le_stripCount_mul height hrows)] at hall
  exact hall

section

variable (hcap : height * rowBytes < 2 ^ 31) (hheight : 0 < height) (hheight32 : height < 2 ^ 31)
  (hrows : 0 < rowsPerStrip)
  {s : Planar8} {strips : List (Nat × Nat)} (hplane : Plane fc.content height rowsPerStrip rowBytes strips)
  (hfilled : Filled .bigEndian (height * rowBytes) [] s.buff) (hoffset : s.offset = 0) (hnum : s.numRows = 0)
  (hdata : s.data.set s.band s.buff.bytes = s.data)

include hcap hrows hplane hfilled hoffset hnum hdata

/-- A band whose rows are not noticed to be complete. -/
theorem readBand8_stay (hstay : ∀ j, 0 < j → j ≤ strips.length →
      ¬((height : Int) ≤ int (j * rowsPerStrip : Nat) ∧ s.band < s.data.length - 1)) :
    ∃ numRows buff, Filled .bigEndian (height * rowBytes) (strips.flatMap (bytesOf fc.content)) buff ∧
      (ints strips).foldlM (readPlanarStrip8 fc height rowsPerStrip) s = some ⟨s.data.set s.band
        (strips.flatMap (bytesOf fc.content)), s.band, (height * rowBytes : Nat), numRows, buff⟩ := by
  obtain ⟨buff, hbuff, hfold⟩ := readStrips8_eq hcap strips hplane.toStored hfilled (by simp) (by simp [hoffset])
    (by rw [hnum, Nat.zero_mul, Nat.cast_zero, int_eq (by norm_num) (by norm_num)]) hdata
    (fun j h1 h2 => hstay j h1 (by omega))
  rw [List.nil_append] at hbuff
  rw [hbuff.bytes_eq (hplane.length_bytes hrows), Nat.zero_add, hplane.length,
    Nat.min_eq_right (le_stripCount_mul height hrows)] at hfold
  exact ⟨_, buff, hbuff, hfold⟩

include hheight hheight32

/-- A band that another one follows, if the count of its rows does not wrap. -/
theorem readBand8_next (hband : s.band < s.data.length - 1)
    (hwrap : stripCount height rowsPerStrip * rowsPerStrip < 2 ^ 31) (array : List Int8)
    (hnext : s.data[s.band + 1]? = some array) :
    (ints strips).foldlM (readPlanarStrip8 fc height rowsPerStrip) s = some ⟨s.data.set s.band
      (strips.flatMap (bytesOf fc.content)), s.band + 1, 0, 0, ByteBuffer.wrap array⟩ := by
  have hpos : 0 < stripCount height rowsPerStrip := (mul_lt_iff height hrows 0).1 (by omega)
  have hbytes := hplane.length_bytes hrows
  have hlength := hplane.length
  obtain ⟨front, last, rfl⟩ : ∃ front last, strips = front ++ [last] :=
    ⟨strips.dropLast, strips.getLast (by rintro rfl; simp at hlength; omega), (List.dropLast_append_getLast _).symm⟩
  rw [List.length_append, List.length_singleton] at hlength
  obtain ⟨hfront, hlast⟩ := hplane.toStored.append
  rw [Nat.zero_add] at hlast
  -- no strip but the last one completes the rows
  have hshort : ∀ j, 0 < j → j ≤ front.length → j * rowsPerStrip < height := fun j _ h2 =>
    (mul_lt_iff height hrows j).2 (by omega)
  obtain ⟨buff, hbuff, hfold⟩ := readStrips8_eq hcap front hfront hfilled (by simp) (by simp [hoffset])
    (by rw [hnum, Nat.zero_mul, Nat.cast_zero, int_eq (by norm_num) (by norm_num)]) hdata
    (fun j h1 h2 => by
      have := hshort j h1 (by omega)
      rw [int_eq (by omega) (by omega)]
      omega)
  have hfull : (front ++ [last]).flatMap (bytesOf fc.content) =
      front.flatMap (bytesOf fc.content) ++ bytesOf fc.content last := by
    rw [List.flatMap_append, List.flatMap_singleton]
  have hfrontBytes := hfront.length_bytes [] (by simp)
  rw [List.nil_append] at hbuff hfrontBytes
  rw [Nat.zero_add] at hfold hfrontBytes
  obtain ⟨c, hread, hc⟩ := readInto_eq hbuff hcap (hlast.room hfrontBytes).1 hlast.head.2.1
  rw [← hfull] at hc
  have hcount : (front.length + 1) * rowsPerStrip = stripCount height rowsPerStrip * rowsPerStrip := by rw [hlength]
  have hall := le_stripCount_mul height hrows
  have hnum' : int (int (front.length * rowsPerStrip : Nat) + rowsPerStrip) =
      (stripCount height rowsPerStrip * rowsPerStrip : Nat) := by
    rw [int_int_add, ← hcount, Nat.succ_mul, Nat.cast_add]
    rw [Nat.succ_mul] at hcount
    exact int_eq (by omega) (by omega)
  have hdata' : (s.data.set s.band buff.bytes).set s.band c.bytes =
      s.data.set s.band ((front ++ [last]).flatMap (bytesOf fc.content)) := by
    rw [List.set_set, hc.bytes_eq hbytes]
  have hread' : readInto fc buff (min (front.length * rowsPerStrip) height * rowBytes : Nat) (last.1, last.2) =
      some c := by
    rw [← hfrontBytes, hread]
  have hget : (s.data.set s.band ((front ++ [last]).flatMap (bytesOf fc.content)))[s.band + 1]? = some array := by
    rw [List.getElem?_set_ne (by omega), hnext]
  have hcond : ((stripCount height rowsPerStrip * rowsPerStrip : Nat) : Int) ≥ height ∧
      s.band < (s.data.set s.band ((front ++ [last]).flatMap (bytesOf fc.content))).length - 1 := by
    rw [List.length_set]
    exact ⟨Int.ofNat_le.2 hall, hband⟩
  rw [foldlM_ints, hfold, Option.bind_some, readPlanarStrip8, hread', Option.bind_some, hnum', hdata']
  exact (if_pos hcond).trans (congrArg (Option.map _) hget)

/-- Where the count wraps, the strips of the next band are read behind the full
one, and the limit of the buffer is set to less than nothing. -/
theorem readBand8_wrapped (hrows32 : rowsPerStrip < 2 ^ 31)
    (hwrap : 2 ^ 31 ≤ stripCount height rowsPerStrip * rowsPerStrip)
    (hrowBytes : 0 < rowBytes) {strip : Nat × Nat} (hstrip : strip.2 = min rowsPerStrip height * rowBytes) :
    (ints (strips ++ [strip])).foldlM (readPlanarStrip8 fc height rowsPerStrip) s = none := by
  have hlt := stripCount_mul_lt hrows hheight
  obtain ⟨numRows, buff, hbuff, hfold⟩ := readBand8_stay hcap hrows hplane hfilled hoffset hnum hdata (by
    rintro j h1 h2 ⟨hle, -⟩
    rcases Nat.lt_or_ge j (stripCount height rowsPerStrip) with hj | hj
    · have := (mul_lt_iff height hrows j).2 hj
      rw [int_eq (by omega) (by omega)] at hle
      omega
    · obtain rfl : j = stripCount height rowsPerStrip := le_antisymm (h2.trans hplane.length.le) hj
      have hneg := int_overflow (x := (stripCount height rowsPerStrip * rowsPerStrip : Nat)) (by omega) (by omega)
      exact absurd (hle.trans_lt hneg) (not_lt.2 (Int.natCast_nonneg _)))
  have hbytes := hplane.length_bytes hrows
  have hmin : min rowsPerStrip height = rowsPerStrip := Nat.min_eq_left (by
    by_contra h
    have hone : stripCount height rowsPerStrip ≤ 1 := by
      refine not_lt.1 fun h1 => ?_
      have := (mul_lt_iff height hrows 1).2 h1
      omega
    have := Nat.mul_le_mul_right rowsPerStrip hone
    omega)
  -- more than a whole array, and the sum is an `int`
  have hsum : int ((height * rowBytes : Nat) + int strip.2) < 0 := by
    have hle : height ≤ height * rowBytes := Nat.le_mul_of_pos_right _ hrowBytes
    have hle' : rowsPerStrip ≤ rowsPerStrip * rowBytes := Nat.le_mul_of_pos_right _ hrowBytes
    have hle'' : rowsPerStrip * rowBytes ≤ height * rowBytes := Nat.mul_le_mul_right _ (by omega)
    rw [hmin] at hstrip
    rw [int_add_int]
    exact int_overflow (by omega) (by omega)
  have hinto : readInto fc buff (height * rowBytes : Nat) (strip.1, strip.2) = none := readInto_none hsum
  rw [foldlM_ints, hfold, Option.bind_some, readPlanarStrip8, hinto, Option.bind_none]

end

section

variable (hcap : height * rowBytes < 2 ^ 31) (hheight : 0 < height) (hheight32 : height < 2 ^ 31)
  (hrows : 0 < rowsPerStrip)

theorem ints_append (front back : List (Nat × Nat)) : ints (front ++ back) = ints front ++ ints back :=
    List.map_append

include hcap hheight hheight32 hrows

/-- All bands, from the start of one. -/
theorem readPlanes8_eq {planes : List (List (Nat × Nat))}
    (hplanes : ∀ strips ∈ planes, Plane fc.content height rowsPerStrip rowBytes strips) (hne : planes ≠ [])
    (hwrap : 1 < planes.length → stripCount height rowsPerStrip * rowsPerStrip < 2 ^ 31) {s : Planar8}
    (done : List (List Int8))
    (hdata : s.data = done ++ List.replicate planes.length (List.replicate (height * rowBytes) 0))
    (hband : s.band = done.length) (hoffset : s.offset = 0) (hnum : s.numRows = 0)
    (hbuff : s.buff = ByteBuffer.wrap (List.replicate (height * rowBytes) 0)) :
    ∃ s', (ints planes.flatten).foldlM (readPlanarStrip8 fc height rowsPerStrip) s = some s' ∧
      s'.data = done ++ planes.map fun strips => strips.flatMap (bytesOf fc.content) := by
  induction planes generalizing s done with
  | nil => exact absurd rfl hne
  | cons strips planes ih =>
    have hplane := hplanes strips List.mem_cons_self
    have hfilled : Filled .bigEndian (height * rowBytes) [] s.buff := by
      rw [hbuff]
      exact .zeros _
    rw [List.length_cons, List.replicate_succ] at hdata
    have hset : ∀ l, s.data.set s.band l = done ++ l :: List.replicate planes.length
        (List.replicate (height * rowBytes) 0) := by
      intro l
      rw [hdata, hband, List.set_append_right _ _ le_rfl, Nat.sub_self, List.set_cons_zero]
    have hself : s.data.set s.band s.buff.bytes = s.data := by
      rw [hset, hdata, hbuff]
      rfl
    have hlength : s.data.length = done.length + planes.length + 1 := by
      rw [hdata, List.length_append, List.length_cons, List.length_replicate, Nat.add_assoc]
    rw [List.flatten_cons, ints_append, List.foldlM_append]
    rcases planes with _ | ⟨next, planes⟩
    · -- the last band
      obtain ⟨numRows, buff, -, hfold⟩ := readBand8_stay hcap hrows hplane hfilled hoffset hnum hself
        (fun j _ _ h => absurd h.2 (by rw [hlength, hband, List.length_nil]; omega))
      refine ⟨_, by rw [hfold]; rfl, ?_⟩
      exact hset _
    · have hfold := readBand8_next hcap hheight hheight32 hrows hplane hfilled hoffset hnum hself
        (by rw [hlength, hband, List.length_cons]; omega) (hwrap (by simp))
        (List.replicate (height * rowBytes) 0) (by
          rw [hdata, hband, List.getElem?_append_right (by omega), Nat.add_sub_cancel_left]
          rfl)
      obtain ⟨s', hs', hdata'⟩ := ih (fun strips h => hplanes strips (List.mem_cons_of_mem _ h)) (by simp)
        (fun _ => hwrap (by simp)) (s := ⟨s.data.set s.band (strips.flatMap (bytesOf fc.content)), s.band + 1, 0, 0,
          ByteBuffer.wrap (List.replicate (height * rowBytes) 0)⟩)
        (done ++ [strips.flatMap (bytesOf fc.content)]) (by
          refine (hset _).trans ?_
          rw [List.append_assoc]
          rfl) (by rw [List.length_append, List.length_singleton, hband]) rfl rfl rfl
      refine ⟨s', by rw [hfold]; exact hs', ?_⟩
      rw [hdata', List.append_assoc]
      rfl

omit hheight hheight32 hrows in
variable (fc) in
theorem readInterleavedStrips_eq (strips : List (Nat × Nat)) {buff : ByteBuffer} {done : List Int8} {k : Nat}
    (hstored : Stored fc.content height rowsPerStrip rowBytes k strips)
    (hfilled : Filled .bigEndian (height * rowBytes) done buff)
    (hdone : done.length = min (k * rowsPerStrip) height * rowBytes) :
    ∃ b offset, Filled .bigEndian (height * rowBytes) (done ++ strips.flatMap (bytesOf fc.content)) b ∧
      (ints strips).foldlM (readInterleavedStrip fc) (buff, (done.length : Int)) = some (b, offset) := by
  induction strips generalizing buff done k with
  | nil => exact ⟨buff, done.length, by rwa [List.flatMap_nil, List.append_nil], rfl⟩
  | cons strip strips ih =>
    obtain ⟨hsize, hfile, hrest⟩ := hstored.head
    obtain ⟨hroom, hlength⟩ := hstored.room hdone
    obtain ⟨c, hread, hc⟩ := readInto_eq hfilled hcap hroom hfile
    obtain ⟨b, offset, hb, hfold⟩ := ih hrest hc hlength
    have hoffset : int ((done.length : Int) + strip.2) = (done ++ bytesOf fc.content strip).length := by
      rw [int_eq (by omega) (by omega), List.length_append, length_bytesOf hfile, Nat.cast_add]
    refine ⟨b, offset, by rwa [List.flatMap_cons, ← List.append_assoc], ?_⟩
    rw [ints, List.map_cons, List.foldlM_cons, readInterleavedStrip, hread, Option.map_some, hoffset]
    exact hfold

omit hheight hheight32 in
variable (fc) in
/-- The pixels of all bands. -/
theorem readPixelInterleaved8_eq {width samplesPerPixel : Nat} (hrowBytes : rowBytes = width * samplesPerPixel)
    {strips : List (Nat × Nat)} (hplane : Plane fc.content height rowsPerStrip rowBytes strips) :
    readPixelInterleaved8 fc width height samplesPerPixel (ints strips) =
      some [strips.flatMap (bytesOf fc.content)] := by
  have hint : int ((width : Int) * height * samplesPerPixel) = (height * rowBytes : Nat) := by
    have hcells : width * height * samplesPerPixel = height * rowBytes := by
      rw [hrowBytes, Nat.mul_comm width, Nat.mul_assoc]
    rw [← Int.natCast_mul, ← Int.natCast_mul, hcells]
    exact int_eq (by omega) (by omega)
  obtain ⟨b, offset, hb, hfold⟩ := readInterleavedStrips_eq fc hcap strips hplane.toStored
    (.zeros _) (by simp)
  have hbytes := hb.bytes_eq (hplane.length_bytes hrows)
  rw [readPixelInterleaved8, hint, if_neg (by omega), Int.toNat_natCast]
  refine (congrArg (Option.map _) hfold).trans ?_
  rw [Option.map_some, hbytes, List.nil_append]

variable (fc) in
/-- The bands come out unless the count of the rows of one that another follows wraps. -/
theorem readPlanar8_iff (hrows32 : rowsPerStrip < 2 ^ 31) (hrowBytes : 0 < rowBytes)
    {planes : List (List (Nat × Nat))}
    (hplanes : ∀ strips ∈ planes, Plane fc.content height rowsPerStrip rowBytes strips) (hne : planes ≠ []) :
    readPlanar8 fc rowBytes height planes.length (ints planes.flatten) rowsPerStrip =
        some (planes.map fun strips => strips.flatMap (bytesOf fc.content)) ↔
      (1 < planes.length → stripCount height rowsPerStrip * rowsPerStrip < 2 ^ 31) := by
  have hint : int ((rowBytes : Int) * height) = (height * rowBytes : Nat) := by
    rw [Int.mul_comm, ← Int.natCast_mul]
    exact int_eq (by omega) (by omega)
  obtain ⟨strips, planes, rfl⟩ := List.exists_cons_of_ne_nil hne
  have hread : readPlanar8 fc rowBytes height (strips :: planes).length
      (ints (strips :: planes).flatten) rowsPerStrip =
      ((ints (strips :: planes).flatten).foldlM (readPlanarStrip8 fc height rowsPerStrip)
        ⟨List.replicate (planes.length + 1) (List.replicate (height * rowBytes) 0), 0, 0, 0,
          ByteBuffer.wrap (List.replicate (height * rowBytes) 0)⟩).map fun s => s.data := by
    rw [readPlanar8, hint, if_neg (by omega), Int.toNat_natCast, Int.toNat_natCast]
    rfl
  rw [hread]
  constructor
  · intro hsome hmany
    by_contra hwrap
    obtain ⟨next, planes, rfl⟩ := List.exists_cons_of_length_pos (l := planes) (by simpa using hmany)
    have hnext := hplanes next (by simp)
    obtain ⟨strip, rest, rfl⟩ := List.exists_cons_of_length_pos (l := next) (by
      rw [hnext.length]
      exact (mul_lt_iff height hrows 0).1 (by omega))
    have hplane := hplanes strips List.mem_cons_self
    have hnone := readBand8_wrapped hcap hheight hheight32 hrows
      (s := ⟨List.replicate (planes.length + 1 + 1) (List.replicate (height * rowBytes) 0), 0, 0, 0,
        ByteBuffer.wrap (List.replicate (height * rowBytes) 0)⟩) hplane
      (.zeros _) rfl rfl rfl hrows32 (not_lt.1 hwrap) hrowBytes
      (by rw [hnext.toStored.head.1, Nat.zero_mul, Nat.sub_zero])
    have hsplit : ints (strips :: (strip :: rest) :: planes).flatten =
        ints (strips ++ [strip]) ++ ints (rest ++ planes.flatten) := by
      rw [← ints_append]
      simp
    rw [hsplit, List.foldlM_append, List.length_cons, hnone] at hsome
    cases hsome
  · intro hwrap
    obtain ⟨s', hs', hdata⟩ := readPlanes8_eq hcap hheight hheight32 hrows hplanes hne hwrap []
      (s := ⟨List.replicate (planes.length + 1) (List.replicate (height * rowBytes) 0), 0, 0, 0,
        ByteBuffer.wrap (List.replicate (height * rowBytes) 0)⟩) rfl rfl rfl rfl rfl
    rw [hs', Option.map_some, hdata, List.nil_append]

end

/-! ## Bands of larger samples -/

section

variable {size cells : Nat} {samples : ByteBuffer → List Int} {past : Int → Int → Bool}
  {dec : ByteOrder → List Int8 → List Int} {order : ByteOrder}
  (hpast : ∀ a b, (a > b → past a b = true) ∧ (past a b = true → a ≥ b))
  (hcap : height * rowBytes < 2 ^ 31) (hcells : cells * size = height * rowBytes)

include hpast hcap hcells

variable (samples rowsPerStrip) in
/-- One round: the strip is read, and counted. -/
theorem readStrip_into {s : Planar} {done : List Int8} {old : List Int} (hget : s.data[s.band]? = some old)
    (hold : old.length = cells) (hfilled : Filled order (height * rowBytes) done s.buff) {strip : Nat × Nat}
    (hroom : done.length + strip.2 ≤ height * rowBytes) (hfile : strip.1 + strip.2 ≤ fc.content.length) :
    ∃ c, Filled order (height * rowBytes) (done ++ bytesOf fc.content strip) c ∧
      readStrip size samples past fc height rowsPerStrip s (strip.1, strip.2) =
        if (height : Int) ≤ int (s.numRows + rowsPerStrip) then
          if (samples c.flip).length < cells then none
          else some ⟨s.data.set s.band ((samples c.flip).take cells), s.band + 1, 0, c.flip.clear⟩
        else some { s with numRows := int (s.numRows + rowsPerStrip), buff := c } := by
  have hsize : done.length + strip.2 < 2 ^ 31 := hroom.trans_lt hcap
  have hstrip : strip.2 < 2 ^ 31 := by omega
  obtain ⟨c, hset, hc⟩ := hfilled.read hcap hroom hfile
  have hbytes : int ((old.length : Int) * size) = (height * rowBytes : Nat) := by
    rw [hold, ← Int.natCast_mul, hcells, int_natCast hcap]
  have hlen : (if past (int (s.buff.position + int strip.2)) (int ((old.length : Int) * size)) then
      int (int ((old.length : Int) * size) - s.buff.position) else int strip.2) = (strip.2 : Int) := by
    rw [hbytes, hfilled.position, int_natCast hstrip, ← Nat.cast_add, int_natCast hsize]
    split
    · have hfull : done.length + strip.2 = height * rowBytes := le_antisymm hroom (Int.ofNat_le.1 ((hpast _ _).2 ‹_›))
      rw [← hfull, Nat.cast_add, add_sub_cancel_left, int_natCast hstrip]
    · rfl
  refine ⟨_, hc, ?_⟩
  have hposition : int ((s.buff.position : Int) + (strip.2 : Int)) = int ((done.length : Int) + strip.2) := by
    rw [hfilled.position]
  rw [readStrip, if_neg (not_lt.2 (Int.natCast_nonneg _)), hget, Option.bind_some]
  dsimp only
  rw [hlen, hposition, hset, Option.bind_some, Int.toNat_natCast, hold]

variable (samples) in
/-- Strips of one band in front of the one that completes it. -/
theorem readStrips_into (strips : List (Nat × Nat)) {s : Planar} {done : List Int8} {k : Nat} {old : List Int}
    (hget : s.data[s.band]? = some old) (hold : old.length = cells)
    (hstored : Stored fc.content height rowsPerStrip rowBytes k strips)
    (hfilled : Filled order (height * rowBytes) done s.buff)
    (hdone : done.length = min (k * rowsPerStrip) height * rowBytes) (hnum : s.numRows = (k * rowsPerStrip : Nat))
    (hheight32 : height < 2 ^ 31) (hshort : ∀ j, k < j → j ≤ k + strips.length → j * rowsPerStrip < height) :
    ∃ buff, Filled order (height * rowBytes) (done ++ strips.flatMap (bytesOf fc.content)) buff ∧
      (ints strips).foldlM (readStrip size samples past fc height rowsPerStrip) s =
        some { s with numRows := ((k + strips.length) * rowsPerStrip : Nat), buff } := by
  induction strips generalizing s done k with
  | nil =>
    refine ⟨s.buff, by rwa [List.flatMap_nil, List.append_nil], ?_⟩
    rw [List.length_nil, Nat.add_zero, ← hnum]
    rfl
  | cons strip strips ih =>
    obtain ⟨hroom, hlength⟩ := hstored.room hdone
    have hlt := hshort (k + 1) (by omega) (by rw [List.length_cons]; omega)
    obtain ⟨c, hc, hstep⟩ := readStrip_into rowsPerStrip samples hpast hcap hcells hget hold
      hfilled hroom hstored.head.2.1
    have hnum' : int (s.numRows + rowsPerStrip) = ((k + 1) * rowsPerStrip : Nat) := by
      rw [hnum, ← Nat.cast_add, ← Nat.succ_mul]
      exact int_natCast (hlt.trans hheight32)
    rw [hnum', if_neg (not_le.2 (Int.ofNat_lt.2 hlt))] at hstep
    rw [List.length_cons] at hshort ⊢
    obtain ⟨buff, hbuff, hfold⟩ :=
        ih (k := k + 1) (s := { s with numRows := ((k + 1) * rowsPerStrip : Nat), buff := c })
      hget hstored.head.2.2 hc hlength rfl (fun j h1 h2 => hshort j (by omega) (by omega))
    refine ⟨buff, by rwa [List.flatMap_cons, ← List.append_assoc], ?_⟩
    rw [ints, List.map_cons, List.foldlM_cons, hstep]
    refine hfold.trans ?_
    rw [Nat.add_right_comm k 1, ← Nat.add_assoc]

variable (hsamples : ∀ b : ByteBuffer, samples b = dec b.order b.remaining)
  (hdec : ∀ l, (dec order l).length = l.length / size) (hsize : 0 < size) (hheight : 0 < height)
  (hheight32 : height < 2 ^ 31) (hrows : 0 < rowsPerStrip)
  (hwrap : stripCount height rowsPerStrip * rowsPerStrip < 2 ^ 31)

include hsamples hdec hsize hheight hheight32 hrows hwrap

theorem readBand_eq {s : Planar} {old : List Int} (hget : s.data[s.band]? = some old) (hold : old.length = cells)
    (hfilled : Filled order (height * rowBytes) [] s.buff) (hnum : s.numRows = 0) {strips : List (Nat × Nat)}
    (hplane : Plane fc.content height rowsPerStrip rowBytes strips) :
    ∃ buff, Filled order (height * rowBytes) [] buff ∧
      (ints strips).foldlM (readStrip size samples past fc height rowsPerStrip) s =
        some ⟨s.data.set s.band (dec order (strips.flatMap (bytesOf fc.content))), s.band + 1, 0, buff⟩ := by
  have hpos : 0 < stripCount height rowsPerStrip := (mul_lt_iff height hrows 0).1 (by omega)
  have hbytes := hplane.length_bytes hrows
  have hlength := hplane.length
  obtain ⟨front, last, rfl⟩ : ∃ front last, strips = front ++ [last] :=
    ⟨strips.dropLast, strips.getLast (by rintro rfl; simp at hlength; omega), (List.dropLast_append_getLast _).symm⟩
  rw [List.length_append, List.length_singleton] at hlength
  obtain ⟨hfront, hlast⟩ := hplane.toStored.append
  rw [Nat.zero_add] at hlast
  obtain ⟨b, hb, hfold⟩ := readStrips_into samples hpast hcap hcells front hget hold hfront hfilled
    (by simp) (by simp [hnum]) hheight32 (fun j h1 h2 => (mul_lt_iff height hrows j).2 (by omega))
  have hfrontBytes := hfront.length_bytes [] (by simp)
  rw [List.nil_append] at hb hfrontBytes
  rw [Nat.zero_add] at hfold hfrontBytes
  obtain ⟨c, hc, hstep⟩ := readStrip_into rowsPerStrip samples hpast hcap hcells
    (s := { s with numRows := (front.length * rowsPerStrip : Nat), buff := b }) hget hold hb
    (hlast.room hfrontBytes).1
    hlast.head.2.1
  have hnum' : int (((front.length * rowsPerStrip : Nat) : Int) + rowsPerStrip) =
      (stripCount height rowsPerStrip * rowsPerStrip : Nat) := by
    rw [← Nat.cast_add, ← Nat.succ_mul, Nat.succ_eq_add_one, hlength]
    exact int_natCast hwrap
  have hfull : front.flatMap (bytesOf fc.content) ++ bytesOf fc.content last =
      (front ++ [last]).flatMap (bytesOf fc.content) := by
    rw [List.flatMap_append, List.flatMap_singleton]
  rw [hfull] at hc
  -- the samples of the whole buffer
  have hflip : samples c.flip = dec order ((front ++ [last]).flatMap (bytesOf fc.content)) := by
    rw [hsamples, show c.flip.order = order from hc.order, ByteBuffer.remaining, ByteBuffer.content]
    show dec order ((c.bytes.take c.position).drop 0) = _
    rw [hc.position, hc.take, List.drop_zero]
  have hcount : (samples c.flip).length = cells := by
    rw [hflip, hdec, hbytes, ← hcells, Nat.mul_div_cancel _ hsize]
  rw [hnum', if_pos (Int.ofNat_le.2 (le_stripCount_mul height hrows)), if_neg (by omega),
    List.take_of_length_le hcount.le, hflip] at hstep
  refine ⟨c.flip.clear, ⟨hc.length, rfl, rfl, hc.order⟩, ?_⟩
  rw [foldlM_ints, hfold]
  exact hstep

/-- All bands, from the start of one. -/
theorem readPlanes_eq {planes : List (List (Nat × Nat))}
    (hplanes : ∀ strips ∈ planes, Plane fc.content height rowsPerStrip rowBytes strips) {s : Planar}
    (done : List (List Int))
    (hdata : s.data = done ++ List.replicate planes.length (List.replicate cells 0)) (hband : s.band = done.length)
    (hnum : s.numRows = 0) (hfilled : Filled order (height * rowBytes) [] s.buff) :
    ∃ s', (ints planes.flatten).foldlM (readStrip size samples past fc height rowsPerStrip) s = some s' ∧
      s'.data = done ++ planes.map fun strips => dec order (strips.flatMap (bytesOf fc.content)) := by
  induction planes generalizing s done with
  | nil =>
    refine ⟨s, rfl, ?_⟩
    rw [hdata]
    rfl
  | cons strips planes ih =>
    rw [List.length_cons, List.replicate_succ] at hdata
    have hget : s.data[s.band]? = some (List.replicate cells 0) := by
      rw [hdata, hband, List.getElem?_append_right le_rfl, Nat.sub_self]
      rfl
    obtain ⟨buff, hbuff, hfold⟩ :=
        readBand_eq hpast hcap hcells hsamples hdec hsize hheight hheight32 hrows hwrap hget
      List.length_replicate hfilled hnum (hplanes strips List.mem_cons_self)
    obtain ⟨s', hs', hdata'⟩ := ih (fun strips h => hplanes strips (List.mem_cons_of_mem _ h))
      (s := ⟨s.data.set s.band (dec order (strips.flatMap (bytesOf fc.content))), s.band + 1, 0, buff⟩)
      (done ++ [dec order (strips.flatMap (bytesOf fc.content))]) (by
        rw [hdata, hband, List.set_append_right _ _ le_rfl, Nat.sub_self, List.set_cons_zero, List.append_assoc]
        rfl) (by rw [List.length_append, List.length_singleton, hband]) rfl hbuff
    refine ⟨s', ?_, ?_⟩
    · rw [List.flatten_cons, ints_append, List.foldlM_append, hfold]
      exact hs'
    · rw [hdata', List.append_assoc]
      rfl

theorem readPlanar_planes {width : Nat} (hwidth : cells = width * height) {planes : List (List (Nat × Nat))}
    (hplanes : ∀ strips ∈ planes, Plane fc.content height rowsPerStrip rowBytes strips) :
    readPlanar size samples past fc order width height planes.length (ints planes.flatten) rowsPerStrip =
      some (planes.map fun strips => dec order (strips.flatMap (bytesOf fc.content))) := by
  have hbytes : int ((width : Int) * height * size) = (height * rowBytes : Nat) := by
    rw [← Int.natCast_mul, ← Int.natCast_mul, ← hwidth, hcells, int_natCast hcap]
  have hint : int ((width : Int) * height) = cells := by
    rw [← Int.natCast_mul, ← hwidth]
    exact int_natCast ((Nat.le_mul_of_pos_right _ hsize).trans_lt (hcells ▸ hcap))
  obtain ⟨s', hs', hdata⟩ := readPlanes_eq hpast hcap hcells hsamples hdec hsize hheight hheight32 hrows hwrap hplanes
    (s := ⟨List.replicate planes.length (List.replicate cells 0), 0, 0,
      ⟨List.replicate (height * rowBytes) 0, 0, height * rowBytes, order⟩⟩) [] rfl rfl rfl
    ⟨List.length_replicate, rfl, rfl, rfl⟩
  rw [readPlanar, hint, hbytes, if_neg (by simp), ByteBuffer.allocate, if_neg (not_lt.2 (Int.natCast_nonneg _)),
    Option.bind_some,
    Int.toNat_natCast, Int.toNat_natCast, Int.toNat_natCast]
  refine (congrArg (Option.map _) hs').trans ?_
  rw [Option.map_some, hdata, List.nil_append]

end

end TIFFReader

end WorldWind.Tiff
