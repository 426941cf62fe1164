import WorldWind.Tiff.Ifd
/-!
# Theorems about directory entries

`Stored` says how a field lies in a file. What `create` makes of it is one of
three entries: one short, one long, or a number of values with the data at an
offset (`create_short`, `create_long`, `create_array`). `create_returns` puts
them together: which fields come back from the accessors.
-/

namespace WorldWind.Tiff

open Lib Lib.JavaArray Lib.JavaInt Lib.Nio

/-! ## Fields -/

inductive FieldType where
  | byte
  | short
  | long
  deriving DecidableEq, Repr

def FieldType.code : FieldType → Int
  | .byte => Typ.BYTE
  | .short => Typ.SHORT
  | .long => Typ.LONG

/-- The bytes of one value. -/
def FieldType.size : FieldType → Nat
  | .byte => 1
  | .short => 2
  | .long => 4

def FieldType.encode (order : ByteOrder) : FieldType → Nat → List Int8
  | .byte, n => [Nio.byte n]
  | .short, n => shortBytes order n
  | .long, n => intBytes order n

/-- A field: at least one value, each in the range of its type. -/
structure Field where
  type : FieldType
  values : List Nat
  count_pos : 0 < values.length
  count_lt : values.length < 2 ^ 32
  values_lt : ∀ v ∈ values, v < 2 ^ (8 * type.size)

namespace Field

variable (f : Field) (order : ByteOrder)

def count : Nat := f.values.length

def bytes : List Int8 := f.values.flatMap (f.type.encode order)

/-- How the field lies in a file whose directory has its entry at `p`: the
values in the entry itself if they fit in four bytes, left-justified, and
otherwise at an offset the entry gives. -/
def Stored (file : List Int8) (p tag : Nat) : Prop :=
  ∃ field : List Int8, field.length = 4 ∧
    (file.drop p).take 12 = shortBytes order tag ++ shortBytes order f.type.code ++ intBytes order f.count ++ field ∧
    if (f.bytes order).length ≤ 4 then f.bytes order <+: field
    else ∃ offset : Nat, offset < 2 ^ 32 ∧ field = intBytes order offset ∧ f.bytes order <+: file.drop offset

end Field

/-- The accessors return the values of the field. -/
def Returned (entry : Option TiffIFDEntry) (f : Field) : Prop :=
  ∃ e, entry = some e ∧ match f.type with
    | .byte => e.getShortsAsInts = some (f.values.map Int.ofNat) ∨ e.getAsLongs = some (some (f.values.map Int.ofNat))
    | .short => e.getShortsAsInts = some (f.values.map Int.ofNat) ∧
        (∀ i < f.count, e.asShortAt i = f.values[i]?.map Int.ofNat) ∧ e.asShort = f.values[0]?.map Int.ofNat ∧
        e.getAsLongs = some (some (f.values.map Int.ofNat)) ∧
        (f.count = 1 → e.asLong = f.values[0]?.map Int.ofNat)
    | .long => e.getAsLongs = some (some (f.values.map Int.ofNat)) ∧
        (f.count = 1 → e.asLong = f.values[0]?.map Int.ofNat)

/-- What is read of the field is cut to a size of 16 bits, and the values that
are missing are zero. -/
def Field.CutRight (f : Field) : Prop :=
  f.count < 2 ^ 31 ∧ 0 < f.type.size * f.count % 2 ^ 16 ∧
    ∀ v ∈ f.values.drop (f.type.size * f.count % 2 ^ 16 / f.type.size), v = 0

/-- The `n` shorts of the file from `p` on, zero past the end. -/
def shortsAt (file : List Int8) (order : ByteOrder) (p n : Nat) : List Nat :=
  let l := ushortsOf order ((file.drop p).take (2 * n))
  l ++ List.replicate (n - l.length) 0

/-- The fields that come back. Two shorts are in the entry itself, but are
taken as an offset. -/
def Field.Readable (f : Field) (order : ByteOrder) (file : List Int8) : Prop :=
  match f.type with
  | .byte => False
  | .short => f.count = 1 ∨ (f.count = 2 ∧ shortsAt file order (uintOf order (f.bytes order)) 2 = f.values) ∨
      (2 < f.count ∧ f.CutRight)
  | .long => (f.count = 1 ∧ ∀ v ∈ f.values, v < 2 ^ 31) ∨ (1 < f.count ∧ f.CutRight)

/-! ## Reading the header -/

namespace TIFFIFDFactory

variable {order : ByteOrder} {b : ByteBuffer} {x rest : List Int8}

theorem getUnsignedShort_bytes (h : b.Valid) (hr : b.remaining = x ++ rest) (hx : x.length = 2) :
    ∃ c, getUnsignedShort b = some ((ushortOf b.order x : Int), c) ∧ c.Valid ∧ c.remaining = rest ∧
      c.order = b.order := by
  obtain ⟨c, hget, hc⟩ := ByteBuffer.getShort_bytes h hr hx
  exact ⟨c, by rw [getUnsignedShort, hget, Option.map_some, shortOf_emod], hc⟩

theorem getUnsignedInt_bytes (h : b.Valid) (hr : b.remaining = x ++ rest) (hx : x.length = 4) :
    ∃ c, getUnsignedInt b = some ((uintOf b.order x : Int), c) ∧ c.Valid ∧ c.remaining = rest ∧
      c.order = b.order := by
  obtain ⟨c, hget, hc⟩ := ByteBuffer.getInt_bytes h hr hx
  exact ⟨c, by rw [getUnsignedInt, hget, Option.map_some, intOf_emod], hc⟩

/-- The data is what the file has at the offset, and the channel is where it was. -/
theorem readData_eq (fc : FileChannel) (order : ByteOrder) (offset size : Nat) :
    ∃ data : ByteBuffer, readData fc order offset size = some (data, fc) ∧ data.order = order ∧
      data.rewind.remaining = (fc.content.drop offset).take size := by
  obtain ⟨hvalid, horder, hrem⟩ := (fc.setPosition offset).read_flip
    (b := ⟨List.replicate size 0, 0, size, order⟩) ⟨Nat.zero_le _, by simp⟩ rfl
  refine ⟨((fc.setPosition offset).read ⟨List.replicate size 0, 0, size, order⟩).1.flip, ?_, horder, hrem⟩
  rw [readData, ByteBuffer.allocate, if_neg (by omega), Option.map_some]
  rfl

/-- What `create` makes of a tag, a type, a count and a value field. -/
theorem entryOf_eq {header : ByteBuffer} (fc : FileChannel) {tag : Nat} {type : FieldType} {count : Nat}
    {field : List Int8} (hv : header.Valid) (ho : header.order = order)
    (hr : header.remaining = shortBytes order tag ++ shortBytes order type.code ++ intBytes order count ++ field)
    (hcount : count < 2 ^ 32) (hfield : field.length = 4) :
    entryOf header fc order =
      if type = .short ∧ count = 1 then
        some (⟨ushortOf order (shortBytes order tag), type.code, 1,
          int (ushortOf order (field.take 2) * 2 ^ 16 + ushortOf order (field.drop 2)), none⟩, fc)
      else if count = 1 ∧ type = .long then
        some (⟨ushortOf order (shortBytes order tag), type.code, 1, intOf order field, none⟩, fc)
      else if 0 < type.size * count % 2 ^ 16 then
        (readData fc order (uintOf order field) (type.size * count % 2 ^ 16 : Nat)).map fun data =>
          (⟨ushortOf order (shortBytes order tag), type.code, count, uintOf order field, some data.1⟩, data.2)
      else some (⟨ushortOf order (shortBytes order tag), type.code, count, uintOf order field, none⟩, fc) := by
  subst ho
  rw [List.append_assoc, List.append_assoc] at hr
  obtain ⟨b1, h1, hv1, hr1, ho1⟩ := getUnsignedShort_bytes hv hr (shortBytes_length _ _)
  obtain ⟨b2, h2, hv2, hr2, ho2⟩ := getUnsignedShort_bytes hv1 hr1 (shortBytes_length _ _)
  obtain ⟨b3, h3, hv3, hr3, ho3⟩ := getUnsignedInt_bytes hv2 hr2 (intBytes_length _ _)
  rw [ho1] at h2 ho2
  rw [ho2] at h3 ho3
  have htype : ∃ n : Nat, type.code = n ∧ ushortOf header.order (shortBytes header.order type.code) = n := by
    cases type
    · exact ⟨1, rfl, ushortOf_shortBytes _ (n := 1) (by omega)⟩
    · exact ⟨3, rfl, ushortOf_shortBytes _ (n := 3) (by omega)⟩
    · exact ⟨4, rfl, ushortOf_shortBytes _ (n := 4) (by omega)⟩
  obtain ⟨n, hcode, hn⟩ := htype
  rw [hn, ← hcode] at h2
  rw [uintOf_intBytes _ hcount] at h3
  have hshort : (type.code = Typ.SHORT ∧ (count : Int) = 1) ↔ (type = .short ∧ count = 1) := by
    cases type <;> simp [FieldType.code, Typ.SHORT, Typ.BYTE, Typ.LONG]
  have hlong : ((count : Int) = 1 ∧ (type.code = Typ.LONG ∨ type.code = Typ.FLOAT)) ↔
      (count = 1 ∧ type = .long) := by
    cases type <;> simp [FieldType.code, Typ.SHORT, Typ.BYTE, Typ.LONG, Typ.FLOAT]
  have hsize : int (calcSize type.code count) % 2 ^ 16 = (type.size * count % 2 ^ 16 : Nat) := by
    have hcalc : calcSize type.code count = type.size * count := by
      cases type <;>
        simp [FieldType.code, FieldType.size, calcSize, Typ.SHORT, Typ.BYTE, Typ.LONG, Typ.SBYTE, Typ.ASCII,
          Typ.SSHORT, Typ.SLONG, Int.mul_comm]
    rw [int_mod_short, hcalc]
    push_cast
    rfl
  simp only [entryOf, h1, h2, h3, Option.bind_some, hshort, hlong]
  split
  · have hsplit : b3.remaining = field.take 2 ++ field.drop 2 := by rw [List.take_append_drop, hr3]
    obtain ⟨b4, h4, hv4, hr4, ho4⟩ := getUnsignedShort_bytes hv3 hsplit (by rw [List.length_take, hfield]; rfl)
    obtain ⟨b5, h5, -⟩ := getUnsignedShort_bytes hv4 (hr4.trans (List.append_nil _).symm)
      (by rw [List.length_drop, hfield])
    rw [ho3] at h4 ho4
    rw [ho4] at h5
    rw [h4, Option.bind_some, h5, Option.map_some]
  · split
    · obtain ⟨b4, h4, -⟩ := ByteBuffer.getInt_bytes hv3 (hr3.trans (List.append_nil _).symm) hfield
      rw [h4, Option.map_some, ho3]
    · obtain ⟨b4, h4, -⟩ := getUnsignedInt_bytes hv3 (hr3.trans (List.append_nil _).symm) hfield
      rw [ho3] at h4
      simp only [h4, Option.bind_some, hsize, gt_iff_lt, Int.natCast_pos]

/-- Twelve bytes are an entry with the tag of the first two. -/
theorem entryOf_some {header : ByteBuffer} (fc : FileChannel) (hv : header.Valid) (ho : header.order = order)
    (hr : header.remaining.length = 12) :
    ∃ e, entryOf header fc order = some (e, fc) ∧ e.tag = ushortOf order (header.remaining.take 2) := by
  subst ho
  have split : ∀ (l : List Int8) (n : Nat), l = l.take n ++ l.drop n := fun l n => (List.take_append_drop n l).symm
  obtain ⟨b1, h1, hv1, hr1, ho1⟩ := getUnsignedShort_bytes hv (split header.remaining 2) (by simp [hr])
  obtain ⟨b2, h2, hv2, hr2, ho2⟩ := getUnsignedShort_bytes hv1 (split b1.remaining 2) (by simp [hr1, hr])
  obtain ⟨b3, h3, hv3, hr3, ho3⟩ := getUnsignedInt_bytes hv2 (split b2.remaining 4) (by simp [hr2, hr1, hr])
  have hl3 : b3.remaining.length = 4 := by simp [hr3, hr2, hr1, hr]
  simp only [entryOf, h1, h2, h3, Option.bind_some]
  split
  · obtain ⟨b4, h4, hv4, hr4, ho4⟩ := getUnsignedShort_bytes hv3 (split b3.remaining 2) (by simp [hl3])
    obtain ⟨b5, h5, -⟩ := getUnsignedShort_bytes hv4 (split b4.remaining 2) (by simp [hr4, hl3])
    simp only [h4, Option.bind_some, h5, Option.map_some]
    exact ⟨_, rfl, rfl⟩
  · split
    · obtain ⟨b4, h4, -⟩ := ByteBuffer.getInt_bytes hv3 (List.append_nil _).symm hl3
      rw [h4, Option.map_some]
      exact ⟨_, rfl, rfl⟩
    · obtain ⟨b4, h4, -⟩ := getUnsignedInt_bytes hv3 (List.append_nil _).symm hl3
      simp only [h4, Option.bind_some]
      split
      · obtain ⟨size, hsize⟩ := Int.eq_ofNat_of_zero_le (a := int (calcSize (ushortOf b1.order (b1.remaining.take 2))
          (uintOf b2.order (b2.remaining.take 4))) % 2 ^ 16) (Int.emod_nonneg _ (by norm_num))
        obtain ⟨d, hd, -⟩ := readData_eq fc header.order (uintOf b3.order b3.remaining) size
        rw [hsize, hd, Option.map_some]
        exact ⟨_, rfl, rfl⟩
      · exact ⟨_, rfl, rfl⟩

section create

variable {fc : FileChannel} {tag count : Nat} {type : FieldType} {field : List Int8}

variable (fc order) in
/-- The header is read, and the channel stands behind it. -/
theorem create_of_entryOf {e : TiffIFDEntry}
    (h : ∀ header : ByteBuffer, header.Valid → header.order = order →
      header.remaining = (fc.content.drop fc.position).take 12 →
      entryOf header ⟨fc.content, fc.position + ((fc.content.drop fc.position).take 12).length⟩ order =
        some (e, ⟨fc.content, fc.position + ((fc.content.drop fc.position).take 12).length⟩)) :
    create fc order = (some e, ⟨fc.content, fc.position + ((fc.content.drop fc.position).take 12).length⟩) := by
  obtain ⟨hv, ho, hr⟩ := fc.read_flip (b := { ByteBuffer.wrap (List.replicate 12 0) with order := order })
    ⟨Nat.zero_le _, Nat.le_refl _⟩ rfl
  have hentry := h _ hv ho hr
  unfold create
  simp only [FileChannel.read, ByteBuffer.wrap, List.length_replicate, Nat.sub_zero] at hentry ⊢
  rw [hentry]

variable (fc order) in
theorem create_some (h : ((fc.content.drop fc.position).take 12).length = 12) :
    ∃ e, create fc order = (some e, ⟨fc.content, fc.position + 12⟩) ∧
      e.tag = ushortOf order (((fc.content.drop fc.position).take 12).take 2) := by
  obtain ⟨hv, ho, hr⟩ := fc.read_flip (b := { ByteBuffer.wrap (List.replicate 12 0) with order := order })
    ⟨Nat.zero_le _, Nat.le_refl _⟩ rfl
  obtain ⟨e, he, htag⟩ := entryOf_some ⟨fc.content, fc.position + 12⟩ hv ho (by rw [hr]; exact h)
  refine ⟨e, ?_, by rw [htag, hr]; rfl⟩
  unfold create
  simp only [FileChannel.read, ByteBuffer.wrap, List.length_replicate, Nat.sub_zero, h] at he ⊢
  rw [he]

variable (hr : (fc.content.drop fc.position).take 12 =
  shortBytes order tag ++ shortBytes order type.code ++ intBytes order count ++ field)
  (hcount : count < 2 ^ 32) (hfield : field.length = 4)

include hr hcount hfield

variable (fc) in
theorem create_short (h : type = .short ∧ count = 1) :
    create fc order = (some ⟨ushortOf order (shortBytes order tag), type.code, 1,
      int (ushortOf order (field.take 2) * 2 ^ 16 + ushortOf order (field.drop 2)), none⟩,
      ⟨fc.content, fc.position + 12⟩) := by
  have hlen : ((fc.content.drop fc.position).take 12).length = 12 := by
    simp [hr, hfield]
  have hcreate := create_of_entryOf order fc fun header hv ho hh =>
    (entryOf_eq _ hv ho (hh.trans hr) hcount hfield).trans (if_pos h)
  rwa [hlen] at hcreate

variable (fc) in
theorem create_long (h : count = 1 ∧ type = .long) :
    create fc order = (some ⟨ushortOf order (shortBytes order tag), type.code, 1, intOf order field, none⟩,
      ⟨fc.content, fc.position + 12⟩) := by
  have hlen : ((fc.content.drop fc.position).take 12).length = 12 := by
    simp [hr, hfield]
  have hnot : ¬ (type = .short ∧ count = 1) := by
    rw [h.2]
    simp
  have hcreate := create_of_entryOf order fc fun header hv ho hh =>
    (entryOf_eq _ hv ho (hh.trans hr) hcount hfield).trans ((if_neg hnot).trans (if_pos h))
  rwa [hlen] at hcreate

variable (fc) in
/-- Anything else is taken for an offset. -/
theorem create_array (h1 : ¬ (type = .short ∧ count = 1)) (h2 : ¬ (count = 1 ∧ type = .long)) :
    ∃ data : Option ByteBuffer, create fc order = (some ⟨ushortOf order (shortBytes order tag), type.code, count,
      uintOf order field, data⟩, ⟨fc.content, fc.position + 12⟩) ∧
      if 0 < type.size * count % 2 ^ 16 then ∃ d, data = some d ∧ d.order = order ∧
        d.rewind.remaining = (fc.content.drop (uintOf order field)).take (type.size * count % 2 ^ 16)
      else data = none := by
  have hlen : ((fc.content.drop fc.position).take 12).length = 12 := by
    simp [hr, hfield]
  have hentry := fun (header : ByteBuffer) (hv : header.Valid) (ho : header.order = order)
      (hh : header.remaining = (fc.content.drop fc.position).take 12) =>
    ((entryOf_eq ⟨fc.content, fc.position + 12⟩ hv ho (hh.trans hr) hcount hfield).trans
      (if_neg h1)).trans (if_neg h2)
  by_cases hsize : 0 < type.size * count % 2 ^ 16
  · obtain ⟨d, hd, hdo, hdr⟩ := readData_eq ⟨fc.content, fc.position + 12⟩ order (uintOf order field)
      (type.size * count % 2 ^ 16)
    refine ⟨some d, ?_, ?_⟩
    · have hcreate := create_of_entryOf order fc fun header hv ho hh => by
        rw [hlen, hentry header hv ho hh, if_pos hsize, hd, Option.map_some]
      rwa [hlen] at hcreate
    · rw [if_pos hsize]
      exact ⟨d, rfl, hdo, hdr⟩
  · refine ⟨none, ?_, if_neg hsize ▸ rfl⟩
    have hcreate := create_of_entryOf order fc fun header hv ho hh => by
      rw [hlen, hentry header hv ho hh, if_neg hsize]
    rwa [hlen] at hcreate

end create

end TIFFIFDFactory

/-! ## The accessors -/

namespace TiffIFDEntry

/-- As many values as there are, and zeros. -/
theorem fill_eq {n : Nat} (hn : n < 2 ^ 31) {l : List Int} (hl : l.length ≤ n) :
    fill n l = some (l ++ List.replicate (n - l.length) 0) := by
  have htoInt : (Int32.ofInt n).toInt = n := Int32.toInt_ofInt_of_le (by omega) (by omega)
  rw [fill, newArray_eq 0 (by omega), Option.bind_some, htoInt, Int.toNat_natCast]
  refine writes_eq (by simp only [List.length_append, List.length_replicate]; omega) (fun c hc => ?_) fun p hp => ?_
  · obtain ⟨⟨x, p⟩, hx, rfl⟩ := List.mem_map.1 hc
    have hget := List.mk_mem_zipIdx_iff_getElem?.1 hx
    rw [List.getElem?_append_left (List.getElem?_eq_some_iff.1 hget).1]
    exact hget
  · have hlp : l.length ≤ p := by
      by_contra hlt
      exact hp (p, l[p]) (List.mem_map.2 ⟨(l[p], p), List.mk_mem_zipIdx_iff_getElem?.2 (List.getElem?_eq_getElem _),
        rfl⟩)
        rfl
    rw [List.getElem?_append_right hlp, List.getElem?_replicate, List.getElem?_replicate]
    exact if_congr (by omega) rfl rfl

/-- The array of a count that is no `int` cannot be made. -/
theorem fill_none {n : Nat} (h1 : 2 ^ 31 ≤ n) (h2 : n < 2 ^ 32) (l : List Int) : fill n l = none := by
  have hneg : Int32.ofInt n < 0 := by
    rw [Int32.lt_iff_toInt_lt, Int32.toInt_ofInt, Int32.toInt_zero, show Int32.size = 2 ^ 32 from rfl, Int.bmod_def]
    split <;> omega
  rw [fill, newArray, if_pos hneg, Option.bind_none]

/-- The first `k` values of an array fill it if the others are zero. -/
theorem fill_take {values : List Nat} (hn : values.length < 2 ^ 32) (k : Nat) :
    fill values.length ((values.take k).map Int.ofNat) = some (values.map Int.ofNat) ↔
      values.length < 2 ^ 31 ∧ ∀ v ∈ values.drop k, v = 0 := by
  by_cases hint : values.length < 2 ^ 31
  · have hlen : ((values.take k).map Int.ofNat).length ≤ values.length := by
      rw [List.length_map]
      exact List.length_take_le' _ _
    have hrest : values.length - ((values.take k).map Int.ofNat).length = (values.drop k).length := by
      rw [List.length_map, List.length_take, List.length_drop]
      omega
    have hvalues : values.map Int.ofNat = (values.take k).map Int.ofNat ++ (values.drop k).map Int.ofNat := by
      rw [← List.map_append, List.take_append_drop]
    rw [fill_eq hint hlen, hrest, hvalues, Option.some.injEq, List.append_cancel_left_eq, eq_comm,
      List.eq_replicate_iff, List.length_map, List.forall_mem_map]
    simp only [Int.ofNat_eq_natCast, Int.natCast_eq_zero, true_and, hint]
  · rw [fill_none (by omega) hn]
    exact ⟨nofun, fun h => absurd h.1 hint⟩

theorem asShortBuffer_unsigned (b : ByteBuffer) :
    (b.asShortBuffer.map fun v => v % 2 ^ 16) = (ushortsOf b.order b.remaining).map Int.ofNat := by
  refine map_mask short_mod fun n hn => ?_
  obtain ⟨l, -, rfl⟩ := List.mem_map.1 hn
  exact_mod_cast ushortOf_lt b.order l

theorem asIntBuffer_unsigned (b : ByteBuffer) :
    (b.asIntBuffer.map fun v => v % 2 ^ 32) = (uintsOf b.order b.remaining).map Int.ofNat := by
  refine map_mask int_mod fun n hn => ?_
  obtain ⟨l, -, rfl⟩ := List.mem_map.1 hn
  exact_mod_cast uintOf_lt b.order l

theorem getShortsAsInts_array {e : TiffIFDEntry} (ht : e.type = Typ.SHORT) (hc : 1 < e.count) :
    e.getShortsAsInts = e.data.bind fun data =>
      fill e.count ((ushortsOf data.rewind.order data.rewind.remaining).map Int.ofNat) := by
  rw [getShortsAsInts, if_neg (not_not.2 ht), if_neg (by omega), if_pos (by omega)]
  simp only [asShortBuffer_unsigned]

theorem getAsLongs_longs {e : TiffIFDEntry} (ht : e.type = Typ.LONG) (hc : 1 < e.count) (vs : List Int) :
    e.getAsLongs = some (some vs) ↔ (e.data.bind fun data =>
      fill e.count ((uintsOf data.rewind.order data.rewind.remaining).map Int.ofNat)) = some vs := by
  have hnot : ¬ e.type = Typ.SHORT := by
    rw [ht]
    decide
  rw [getAsLongs, if_neg (fun h => h.2 ht), if_neg (by omega), if_pos hc]
  cases e.data with
  | none => simp
  | some data => simp only [if_neg hnot, asIntBuffer_unsigned, Option.bind_some, Option.map_eq_some_iff,
      Option.some.injEq, exists_eq_right]

/-- The values of shorts, as longs and as ints. -/
theorem getAsLongs_shorts {e : TiffIFDEntry} (ht : e.type = Typ.SHORT) (hc : 1 < e.count) (vs : List Int) :
    e.getAsLongs = some (some vs) ↔ e.getShortsAsInts = some vs := by
  rw [getShortsAsInts_array ht hc, getAsLongs, if_neg (fun h => h.1 ht), if_neg (by omega), if_pos hc]
  cases e.data with
  | none => simp
  | some data => simp only [if_pos ht, asShortBuffer_unsigned, Option.bind_some, Option.map_eq_some_iff,
      Option.some.injEq, exists_eq_right]

/-- All accessors of shorts return the values if one does. -/
theorem returned_shorts {e : TiffIFDEntry} {f : Field} (hf : f.type = .short) (ht : e.type = Typ.SHORT)
    (hc : e.count = f.count) (h1 : 1 < f.count) :
    Returned (some e) f ↔ e.getShortsAsInts = some (f.values.map Int.ofNat) := by
  have hcount : 1 < e.count := by omega
  constructor
  · rintro ⟨e', he, h⟩
    obtain rfl := Option.some.inj he
    simp only [hf] at h
    exact h.1
  · intro h
    refine ⟨e, rfl, ?_⟩
    simp only [hf]
    refine ⟨h, fun i hi => ?_, ?_, (getAsLongs_shorts ht hcount _).2 h, fun h' => absurd h' (by omega)⟩
    · rw [asShortAt, if_neg (not_not.2 ht), if_pos (by omega), h, Option.bind_some, List.getElem?_map]
    · rw [asShort, if_neg (not_not.2 ht), if_pos (by omega), if_neg (by omega), h, Option.bind_some,
        List.getElem?_map]

/-- The accessors of one short read the upper half of the value field. -/
theorem returned_short_one {e : TiffIFDEntry} {f : Field} (hf : f.type = .short) (ht : e.type = Typ.SHORT)
    (hc : e.count = 1) {v : Nat} (hv : f.values = [v]) (ho : e.valOffset / 2 ^ 16 % 2 ^ 16 = v) :
    Returned (some e) f := by
  have hone : e.asShortOne = some (v : Int) := by
    rw [asShortOne, if_neg (not_not.2 ht), if_pos hc, ho]
  have hints : e.getShortsAsInts = some [(v : Int)] := by
    rw [getShortsAsInts, if_neg (not_not.2 ht), if_pos hc, hone, Option.map_some]
  have hlong : e.asLong = some (v : Int) := by
    rw [asLong, if_neg (fun h => h.1 ht), if_pos ⟨ht, hc⟩, ho]
  refine ⟨e, rfl, ?_⟩
  simp only [hf, Field.count, hv, List.map_cons, List.map_nil, List.length_singleton]
  refine ⟨hints, fun i hi => ?_, ?_, ?_, fun _ => hlong⟩
  · obtain rfl : i = 0 := by omega
    rw [asShortAt, if_neg (not_not.2 ht), if_pos (by omega), hints]
    rfl
  · rw [asShort, if_neg (not_not.2 ht), if_pos (by omega), if_pos hc, ho]
    rfl
  · rw [getAsLongs, if_neg (fun h => h.1 ht), if_pos hc, hlong]
    rfl

end TiffIFDEntry

/-! ## Which fields come back -/

namespace Field

variable {f : Field} {order : ByteOrder} {file : List Int8} {p tag : Nat}

theorem encode_length (order : ByteOrder) (t : FieldType) (n : Nat) : (t.encode order n).length = t.size := by
  cases t
  · rfl
  · exact shortBytes_length order n
  · exact intBytes_length order n

theorem bytes_length (f : Field) (order : ByteOrder) : (f.bytes order).length = f.type.size * f.count :=
  length_flatMap_const (encode_length order f.type) f.values

/-- The front of the values in the part of the data that is read. -/
theorem read_bytes {offset : Nat} (h : f.bytes order <+: file.drop offset) :
    (file.drop offset).take (f.type.size * f.count % 2 ^ 16) =
      (f.values.take (f.type.size * f.count % 2 ^ 16 / f.type.size)).flatMap (f.type.encode order) := by
  have hdvd : f.type.size ∣ f.type.size * f.count % 2 ^ 16 := by
    refine (Nat.dvd_mod_iff ?_).2 (Nat.dvd_mul_right _ _)
    cases f.type <;> decide
  have hle : f.type.size * f.count % 2 ^ 16 ≤ (f.bytes order).length := by
    rw [bytes_length]
    exact Nat.mod_le _ _
  obtain ⟨rest, hrest⟩ := h
  rw [← hrest, List.take_append_of_le_length hle, bytes]
  conv_lhs => rw [← Nat.mul_div_cancel' hdvd]
  rw [take_flatMap (encode_length order f.type)]

theorem length_eq_one (h : f.count = 1) : ∃ v, f.values = [v] := List.length_eq_one_iff.1 h

/-- One short is always right: it is in the upper half of the value field. -/
theorem short_one (hf : f.type = .short) (h : f.Stored order file p tag) (h1 : f.count = 1) :
    Returned (TIFFIFDFactory.create ⟨file, p⟩ order).1 f := by
  obtain ⟨field, hfield, hr, hdata⟩ := h
  obtain ⟨v, hv⟩ := length_eq_one h1
  have hv16 : v < 2 ^ 16 := by
    have := f.values_lt v (by simp [hv])
    rwa [hf] at this
  have hbytes : f.bytes order = shortBytes order v := by
    rw [bytes, hv, hf, List.flatMap_singleton]
    rfl
  rw [hbytes, shortBytes_length, if_pos (by omega)] at hdata
  obtain ⟨rest, rfl⟩ := hdata
  have hcreate := TIFFIFDFactory.create_short ⟨file, p⟩ hr f.count_lt hfield ⟨hf, h1⟩
  rw [List.take_left' (shortBytes_length order v), ushortOf_shortBytes order hv16] at hcreate
  generalize hlower : ushortOf order ((shortBytes order v ++ rest).drop 2) = lower at hcreate
  have hlower16 : lower < 2 ^ 16 := hlower ▸ ushortOf_lt order _
  have hupper : int (v * 2 ^ 16 + lower) / 2 ^ 16 % 2 ^ 16 = v := by
    have := int_mod (v * 2 ^ 16 + lower)
    omega
  rw [hcreate]
  exact TiffIFDEntry.returned_short_one hf (congrArg FieldType.code hf) rfl hv hupper

/-- One long is taken as a signed number. -/
theorem long_one (hf : f.type = .long) (h : f.Stored order file p tag) (h1 : f.count = 1) :
    Returned (TIFFIFDFactory.create ⟨file, p⟩ order).1 f ↔ ∀ v ∈ f.values, v < 2 ^ 31 := by
  obtain ⟨field, hfield, hr, hdata⟩ := h
  obtain ⟨v, hv⟩ := length_eq_one h1
  have hv32 : v < 2 ^ 32 := by
    have := f.values_lt v (by simp [hv])
    rwa [hf] at this
  have hbytes : f.bytes order = intBytes order v := by
    rw [bytes, hv, hf, List.flatMap_singleton]
    rfl
  rw [hbytes, intBytes_length, if_pos (by omega)] at hdata
  obtain rfl : field = intBytes order v := (hdata.eq_of_length (by rw [hfield, intBytes_length])).symm
  rw [TIFFIFDFactory.create_long ⟨file, p⟩ hr f.count_lt hfield ⟨h1, hf⟩]
  have hsign : intOf order (intBytes order v) = v ↔ v < 2 ^ 31 := by
    rw [intOf_eq, uintOf_intBytes order hv32]
    constructor
    · intro heq
      by_contra hge
      have := int_overflow (x := v) (by omega) (by omega)
      omega
    · exact fun hlt => int_eq (by omega) (by omega)
  simp only [Returned, hf, hv, h1, List.forall_mem_singleton, ← hsign]
  simp only [TiffIFDEntry.getAsLongs, TiffIFDEntry.asLong, FieldType.code]
  constructor
  · rintro ⟨e, he, hlongs, -⟩
    obtain rfl := Option.some.inj he
    simpa [Typ.SHORT, Typ.LONG] using hlongs
  · intro heq
    refine ⟨_, rfl, ?_⟩
    simp [Typ.SHORT, Typ.LONG, heq]

/-- Two shorts are read at the offset their own bytes spell. -/
theorem short_two (hf : f.type = .short) (h : f.Stored order file p tag) (h2 : f.count = 2) :
    Returned (TIFFIFDFactory.create ⟨file, p⟩ order).1 f ↔
      shortsAt file order (uintOf order (f.bytes order)) 2 = f.values := by
  obtain ⟨field, hfield, hr, hdata⟩ := h
  have hlen : (f.bytes order).length = 4 := by
    rw [bytes_length, hf, h2]
    rfl
  rw [hlen, if_pos (by omega)] at hdata
  obtain rfl : f.bytes order = field := hdata.eq_of_length (by rw [hfield, hlen])
  obtain ⟨data, hcreate, hsize⟩ := TIFFIFDFactory.create_array ⟨file, p⟩ hr f.count_lt hfield
    (fun h => by omega) (fun h => by omega)
  rw [hf, h2] at hsize
  obtain ⟨d, rfl, hdo, hdr⟩ := (if_pos (by decide)).mp hsize
  have hdata : d.rewind.remaining = (file.drop (uintOf order (f.bytes order))).take (2 * 2) := hdr
  have hshorts : (ushortsOf order d.rewind.remaining).length ≤ 2 := by
    rw [hdata, ushortsOf, List.length_map, length_records, List.length_take]
    omega
  have hinj : Function.Injective (List.map Int.ofNat) := List.map_injective_iff.2 fun _ _ => Int.ofNat.inj
  rw [hcreate, TiffIFDEntry.returned_shorts hf (congrArg FieldType.code hf) rfl (by omega),
    TiffIFDEntry.getShortsAsInts_array (congrArg FieldType.code hf) (by simp [h2]), Option.bind_some]
  show TiffIFDEntry.fill f.count ((ushortsOf d.order _).map Int.ofNat) = _ ↔ _
  rw [hdo, h2, TiffIFDEntry.fill_eq (n := 2) (by omega) (by rwa [List.length_map]), Option.some.injEq,
    List.length_map, shortsAt, ← hdata, ← hinj.eq_iff, List.map_append, List.map_replicate]
  rfl

/-- What the array of a field out of line is filled with. -/
theorem out_of_line (h : f.Stored order file p tag) (h4 : 4 < f.type.size * f.count) :
    ∃ e, (TIFFIFDFactory.create ⟨file, p⟩ order).1 = some e ∧ e.type = f.type.code ∧ e.count = f.count ∧
      if 0 < f.type.size * f.count % 2 ^ 16 then ∃ d, e.data = some d ∧ d.order = order ∧ d.rewind.remaining =
        (f.values.take (f.type.size * f.count % 2 ^ 16 / f.type.size)).flatMap (f.type.encode order)
      else e.data = none := by
  obtain ⟨field, hfield, hr, hdata⟩ := h
  rw [if_neg (by rw [bytes_length]; omega)] at hdata
  obtain ⟨offset, hoffset, rfl, hbytes⟩ := hdata
  have hne : f.count ≠ 1 ∨ f.type.size ≤ 4 := .inr (by cases f.type <;> decide)
  have h1 : f.count ≠ 1 := by
    intro h1
    rw [h1] at h4
    omega
  obtain ⟨data, hcreate, hsize⟩ := TIFFIFDFactory.create_array ⟨file, p⟩ hr f.count_lt hfield
    (fun h => h1 h.2) (fun h => h1 h.1)
  refine ⟨_, congrArg Prod.fst hcreate, rfl, rfl, ?_⟩
  rw [uintOf_intBytes order hoffset] at hsize
  split
  · rename_i hpos
    obtain ⟨d, hd, hdo, hdr⟩ := (if_pos hpos).mp hsize
    exact ⟨d, hd, hdo, hdr.trans (read_bytes hbytes)⟩
  · rename_i hpos
    exact (if_neg hpos).mp hsize

/-- The values read of a field out of line are the field's if the others are zero. -/
theorem fill_read {data : Option ByteBuffer} {dec : ByteOrder → List Int8 → List Nat}
    (hdec : ∀ k, dec order ((f.values.take k).flatMap (f.type.encode order)) = f.values.take k)
    (hdata : if 0 < f.type.size * f.count % 2 ^ 16 then ∃ d, data = some d ∧ d.order = order ∧ d.rewind.remaining =
        (f.values.take (f.type.size * f.count % 2 ^ 16 / f.type.size)).flatMap (f.type.encode order)
      else data = none) :
    (data.bind fun d => TiffIFDEntry.fill f.count ((dec d.rewind.order d.rewind.remaining).map Int.ofNat)) =
      some (f.values.map Int.ofNat) ↔ f.CutRight := by
  rw [CutRight]
  by_cases hpos : 0 < f.type.size * f.count % 2 ^ 16
  · obtain ⟨d, rfl, hdo, hdr⟩ := (if_pos hpos).mp hdata
    have hvalues : dec d.rewind.order d.rewind.remaining =
        f.values.take (f.type.size * f.count % 2 ^ 16 / f.type.size) := by
      rw [hdr, show d.rewind.order = order from hdo, hdec]
    rw [Option.bind_some, hvalues]
    exact (TiffIFDEntry.fill_take f.count_lt _).trans (by simp only [hpos, true_and]; rfl)
  · rw [(if_neg hpos).mp hdata]
    exact ⟨nofun, fun h => absurd h.2.1 hpos⟩

theorem shorts (hf : f.type = .short) (h : f.Stored order file p tag) (h3 : 2 < f.count) :
    Returned (TIFFIFDFactory.create ⟨file, p⟩ order).1 f ↔ f.CutRight := by
  obtain ⟨e, hcreate, ht, hc, hdata⟩ := out_of_line h (by rw [hf]; show 4 < 2 * f.count; omega)
  have hte : e.type = Typ.SHORT := ht.trans (congrArg FieldType.code hf)
  rw [hcreate, TiffIFDEntry.returned_shorts hf hte hc (by omega), TiffIFDEntry.getShortsAsInts_array hte (by omega),
    hc]
  refine fill_read (fun k => ?_) hdata
  rw [hf]
  refine ushortsOf_flatMap order fun v hv => ?_
  have := f.values_lt v (List.mem_of_mem_take hv)
  rwa [hf] at this

theorem longs (hf : f.type = .long) (h : f.Stored order file p tag) (h2 : 1 < f.count) :
    Returned (TIFFIFDFactory.create ⟨file, p⟩ order).1 f ↔ f.CutRight := by
  obtain ⟨e, hcreate, ht, hc, hdata⟩ := out_of_line h (by rw [hf]; show 4 < 4 * f.count; omega)
  have hte : e.type = Typ.LONG := ht.trans (congrArg FieldType.code hf)
  have hreturned : Returned (some e) f ↔ e.getAsLongs = some (some (f.values.map Int.ofNat)) := by
    constructor
    · rintro ⟨e', he, h⟩
      obtain rfl := Option.some.inj he
      simp only [hf] at h
      exact h.1
    · intro h
      refine ⟨e, rfl, ?_⟩
      simp only [hf]
      exact ⟨h, fun h' => absurd h' (by omega)⟩
  rw [hcreate, hreturned, TiffIFDEntry.getAsLongs_longs hte (by omega), hc]
  refine fill_read (fun k => ?_) hdata
  rw [hf]
  refine uintsOf_flatMap order fun v hv => ?_
  have := f.values_lt v (List.mem_of_mem_take hv)
  rwa [hf] at this

/-- No accessor takes bytes. -/
theorem bytes_never (hf : f.type = .byte) (h : f.Stored order file p tag) :
    ¬ Returned (TIFFIFDFactory.create ⟨file, p⟩ order).1 f := by
  obtain ⟨field, hfield, hr, -⟩ := h
  obtain ⟨data, hcreate, -⟩ := TIFFIFDFactory.create_array ⟨file, p⟩ hr f.count_lt hfield
    (fun h => by rw [hf] at h; cases h.1) (fun h => by rw [hf] at h; cases h.2)
  rintro ⟨e, he, h⟩
  rw [hcreate] at he
  obtain rfl := Option.some.inj he
  simp only [hf] at h
  simp [TiffIFDEntry.getShortsAsInts, TiffIFDEntry.getAsLongs, FieldType.code, Typ.BYTE, Typ.SHORT, Typ.LONG] at h

/-- The fields whose values come back from the entry that `create` makes of
them, each as an unsigned number. -/
theorem create_returns (f : Field) (order : ByteOrder) (file : List Int8) (p tag : Nat)
    (h : f.Stored order file p tag) :
    Returned (TIFFIFDFactory.create ⟨file, p⟩ order).1 f ↔ f.Readable order file := by
  have hpos : 0 < f.count := f.count_pos
  unfold Readable
  cases hf : f.type with
  | byte => exact iff_of_false (bytes_never hf h) id
  | short =>
    by_cases h1 : f.count = 1
    · exact iff_of_true (short_one hf h h1) (.inl h1)
    · by_cases h2 : f.count = 2
      · rw [short_two hf h h2]
        simp [h2]
      · rw [shorts hf h (by omega)]
        simp only [h1, h2, false_and, false_or, show 2 < f.count by omega, true_and]
  | long =>
    by_cases h1 : f.count = 1
    · rw [long_one hf h h1]
      simp [h1]
    · rw [longs hf h (by omega)]
      simp only [h1, false_and, false_or, show 1 < f.count by omega, true_and]

def oneShort : Field := ⟨.short, [8], by decide, by decide, by decide⟩

/-- An entry with the short 8, big-endian. -/
def oneShortFile : List Int8 := [1, 2, 0, 3, 0, 0, 0, 1, 0, 8, 0, 0]

theorem oneShort_stored : oneShort.Stored .bigEndian oneShortFile 0 258 :=
  ⟨[0, 8, 0, 0], rfl, by decide, by decide⟩

theorem oneShort_returned : Returned (TIFFIFDFactory.create ⟨oneShortFile, 0⟩ .bigEndian).1 oneShort :=
  (create_returns oneShort .bigEndian oneShortFile 0 258 oneShort_stored).2 (.inl rfl)

def twoShorts : Field := ⟨.short, [8, 8], by decide, by decide, by decide⟩

/-- An entry with the shorts 8 and 8, which fit in its value field. -/
def twoShortsFile : List Int8 := [1, 2, 0, 3, 0, 0, 0, 2, 0, 8, 0, 8]

theorem twoShorts_lost : twoShorts.Stored .bigEndian twoShortsFile 0 258 ∧
    ¬ Returned (TIFFIFDFactory.create ⟨twoShortsFile, 0⟩ .bigEndian).1 twoShorts := by
  have hstored : twoShorts.Stored .bigEndian twoShortsFile 0 258 := ⟨[0, 8, 0, 8], rfl, by decide, by decide⟩
  refine ⟨hstored, fun h => ?_⟩
  -- the offset 0x00080008 is past the end of the file
  have hzero := (short_two rfl hstored rfl).1 h
  revert hzero
  decide

end Field

end WorldWind.Tiff
