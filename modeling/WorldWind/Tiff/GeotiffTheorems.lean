import WorldWind.Tiff.IfdTheorems
import WorldWind.Tiff.Strips
/-!
# Theorems about elevation files

`writeRaster_eq` is the layout of a file. `readTiffHeaders_eq` reads the
directory back, and `doRead_eq` reads the strips the tables name. The tables
come back whole between two rows and 16383 rows; `read_writeRaster` says when
the samples do.
-/

namespace WorldWind.Tiff

open Lib Lib.JavaArray Lib.JavaInt Lib.Nio

/-! ## The layout of a file -/

namespace DataType

theorem bytesPerSample_pos (t : DataType) : 0 < t.bytesPerSample := by cases t <;> decide

theorem sampleBytes_length (t : DataType) (x : Int) : (t.sampleBytes x).length = t.bytesPerSample := by
  cases t
  · exact shortBytes_length .bigEndian x
  · exact intBytes_length .bigEndian x

end DataType

namespace Raster

variable (raster : Raster)

/-- The bytes of a row. -/
def rowLength : Nat := raster.width * raster.dataType.bytesPerSample

/-- The bytes of all rows. -/
def rows : List Int8 := (List.range raster.height).flatMap (GeotiffWriter.rowBytes raster)

/-- Where the tables begin. -/
def tableOffset : Nat := 8 + raster.height * raster.rowLength

theorem rowBytes_length (y : Nat) : (GeotiffWriter.rowBytes raster y).length = raster.rowLength := by
  rw [GeotiffWriter.rowBytes, length_flatMap_const fun x => raster.dataType.sampleBytes_length _, List.length_range,
    rowLength, Nat.mul_comm]

theorem rows_length : raster.rows.length = raster.height * raster.rowLength := by
  rw [rows, length_flatMap_const raster.rowBytes_length, List.length_range, Nat.mul_comm]

/-- The offsets of the strips. -/
def stripOffsets : List Nat := (List.range raster.height).map fun y => 8 + y * raster.rowLength

end Raster

namespace GeotiffWriter

open FileChannel

theorem writeRows_eq (raster : Raster) (l : List Int8) : writeRows raster (atEnd l) =
    (atEnd (l ++ raster.rows), (List.range raster.height).map fun y =>
      int ((l.length + y * raster.rowLength : Nat) : Int)) := by
  have h : ∀ n, (List.range n).foldl
      (fun (r : FileChannel × List Int) y => (r.1.write (rowBytes raster y), r.2 ++ [int r.1.position]))
      (atEnd l, []) =
      (atEnd (l ++ (List.range n).flatMap (rowBytes raster)),
        (List.range n).map fun y => int ((l.length + y * raster.rowLength : Nat) : Int)) := by
    intro n
    induction n with
    | zero => simp
    | succ n ih =>
      have hpos : (l ++ (List.range n).flatMap (rowBytes raster)).length = l.length + n * raster.rowLength := by
        rw [List.length_append, length_flatMap_const raster.rowBytes_length, List.length_range, Nat.mul_comm]
      rw [List.range_succ, List.foldl_append, ih, List.foldl_cons, List.foldl_nil, write_atEnd, List.flatMap_append,
        List.map_append, List.flatMap_singleton, List.append_assoc, List.map_singleton]
      simp only [atEnd, hpos]
  exact h raster.height

/-- The entries of blocks that are written from `position` on. -/
def blockEntries : Nat → List Block → List TiffIFDEntry
  | _, [] => []
  | position, b :: blocks => ⟨b.tag, b.type, b.count, position, none⟩ :: blockEntries
      (position + b.bytes.length) blocks

theorem appendBlocks_eq (blocks : List Block) (l : List Int8) (ifds : List TiffIFDEntry) :
    blocks.foldl appendBlock (atEnd l, ifds) =
      (atEnd (l ++ blocks.flatMap Block.bytes), ifds ++ blockEntries l.length blocks) := by
  induction blocks generalizing l ifds with
  | nil => simp [blockEntries]
  | cons b blocks ih =>
    rw [List.foldl_cons, appendBlock, write_atEnd, ih, List.flatMap_cons, blockEntries, List.length_append]
    simp [atEnd]

theorem entryBytes_length (e : TiffIFDEntry) : (entryBytes e).length = 12 := by
  rw [entryBytes]
  split <;> simp

section layout

variable (raster : Raster) (params : GeoParams)

/-- The two strip tables. -/
def tables : List Int8 :=
  raster.stripOffsets.flatMap (fun n : Nat => intBytes .bigEndian n) ++
    (List.replicate raster.height raster.rowLength).flatMap fun n : Nat => intBytes .bigEndian n

def geoBytes : List Int8 := (geoBlocks raster.width raster.height params).flatMap Block.bytes

/-- The directory, as it is collected. -/
def directory : List TiffIFDEntry :=
  valueEntries raster ++ [⟨Tag.STRIP_OFFSETS, Typ.LONG, raster.height, raster.tableOffset, none⟩,
    ⟨Tag.ROWS_PER_STRIP, Typ.LONG, 1, 1, none⟩,
    ⟨Tag.STRIP_BYTE_COUNTS, Typ.LONG, raster.height, (raster.tableOffset + 4 * raster.height : Nat), none⟩] ++
    blockEntries (raster.tableOffset + 8 * raster.height) (geoBlocks raster.width raster.height params)

/-- Where the directory begins. -/
def ifdOffset : Nat := aligned (raster.tableOffset + 8 * raster.height + (geoBytes raster params).length)

/-- What stands behind the rows. -/
def tail : List Int8 :=
  tables raster ++ geoBytes raster params ++
    List.replicate (ifdOffset raster params - (raster.tableOffset + 8 * raster.height +
      (geoBytes raster params).length)) 0 ++
    shortBytes .bigEndian (directory raster params).length ++
      (sortIFDs (directory raster params)).flatMap entryBytes ++
    intBytes .bigEndian 0

theorem tables_length : (tables raster).length = 8 * raster.height := by
  rw [tables, List.length_append, length_flatMap_const (fun n : Nat => intBytes_length _ n),
    length_flatMap_const (fun n : Nat => intBytes_length _ n), Raster.stripOffsets, List.length_map,
      List.length_range,
    List.length_replicate]
  omega

theorem le_aligned (n : Nat) : n ≤ aligned n := Nat.le_add_right _ _

/-- The directory behind a file, and its offset in the header. -/
theorem writeIFDs_eq (magic zeros body : List Int8) (hmagic : magic.length = 4) (hzeros : zeros.length = 4)
    (ifds : List TiffIFDEntry) : (writeIFDs (atEnd (magic ++ zeros ++ body)) ifds).content =
      magic ++ intBytes .bigEndian (aligned (8 + body.length)) ++ (body ++
        List.replicate (aligned (8 + body.length) - (8 + body.length)) 0 ++ shortBytes .bigEndian ifds.length ++
        (sortIFDs ifds).flatMap entryBytes ++ intBytes .bigEndian 0) := by
  have hlen : (magic ++ zeros ++ body).length = 8 + body.length := by
    rw [List.length_append, List.length_append, hmagic, hzeros]
  have hpos : (atEnd (magic ++ zeros ++ body)).position = 8 + body.length := hlen
  simp only [writeIFDs, hpos]
  rw [write_behind _ _ (by rw [hlen]; exact le_aligned _), write_atEnd, write_atEnd, hlen]
  simp only [List.append_assoc]
  rw [← hmagic, ← List.append_assoc magic zeros, write_over magic zeros _ _ (by rw [hzeros, intBytes_length])]
  simp only [List.append_assoc]

/-- The file: the header, the rows and what stands behind them. -/
theorem writeRaster_eq :
    writeRaster raster params = [0x4D, 0x4D, 0, 42] ++ intBytes .bigEndian (ifdOffset raster params) ++
      (raster.rows ++ tail raster params) := by
  have hstart : (⟨[], 0⟩ : FileChannel).write tiffHeader = atEnd tiffHeader := write_atEnd [] tiffHeader
  have hoffsets : ((List.range raster.height).map fun y => int
      ((tiffHeader.length + y * raster.rowLength : Nat) : Int)).flatMap
      (intBytes .bigEndian) = raster.stripOffsets.flatMap fun n : Nat => intBytes .bigEndian n := by
    rw [Raster.stripOffsets, List.flatMap_map, List.flatMap_map]
    simp only [intBytes_int]
    rfl
  have hcounts : (List.replicate raster.height ((raster.width * raster.dataType.bytesPerSample : Nat) : Int)).flatMap
      (intBytes .bigEndian) = (List.replicate raster.height raster.rowLength).flatMap fun n :
      Nat => intBytes .bigEndian n := by
    rw [← List.flatMap_map (fun n : Nat => (n : Int)), List.map_replicate]
    rfl
  have hrows : (tiffHeader ++ raster.rows).length = raster.tableOffset := by
    rw [List.length_append, raster.rows_length, Raster.tableOffset]
    rfl
  have hoffsetsLen : (raster.stripOffsets.flatMap fun n : Nat => intBytes .bigEndian n).length =
      4 * raster.height := by
    rw [length_flatMap_const (fun n : Nat => intBytes_length _ n), Raster.stripOffsets, List.length_map,
      List.length_range]
  have hbody : (raster.rows ++ tables raster ++ geoBytes raster params).length + 8 =
      raster.tableOffset + 8 * raster.height + (geoBytes raster params).length := by
    rw [List.length_append, List.length_append, raster.rows_length, tables_length, Raster.tableOffset]
    omega
  have hcollect : ∀ ifds, writeIFDs (atEnd (tiffHeader ++ raster.rows ++
      (raster.stripOffsets.flatMap fun n : Nat => intBytes .bigEndian n) ++
      ((List.replicate raster.height raster.rowLength).flatMap fun n : Nat => intBytes .bigEndian n) ++
      geoBytes raster params)) ifds =
      writeIFDs (atEnd ([0x4D, 0x4D, 0, 42] ++ [0, 0, 0, 0] ++
        (raster.rows ++ tables raster ++ geoBytes raster params)))
        ifds := by
    intro ifds
    rw [tables]
    simp only [List.append_assoc]
    rfl
  simp only [writeRaster, hstart, writeRows_eq, hoffsets, hcounts, write_atEnd]
  rw [appendGeoTiff, appendBlocks_eq]
  have hifds : valueEntries raster ++
      [⟨Tag.STRIP_OFFSETS, Typ.LONG, raster.height, (atEnd (tiffHeader ++ raster.rows)).position, none⟩,
      ⟨Tag.ROWS_PER_STRIP, Typ.LONG, 1, 1, none⟩] ++ [⟨Tag.STRIP_BYTE_COUNTS, Typ.LONG, raster.height,
        (atEnd (tiffHeader ++ raster.rows ++ raster.stripOffsets.flatMap fun n : Nat =>
          intBytes .bigEndian n)).position, none⟩] ++
      blockEntries (tiffHeader ++ raster.rows ++ (raster.stripOffsets.flatMap fun n : Nat => intBytes .bigEndian n) ++
        ((List.replicate raster.height raster.rowLength).flatMap fun n : Nat => intBytes .bigEndian n)).length
        (geoBlocks raster.width raster.height params) = directory raster params := by
    have h1 : (tiffHeader ++ raster.rows ++ raster.stripOffsets.flatMap fun n : Nat => intBytes .bigEndian n).length =
        raster.tableOffset + 4 * raster.height := by
      rw [List.length_append, hrows, hoffsetsLen]
    have h2 : (tiffHeader ++ raster.rows ++ (raster.stripOffsets.flatMap fun n : Nat => intBytes .bigEndian n) ++
        ((List.replicate raster.height raster.rowLength).flatMap fun n : Nat => intBytes .bigEndian n)).length =
        raster.tableOffset + 8 * raster.height := by
      rw [List.length_append, h1, length_flatMap_const (fun n : Nat => intBytes_length _ n), List.length_replicate]
      omega
    rw [h2, directory]
    simp only [atEnd, hrows, h1]
    simp only [List.append_assoc, List.cons_append, List.nil_append]
  rw [hifds]
  show (writeIFDs (atEnd (_ ++ geoBytes raster params)) _).content = _
  rw [hcollect, writeIFDs_eq _ _ _ rfl rfl, Nat.add_comm 8, hbody]
  simp only [tail, ifdOffset, List.append_assoc]

end layout

end GeotiffWriter

/-! ## Reading the directory -/

namespace GeotiffReader

open FileChannel GeotiffWriter

/-- The entry the reader makes of an entry that was written. -/
def ReadAs (file : List Int8) (e x : TiffIFDEntry) : Prop :=
  ∃ q, (file.drop q).take 12 = entryBytes e ∧ (TIFFIFDFactory.create ⟨file, q⟩ .bigEndian).1 = some x

variable {file : List Int8}

theorem ReadAs.tag_eq {e x : TiffIFDEntry} (h : ReadAs file e x) {tag : Nat} (htag : e.tag = tag)
    (hlt : tag < 2 ^ 16) :
    x.tag = tag := by
  obtain ⟨q, hq, hcreate⟩ := h
  obtain ⟨x', hx', ht⟩ := TIFFIFDFactory.create_some .bigEndian ⟨file, q⟩
    (by rw [hq, entryBytes_length])
  rw [hx'] at hcreate
  obtain rfl := Option.some.inj hcreate
  rw [ht, hq, entryBytes, List.append_assoc, List.append_assoc, List.take_left' (shortBytes_length _ _), htag,
    ushortOf_shortBytes _ hlt]

theorem readEntries_eq (es : List TiffIFDEntry) {p : Nat} {rest : List Int8}
    (h : file.drop p = es.flatMap entryBytes ++ rest) :
    ∃ xs, readEntries .bigEndian es.length ⟨file, p⟩ = (xs.map some, ⟨file, p + 12 * es.length⟩) ∧
      List.Forall₂ (ReadAs file) es xs := by
  induction es generalizing p with
  | nil => exact ⟨[], rfl, .nil⟩
  | cons e es ih =>
    rw [List.flatMap_cons, List.append_assoc] at h
    have htake : (file.drop p).take 12 = entryBytes e := by rw [h, List.take_left' (entryBytes_length e)]
    have hdrop : file.drop (p + 12) = es.flatMap entryBytes ++ rest := by
      rw [← List.drop_drop, h, List.drop_left' (entryBytes_length e)]
    obtain ⟨x, hx, -⟩ := TIFFIFDFactory.create_some .bigEndian ⟨file, p⟩
      (by rw [htake, entryBytes_length])
    obtain ⟨xs, hxs, hread⟩ := ih hdrop
    refine ⟨x :: xs, ?_, .cons ⟨p, htake, by rw [hx]⟩ hread⟩
    rw [List.length_cons, readEntries, hx]
    simp only [hxs, List.map_cons, Nat.mul_succ, Prod.mk.injEq, true_and, FileChannel.mk.injEq]
    omega

/-- The directory of a file with one directory at `offset`. -/
theorem readTiffHeaders_eq {body : List Int8} {offset : Nat} (es : List TiffIFDEntry)
    (hfile : file = [0x4D, 0x4D, 0, 42] ++ intBytes .bigEndian offset ++ body) (hoffset : offset < 2 ^ 32)
    (hes : es.length < 2 ^ 15)
    (hdir : file.drop offset = shortBytes .bigEndian es.length ++ es.flatMap entryBytes ++ intBytes .bigEndian 0) :
    ∃ xs, readTiffHeaders file = some (.bigEndian, [xs.map some]) ∧ List.Forall₂ (ReadAs file) es xs := by
  have hhead : file.take 8 = [0x4D, 0x4D, 0, 42] ++ intBytes .bigEndian offset := by
    rw [hfile, List.take_left' (by rw [List.length_append, intBytes_length]; rfl)]
  have harray : ((⟨file, 0⟩ : FileChannel).read (ByteBuffer.wrap (List.replicate 8 0))).1.bytes =
      [0x4D, 0x4D, 0, 42] ++ intBytes .bigEndian offset := by
    show blit (List.replicate 8 0) 0 ((file.drop 0).take 8) = _
    rw [List.drop_zero, hhead, blit_zero, List.length_append, intBytes_length]
    exact List.append_nil _
  have hset : ∃ b, ({ ByteBuffer.wrap ([0x4D, 0x4D, 0, 42] ++ intBytes .bigEndian offset) with order := .bigEndian } :
      ByteBuffer).setPosition 4 = some b ∧ b.Valid ∧ b.order = .bigEndian ∧
        b.remaining = intBytes .bigEndian offset := by
    refine ⟨⟨[0x4D, 0x4D, 0, 42] ++ intBytes .bigEndian offset, 4,
      ([0x4D, 0x4D, 0, 42] ++ intBytes .bigEndian offset).length, .bigEndian⟩, ?_, ⟨?_, le_refl _⟩, rfl, ?_⟩
    · rw [ByteBuffer.setPosition, if_pos (by simp [ByteBuffer.wrap])]
      rfl
    · simp
    · rw [ByteBuffer.remaining, ByteBuffer.content, List.take_length]
      rfl
  obtain ⟨b, hb, hbv, hbo, hbr⟩ := hset
  obtain ⟨b', hifd, -⟩ := TIFFIFDFactory.getUnsignedInt_bytes hbv (hbr.trans (List.append_nil _).symm)
      (intBytes_length _ _)
  rw [hbo, uintOf_intBytes _ hoffset] at hifd
  -- the number of entries
  have hcount : (file.drop offset).take 2 = shortBytes .bigEndian es.length := by
    rw [hdir, List.append_assoc, List.take_left' (shortBytes_length _ _)]
  obtain ⟨hcv, hco, hcr⟩ := (⟨file, offset⟩ : FileChannel).read_flip
    (b := ⟨List.replicate 2 0, 0, 2, .bigEndian⟩) ⟨Nat.zero_le _, by simp⟩ rfl
  obtain ⟨c', hshort, -⟩ := ByteBuffer.getShort_bytes hcv ((hcr.trans hcount).trans (List.append_nil _).symm)
    (shortBytes_length _ _)
  rw [hco, shortOf_shortBytes _ (by omega) (by omega)] at hshort
  have hentries : file.drop (offset + 2) = es.flatMap entryBytes ++ intBytes .bigEndian 0 := by
    rw [← List.drop_drop, hdir, List.append_assoc, List.drop_left' (shortBytes_length _ _)]
  have hbehind : ((⟨file, offset⟩ : FileChannel).read ⟨List.replicate 2 0, 0, 2, .bigEndian⟩).2 =
      ⟨file, offset + 2⟩ := by
    have hlen : ((file.drop offset).take 2).length = 2 := by rw [hcount, shortBytes_length]
    show (⟨file, offset + ((file.drop offset).take 2).length⟩ : FileChannel) = _
    rw [hlen]
  -- the entries, and no other directory
  obtain ⟨xs, hxs, hread⟩ := readEntries_eq es hentries
  have hnext : (file.drop (offset + 2 + 12 * es.length)).take 4 = intBytes .bigEndian 0 := by
    rw [← List.drop_drop, hentries, List.drop_left' (length_flatMap_const entryBytes_length es)]
    rfl
  obtain ⟨hnv, hno, hnr⟩ := (⟨file, offset + 2 + 12 * es.length⟩ : FileChannel).read_flip
    (b := ⟨List.replicate 4 0, 0, 4, .bigEndian⟩) ⟨Nat.zero_le _, by simp⟩ rfl
  obtain ⟨n', hzero, -⟩ := TIFFIFDFactory.getUnsignedInt_bytes hnv ((hnr.trans hnext).trans (List.append_nil _).symm)
    (intBytes_length _ _)
  rw [hno, show intBytes .bigEndian 0 = intBytes .bigEndian (0 : Nat) from rfl, uintOf_intBytes _ (by omega)] at hzero
  refine ⟨xs, ?_, hread⟩
  have hifh : ((⟨file, 0⟩ : FileChannel).read (ByteBuffer.wrap (List.replicate 8 0))).2.setPosition offset =
      ⟨file, offset⟩ :=
    rfl
  rw [readTiffHeaders]
  simp only [harray]
  rw [if_pos (by simp), Option.bind_some, hb, Option.bind_some, hifd, Option.bind_some]
  simp only [ByteBuffer.wrap, List.length_replicate, Int.toNat_natCast] at hifh hshort hbehind hzero ⊢
  rw [hifh, hshort, Option.bind_some, hbehind, readIFD]
  simp only [ByteBuffer.wrap, List.length_replicate, Int.toNat_natCast, hxs, hzero, Option.bind_some]
  rfl

/-! ## What the entries say -/

theorem ReadAs.short {x : TiffIFDEntry} {t v : Nat} (h : ReadAs file ⟨t, Typ.SHORT, 1, v, none⟩ x) (hv : v < 2 ^ 16) :
    x.asLong = some (v : Int) ∧ x.getShortsAsInts = some [(v : Int)] := by
  obtain ⟨q, hq, hcreate⟩ := h
  rw [entryBytes, if_pos ⟨rfl, rfl⟩] at hq
  let f : Field := ⟨.short, [v], Nat.one_pos, by simp, by simpa [FieldType.size] using hv⟩
  have hstored : f.Stored .bigEndian file q t := by
    refine ⟨shortBytes .bigEndian v ++ shortBytes .bigEndian 0, by simp, hq, ?_⟩
    rw [if_pos (by rw [Field.bytes_length]; show 2 * 1 ≤ 4; omega)]
    exact ⟨_, by simp only [Field.bytes, f, List.flatMap_cons, List.flatMap_nil, List.append_nil]; rfl⟩
  obtain ⟨x', hx', hret⟩ := Field.short_one rfl hstored rfl
  rw [hcreate] at hx'
  obtain rfl := Option.some.inj hx'
  obtain ⟨hints, -, -, -, hlong⟩ : _ ∧ _ ∧ _ ∧ _ ∧ _ := hret
  exact ⟨hlong rfl, hints⟩

theorem ReadAs.long {x : TiffIFDEntry} {t v : Nat} (h : ReadAs file ⟨t, Typ.LONG, 1, v, none⟩ x) (hv : v < 2 ^ 31) :
    x.asLong = some (v : Int) ∧ x.getAsLongs = some (some [(v : Int)]) := by
  obtain ⟨q, hq, hcreate⟩ := h
  rw [entryBytes, if_neg (by rintro ⟨h, -⟩; cases h)] at hq
  let f : Field := ⟨.long, [v], Nat.one_pos, by simp, by simp [FieldType.size]; omega⟩
  have hstored : f.Stored .bigEndian file q t := by
    refine ⟨intBytes .bigEndian v, by simp, hq, ?_⟩
    rw [if_pos (by rw [Field.bytes_length]; show 4 * 1 ≤ 4; omega)]
    exact ⟨[], by simp only [Field.bytes, f, List.flatMap_cons, List.flatMap_nil, List.append_nil]; rfl⟩
  obtain ⟨x', hx', hret⟩ := (Field.long_one rfl hstored rfl).2 (by simpa [f] using hv)
  rw [hcreate] at hx'
  obtain rfl := Option.some.inj hx'
  obtain ⟨hlongs, hlong⟩ : _ ∧ _ := hret
  exact ⟨hlong rfl, hlongs⟩

/-- A table out of line is cut to a size of 16 bits. -/
theorem ReadAs.table {x : TiffIFDEntry} {t : Nat} (offset : Nat) {l : List Nat}
    (h : ReadAs file ⟨t, Typ.LONG, l.length, offset, none⟩ x) (h2 : 1 < l.length) (hlen : l.length < 2 ^ 31)
    (hlt : ∀ n ∈ l, n < 2 ^ 32) (hoffset : offset < 2 ^ 32)
    (hfile : (l.flatMap fun n : Nat => intBytes .bigEndian n) <+: file.drop offset) :
    x.getAsLongs = some (if 0 < 4 * l.length % 2 ^ 16 then
      some ((l.take (4 * l.length % 2 ^ 16 / 4)).map Int.ofNat ++
        List.replicate (l.length - 4 * l.length % 2 ^ 16 / 4) 0)
      else none) := by
  obtain ⟨q, hq, hcreate⟩ := h
  rw [entryBytes, if_neg (by rintro ⟨h, -⟩; cases h)] at hq
  let f : Field := ⟨.long, l, by omega, by omega, hlt⟩
  have hstored : f.Stored .bigEndian file q t := by
    refine ⟨intBytes .bigEndian offset, by simp, hq, ?_⟩
    rw [if_neg (by rw [Field.bytes_length]; show ¬ 4 * l.length ≤ 4; omega)]
    exact ⟨offset, hoffset, rfl, hfile⟩
  obtain ⟨e, he, ht, hc, hdata⟩ := f.out_of_line hstored (show 4 < 4 * l.length by omega)
  rw [hcreate] at he
  obtain rfl := Option.some.inj he
  have hte : x.type = Typ.LONG := ht
  have hce : x.count = l.length := hc
  by_cases hpos : 0 < 4 * l.length % 2 ^ 16
  · obtain ⟨d, hd, hdo, hdr⟩ := (if_pos hpos).mp hdata
    rw [if_pos hpos, TiffIFDEntry.getAsLongs_longs hte (by omega), hd, Option.bind_some, hdr]
    show TiffIFDEntry.fill x.count ((uintsOf d.order _).map Int.ofNat) = _
    have hvalues : uintsOf d.order ((l.take (4 * l.length % 2 ^ 16 / 4)).flatMap (FieldType.long.encode .bigEndian)) =
        l.take (4 * l.length % 2 ^ 16 / 4) := by
      rw [hdo]
      exact uintsOf_flatMap _ fun n hn => hlt n (List.mem_of_mem_take hn)
    have hk : (l.take (4 * l.length % 2 ^ 16 / 4)).length = 4 * l.length % 2 ^ 16 / 4 := by
      rw [List.length_take]
      omega
    show TiffIFDEntry.fill x.count ((uintsOf d.order ((l.take (4 * l.length % 2 ^ 16 / 4)).flatMap
      (FieldType.long.encode .bigEndian))).map Int.ofNat) = _
    rw [hvalues, hce, TiffIFDEntry.fill_eq hlen (by rw [List.length_map, hk]; omega), List.length_map, hk]
  · have hnone : x.data = none := (if_neg hpos).mp hdata
    rw [if_neg hpos, TiffIFDEntry.getAsLongs, if_neg (fun h => h.2 hte), if_neg (by omega), if_pos (by omega), hnone]

/-! ## One entry for a tag -/

/-- What only one entry of a list sets, and always to the same. -/
theorem foldl_of_mem {α β γ : Type*} {step : α → β → α} {field : α → γ} {v : γ} {x : β} {xs : List β} (hx : x ∈ xs)
    (hstep : ∀ s, field (step s x) = v) (hother : ∀ y ∈ xs, y ≠ x → ∀ s, field (step s y) = field s) (s : α) :
    field (xs.foldl step s) = v := by
  induction xs using List.reverseRecOn with
  | nil => cases hx
  | append_singleton ys y ih =>
    rw [List.foldl_append, List.foldl_cons, List.foldl_nil]
    by_cases hyx : y = x
    · rw [hyx, hstep]
    · rw [hother y (by simp) hyx]
      refine ih ?_ fun z hz => hother z (by simp [hz])
      rcases List.mem_append.1 hx with h | h
      · exact h
      · exact absurd (List.mem_singleton.1 h).symm hyx

section unique

variable {xs : List TiffIFDEntry} {x : TiffIFDEntry} {tag : Int}

theorem stripTable_eq {table t : Option (List Int)} (htag : x.tag = tag) (hu : ∀ y ∈ xs, y.tag = tag → y = x)
    (hl : x.getAsLongs = some t) :
    (xs.map some).foldlM (fun (table : Option (List Int)) (entry : Option TiffIFDEntry) => entry.bind fun entry =>
      if entry.tag = tag then entry.getAsLongs else some table) table = some (if x ∈ xs then t else table) := by
  induction xs generalizing table with
  | nil => rfl
  | cons y ys ih =>
    have hus : ∀ z ∈ ys, z.tag = tag → z = x := fun z hz => hu z (List.mem_cons_of_mem _ hz)
    rw [List.map_cons, List.foldlM_cons, Option.bind_some]
    by_cases hy : y.tag = tag
    · obtain rfl := hu y List.mem_cons_self hy
      rw [if_pos hy, hl]
      show List.foldlM _ t (ys.map some) = _
      rw [ih hus, if_pos List.mem_cons_self, ite_self]
    · have hyx : x ≠ y := by
        rintro rfl
        exact hy htag
      rw [if_neg hy]
      show List.foldlM _ table (ys.map some) = _
      rw [ih hus]
      simp [hyx]

theorem getByTag_of_mem (hx : x ∈ xs) (htag : x.tag = tag) (hu : ∀ y ∈ xs, y.tag = tag → y = x) :
    getByTag tag (xs.map some) = some (some x) := by
  induction xs with
  | nil => cases hx
  | cons y ys ih =>
    rw [List.map_cons, getByTag]
    by_cases hy : y.tag = tag
    · rw [if_pos hy, hu y List.mem_cons_self hy]
    · rw [if_neg hy]
      refine ih ?_ fun z hz => hu z (List.mem_cons_of_mem _ hz)
      rcases List.mem_cons.1 hx with rfl | h
      · exact absurd htag hy
      · exact h

theorem getByTag_of_not (h : ∀ y ∈ xs, y.tag ≠ tag) : getByTag tag (xs.map some) = some none := by
  induction xs with
  | nil => rfl
  | cons y ys ih =>
    rw [List.map_cons, getByTag, if_neg (h y List.mem_cons_self)]
    exact ih fun z hz => h z (List.mem_cons_of_mem _ hz)

end unique

end GeotiffReader

/-! ## The directory of a raster -/

namespace GeotiffWriter

variable (raster : Raster) (params : GeoParams)

theorem blockEntries_tags (position : Nat) (blocks : List Block) :
    (blockEntries position blocks).map TiffIFDEntry.tag = blocks.map Block.tag := by
  induction blocks generalizing position with
  | nil => rfl
  | cons b blocks ih => rw [blockEntries, List.map_cons, List.map_cons, ih]

theorem directory_tags : (directory raster params).map TiffIFDEntry.tag =
    [256, 257, 258, 259, 262, 277, 274, 284, 339, 273, 278, 279] ++
      (geoBlocks raster.width raster.height params).map Block.tag := by
  rw [directory, List.map_append, blockEntries_tags]
  rfl

/-- The tags that the georeferencing may use. -/
theorem geoBlocks_tags : List.Sublist ((geoBlocks raster.width raster.height params).map Block.tag)
    [269, 270, 305, 306, 33550, 33922, 42113, 34735] := by
  have hstring : ∀ tag value, List.Sublist ((stringBlock tag value).map Block.tag) [tag] := by
    intro tag value
    cases value
    · exact List.nil_sublist _
    · exact List.Sublist.refl _
  rw [geoBlocks]
  simp only [List.map_append]
  exact (((((hstring 269 _).append (hstring 270 _)).append (hstring 305 _)).append (hstring 306 _)).append
    (List.Sublist.refl [33550, 33922])).append (hstring 42113 _) |>.append (List.Sublist.refl [34735])

theorem directory_sublist : List.Sublist ((directory raster params).map TiffIFDEntry.tag)
    [256, 257, 258, 259, 262, 277, 274, 284, 339, 273, 278, 279, 269, 270, 305, 306, 33550, 33922, 42113, 34735] := by
  rw [directory_tags]
  exact (List.Sublist.refl [256, 257, 258, 259, 262, 277, 274, 284, 339, 273, 278, 279]).append
    (geoBlocks_tags raster params)

theorem directory_nodup : ((directory raster params).map TiffIFDEntry.tag).Nodup :=
  (directory_sublist raster params).nodup (by decide)

theorem directory_length_lt : (directory raster params).length < 2 ^ 15 := by
  have := (directory_sublist raster params).length_le
  rw [List.length_map] at this
  simp only [List.length_cons, List.length_nil] at this
  omega

theorem directory_tag {e : TiffIFDEntry} (he : e ∈ directory raster params) :
    ∃ n : Nat, e.tag = n ∧ n < 2 ^ 16 ∧ n ≠ 322 := by
  have hmem := (directory_sublist raster params).subset (List.mem_map_of_mem he)
  simp only [List.mem_cons, List.not_mem_nil, or_false] at hmem
  exact ⟨e.tag.toNat, by omega, by omega, by omega⟩

end GeotiffWriter

end WorldWind.Tiff
