import WorldWind.Tiff.GeotiffTheorems
/-!
# Elevation files read back

`doRead_eq` says what the reader makes of the directory of a raster, given the
two strip tables it gets. `read_writeRaster` puts the tables in: a raster of
two to 16383 rows comes back, one of more rows never does, and one of a single
row only if the file repeats the row behind itself.
-/

namespace WorldWind.Tiff

open Lib Lib.JavaArray Lib.JavaInt Lib.Nio GeotiffWriter

namespace DataType

/-- The samples in bytes. -/
def decode (t : DataType) (order : ByteOrder) (l : List Int8) : List Int :=
  match t with
  | .INT16 => (ushortsOf order l).map fun n : Nat => short n
  | .FLOAT32 => (uintsOf order l).map fun n : Nat => int n

/-- The sample in the bytes of one. -/
def sampleOf (t : DataType) (r : List Int8) : Int :=
  match t with
  | .INT16 => shortOf .bigEndian r
  | .FLOAT32 => intOf .bigEndian r

theorem decode_eq (t : DataType) (l : List Int8) :
    t.decode .bigEndian l = (records t.bytesPerSample l).map t.sampleOf := by
  cases t
  · rw [decode, ushortsOf, List.map_map]
    refine List.map_congr_left fun r _ => ?_
    rw [Function.comp_apply, sampleOf, shortOf_eq]
  · rw [decode, uintsOf, List.map_map]
    refine List.map_congr_left fun r _ => ?_
    rw [Function.comp_apply, sampleOf, intOf_eq]

theorem length_decode (t : DataType) (l : List Int8) : (t.decode .bigEndian l).length =
    l.length / t.bytesPerSample := by
  rw [decode_eq, List.length_map, length_records]

theorem decode_flatMap (t : DataType) {l : List Int}
    (h : ∀ x ∈ l, -2 ^ (t.bitsPerSample - 1) ≤ x ∧ x < 2 ^ (t.bitsPerSample - 1)) :
    t.decode .bigEndian (l.flatMap t.sampleBytes) = l := by
  rw [decode_eq, records_flatMap t.bytesPerSample_pos t.sampleBytes_length, List.map_map]
  refine (List.map_congr_left fun x hx => ?_).trans (List.map_id l)
  have hx := h x hx
  rw [Function.comp_apply, id]
  cases t with
  | INT16 => rw [sampleOf, sampleBytes, shortOf_shortBytes .bigEndian hx.1 hx.2]
  | FLOAT32 => rw [sampleOf, sampleBytes, intOf_intBytes .bigEndian hx.1 hx.2]

theorem flatMap_decode (t : DataType) {l : List Int8} (h : t.bytesPerSample ∣ l.length) :
    (t.decode .bigEndian l).flatMap t.sampleBytes = l := by
  rw [decode_eq]
  refine flatMap_records t.bytesPerSample_pos (fun r hr => ?_) h
  cases t with
  | INT16 => rw [sampleOf, sampleBytes, shortBytes_shortOf .bigEndian hr]
  | FLOAT32 => rw [sampleOf, sampleBytes, intBytes_intOf .bigEndian hr]

end DataType

namespace Raster

variable (raster : Raster)

/-- The raster as it should be read. -/
def elevations : Elevations :=
  ⟨raster.dataType, raster.width, raster.height, raster.samples.take (raster.width * raster.height)⟩

/-- The rows are the samples of the cells. -/
theorem rows_eq : raster.rows =
    (raster.samples.take (raster.width * raster.height)).flatMap raster.dataType.sampleBytes := by
  have hrow : ∀ y < raster.height, (List.range raster.width).map
      (fun x => raster.samples.getD (x + y * raster.width) 0) =
      (raster.samples.drop (raster.width * y)).take raster.width := by
    intro y hy
    have hlen := raster.length_samples
    have hfit : raster.width * y + raster.width ≤ raster.width * raster.height := by
      rw [← Nat.mul_succ]
      exact Nat.mul_le_mul_left _ hy
    refine List.ext_getElem (by simp; omega) fun x hx _ => ?_
    rw [List.length_map, List.length_range] at hx
    rw [List.getElem_map, List.getElem_range, List.getElem_take, List.getElem_drop, Nat.mul_comm y,
      Nat.add_comm x, List.getD_eq_getElem _ _ (by omega)]
  have hn : ∀ n ≤ raster.height, (List.range n).flatMap (rowBytes raster) =
      (raster.samples.take (raster.width * n)).flatMap raster.dataType.sampleBytes := by
    intro n
    induction n with
    | zero => simp
    | succ n ih =>
      intro hle
      rw [List.range_succ, List.flatMap_append, ih (by omega), List.flatMap_singleton, rowBytes,
        ← List.flatMap_map (fun x => raster.samples.getD (x + n * raster.width) 0) raster.dataType.sampleBytes,
        hrow n (by omega), ← List.flatMap_append, Nat.mul_succ, List.take_add]
  exact hn raster.height le_rfl

theorem rows_length' : raster.rows.length = raster.width * raster.height * raster.dataType.bytesPerSample := by
  rw [rows_length, rowLength, ← Nat.mul_assoc, Nat.mul_comm raster.height]

theorem decode_rows : raster.dataType.decode .bigEndian raster.rows =
    raster.samples.take (raster.width * raster.height) := by
  rw [rows_eq]
  exact raster.dataType.decode_flatMap fun x hx => raster.samples_range x (List.mem_of_mem_take hx)

end Raster

/-! ## What an entry sets -/

namespace BaselineTiff

variable (s : BaselineTiff) (x : TiffIFDEntry)

theorem extractEntry_width : (extractEntry s x).width =
    if x.tag = Tag.IMAGE_WIDTH then (x.asLong.map int).getD s.width else s.width := by
  by_cases h : x.tag = Tag.IMAGE_WIDTH
  · rw [if_pos h, extractEntry, h]
    rfl
  · rw [if_neg h]
    unfold extractEntry
    split_ifs <;> rfl

theorem extractEntry_height : (extractEntry s x).height =
    if x.tag = Tag.IMAGE_LENGTH then (x.asLong.map int).getD s.height else s.height := by
  by_cases h : x.tag = Tag.IMAGE_LENGTH
  · rw [if_pos h, extractEntry, h]
    rfl
  · rw [if_neg h]
    unfold extractEntry
    split_ifs <;> rfl

theorem extractEntry_samplesPerPixel : (extractEntry s x).samplesPerPixel =
    if x.tag = Tag.SAMPLES_PER_PIXEL then (x.asLong.map int).getD s.samplesPerPixel else s.samplesPerPixel := by
  by_cases h : x.tag = Tag.SAMPLES_PER_PIXEL
  · rw [if_pos h, extractEntry, h]
    rfl
  · rw [if_neg h]
    unfold extractEntry
    split_ifs <;> rfl

theorem extractEntry_photometric : (extractEntry s x).photometric =
    if x.tag = Tag.PHOTO_INTERPRETATION then (x.asLong.map int).getD s.photometric else s.photometric := by
  by_cases h : x.tag = Tag.PHOTO_INTERPRETATION
  · rw [if_pos h, extractEntry, h]
    rfl
  · rw [if_neg h]
    unfold extractEntry
    split_ifs <;> rfl

theorem extractEntry_rowsPerStrip : (extractEntry s x).rowsPerStrip =
    if x.tag = Tag.ROWS_PER_STRIP then (x.asLong.map int).getD s.rowsPerStrip else s.rowsPerStrip := by
  by_cases h : x.tag = Tag.ROWS_PER_STRIP
  · rw [if_pos h, extractEntry, h]
    rfl
  · rw [if_neg h]
    unfold extractEntry
    split_ifs <;> rfl

theorem extractEntry_planarConfig : (extractEntry s x).planarConfig =
    if x.tag = Tag.PLANAR_CONFIGURATION then (x.asLong.map int).getD s.planarConfig else s.planarConfig := by
  by_cases h : x.tag = Tag.PLANAR_CONFIGURATION
  · rw [if_pos h, extractEntry, h]
    rfl
  · rw [if_neg h]
    unfold extractEntry
    split_ifs <;> rfl

theorem extractEntry_sampleFormat : (extractEntry s x).sampleFormat =
    if x.tag = Tag.SAMPLE_FORMAT then x.getShortsAsInts.or s.sampleFormat else s.sampleFormat := by
  by_cases h : x.tag = Tag.SAMPLE_FORMAT
  · rw [if_pos h, extractEntry, h]
    rfl
  · rw [if_neg h]
    unfold extractEntry
    split_ifs <;> rfl

theorem extractEntry_bitsPerSample : (extractEntry s x).bitsPerSample =
    if x.tag = Tag.BITS_PER_SAMPLE then x.getShortsAsInts.or s.bitsPerSample else s.bitsPerSample := by
  by_cases h : x.tag = Tag.BITS_PER_SAMPLE
  · rw [if_pos h, extractEntry, h]
    rfl
  · rw [if_neg h]
    unfold extractEntry
    split_ifs <;> rfl

end BaselineTiff

namespace GeotiffReader

variable {raster : Raster} {params : GeoParams} {file : List Int8} {xs : List TiffIFDEntry}

theorem forall₂_mem {α β : Type*} {R : α → β → Prop} {l : List α} {m : List β} (h : List.Forall₂ R l m) {a : α}
    (ha : a ∈ l) : ∃ b ∈ m, R a b := by
  induction h with
  | nil => cases ha
  | cons hab _ ih =>
    rcases List.mem_cons.1 ha with rfl | ha
    · exact ⟨_, List.mem_cons_self, hab⟩
    · obtain ⟨b, hb, hr⟩ := ih ha
      exact ⟨b, List.mem_cons_of_mem _ hb, hr⟩

theorem tags_of_forall₂ {es : List TiffIFDEntry} (h : List.Forall₂ (ReadAs file) es xs)
    (hes : ∀ e ∈ es, ∃ n : Nat, e.tag = n ∧ n < 2 ^ 16) : xs.map TiffIFDEntry.tag = es.map TiffIFDEntry.tag := by
  induction h with
  | nil => rfl
  | cons h _ ih =>
    obtain ⟨n, hn, hlt⟩ := hes _ List.mem_cons_self
    rw [List.map_cons, List.map_cons, h.tag_eq hn hlt, hn, ih fun e he => hes e (List.mem_cons_of_mem _ he)]

section directory

variable (hread : List.Forall₂ (ReadAs file) (sortIFDs (directory raster params)) xs)

include hread

theorem tags_eq : xs.map TiffIFDEntry.tag = (sortIFDs (directory raster params)).map TiffIFDEntry.tag :=
  tags_of_forall₂ hread fun e he => by
    obtain ⟨n, hn, hlt, -⟩ := directory_tag raster params ((List.mergeSort_perm _ _).mem_iff.1 he)
    exact ⟨n, hn, hlt⟩

/-- The entry that was read for one of the directory, the only one with its tag. -/
theorem exists_entry {e : TiffIFDEntry} (he : e ∈ directory raster params) :
    ∃ x ∈ xs, ReadAs file e x ∧ x.tag = e.tag ∧ ∀ y ∈ xs, y.tag = e.tag → y = x := by
  have hperm := List.mergeSort_perm (directory raster params) fun a b => decide (a.tag ≤ b.tag)
  have hnodup : (xs.map TiffIFDEntry.tag).Nodup := by
    rw [tags_eq hread]
    exact (hperm.map _).nodup_iff.2 (directory_nodup raster params)
  obtain ⟨x, hx, hr⟩ := forall₂_mem hread (hperm.mem_iff.2 he)
  obtain ⟨n, hn, hlt, -⟩ := directory_tag raster params he
  have htag : x.tag = e.tag := (hr.tag_eq hn hlt).trans hn.symm
  exact ⟨x, hx, hr, htag, fun y hy h => List.inj_on_of_nodup_map hnodup hy hx (h.trans htag.symm)⟩

theorem no_tiles : ∀ y ∈ xs, y.tag ≠ Tag.TILE_WIDTH := by
  intro y hy h
  have hmem := List.mem_map_of_mem (f := TiffIFDEntry.tag) hy
  rw [tags_eq hread, h] at hmem
  obtain ⟨e, he, ht⟩ := List.mem_map.1 hmem
  obtain ⟨n, hn, -, hne⟩ := directory_tag raster params ((List.mergeSort_perm _ _).mem_iff.1 he)
  rw [Tag.TILE_WIDTH] at ht
  omega

/-- What the one entry with a tag sets. -/
theorem extract_field {γ : Type*} {field : BaselineTiff → γ} {set : TiffIFDEntry → γ → γ} {v : γ} {e : TiffIFDEntry}
    (hfield : ∀ s x, field (BaselineTiff.extractEntry s x) = if x.tag = e.tag then set x (field s) else field s)
    (he : e ∈ directory raster params) (hset : ∀ x, ReadAs file e x → ∀ d, set x d = v) :
    field (BaselineTiff.extract (xs.map some)) = v := by
  obtain ⟨x, hx, hr, htag, hu⟩ := exists_entry hread he
  rw [BaselineTiff.extract, List.foldl_map]
  refine foldl_of_mem hx (fun s => ?_) (fun y hy hne s => ?_) BaselineTiff.new
  · exact (hfield s x).trans ((if_pos htag).trans (hset x hr _))
  · exact (hfield s y).trans (if_neg fun h => hne (hu y hy h))

omit hread in
theorem mem_directory {e : TiffIFDEntry} (he : e ∈ valueEntries raster) : e ∈ directory raster params := by
  rw [directory, List.append_assoc]
  exact List.mem_append_left _ he

omit hread in
theorem ReadAs.long_int {t v : Nat} {x : TiffIFDEntry} (h : ReadAs file ⟨t, Typ.LONG, 1, v, none⟩ x)
    (hv : v < 2 ^ 31) (d : Int) : (x.asLong.map int).getD d = v := by
  rw [(h.long hv).1, Option.map_some, Option.getD_some, int_eq (by omega) (by omega)]

omit hread in
theorem ReadAs.short_int {t v : Nat} {x : TiffIFDEntry} (h : ReadAs file ⟨t, Typ.SHORT, 1, v, none⟩ x)
    (hv : v < 2 ^ 16) (d : Int) : (x.asLong.map int).getD d = v := by
  rw [(h.short hv).1, Option.map_some, Option.getD_some, int_eq (by omega) (by omega)]

theorem extract_eq (hw : raster.width < 2 ^ 31) (hh : raster.height < 2 ^ 31) :
    BaselineTiff.extract (xs.map some) = ⟨raster.width, raster.height, 1, 1, 1, 1,
      some [(raster.dataType.sampleFormat : Int)], some [(raster.dataType.bitsPerSample : Int)]⟩ := by
  have hformat : raster.dataType.sampleFormat < 2 ^ 16 ∧ raster.dataType.bitsPerSample < 2 ^ 16 := by
    cases raster.dataType <;> exact ⟨by decide, by decide⟩
  have h1 := extract_field hread BaselineTiff.extractEntry_width
    (mem_directory (e := ⟨Tag.IMAGE_WIDTH, Typ.LONG, 1, raster.width, none⟩) (by simp [valueEntries]))
    fun x hr d => hr.long_int (t := 256) hw d
  have h2 := extract_field hread BaselineTiff.extractEntry_height
    (mem_directory (e := ⟨Tag.IMAGE_LENGTH, Typ.LONG, 1, raster.height, none⟩) (by simp [valueEntries]))
    fun x hr d => hr.long_int (t := 257) hh d
  have h3 := extract_field hread BaselineTiff.extractEntry_samplesPerPixel
    (mem_directory (e := ⟨Tag.SAMPLES_PER_PIXEL, Typ.SHORT, 1, 1, none⟩) (by simp [valueEntries]))
    fun x hr d => hr.short_int (t := 277) (v := 1) (by omega) d
  have h4 := extract_field hread BaselineTiff.extractEntry_photometric
    (mem_directory (e := ⟨Tag.PHOTO_INTERPRETATION, Typ.SHORT, 1, 1, none⟩) (by simp [valueEntries]))
    fun x hr d => hr.short_int (t := 262) (v := 1) (by omega) d
  have h5 := extract_field hread BaselineTiff.extractEntry_rowsPerStrip (e :=
      ⟨Tag.ROWS_PER_STRIP, Typ.LONG, 1, 1, none⟩)
    (by simp [directory]) fun x hr d => hr.long_int (t := 278) (v := 1) (by omega) d
  have h6 := extract_field hread BaselineTiff.extractEntry_planarConfig
    (mem_directory (e := ⟨Tag.PLANAR_CONFIGURATION, Typ.SHORT, 1, 1, none⟩) (by simp [valueEntries]))
    fun x hr d => hr.short_int (t := 284) (v := 1) (by omega) d
  have h7 := extract_field hread BaselineTiff.extractEntry_sampleFormat
    (mem_directory (e := ⟨Tag.SAMPLE_FORMAT, Typ.SHORT, 1, raster.dataType.sampleFormat, none⟩)
      (by simp [valueEntries]))
    (v := some [(raster.dataType.sampleFormat : Int)])
    fun x hr d => by rw [(hr.short (t := 339) hformat.1).2, Option.some_or]
  have h8 := extract_field hread BaselineTiff.extractEntry_bitsPerSample
    (mem_directory (e := ⟨Tag.BITS_PER_SAMPLE, Typ.SHORT, 1, raster.dataType.bitsPerSample, none⟩)
      (by simp [valueEntries]))
    (v := some [(raster.dataType.bitsPerSample : Int)])
    fun x hr d => by rw [(hr.short (t := 258) hformat.2).2, Option.some_or]
  exact BaselineTiff.ext h1 h2 h3 h4 h5 h6 h7 h8

/-- The reader of a raster's directory, given its strip tables. -/
theorem doRead_eq (hw : raster.width < 2 ^ 31) (hh : raster.height < 2 ^ 31) {offsets counts : Option (List Int)}
    (ho : stripTable Tag.STRIP_OFFSETS (xs.map some) = some offsets)
    (hc : stripTable Tag.STRIP_BYTE_COUNTS (xs.map some) = some counts) (fc : FileChannel) :
    doRead fc .bigEndian (xs.map some) = offsets.bind fun offsets => counts.bind fun counts =>
      if offsets = [] ∨ counts = [] ∨ counts.length < offsets.length then none
      else
        (match raster.dataType with
          | .INT16 => TIFFReader.readPlanar16 fc .bigEndian raster.width raster.height 1 (offsets.zip counts) 1
          | .FLOAT32 => TIFFReader.readPlanarFloat32 fc .bigEndian raster.width raster.height 1
              (offsets.zip counts) 1).bind
        fun data => data[0]?.map fun samples => ⟨raster.dataType, raster.width, raster.height, samples⟩ := by
  have hwpos := raster.width_pos
  have hhpos := raster.height_pos
  obtain ⟨x, hx, hr, htag, hu⟩ := exists_entry hread
    (mem_directory (e := ⟨Tag.COMPRESSION, Typ.LONG, 1, 1, none⟩) (by simp [valueEntries]))
  have hcompression := getByTag_of_mem hx htag hu
  have hlong : x.asLong = some 1 := (hr.long (t := 259) (v := 1) (by omega)).1
  have htype : elevationType ⟨raster.width, raster.height, 1, 1, 1, 1, some [(raster.dataType.sampleFormat : Int)],
      some [(raster.dataType.bitsPerSample : Int)]⟩ = some raster.dataType := by
    cases raster.dataType <;> rfl
  have hcheck : ¬ ((raster.width : Int) ≤ 0 ∨ (raster.height : Int) ≤ 0 ∨ (1 : Int) ≤ 0 ∨ (1 : Int) ≤ -1 ∨
      6 < (1 : Int) ∨
      (1 : Int) ≤ 0 ∨ ((1 : Int) ≠ 2 ∧ (1 : Int) ≠ 1)) := by omega
  have hnone : ¬ (∃ c ∈ some x, c.asLong ≠ some 1 ∧ c.asLong ≠ some 5) := by
    rintro ⟨c, hc, h1, -⟩
    obtain rfl := Option.some.inj hc
    exact h1 hlong
  unfold doRead
  rw [extract_eq hread hw hh]
  simp only [htype]
  rw [if_neg hcheck, ho, hc, Option.bind_some, Option.bind_some]
  refine Option.bind_congr fun offsets _ => Option.bind_congr fun counts _ => ?_
  rw [hcompression, getByTag_of_not (no_tiles hread), Option.bind_some, Option.bind_some, Option.bind_some]
  simp only [hnone, false_or, ne_eq, not_true_eq_false]
  by_cases h1 : offsets = [] ∨ counts = []
  · rw [if_pos h1, if_pos (by tauto)]
  · rw [if_neg h1]
    by_cases h2 : counts.length < offsets.length
    · rw [if_pos h2, if_pos (.inr (.inr h2))]
    · exact (if_neg h2).trans (if_neg (by tauto)).symm

end directory

/-! ## The file of a raster -/

section file

variable (raster params)

/-- What the header, the rows and the tables make of the file. -/
structure Layout (file : List Int8) : Prop where
  rows : file.drop 8 = raster.rows ++ tail raster params
  tail : file.drop raster.tableOffset = tail raster params
  directory : file.drop (ifdOffset raster params) = shortBytes .bigEndian (directory raster params).length ++
    (sortIFDs (directory raster params)).flatMap entryBytes ++ intBytes .bigEndian 0
  length : file.length = raster.tableOffset + (GeotiffWriter.tail raster params).length
  ifdOffset_le : ifdOffset raster params ≤ file.length

theorem writeRaster_layout : Layout raster params (writeRaster raster params) := by
  have hfile := writeRaster_eq raster params
  have hhead : ([0x4D, 0x4D, 0, 42] ++ intBytes .bigEndian (ifdOffset raster params)).length = 8 := by
    rw [List.length_append, intBytes_length]
    rfl
  have htable : ([0x4D, 0x4D, 0, 42] ++ intBytes .bigEndian (ifdOffset raster params) ++ raster.rows).length =
      raster.tableOffset := by
    rw [List.length_append, hhead, raster.rows_length, Raster.tableOffset]
  have hgeo : (tables raster ++ geoBytes raster params).length =
      8 * raster.height + (geoBytes raster params).length := by
    rw [List.length_append, tables_length]
  have hle := le_aligned (raster.tableOffset + 8 * raster.height + (geoBytes raster params).length)
  rw [← ifdOffset] at hle
  have htail : tail raster params = (tables raster ++ geoBytes raster params ++
      List.replicate (ifdOffset raster params - (raster.tableOffset + 8 * raster.height +
        (geoBytes raster params).length)) 0) ++ (shortBytes .bigEndian (directory raster params).length ++
      (sortIFDs (directory raster params)).flatMap entryBytes ++ intBytes .bigEndian 0) := by
    simp only [tail, List.append_assoc]
  have hbefore : (tables raster ++ geoBytes raster params ++ List.replicate (ifdOffset raster params -
      (raster.tableOffset + 8 * raster.height + (geoBytes raster params).length)) (0 : Int8)).length =
      ifdOffset raster params - raster.tableOffset := by
    rw [List.length_append, hgeo, List.length_replicate]
    omega
  have hdrop : (writeRaster raster params).drop raster.tableOffset = tail raster params := by
    rw [hfile, ← List.append_assoc, List.drop_left' htable]
  refine ⟨by rw [hfile, List.drop_left' hhead], hdrop, ?_, ?_, ?_⟩
  · have hsplit : ifdOffset raster params = raster.tableOffset +
        (ifdOffset raster params - raster.tableOffset) := by omega
    rw [hsplit, ← List.drop_drop, hdrop, htail, List.drop_left' hbefore]
  · rw [hfile, ← List.append_assoc, List.length_append, htable]
  · rw [hfile, ← List.append_assoc, List.length_append, htable, htail, List.length_append, hbefore]
    omega

variable {raster params}

theorem Layout.row (h : Layout raster params file) {y : Nat} (hy : y < raster.height) :
    (file.drop (8 + y * raster.rowLength)).take raster.rowLength = rowBytes raster y := by
  have hrows : raster.rows.drop (raster.rowLength * y) = ((List.range raster.height).drop y).flatMap
      (rowBytes raster) :=
    drop_flatMap raster.rowBytes_length _ y
  have hle : raster.rowLength * y ≤ raster.rows.length := by
    rw [raster.rows_length, Nat.mul_comm]
    exact Nat.mul_le_mul_right _ hy.le
  rw [← List.drop_drop, h.rows, Nat.mul_comm, List.drop_append_of_le_length hle, hrows,
    List.drop_eq_getElem_cons (by rwa [List.length_range]), List.getElem_range, List.flatMap_cons, List.append_assoc,
    List.take_left' (raster.rowBytes_length y)]

/-- The rows that are read of strips that start at the rows. -/
theorem Layout.strips (h : Layout raster params file) {k : Nat} (hk : k ≤ raster.height) :
    ((List.range k).map fun y => (8 + y * raster.rowLength, raster.rowLength)).foldl
      (TIFFReader.appendStrip file (raster.height * raster.rowLength)) [] =
      (List.range k).flatMap (rowBytes raster) := by
  induction k with
  | zero => rfl
  | succ k ih =>
    have hlen : ((List.range k).flatMap (rowBytes raster)).length = k * raster.rowLength := by
      rw [length_flatMap_const raster.rowBytes_length, List.length_range, Nat.mul_comm]
    have hroom : raster.rowLength ≤ raster.height * raster.rowLength - k * raster.rowLength := by
      rw [← Nat.sub_mul]
      exact Nat.le_mul_of_pos_left _ (by omega)
    rw [List.range_succ, List.map_append, List.foldl_append, ih (by omega), List.map_singleton, List.foldl_cons,
      List.foldl_nil, TIFFReader.appendStrip, hlen, Nat.min_eq_left hroom, h.row (by omega), List.flatMap_append,
      List.flatMap_singleton]

/-- The whole file is read up to its strip tables. -/
theorem read_eq (hsize : (writeRaster raster params).length < 2 ^ 31) :
    ∃ xs, List.Forall₂ (ReadAs (writeRaster raster params)) (sortIFDs (directory raster params)) xs ∧
      read (writeRaster raster params) = doRead ⟨writeRaster raster params, 0⟩ .bigEndian (xs.map some) := by
  have hlayout := writeRaster_layout raster params
  have hle := hlayout.ifdOffset_le
  have hsort : (sortIFDs (directory raster params)).length = (directory raster params).length :=
    (List.mergeSort_perm _ _).length_eq
  obtain ⟨xs, hxs, hread⟩ := readTiffHeaders_eq (sortIFDs (directory raster params)) (writeRaster_eq raster params)
    (by omega) (by rw [hsort]; exact directory_length_lt raster params) (by rw [hsort]; exact hlayout.directory)
  refine ⟨xs, hread, ?_⟩
  rw [read, hxs, Option.bind_some]
  rfl

section tables

variable (hread : List.Forall₂ (ReadAs file) (sortIFDs (directory raster params)) xs)

include hread

/-- A table of the directory, as it is read. -/
theorem stripTable_of_mem {e : TiffIFDEntry} {t : Option (List Int)} (he : e ∈ directory raster params)
    (h : ∀ x, ReadAs file e x → x.getAsLongs = some t) : stripTable e.tag (xs.map some) = some t := by
  obtain ⟨x, hx, hr, htag, hu⟩ := exists_entry hread he
  rw [stripTable, stripTable_eq htag hu (h x hr), if_pos hx]

/-- The samples of the strips that the tables name. -/
theorem doRead_strips (hsize : raster.tableOffset < 2 ^ 31) {offsets counts : List Nat}
    (ho : stripTable Tag.STRIP_OFFSETS (xs.map some) = some (some (offsets.map Int.ofNat)))
    (hc : stripTable Tag.STRIP_BYTE_COUNTS (xs.map some) = some (some (counts.map Int.ofNat)))
    (hlo : offsets.length = raster.height) (hlc : counts.length = raster.height) (hsum : counts.sum < 2 ^ 31) :
    doRead ⟨file, 0⟩ .bigEndian (xs.map some) =
      let l := (offsets.zip counts).foldl (TIFFReader.appendStrip file (raster.height * raster.rowLength)) []
      if l.length < raster.height * raster.rowLength then none
      else some ⟨raster.dataType, raster.width, raster.height,
        (raster.dataType.decode .bigEndian l).take (raster.width * raster.height)⟩ := by
  have hwpos := raster.width_pos
  have hhpos := raster.height_pos
  have hbpos := raster.dataType.bytesPerSample_pos
  have hcap : raster.height * raster.rowLength = raster.width * raster.height * raster.dataType.bytesPerSample := by
    rw [Raster.rowLength, ← Nat.mul_assoc, Nat.mul_comm raster.height]
  have hcap31 : raster.width * raster.height * raster.dataType.bytesPerSample < 2 ^ 31 := by
    rw [Raster.tableOffset] at hsize
    omega
  have hcells : raster.width * raster.height ≤ raster.width * raster.height * raster.dataType.bytesPerSample :=
    Nat.le_mul_of_pos_right _ hbpos
  have hw : raster.width ≤ raster.width * raster.height := Nat.le_mul_of_pos_right _ hhpos
  have hh : raster.height ≤ raster.width * raster.height := Nat.le_mul_of_pos_left _ hwpos
  have hzip : (offsets.map Int.ofNat).zip (counts.map Int.ofNat) =
      (offsets.zip counts).map fun p => ((p.1 : Int), (p.2 : Int)) := by
    rw [List.zip_map]
    rfl
  have hsnd : ((offsets.zip counts).map Prod.snd).sum < 2 ^ 31 := by
    rwa [List.map_snd_zip (by omega)]
  have hnil : ¬ (offsets.map Int.ofNat = [] ∨ counts.map Int.ofNat = [] ∨
      (counts.map Int.ofNat).length < (offsets.map Int.ofNat).length) := by
    rw [List.map_eq_nil_iff, List.map_eq_nil_iff, List.length_map, List.length_map, ← List.length_eq_zero_iff,
      ← List.length_eq_zero_iff]
    omega
  have hlen : (offsets.zip counts).length = raster.height := by rw [List.length_zip]; omega
  have hh31 : raster.height < 2 ^ 31 := by omega
  rw [doRead_eq hread (by omega) (by omega) ho hc, Option.bind_some, Option.bind_some, if_neg hnil, hzip, hcap]
  have hplanar : (match raster.dataType with
      | .INT16 => TIFFReader.readPlanar16 ⟨file, 0⟩ .bigEndian raster.width raster.height 1
          ((offsets.zip counts).map fun p => ((p.1 : Int), (p.2 : Int))) 1
      | .FLOAT32 => TIFFReader.readPlanarFloat32 ⟨file, 0⟩ .bigEndian raster.width raster.height 1
          ((offsets.zip counts).map fun p => ((p.1 : Int), (p.2 : Int))) 1) =
      let l := (offsets.zip counts).foldl
        (TIFFReader.appendStrip file (raster.width * raster.height * raster.dataType.bytesPerSample)) []
      if l.length < raster.width * raster.height * raster.dataType.bytesPerSample then none
      else some [(raster.dataType.decode .bigEndian l).take (raster.width * raster.height)] := by
    have hdec := raster.dataType.length_decode
    cases htype : raster.dataType with
    | INT16 =>
      rw [htype] at hdec hcap31
      exact TIFFReader.readPlanar_eq DataType.INT16.decode (fun a b => ⟨by simp, by simp; omega⟩)
        (fun b => rfl) hdec (by decide) hlen hhpos hcap31 hsnd hh31
    | FLOAT32 =>
      rw [htype] at hdec hcap31
      exact TIFFReader.readPlanar_eq DataType.FLOAT32.decode (fun a b => ⟨by simp; omega, by simp⟩)
        (fun b => rfl) hdec (by decide) hlen hhpos hcap31 hsnd hh31
  rw [hplanar]
  simp only
  split <;> rfl

/-- The tables of a single row are taken for their own offsets. -/
theorem stripTables_one (h1 : raster.height = 1) (hsize : raster.tableOffset + 4 < 2 ^ 31) :
    stripTable Tag.STRIP_OFFSETS (xs.map some) = some (some ([raster.tableOffset].map Int.ofNat)) ∧
      stripTable Tag.STRIP_BYTE_COUNTS (xs.map some) = some (some ([raster.tableOffset + 4].map Int.ofNat)) := by
  constructor
  · refine stripTable_of_mem hread (e := ⟨Tag.STRIP_OFFSETS, Typ.LONG, raster.height, raster.tableOffset, none⟩)
      (by simp [directory]) fun x hr => ?_
    rw [h1] at hr
    exact (hr.long (t := 273) (by omega)).2
  · refine stripTable_of_mem hread (e := ⟨Tag.STRIP_BYTE_COUNTS, Typ.LONG, raster.height,
      (raster.tableOffset + 4 * raster.height : Nat), none⟩) (by simp [directory]) fun x hr => ?_
    rw [h1] at hr
    exact (hr.long (t := 279) (by omega)).2

/-- The numbers of a table that are read; the others are zero. -/
def cutTable (l : List Nat) : Option (List Nat) :=
  if 0 < 4 * l.length % 2 ^ 16 then
    some (l.take (4 * l.length % 2 ^ 16 / 4) ++ List.replicate (l.length - 4 * l.length % 2 ^ 16 / 4) 0)
  else none

theorem stripTables_eq (hlayout : Layout raster params file) (h2 : 1 < raster.height)
    (hsize : raster.tableOffset + 8 * raster.height < 2 ^ 31) :
    stripTable Tag.STRIP_OFFSETS (xs.map some) = some ((cutTable raster.stripOffsets).map (List.map Int.ofNat)) ∧
      stripTable Tag.STRIP_BYTE_COUNTS (xs.map some) =
        some ((cutTable (List.replicate raster.height raster.rowLength)).map (List.map Int.ofNat)) := by
  have hcut : ∀ l : List Nat, (if 0 < 4 * l.length % 2 ^ 16 then
      some ((l.take (4 * l.length % 2 ^ 16 / 4)).map Int.ofNat ++
        List.replicate (l.length - 4 * l.length % 2 ^ 16 / 4) 0)
      else none) = (cutTable l).map (List.map Int.ofNat) := by
    intro l
    rw [cutTable]
    split
    · rw [Option.map_some, List.map_append, List.map_replicate]
      rfl
    · rfl
  have hoffsets : raster.stripOffsets.length = raster.height := by
    rw [Raster.stripOffsets, List.length_map, List.length_range]
  have htail : file.drop raster.tableOffset = tables raster ++ (geoBytes raster params ++
      List.replicate (ifdOffset raster params - (raster.tableOffset + 8 * raster.height +
        (geoBytes raster params).length)) 0 ++ shortBytes .bigEndian (directory raster params).length ++
      (sortIFDs (directory raster params)).flatMap entryBytes ++ intBytes .bigEndian 0) := by
    rw [hlayout.tail, tail]
    simp only [List.append_assoc]
  rw [tables, List.append_assoc] at htail
  have hlen : (raster.stripOffsets.flatMap fun n : Nat => intBytes .bigEndian n).length = 4 * raster.height := by
    rw [length_flatMap_const (fun n : Nat => intBytes_length _ n), hoffsets]
  constructor
  · refine stripTable_of_mem hread (e := ⟨Tag.STRIP_OFFSETS, Typ.LONG, raster.height, raster.tableOffset, none⟩)
      (by simp [directory]) fun x hr => ?_
    rw [← hcut]
    refine ReadAs.table (t := 273) raster.tableOffset (by rw [hoffsets]; exact hr) (by omega) (by omega)
      (fun n hn => ?_) (by omega) ⟨_, htail.symm⟩
    obtain ⟨y, hy, rfl⟩ := List.mem_map.1 hn
    have : y * raster.rowLength ≤ raster.height * raster.rowLength := Nat.mul_le_mul_right _ (List.mem_range.1 hy).le
    rw [Raster.tableOffset] at hsize
    omega
  · refine stripTable_of_mem hread (e := ⟨Tag.STRIP_BYTE_COUNTS, Typ.LONG, raster.height,
      (raster.tableOffset + 4 * raster.height : Nat), none⟩) (by simp [directory]) fun x hr => ?_
    rw [← hcut]
    refine ReadAs.table (t := 279) (raster.tableOffset + 4 * raster.height)
      (by rw [List.length_replicate]; exact hr) (by rw [List.length_replicate]; omega)
      (by rw [List.length_replicate]; omega) (fun n hn => ?_) (by omega) ?_
    · rw [List.eq_of_mem_replicate hn]
      have : raster.rowLength ≤ raster.height * raster.rowLength := Nat.le_mul_of_pos_left _ (by omega)
      rw [Raster.tableOffset] at hsize
      omega
    · rw [← List.drop_drop, htail, List.drop_left' hlen]
      exact ⟨_, rfl⟩

end tables

end file

end GeotiffReader

/-! ## Which rasters come back -/

section

open GeotiffReader TIFFReader

variable {raster : Raster} {params : GeoParams}

theorem zip_offsets (raster : Raster) : raster.stripOffsets.zip (List.replicate raster.height raster.rowLength) =
    (List.range raster.height).map fun y => (8 + y * raster.rowLength, raster.rowLength) := by
  have hcounts : List.replicate raster.height raster.rowLength = (List.range raster.height).map fun _ =>
      raster.rowLength := by
    rw [List.map_const', List.length_range]
  rw [Raster.stripOffsets, hcounts, List.zip_map']

theorem rowLength_pos (raster : Raster) : 0 < raster.rowLength :=
  Nat.mul_pos raster.width_pos raster.dataType.bytesPerSample_pos

theorem appendStrip_zeros (content : List Int8) (cap k : Nat) (done : List Int8) :
    (List.replicate k (0, 0)).foldl (appendStrip content cap) done = done := by
  induction k with
  | zero => rfl
  | succ k ih =>
    rw [List.replicate_succ, List.foldl_cons]
    show List.foldl _ (done ++ (content.drop 0).take (min 0 _)) _ = _
    rw [Nat.zero_min, List.take_zero, List.append_nil, ih]

/-- A single row is read from behind the row. -/
theorem read_one (hsize : (writeRaster raster params).length < 2 ^ 31) (h1 : raster.height = 1) :
    read (writeRaster raster params) = some raster.elevations ↔ raster.rows <+: tail raster params := by
  have hlayout := writeRaster_layout raster params
  have hlen := hlayout.length
  have hrowlen : raster.rows.length = raster.rowLength := by rw [raster.rows_length, h1, Nat.one_mul]
  have htable : raster.tableOffset = 8 + raster.rowLength := by rw [Raster.tableOffset, h1, Nat.one_mul]
  have htail8 : 8 ≤ (tail raster params).length := by
    have := tables_length raster
    simp only [tail, List.length_append]
    omega
  obtain ⟨xs, hread, hxs⟩ := @read_eq raster params hsize
  obtain ⟨ho, hc⟩ := stripTables_one hread h1 (by omega)
  rw [hxs, doRead_strips hread (by omega) ho hc (by simp [h1]) (by simp [h1]) (by simp; omega)]
  have hl : ([raster.tableOffset].zip [raster.tableOffset + 4]).foldl
      (appendStrip (writeRaster raster params) (raster.height * raster.rowLength)) [] =
      (tail raster params).take raster.rowLength := by
    show [] ++ ((writeRaster raster params).drop raster.tableOffset).take
      (min (raster.tableOffset + 4) (raster.height * raster.rowLength - 0)) = _
    rw [List.nil_append, hlayout.tail, h1, Nat.one_mul, Nat.sub_zero, Nat.min_eq_right (by omega)]
  rw [hl, h1, Nat.one_mul]
  have hdecode : ∀ l : List Int8, l.length = raster.rowLength →
      (raster.dataType.decode .bigEndian l).take (raster.width * 1) = raster.dataType.decode .bigEndian l := by
    intro l hl
    refine List.take_of_length_le ?_
    rw [raster.dataType.length_decode, hl, Raster.rowLength, Nat.mul_div_cancel _ raster.dataType.bytesPerSample_pos]
    omega
  constructor
  · intro h
    simp only at h
    split at h
    · cases h
    · rename_i hfull
      have hlength : ((tail raster params).take raster.rowLength).length = raster.rowLength := by
        rw [List.length_take] at hfull ⊢
        omega
      have hsamples := congrArg Elevations.samples (Option.some.inj h)
      simp only [hdecode _ hlength] at hsamples
      rw [Raster.elevations, ← raster.decode_rows] at hsamples
      have hdvd : raster.dataType.bytesPerSample ∣ raster.rowLength := Nat.dvd_mul_left _ _
      have hrows : (tail raster params).take raster.rowLength = raster.rows := by
        rw [← raster.dataType.flatMap_decode (l := (tail raster params).take raster.rowLength) (by rwa [hlength]),
          hsamples, raster.dataType.flatMap_decode (by rwa [hrowlen])]
      rw [← hrows]
      exact List.take_prefix _ _
  · rintro ⟨rest, hrest⟩
    have htake : (tail raster params).take raster.rowLength = raster.rows := by
      rw [← hrest, List.take_left' hrowlen]
    simp only [htake, hrowlen, lt_irrefl, if_false, hdecode _ hrowlen]
    rw [raster.decode_rows, Raster.elevations, h1]

/-- Tables below 65536 bytes are read whole. -/
theorem read_some (hsize : (writeRaster raster params).length < 2 ^ 31) (h2 : 1 < raster.height)
    (hh : raster.height < 16384) : read (writeRaster raster params) = some raster.elevations := by
  have hlayout := writeRaster_layout raster params
  have hlen := hlayout.length
  have htail : 8 * raster.height ≤ (tail raster params).length := by
    have := tables_length raster
    simp only [tail, List.length_append]
    omega
  have hcut : ∀ l : List Nat, l.length = raster.height → cutTable l = some l := by
    intro l hl
    rw [cutTable, if_pos (by omega), show 4 * l.length % 2 ^ 16 / 4 = l.length by omega, List.take_length,
      Nat.sub_self, List.replicate_zero, List.append_nil]
  obtain ⟨xs, hread, hxs⟩ := @read_eq raster params hsize
  obtain ⟨ho, hc⟩ := stripTables_eq hread hlayout h2 (by omega)
  have hoffsets : raster.stripOffsets.length = raster.height := by
    rw [Raster.stripOffsets, List.length_map, List.length_range]
  rw [hcut _ hoffsets] at ho
  rw [hcut _ List.length_replicate] at hc
  rw [hxs, doRead_strips hread (by omega) ho hc hoffsets List.length_replicate
    (by rw [List.sum_replicate_nat]; rw [Raster.tableOffset] at hlen; omega)]
  rw [zip_offsets, hlayout.strips le_rfl]
  show (if raster.rows.length < _ then none else some _) = _
  rw [raster.rows_length, if_neg (lt_irrefl _)]
  show some (⟨_, _, _, (raster.dataType.decode .bigEndian raster.rows).take _⟩ : Elevations) = _
  rw [raster.decode_rows, List.take_take, Nat.min_self]
  rfl

/-- A table of 65536 bytes or more is cut, and rows are missing. -/
theorem read_none (hsize : (writeRaster raster params).length < 2 ^ 31) (hh : 16384 ≤ raster.height) :
    read (writeRaster raster params) = none := by
  have hlayout := writeRaster_layout raster params
  have hlen := hlayout.length
  have htail : 8 * raster.height ≤ (tail raster params).length := by
    have := tables_length raster
    simp only [tail, List.length_append]
    omega
  have hrow := rowLength_pos raster
  have hfile : raster.height * raster.rowLength < 2 ^ 31 := by
    rw [Raster.tableOffset] at hlen
    omega
  have hwidth : raster.width < 2 ^ 31 ∧ raster.height < 2 ^ 31 := by
    have h1 : raster.width ≤ raster.rowLength := Nat.le_mul_of_pos_right _ raster.dataType.bytesPerSample_pos
    have h2 : raster.rowLength ≤ raster.height * raster.rowLength := Nat.le_mul_of_pos_left _ (by omega)
    omega
  have hoffsets : raster.stripOffsets.length = raster.height := by
    rw [Raster.stripOffsets, List.length_map, List.length_range]
  obtain ⟨xs, hread, hxs⟩ := @read_eq raster params hsize
  obtain ⟨ho, hc⟩ := stripTables_eq hread hlayout (by omega) (by omega)
  rw [hxs]
  by_cases hcut : 0 < 4 * raster.height % 2 ^ 16
  · generalize hk : 4 * raster.height % 2 ^ 16 / 4 = k at *
    have hlt : k < raster.height := by omega
    rw [cutTable, hoffsets, if_pos hcut, hk] at ho
    rw [cutTable, List.length_replicate, if_pos hcut, hk, List.take_replicate, Nat.min_eq_left hlt.le] at hc
    rw [doRead_strips hread (by omega) ho hc (by simp [hoffsets]; omega) (by simp; omega)
      (by
        rw [List.sum_append, List.sum_replicate_nat, List.sum_replicate_nat, Nat.mul_zero, Nat.add_zero]
        exact lt_of_le_of_lt (Nat.mul_le_mul_right _ hlt.le) hfile)]
    have hzip : (raster.stripOffsets.take k ++ List.replicate (raster.height - k) 0).zip
        (List.replicate k raster.rowLength ++ List.replicate (raster.height - k) 0) =
        ((List.range k).map fun y => (8 + y * raster.rowLength, raster.rowLength)) ++
          List.replicate (raster.height - k) (0, 0) := by
      have hfront : (raster.stripOffsets.take k).zip (List.replicate k raster.rowLength) =
          (List.range k).map fun y => (8 + y * raster.rowLength, raster.rowLength) := by
        have hcounts : List.replicate k raster.rowLength = (List.range k).map fun _ => raster.rowLength := by
          rw [List.map_const', List.length_range]
        rw [Raster.stripOffsets, ← List.map_take, List.take_range, Nat.min_eq_left hlt.le, hcounts, List.zip_map']
      rw [List.zip_append (by simp [hoffsets]; omega), hfront, List.zip_replicate, Nat.min_self]
    rw [hzip, List.foldl_append, hlayout.strips hlt.le, appendStrip_zeros]
    have hshort : ((List.range k).flatMap (rowBytes raster)).length < raster.height * raster.rowLength := by
      rw [length_flatMap_const raster.rowBytes_length, List.length_range, Nat.mul_comm]
      exact Nat.mul_lt_mul_of_pos_right hlt hrow
    simp only [hshort, if_true]
  · rw [cutTable, hoffsets, if_neg hcut, Option.map_none] at ho
    rw [doRead_eq hread hwidth.1 hwidth.2 ho hc, Option.bind_none]

/-- The length of a file. -/
theorem length_writeRaster (raster : Raster) (params : GeoParams) : (writeRaster raster params).length =
    ifdOffset raster params + 6 + 12 * (directory raster params).length := by
  have hlayout := writeRaster_layout raster params
  have hdir := congrArg List.length hlayout.directory
  have hle := hlayout.ifdOffset_le
  rw [List.length_drop, List.length_append, List.length_append, shortBytes_length, intBytes_length,
    length_flatMap_const entryBytes_length, sortIFDs, (List.mergeSort_perm _ _).length_eq] at hdir
  omega

/-- The rasters that come back from their file: those of two to 16383 rows, and
those of a single row which the file has once more behind the row. -/
theorem read_writeRaster (raster : Raster) (params : GeoParams) (h : (writeRaster raster params).length < 2 ^ 31) :
    read (writeRaster raster params) = some raster.elevations ↔
      (1 < raster.height ∧ raster.height < 16384) ∨ (raster.height = 1 ∧ raster.rows <+: tail raster params) := by
  have hpos := raster.height_pos
  by_cases h1 : raster.height = 1
  · rw [read_one h h1]
    simp [h1]
  · by_cases hh : raster.height < 16384
    · exact iff_of_true (read_some h (by omega) hh) (.inl ⟨by omega, hh⟩)
    · rw [read_none h (by omega)]
      refine iff_of_false nofun ?_
      rintro (⟨-, h2⟩ | ⟨h2, -⟩)
      · exact hh h2
      · exact h1 h2

def someParams : GeoParams := ⟨none, none, none, none, 0, 0, 0, 0, 0, 0, none, 4326, false, false⟩

def twoRows : Raster := ⟨.INT16, 2, 2, [1, -2, 3, 4], Nat.two_pos, Nat.two_pos, by decide, by decide⟩

theorem twoRows_read : read (writeRaster twoRows someParams) = some twoRows.elevations :=
  (read_writeRaster twoRows someParams (by rw [length_writeRaster]; decide +kernel)).2 (.inl ⟨by decide, by decide⟩)

def oneRow : Raster := ⟨.INT16, 2, 1, [7, 8], Nat.two_pos, Nat.one_pos, by decide, by decide⟩

theorem oneRow_lost : (writeRaster oneRow someParams).length < 2 ^ 31 ∧
    read (writeRaster oneRow someParams) ≠ some oneRow.elevations := by
  have hsize : (writeRaster oneRow someParams).length < 2 ^ 31 := by
    rw [length_writeRaster]
    decide +kernel
  refine ⟨hsize, fun h => ?_⟩
  -- behind the row is its offset, 00 00 00 08
  obtain ⟨rest, hrest⟩ := (read_one hsize rfl).1 h
  have hsecond : (tail oneRow someParams)[1]? = some 0 := rfl
  have hrows : oneRow.rows = [0, 7, 0, 8] := rfl
  rw [← hrest, hrows] at hsecond
  simp at hsecond

end

end WorldWind.Tiff
