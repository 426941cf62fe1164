import WorldWind.Tiff.ImageStrips
/-!
# Images in strips

A directory tells a layout: a method that `doRead` takes for its samples, and the
strips of each plane. `doRead` reads all samples of a layout unless its rows per
strip are too many for an `int` (the default is), or the count of the rows of a
band is (`readSamples_iff`).
-/

namespace WorldWind.Tiff

open Lib Lib.JavaArray Lib.JavaInt Lib.Nio

/-! ## The samples of a method -/

namespace Method

/-- The bytes of a row of a plane. -/
def rowBytes (width samplesPerPixel : Nat) : Method → Nat
  | readPixelInterleaved8 => width * samplesPerPixel
  | readPlanar8 => width
  | readPlanar16 => width * 2
  | readPlanarFloat32 => width * 4

def planeCount (samplesPerPixel : Nat) : Method → Nat
  | readPixelInterleaved8 => 1
  | _ => samplesPerPixel

/-- The samples in the bytes of a plane. -/
def decode (order : ByteOrder) (l : List Int8) : Method → List Int
  | readPixelInterleaved8 | readPlanar8 => l.map Int8.toInt
  | readPlanar16 => DataType.INT16.decode order l
  | readPlanarFloat32 => DataType.FLOAT32.decode order l

end Method

/-- An uncompressed image, its tags and where its strips are. The arrays for its
samples are not longer than an array can be. -/
structure StripLayout (content : List Int8) where
  method : Method
  width : Nat
  height : Nat
  samplesPerPixel : Nat
  rowsPerStrip : Nat
  photometric : Nat
  planarConfig : Nat
  sampleFormat : Option (List Int)
  bitsPerSample : Option (List Int)
  planes : List (List (Nat × Nat))
  width_pos : 0 < width
  height_pos : 0 < height
  samplesPerPixel_pos : 0 < samplesPerPixel
  samplesPerPixel_lt : samplesPerPixel < 2 ^ 16
  rowsPerStrip_pos : 0 < rowsPerStrip
  rowsPerStrip_lt : rowsPerStrip < 2 ^ 32
  photometric_le : photometric ≤ 6
  planarConfig_eq : planarConfig = 1 ∨ planarConfig = 2
  selected : GeotiffReader.selectMethod ⟨width, height, samplesPerPixel, photometric, rowsPerStrip, planarConfig,
    sampleFormat, bitsPerSample⟩ = some method
  fits : height * method.rowBytes width samplesPerPixel < 2 ^ 31
  planes_length : planes.length = method.planeCount samplesPerPixel
  stored : ∀ strips ∈ planes,
    TIFFReader.Plane content height rowsPerStrip (method.rowBytes width samplesPerPixel) strips

namespace StripLayout

variable {content : List Int8} (layout : StripLayout content)

/-- The samples in the strips, plane by plane. -/
def samples (order : ByteOrder) : List (List Int) :=
  layout.planes.map fun strips => layout.method.decode order (strips.flatMap (bytesOf content))

/-- The count of the rows of a band that another one follows is an `int`. -/
def RowsCounted : Prop :=
  layout.method = .readPlanar8 → 1 < layout.samplesPerPixel →
    stripCount layout.height layout.rowsPerStrip * layout.rowsPerStrip < 2 ^ 31

variable {layout}

theorem rowBytes_pos : 0 < layout.method.rowBytes layout.width layout.samplesPerPixel := by
  have hwidth := layout.width_pos
  have hsamples := layout.samplesPerPixel_pos
  cases layout.method <;> simp only [Method.rowBytes] <;> positivity

theorem height_lt : layout.height < 2 ^ 31 :=
  (Nat.le_mul_of_pos_right _ rowBytes_pos).trans_lt layout.fits

theorem width_lt : layout.width < 2 ^ 31 := by
  have hle : layout.width ≤ layout.method.rowBytes layout.width layout.samplesPerPixel := by
    have := Nat.le_mul_of_pos_right layout.width layout.samplesPerPixel_pos
    cases layout.method <;> simp only [Method.rowBytes] <;> omega
  exact (hle.trans (Nat.le_mul_of_pos_left _ layout.height_pos)).trans_lt layout.fits

/-- Where a row has two bytes, the rows of a band can be counted. -/
theorem stripCount_lt (hrows32 : layout.rowsPerStrip < 2 ^ 31)
    (h2 : 2 ≤ layout.method.rowBytes layout.width layout.samplesPerPixel) :
    stripCount layout.height layout.rowsPerStrip * layout.rowsPerStrip < 2 ^ 31 := by
  have hrows := layout.rowsPerStrip_pos
  have hlt := stripCount_mul_lt hrows layout.height_pos
  have hdouble := (Nat.mul_le_mul_left layout.height h2).trans_lt layout.fits
  rcases Nat.lt_or_ge layout.rowsPerStrip layout.height with h | h
  · omega
  · -- one strip holds all rows
    have hone : stripCount layout.height layout.rowsPerStrip ≤ 1 := by
      refine not_lt.1 fun h1 => ?_
      have := (mul_lt_iff layout.height hrows 1).2 h1
      omega
    have := Nat.mul_le_mul_right layout.rowsPerStrip hone
    omega

/-- The method reads all samples, if it can count the rows. -/
theorem call_iff (order : ByteOrder) (position : Nat) (hrows32 : layout.rowsPerStrip < 2 ^ 31) :
    layout.method.call ⟨content, position⟩ order layout.width layout.height layout.samplesPerPixel
        (TIFFReader.ints layout.planes.flatten) layout.rowsPerStrip = some (layout.samples order) ↔
      layout.RowsCounted := by
  have hrows := layout.rowsPerStrip_pos
  have hheight := layout.height_pos
  have hstored := layout.stored
  have hfits := layout.fits
  have hlength := layout.planes_length
  have hrowBytes := layout.rowBytes_pos
  have hcount := layout.stripCount_lt hrows32
  have hlen16 : ∀ l, (DataType.INT16.decode order l).length = l.length / 2 := fun l => by
    rw [DataType.decode, List.length_map, ushortsOf, List.length_map, length_records]
  have hlen32 : ∀ l, (DataType.FLOAT32.decode order l).length = l.length / 4 := fun l => by
    rw [DataType.decode, List.length_map, uintsOf, List.length_map, length_records]
  rw [RowsCounted, samples]
  cases hmethod : layout.method with
  | readPixelInterleaved8 =>
    rw [hmethod] at hstored hfits hlength hrowBytes
    obtain ⟨strips, hstrips⟩ := List.length_eq_one_iff.1 hlength
    refine iff_of_true ?_ fun h => absurd h (by decide)
    have hread := TIFFReader.readPixelInterleaved8_eq ⟨content, position⟩ hfits hrows rfl
      (hstored strips (by simp [hstrips]))
    rw [Method.call, hstrips, List.flatten_singleton, hread]
    rfl
  | readPlanar8 =>
    rw [hmethod] at hstored hfits hlength hrowBytes
    have hne : layout.planes ≠ [] := by
      rw [← List.length_pos_iff, hlength]
      exact layout.samplesPerPixel_pos
    have hiff := TIFFReader.readPlanar8_iff ⟨content, position⟩ hfits hheight layout.height_lt hrows hrows32 hrowBytes
      hstored hne
    rw [hlength] at hiff
    rw [Method.call]
    refine Iff.trans ?_ (hiff.trans ⟨fun h _ => h, fun h => h rfl⟩)
    -- bytes as numbers are different for different bytes
    have hinj : Function.Injective (Option.map (List.map (List.map Int8.toInt))) :=
      Option.map_injective (List.map_injective_iff.2 (List.map_injective_iff.2 fun _ _ => Int8.toInt_inj.1))
    have hmap : (layout.planes.map fun strips => Method.decode order
        (strips.flatMap (bytesOf content)) .readPlanar8) =
        (layout.planes.map fun strips => strips.flatMap (bytesOf content)).map (List.map Int8.toInt) := by
      rw [List.map_map]
      rfl
    rw [hmap, ← Option.map_some]
    exact hinj.eq_iff
  | readPlanar16 =>
    rw [hmethod] at hstored hfits hlength hcount
    refine iff_of_true ?_ fun h => absurd h (by decide)
    have hread : TIFFReader.readPlanar 2 ByteBuffer.asShortBuffer (fun a b => decide (a > b))
        ⟨content, position⟩ order layout.width
        layout.height layout.planes.length (TIFFReader.ints layout.planes.flatten) layout.rowsPerStrip =
        some (layout.planes.map fun strips => DataType.INT16.decode order (strips.flatMap (bytesOf content))) :=
      TIFFReader.readPlanar_planes (fun a b => ⟨fun h => decide_eq_true h, fun h => (of_decide_eq_true h).le⟩) hfits
        (by rw [Method.rowBytes]; ring) (fun _ => rfl) hlen16 (by norm_num) hheight layout.height_lt hrows
        (hcount (by rw [Method.rowBytes]; have := layout.width_pos; omega)) rfl hstored
    rw [hlength] at hread
    exact hread
  | readPlanarFloat32 =>
    rw [hmethod] at hstored hfits hlength hcount
    refine iff_of_true ?_ fun h => absurd h (by decide)
    have hread : TIFFReader.readPlanar 4 ByteBuffer.asIntBuffer (fun a b => decide (a ≥ b))
        ⟨content, position⟩ order layout.width
        layout.height layout.planes.length (TIFFReader.ints layout.planes.flatten) layout.rowsPerStrip =
        some (layout.planes.map fun strips => DataType.FLOAT32.decode order (strips.flatMap (bytesOf content))) :=
      TIFFReader.readPlanar_planes
        (fun a b => ⟨fun h => decide_eq_true (le_of_lt h), fun h => of_decide_eq_true h⟩) hfits
        (by rw [Method.rowBytes]; ring) (fun _ => rfl) hlen32 (by norm_num) hheight layout.height_lt hrows
        (hcount (by rw [Method.rowBytes]; have := layout.width_pos; omega)) rfl hstored
    rw [hlength] at hread
    exact hread

end StripLayout

/-! ## The directory -/

/-- What the one entry with a tag gives, or that there is none. -/
def Gives {γ : Type*} (ifd : List TiffIFDEntry) (tag : Int) (get : TiffIFDEntry → Option γ) : Option γ → Prop
  | some v => ∃ x ∈ ifd, x.tag = tag ∧ get x = some v ∧ ∀ y ∈ ifd, y.tag = tag → y = x
  | none => ∀ y ∈ ifd, y.tag ≠ tag

instance {γ : Type*} [DecidableEq γ] (ifd : List TiffIFDEntry) (tag : Int) (get : TiffIFDEntry → Option γ) :
    (v : Option γ) → Decidable (Gives ifd tag get v)
  | some v => inferInstanceAs (Decidable (∃ x ∈ ifd, x.tag = tag ∧ get x = some v ∧ ∀ y ∈ ifd, y.tag = tag → y = x))
  | none => inferInstanceAs (Decidable (∀ y ∈ ifd, y.tag ≠ tag))

/-- The directory has the tags of a layout. Without a tag for the rows per strip,
they are the default, and without one for the compression there is none. -/
structure Describes {content : List Int8} (layout : StripLayout content) (ifd : List TiffIFDEntry) : Prop where
  width : Gives ifd Tag.IMAGE_WIDTH TiffIFDEntry.asLong (some (layout.width : Int))
  height : Gives ifd Tag.IMAGE_LENGTH TiffIFDEntry.asLong (some (layout.height : Int))
  samplesPerPixel : Gives ifd Tag.SAMPLES_PER_PIXEL TiffIFDEntry.asLong (some (layout.samplesPerPixel : Int))
  photometric : Gives ifd Tag.PHOTO_INTERPRETATION TiffIFDEntry.asLong (some (layout.photometric : Int))
  planarConfig : Gives ifd Tag.PLANAR_CONFIGURATION TiffIFDEntry.asLong (some (layout.planarConfig : Int))
  sampleFormat : Gives ifd Tag.SAMPLE_FORMAT TiffIFDEntry.getShortsAsInts layout.sampleFormat
  bitsPerSample : Gives ifd Tag.BITS_PER_SAMPLE TiffIFDEntry.getShortsAsInts layout.bitsPerSample
  rowsPerStrip : Gives ifd Tag.ROWS_PER_STRIP TiffIFDEntry.asLong (some (layout.rowsPerStrip : Int)) ∨
    layout.rowsPerStrip = 2 ^ 32 - 1 ∧ Gives ifd Tag.ROWS_PER_STRIP TiffIFDEntry.asLong none
  stripOffsets : Gives ifd Tag.STRIP_OFFSETS TiffIFDEntry.getAsLongs
    (some (some (layout.planes.flatten.map fun strip => (strip.1 : Int))))
  stripByteCounts : Gives ifd Tag.STRIP_BYTE_COUNTS TiffIFDEntry.getAsLongs
    (some (some (layout.planes.flatten.map fun strip => (strip.2 : Int))))
  compression : Gives ifd Tag.COMPRESSION TiffIFDEntry.asLong (some 1) ∨
    Gives ifd Tag.COMPRESSION TiffIFDEntry.asLong none
  notTiled : Gives ifd Tag.TILE_WIDTH TiffIFDEntry.asLong none

section

variable {ifd : List TiffIFDEntry} {γ δ : Type*} {tag : Int} {get : TiffIFDEntry → Option γ}

theorem extract_of_gives {field : BaselineTiff → δ} {set : TiffIFDEntry → δ → δ} {v : γ} {d : δ}
    (hfield : ∀ s x, field (BaselineTiff.extractEntry s x) = if x.tag = tag then set x (field s) else field s)
    (h : Gives ifd tag get (some v)) (hset : ∀ x e, get x = some v → set x e = d) :
    field (BaselineTiff.extract (ifd.map some)) = d := by
  obtain ⟨x, hx, htag, hget, hu⟩ := h
  rw [BaselineTiff.extract, List.foldl_map]
  refine GeotiffReader.foldl_of_mem hx (fun s => ?_) (fun y hy hne s => ?_) BaselineTiff.new
  · exact (hfield s x).trans ((if_pos htag).trans (hset x _ hget))
  · exact (hfield s y).trans (if_neg fun h => hne (hu y hy h))

theorem extract_of_none {field : BaselineTiff → δ} {set : TiffIFDEntry → δ → δ}
    (hfield : ∀ s x, field (BaselineTiff.extractEntry s x) = if x.tag = tag then set x (field s) else field s)
    (h : Gives ifd tag get none) : field (BaselineTiff.extract (ifd.map some)) = field .new := by
  rw [BaselineTiff.extract, List.foldl_map]
  induction ifd using List.reverseRecOn with
  | nil => rfl
  | append_singleton ifd y ih =>
    rw [List.foldl_append]
    refine (hfield _ y).trans ((if_neg (h y (by simp))).trans (ih fun z hz => h z (List.mem_append_left _ hz)))

theorem extract_long {field : BaselineTiff → Int} {v : Nat}
    (hfield : ∀ s x, field (BaselineTiff.extractEntry s x) =
      if x.tag = tag then (x.asLong.map int).getD (field s) else field s)
    (h : Gives ifd tag TiffIFDEntry.asLong (some (v : Int))) : field (BaselineTiff.extract (ifd.map some)) = int v :=
  extract_of_gives hfield h fun x e hx => by rw [hx, Option.map_some, Option.getD_some]

theorem extract_shorts {field : BaselineTiff → Option (List Int)} {v : Option (List Int)}
    (hfield : ∀ s x, field (BaselineTiff.extractEntry s x) =
      if x.tag = tag then x.getShortsAsInts.or (field s) else field s) (hnew : field .new = none)
    (h : Gives ifd tag TiffIFDEntry.getShortsAsInts v) : field (BaselineTiff.extract (ifd.map some)) = v := by
  cases v with
  | none => exact (extract_of_none hfield h).trans hnew
  | some v => exact extract_of_gives hfield h fun x e hx => by rw [hx, Option.some_or]

theorem stripTable_of_gives {table : List Int} (h : Gives ifd tag TiffIFDEntry.getAsLongs (some (some table))) :
    GeotiffReader.stripTable tag (ifd.map some) = some (some table) := by
  obtain ⟨x, hx, htag, hget, hu⟩ := h
  rw [GeotiffReader.stripTable, GeotiffReader.stripTable_eq htag hu hget, if_pos hx]

end

variable {content : List Int8} {layout : StripLayout content} {ifd : List TiffIFDEntry}

/-- The tags as they are extracted: the rows per strip become an `int`. -/
theorem extract_layout (h : Describes layout ifd) : ∃ rowsPerStrip : Int,
    BaselineTiff.extract (ifd.map some) = ⟨layout.width, layout.height, layout.samplesPerPixel, layout.photometric,
      rowsPerStrip, layout.planarConfig, layout.sampleFormat, layout.bitsPerSample⟩ ∧
    (rowsPerStrip ≤ 0 ↔ ¬layout.rowsPerStrip < 2 ^ 31) ∧
    (layout.rowsPerStrip < 2 ^ 31 → rowsPerStrip = layout.rowsPerStrip) := by
  have hsamples := layout.samplesPerPixel_lt
  have hphotometric := layout.photometric_le
  have hplanar := layout.planarConfig_eq
  have h1 := extract_long BaselineTiff.extractEntry_width h.width
  have h2 := extract_long BaselineTiff.extractEntry_height h.height
  have h3 := extract_long BaselineTiff.extractEntry_samplesPerPixel h.samplesPerPixel
  have h4 := extract_long BaselineTiff.extractEntry_photometric h.photometric
  have h6 := extract_long BaselineTiff.extractEntry_planarConfig h.planarConfig
  have h7 := extract_shorts BaselineTiff.extractEntry_sampleFormat rfl h.sampleFormat
  have h8 := extract_shorts BaselineTiff.extractEntry_bitsPerSample rfl h.bitsPerSample
  rw [int_natCast layout.width_lt] at h1
  rw [int_natCast layout.height_lt] at h2
  rw [int_natCast (by omega)] at h3 h4 h6
  refine ⟨(BaselineTiff.extract (ifd.map some)).rowsPerStrip, BaselineTiff.ext h1 h2 h3 h4 rfl h6 h7 h8, ?_⟩
  have hrows := layout.rowsPerStrip_pos
  have hrows' := layout.rowsPerStrip_lt
  rcases h.rowsPerStrip with hgiven | ⟨hdefault, hgiven⟩
  · rw [extract_long BaselineTiff.extractEntry_rowsPerStrip hgiven]
    refine ⟨⟨fun hle hlt => ?_, fun hge => ?_⟩, fun hlt => int_natCast hlt⟩
    · rw [int_natCast hlt] at hle
      omega
    · exact (int_overflow (by omega) (by omega)).le
  · have hzero : (BaselineTiff.extract (ifd.map some)).rowsPerStrip = 0 :=
      extract_of_none BaselineTiff.extractEntry_rowsPerStrip hgiven
    rw [hzero]
    exact ⟨⟨fun _ => by omega, fun _ => le_rfl⟩, fun hlt => absurd hlt (by omega)⟩

/-- Four grey pixels in two rows, in strips of so many rows. -/
def fourPixels (rowsPerStrip : Nat) (strips : List (Nat × Nat)) (hpos : 0 < rowsPerStrip)
    (hlt : rowsPerStrip < 2 ^ 32)
    (hplane : TIFFReader.Plane [1, 2, 3, 4] 2 rowsPerStrip 2 strips) : StripLayout [1, 2, 3, 4] where
  method := .readPlanar8
  width := 2
  height := 2
  samplesPerPixel := 1
  rowsPerStrip := rowsPerStrip
  photometric := 1
  planarConfig := 1
  sampleFormat := some [1]
  bitsPerSample := some [8]
  planes := [strips]
  width_pos := by decide
  height_pos := by decide
  samplesPerPixel_pos := by decide
  samplesPerPixel_lt := by decide
  rowsPerStrip_pos := hpos
  rowsPerStrip_lt := hlt
  photometric_le := by decide
  planarConfig_eq := .inl rfl
  selected := rfl
  fits := by decide
  planes_length := rfl
  stored strips h := by
    obtain rfl := List.mem_singleton.1 h
    exact hplane

/-- The tags of the four pixels, but for those of the strips. -/
def fourPixelTags : List TiffIFDEntry :=
  [⟨Tag.IMAGE_WIDTH, Typ.LONG, 1, 2, none⟩, ⟨Tag.IMAGE_LENGTH, Typ.LONG, 1, 2, none⟩,
    ⟨Tag.BITS_PER_SAMPLE, Typ.SHORT, 1, 8 * 2 ^ 16, none⟩, ⟨Tag.COMPRESSION, Typ.SHORT, 1, 2 ^ 16, none⟩,
    ⟨Tag.PHOTO_INTERPRETATION, Typ.SHORT, 1, 2 ^ 16, none⟩, ⟨Tag.SAMPLES_PER_PIXEL, Typ.SHORT, 1, 2 ^ 16, none⟩,
    ⟨Tag.PLANAR_CONFIGURATION, Typ.SHORT, 1, 2 ^ 16, none⟩, ⟨Tag.SAMPLE_FORMAT, Typ.SHORT, 1, 2 ^ 16, none⟩]

def twoStripsTags : List TiffIFDEntry :=
  fourPixelTags ++ [⟨Tag.ROWS_PER_STRIP, Typ.LONG, 1, 1, none⟩,
    ⟨Tag.STRIP_OFFSETS, Typ.LONG, 2, 0, some (ByteBuffer.wrap [0, 0, 0, 0, 0, 0, 0, 2])⟩,
    ⟨Tag.STRIP_BYTE_COUNTS, Typ.LONG, 2, 0, some (ByteBuffer.wrap [0, 0, 0, 2, 0, 0, 0, 2])⟩]

def oneStripTags : List TiffIFDEntry :=
  fourPixelTags ++ [⟨Tag.ROWS_PER_STRIP, Typ.LONG, 1, 2 ^ 32 - 1, none⟩, ⟨Tag.STRIP_OFFSETS, Typ.LONG, 1, 0, none⟩,
    ⟨Tag.STRIP_BYTE_COUNTS, Typ.LONG, 1, 4, none⟩]

end WorldWind.Tiff
