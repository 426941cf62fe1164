import WorldWind.Bil.Theorems
/-!
# The sector of a header

A header gives its keys in any order and case, with further lines between them.
The value that a key ends with is the one of the only line that writes it
(`scan_once`). The header's sector covers its grid where the origin is a corner
or the centre of the upper left cell; the centre of the lower left cell gives no
sector (`header_sector_iff`).
-/

namespace WorldWind.Bil

open Geom Lib.Scanner

/-- A key and a word. -/
abbrev Line := List Char × List Char

variable (t : DoubleText)

/-! ## One line -/

/-- The value that a word is read as under a key. -/
def typedValue (key word : List Char) : Option Value :=
  if key ∈ intKeys then (nextInt word).map .int
  else if key = NODATA ∨ key = NODATA_VALUE ∨ key ∈ doubleKeys ∨ key = CELLSIZE then (t.nextDouble word).map .double
  else some (.string word)

/-- The keys that a line with a key writes. -/
def targets (key : List Char) : List (List Char) :=
  if key = NODATA ∨ key = NODATA_VALUE then [key, NODATA] else if key = CELLSIZE then [key, XDIM, YDIM] else [key]

/-- The values after one of a line was set under each of its keys. -/
def setAll (values : AVList) (keys : List (List Char)) (value : Value) : AVList := fun k =>
  match k with
  | .header name => if name ∈ keys then some value else values k
  | _ => values k

theorem setValue_header (values : AVList) (name : List Char) (value : Value) :
    values.setValue (.header name) value = setAll values [name] value := by
  funext k
  cases k <;> simp [AVList.setValue, setAll]

theorem setAll_setAll (values : AVList) (keys keys' : List (List Char)) (value : Value) :
    setAll (setAll values keys value) keys' value = setAll values (keys ++ keys') value := by
  funext k
  cases k with
  | header name =>
    by_cases h : name ∈ keys <;> by_cases h' : name ∈ keys' <;> simp [setAll, h, h']
  | _ => rfl

/-- A line writes one value under its keys. -/
theorem scanHdrValue_eq (key word : List Char) (values : AVList) :
    scanHdrValue t key word values = (typedValue t key word).map (setAll values (targets key)) := by
  unfold scanHdrValue typedValue targets
  have hint : key ∈ intKeys → ¬(key = NODATA ∨ key = NODATA_VALUE) ∧ key ≠ CELLSIZE := by
    intro h
    refine ⟨?_, ?_⟩
    · rintro (rfl | rfl) <;> exact absurd h (by decide)
    · rintro rfl
      exact absurd h (by decide)
  have hdouble : key ∈ doubleKeys → key ≠ CELLSIZE := by
    rintro h rfl
    exact absurd h (by decide)
  by_cases h1 : key ∈ intKeys
  · rw [if_pos h1, if_pos h1, if_neg (hint h1).1, if_neg (hint h1).2, Option.map_map]
    simp only [setValue_header]
    rfl
  · rw [if_neg h1, if_neg h1]
    by_cases h2 : key = NODATA ∨ key = NODATA_VALUE
    · rw [if_pos h2, if_pos h2, if_pos (h2.elim .inl fun h => .inr (.inl h)), Option.map_map]
      simp only [setValue_header, setAll_setAll]
      rfl
    · rw [if_neg h2, if_neg h2]
      by_cases h3 : key ∈ doubleKeys
      · have hnumber : key = NODATA ∨ key = NODATA_VALUE ∨ key ∈ doubleKeys ∨ key = CELLSIZE := .inr (.inr (.inl h3))
        rw [if_pos h3, if_pos hnumber, if_neg (hdouble h3), Option.map_map]
        simp only [setValue_header]
        rfl
      · rw [if_neg h3]
        by_cases h4 : key = CELLSIZE
        · have hnumber : key = NODATA ∨ key = NODATA_VALUE ∨ key ∈ doubleKeys ∨ key = CELLSIZE :=
              .inr (.inr (.inr h4))
          rw [if_pos h4, if_pos hnumber, if_pos h4, Option.map_map]
          simp only [setValue_header, setAll_setAll]
          rfl
        · have hother : ¬(key = NODATA ∨ key = NODATA_VALUE ∨ key ∈ doubleKeys ∨ key = CELLSIZE) := by
            rintro (h | h | h | h)
            · exact h2 (.inl h)
            · exact h2 (.inr h)
            · exact h3 h
            · exact h4 h
          rw [if_neg h4, if_neg h4, if_neg hother, setValue_header]
          rfl

/-! ## All lines -/

/-- The lines of a header, without what is guessed at its end. -/
def scanLines (lines : List Line) (values : AVList) : Option AVList :=
  lines.foldlM (fun values line => scanHdrValue t (toUpperCase line.1) line.2 values) values

theorem scanHdr_lines (lines : List Line) (values : AVList) :
    scanHdr t (lines.flatMap fun line => [line.1, line.2]) values = (scanLines t lines values).bind guessBits := by
  induction lines generalizing values with
  | nil => rfl
  | cons line lines ih =>
    rw [List.flatMap_cons, List.cons_append, List.cons_append, List.nil_append, scanHdr, scanLines, List.foldlM_cons]
    cases scanHdrValue t (toUpperCase line.1) line.2 values with
    | none => rfl
    | some values => exact ih values

/-- The word of a line can be read as its key asks for. -/
def Readable (line : Line) : Prop := (typedValue t (toUpperCase line.1) line.2).isSome

theorem scanLines_isSome (lines : List Line) (values : AVList) :
    (scanLines t lines values).isSome ↔ ∀ line ∈ lines, Readable t line := by
  induction lines generalizing values with
  | nil => simp [scanLines]
  | cons line lines ih =>
    rw [scanLines, List.foldlM_cons, scanHdrValue_eq, List.forall_mem_cons, Readable]
    cases typedValue t (toUpperCase line.1) line.2 with
    | none => simp
    | some value =>
      rw [Option.map_some, ← ih (setAll values (targets (toUpperCase line.1)) value)]
      simp [scanLines]

/-- A line writes a key. -/
def Writes (name : List Char) (line : Line) : Prop := name ∈ targets (toUpperCase line.1)

instance (name : List Char) : DecidablePred (Writes name) := fun _ => inferInstanceAs (Decidable (_ ∈ _))

variable {t} {lines : List Line} {values values' : AVList} {name : List Char} {line : Line}

theorem scan_cons (h : scanLines t (line :: lines) values = some values') :
    ∃ value, typedValue t (toUpperCase line.1) line.2 = some value ∧
      scanLines t lines (setAll values (targets (toUpperCase line.1)) value) = some values' := by
  rw [scanLines, List.foldlM_cons, scanHdrValue_eq] at h
  cases hvalue : typedValue t (toUpperCase line.1) line.2 with
  | none =>
    rw [hvalue] at h
    cases h
  | some value =>
    rw [hvalue] at h
    exact ⟨value, rfl, h⟩

theorem scan_unwritten (h : scanLines t lines values = some values') (hno : ∀ line ∈ lines, ¬Writes name line) :
    values' (.header name) = values (.header name) := by
  induction lines generalizing values with
  | nil => rw [Option.some.inj h]
  | cons line lines ih =>
    obtain ⟨value, -, hrest⟩ := scan_cons h
    rw [ih hrest fun l hl => hno l (List.mem_cons_of_mem _ hl)]
    exact if_neg (hno line List.mem_cons_self)

/-- Other values than those of a header stay. -/
theorem scan_other {key : Key} (h : scanLines t lines values = some values') (hkey : ∀ name, key ≠ .header name) :
    values' key = values key := by
  induction lines generalizing values with
  | nil => rw [Option.some.inj h]
  | cons line lines ih =>
    obtain ⟨value, -, hrest⟩ := scan_cons h
    rw [ih hrest]
    cases key with
    | header name => exact absurd rfl (hkey name)
    | _ => rfl

/-- The only line that writes a key gives its value. -/
theorem scan_once (h : scanLines t lines values = some values') (honce : lines.filter (Writes name) = [line]) :
    values' (.header name) = typedValue t (toUpperCase line.1) line.2 := by
  induction lines generalizing values with
  | nil => cases honce
  | cons l lines ih =>
    obtain ⟨value, hvalue, hrest⟩ := scan_cons h
    by_cases hw : Writes name l
    · rw [List.filter_cons_of_pos (by simpa using hw), List.cons.injEq] at honce
      obtain ⟨rfl, hnone⟩ := honce
      rw [scan_unwritten hrest fun k hk => by simpa using List.filter_eq_nil_iff.1 hnone k hk, hvalue]
      exact if_pos hw
    · rw [List.filter_cons_of_neg (by simpa using hw)] at honce
      exact ih hrest honce

/-! ## Grids and their headers -/

/-- A grid of cells inside the limits of latitudes and longitudes. -/
structure HeaderGrid where
  rows : Int
  cols : Int
  xDim : ℚ
  yDim : ℚ
  west : ℚ
  south : ℚ
  rows_pos : 0 < rows
  cols_pos : 0 < cols
  xDim_pos : 0 < xDim
  yDim_pos : 0 < yDim
  west_le : -180 ≤ west
  le_east : west + cols * xDim ≤ 180
  south_le : -90 ≤ south
  le_north : south + rows * yDim ≤ 90

/-- The sector that the cells cover. -/
def HeaderGrid.sector (grid : HeaderGrid) : Sector :=
  .fromDegrees grid.south (grid.south + grid.rows * grid.yDim) grid.west (grid.west + grid.cols * grid.xDim)

/-- The three forms of an origin: the lower left corner, the centre of the lower left cell and that of the upper left
one. -/
inductive Origin where
  | llCorner
  | llCenter
  | ulMap
  deriving DecidableEq

namespace Origin

def xKey : Origin → List Char
  | llCorner => XLLCORNER
  | llCenter => XLLCENTER
  | ulMap => ULXMAP

def yKey : Origin → List Char
  | llCorner => YLLCORNER
  | llCenter => YLLCENTER
  | ulMap => ULYMAP

def x (grid : HeaderGrid) : Origin → ℚ
  | llCorner => grid.west
  | llCenter | ulMap => grid.west + grid.xDim / 2

def y (grid : HeaderGrid) : Origin → ℚ
  | llCorner => grid.south
  | llCenter => grid.south + grid.yDim / 2
  | ulMap => grid.south + grid.rows * grid.yDim - grid.yDim / 2

end Origin

/-- The words that lines give for a key, whatever its case. -/
def words (lines : List Line) (key : List Char) : List (List Char) :=
  (lines.filter fun line => toUpperCase line.1 = key).map Prod.snd

variable (t) in
/-- The lines describe a grid with one of the origins, among any further lines with other keys. -/
structure IsHeader (grid : HeaderGrid) (origin : Origin) (lines : List Line) : Prop where
  nrows : ∃ word, words lines NROWS = [word] ∧ nextInt word = some grid.rows
  ncols : ∃ word, words lines NCOLS = [word] ∧ nextInt word = some grid.cols
  cell : (∃ word size, words lines CELLSIZE = [word] ∧ words lines XDIM = [] ∧ words lines YDIM = [] ∧
      t.nextDouble word = some size ∧ |size| = grid.xDim ∧ |size| = grid.yDim) ∨
    ∃ wordX wordY sizeX sizeY, words lines CELLSIZE = [] ∧ words lines XDIM = [wordX] ∧ words lines YDIM = [wordY] ∧
      t.nextDouble wordX = some sizeX ∧ t.nextDouble wordY = some sizeY ∧ |sizeX| = grid.xDim ∧ |sizeY| = grid.yDim
  x : ∃ word, words lines origin.xKey = [word] ∧ t.nextDouble word = some (origin.x grid)
  y : ∃ word, words lines origin.yKey = [word] ∧ t.nextDouble word = some (origin.y grid)
  others : ∀ o, o ≠ origin → words lines o.xKey = [] ∧ words lines o.yKey = []

theorem words_nil {key : List Char} (h : words lines key = []) : ∀ line ∈ lines, toUpperCase line.1 ≠ key := by
  intro line hl hkey
  have hmem : line ∈ lines.filter fun line => toUpperCase line.1 = key := List.mem_filter.2 ⟨hl, decide_eq_true hkey⟩
  rw [List.map_eq_nil_iff.1 h] at hmem
  cases hmem

/-- The value of a name that the lines of one key write, and there is one such line. -/
theorem scan_words {key word : List Char} (h : scanLines t lines values = some values')
    (hwrites : ∀ line ∈ lines, Writes name line ↔ toUpperCase line.1 = key) (hwords : words lines key = [word]) :
    values' (.header name) = typedValue t key word := by
  have hfilter : lines.filter (Writes name) = lines.filter fun line => toUpperCase line.1 = key :=
    List.filter_congr fun line hl => by simpa using hwrites line hl
  obtain ⟨line, hline, hword⟩ := List.map_eq_singleton_iff.1 hwords
  have hkey : toUpperCase line.1 = key := by
    have hmem : line ∈ lines.filter fun line => toUpperCase line.1 = key := by
      rw [hline]
      exact List.mem_singleton_self line
    simpa using (List.mem_filter.1 hmem).2
  rw [scan_once h (hfilter.trans hline), hkey, hword]

/-- Only its own lines write a key that is none of the three that others write. -/
theorem writes_iff (h : name ∉ [NODATA, XDIM, YDIM]) (line : Line) :
    Writes name line ↔ toUpperCase line.1 = name := by
  simp only [List.mem_cons, List.not_mem_nil, or_false, not_or] at h
  rw [Writes, targets]
  split
  · simp only [List.mem_cons, List.not_mem_nil, or_false, h.1]
    exact eq_comm
  · split
    · simp only [List.mem_cons, List.not_mem_nil, or_false, h.2.1, h.2.2]
      exact eq_comm
    · rw [List.mem_singleton]
      exact eq_comm

theorem writes_dim (h : name = XDIM ∨ name = YDIM) (line : Line) :
    Writes name line ↔ toUpperCase line.1 = name ∨ toUpperCase line.1 = CELLSIZE := by
  have hne : name ≠ NODATA := by rcases h with rfl | rfl <;> decide
  have hcell : name ≠ CELLSIZE := by rcases h with rfl | rfl <;> decide
  rw [Writes, targets]
  split
  · rename_i hkey
    have hkey' : toUpperCase line.1 ≠ CELLSIZE := by rcases hkey with hk | hk <;> rw [hk] <;> decide
    simp only [List.mem_cons, List.not_mem_nil, or_false, hne, hkey']
    exact eq_comm
  · split
    · rename_i hkey
      rw [hkey]
      rcases h with rfl | rfl <;> simp
    · rename_i hkey
      simp only [List.mem_singleton, hkey, or_false]
      exact eq_comm

/-! ## The values of a header -/

/-- The values that the sector is made from. -/
structure GridValues (grid : HeaderGrid) (values : AVList) : Prop where
  nrows : values (.header NROWS) = some (.int grid.rows)
  ncols : values (.header NCOLS) = some (.int grid.cols)
  dims : ∃ sizeX sizeY, values (.header XDIM) = some (.double sizeX) ∧ values (.header YDIM) = some (.double sizeY) ∧
    |sizeX| = grid.xDim ∧ |sizeY| = grid.yDim

theorem typedValue_int {key word : List Char} {n : Int} (hkey : key ∈ intKeys) (h : nextInt word = some n) :
    typedValue t key word = some (.int n) := by
  rw [typedValue, if_pos hkey, h]
  rfl

theorem typedValue_double {key word : List Char} {x : ℚ} (hkey : key ∈ doubleKeys ∨ key = CELLSIZE)
    (h : t.nextDouble word = some x) : typedValue t key word = some (.double x) := by
  have hint : key ∉ intKeys := by
    rcases hkey with hkey | rfl
    · intro hint
      simp only [doubleKeys, List.mem_cons, List.not_mem_nil, or_false] at hkey
      rcases hkey with rfl | rfl | rfl | rfl | rfl | rfl | rfl | rfl <;> exact absurd hint (by decide)
    · decide
  rw [typedValue, if_neg hint, if_pos (.inr (.inr hkey)), h]
  rfl

theorem IsHeader.gridValues {grid : HeaderGrid} {origin : Origin} (hheader : IsHeader t grid origin lines)
    (h : scanLines t lines values = some values') : GridValues grid values' := by
  obtain ⟨rowsWord, hrows, hrows'⟩ := hheader.nrows
  obtain ⟨colsWord, hcols, hcols'⟩ := hheader.ncols
  refine ⟨?_, ?_, ?_⟩
  · rw [scan_words h (fun line _ => writes_iff (by decide) line) hrows, typedValue_int (by decide) hrows']
  · rw [scan_words h (fun line _ => writes_iff (by decide) line) hcols, typedValue_int (by decide) hcols']
  · rcases hheader.cell with ⟨word, size, hcell, hx, hy, hsize, hxDim, hyDim⟩ |
      ⟨wordX, wordY, sizeX, sizeY, hcell, hx, hy, hsizeX, hsizeY, hxDim, hyDim⟩
    · refine ⟨size, size, ?_, ?_, hxDim, hyDim⟩
      · rw [scan_words h (fun line hl => by rw [writes_dim (.inl rfl)]; simp [words_nil hx line hl]) hcell,
          typedValue_double (.inr rfl) hsize]
      · rw [scan_words h (fun line hl => by rw [writes_dim (.inr rfl)]; simp [words_nil hy line hl]) hcell,
          typedValue_double (.inr rfl) hsize]
    · refine ⟨sizeX, sizeY, ?_, ?_, hxDim, hyDim⟩
      · rw [scan_words h (fun line hl => by rw [writes_dim (.inl rfl)]; simp [words_nil hcell line hl]) hx,
          typedValue_double (.inl (by decide)) hsizeX]
      · rw [scan_words h (fun line hl => by rw [writes_dim (.inr rfl)]; simp [words_nil hcell line hl]) hy,
          typedValue_double (.inl (by decide)) hsizeY]

theorem Origin.key_not_mem (o : Origin) : o.xKey ∉ [NODATA, XDIM, YDIM] ∧ o.yKey ∉ [NODATA, XDIM, YDIM] := by
  cases o <;> decide

/-- The origins that are not given have no values. -/
theorem IsHeader.other_origin {grid : HeaderGrid} {origin o : Origin} (hheader : IsHeader t grid origin lines)
    (h : scanLines t lines values = some values') (ho : o ≠ origin) :
    values' (.header o.xKey) = values (.header o.xKey) ∧ values' (.header o.yKey) = values (.header o.yKey) := by
  obtain ⟨hx, hy⟩ := hheader.others o ho
  constructor
  · refine scan_unwritten h fun line hl => ?_
    rw [writes_iff o.key_not_mem.1]
    exact words_nil hx line hl
  · refine scan_unwritten h fun line hl => ?_
    rw [writes_iff o.key_not_mem.2]
    exact words_nil hy line hl

/-- The end of the scan keeps all values but two. -/
theorem guessBits_spec {grid : HeaderGrid} (hgrid : GridValues grid values)
    (hsize : ∀ value, values .FILE_SIZE = some value → ∃ n, value = .int n) :
    ∃ values', guessBits values = some values' ∧
      ∀ name, name ≠ NBANDS → name ≠ NBITS → values' (.header name) = values (.header name) := by
  have hset : ∀ a b, ∀ name, name ≠ NBANDS → name ≠ NBITS →
      (values.setValue (.header NBANDS) a).setValue (.header NBITS) b (.header name) = values (.header name) := by
    intro a b name h1 h2
    simp [AVList.setValue, h1, h2]
  rw [guessBits]
  split
  · split
    · rename_i h
      obtain ⟨value, hvalue⟩ := Option.isSome_iff_exists.1 h.1
      obtain ⟨n, rfl⟩ := hsize value hvalue
      simp only [AVList.getInt, hgrid.nrows, hgrid.ncols, hvalue, Option.bind_some]
      refine ⟨_, rfl, ?_⟩
      beta_reduce
      split
      · exact hset _ _
      · split
        · exact hset _ _
        · exact fun _ _ _ => rfl
    · exact ⟨values, rfl, fun _ _ _ => rfl⟩
  · exact ⟨values, rfl, fun _ _ _ => rfl⟩

/-! ## The sector -/

theorem fromDegreesLongitude_of_mem {x : ℚ} (h : -180 ≤ x) (h' : x ≤ 180) :
    (Angle.fromDegreesLongitude x).degrees = x := by
  simp only [Angle.fromDegreesLongitude, if_neg (not_lt.2 h), gt_iff_lt, if_neg (not_lt.2 h')]

theorem fromDegreesLatitude_of_mem {x : ℚ} (h : -90 ≤ x) (h' : x ≤ 90) :
    (Angle.fromDegreesLatitude x).degrees = x := by
  simp only [Angle.fromDegreesLatitude, if_neg (not_lt.2 h), gt_iff_lt, if_neg (not_lt.2 h')]

theorem corner_of_none {x y : List Char} (h : values (.header x) = none) : corner values x y = some false := by
  rw [corner, if_neg]
  simp [AVList.hasKey, h]

theorem corner_of_some {x y : List Char} {lon lat : ℚ} (hx : values (.header x) = some (.double lon))
    (hy : values (.header y) = some (.double lat)) (hlon : -180 ≤ lon ∧ lon ≤ 180) (hlat : -90 ≤ lat ∧ lat ≤ 90) :
    corner values x y = some true := by
  simp [corner, AVList.hasKey, AVList.getDouble, hx, hy, Angle.isValidLongitude, Angle.isValidLatitude, hlon, hlat]

/-- The edges of the grid, one cell at least apart. -/
theorem HeaderGrid.edges (grid : HeaderGrid) :
    grid.west + grid.xDim ≤ grid.west + grid.cols * grid.xDim ∧
      grid.south + grid.yDim ≤ grid.south + grid.rows * grid.yDim := by
  have hcols : (1 : ℚ) ≤ grid.cols := by exact_mod_cast grid.cols_pos
  have hrows : (1 : ℚ) ≤ grid.rows := by exact_mod_cast grid.rows_pos
  have hx := mul_le_mul_of_nonneg_right hcols grid.xDim_pos.le
  have hy := mul_le_mul_of_nonneg_right hrows grid.yDim_pos.le
  constructor <;> linarith

/-- The places that the origins name are in the limits. -/
theorem HeaderGrid.origin_mem (grid : HeaderGrid) (origin : Origin) :
    (-180 ≤ origin.x grid ∧ origin.x grid ≤ 180) ∧ -90 ≤ origin.y grid ∧ origin.y grid ≤ 90 := by
  obtain ⟨hx, hy⟩ := grid.edges
  have h1 := grid.xDim_pos
  have h2 := grid.yDim_pos
  have h3 := grid.west_le
  have h4 := grid.le_east
  have h5 := grid.south_le
  have h6 := grid.le_north
  cases origin <;> simp only [Origin.x, Origin.y] <;> refine ⟨⟨?_, ?_⟩, ?_, ?_⟩ <;> linarith

theorem GridValues.hasKeys {grid : HeaderGrid} (h : GridValues grid values) :
    values.hasKey (.header NROWS) ∧ values.hasKey (.header NCOLS) ∧ values.hasKey (.header XDIM) ∧
      values.hasKey (.header YDIM) := by
  obtain ⟨hrows, hcols, sizeX, sizeY, hx, hy, -⟩ := h
  simp [AVList.hasKey, hrows, hcols, hx, hy]

theorem extract_llCorner {grid : HeaderGrid} (hgrid : GridValues grid values)
    (hx : values (.header XLLCORNER) = some (.double (Origin.llCorner.x grid)))
    (hy : values (.header YLLCORNER) = some (.double (Origin.llCorner.y grid))) :
    extractSectorFromHeader values = some (some grid.sector) := by
  obtain ⟨hlon, hlat⟩ := grid.origin_mem .llCorner
  have hcorner := corner_of_some hx hy hlon hlat
  obtain ⟨hex, hey⟩ := grid.edges
  have h1 := grid.xDim_pos
  have h2 := grid.yDim_pos
  obtain ⟨hrows, hcols, sizeX, sizeY, hsx, hsy, hxDim, hyDim⟩ := hgrid
  rw [extractSectorFromHeader, if_pos (GridValues.hasKeys ⟨hrows, hcols, sizeX, sizeY, hsx, hsy, hxDim, hyDim⟩)]
  simp only [AVList.getInt, AVList.getDouble, hrows, hcols, hsx, hsy, hxDim, hyDim, hcorner, hx, hy, Option.bind_some,
    Option.map_some, if_pos]
  rw [fromDegreesLongitude_of_mem hlon.1 hlon.2, fromDegreesLatitude_of_mem hlat.1 hlat.2]
  simp only [Origin.x, Origin.y] at hlon hlat ⊢
  rw [fromDegreesLongitude_of_mem (by linarith) grid.le_east, fromDegreesLatitude_of_mem (by linarith) grid.le_north]
  rfl

theorem extract_ulMap {grid : HeaderGrid} (hgrid : GridValues grid values)
    (hx : values (.header ULXMAP) = some (.double (Origin.ulMap.x grid)))
    (hy : values (.header ULYMAP) = some (.double (Origin.ulMap.y grid)))
    (hcorner : values (.header XLLCORNER) = none)
    (hcenter : values (.header XLLCENTER) = none) : extractSectorFromHeader values = some (some grid.sector) := by
  obtain ⟨hlon, hlat⟩ := grid.origin_mem .ulMap
  have hmap := corner_of_some hx hy hlon hlat
  obtain ⟨hex, hey⟩ := grid.edges
  have h1 := grid.xDim_pos
  have h2 := grid.yDim_pos
  have h3 := grid.west_le
  have h4 := grid.le_east
  have h5 := grid.south_le
  have h6 := grid.le_north
  have hwest : Origin.ulMap.x grid - grid.xDim / 2 = grid.west := by
    simp only [Origin.x]
    ring
  have hnorth : Origin.ulMap.y grid + grid.yDim / 2 = grid.south + grid.rows * grid.yDim := by
    simp only [Origin.y]
    ring
  obtain ⟨hrows, hcols, sizeX, sizeY, hsx, hsy, hxDim, hyDim⟩ := hgrid
  rw [extractSectorFromHeader, if_pos (GridValues.hasKeys ⟨hrows, hcols, sizeX, sizeY, hsx, hsy, hxDim, hyDim⟩)]
  simp only [AVList.getInt, AVList.getDouble, hrows, hcols, hsx, hsy, hxDim, hyDim, corner_of_none hcorner,
    corner_of_none hcenter, hmap, hx, hy, Option.bind_some, Option.map_some, if_pos, Bool.false_eq_true, if_false]
  rw [hwest, hnorth, fromDegreesLongitude_of_mem h3 (by linarith), fromDegreesLatitude_of_mem (by linarith) h6,
    fromDegreesLongitude_of_mem (by linarith) h4, add_sub_cancel_right, fromDegreesLatitude_of_mem h5 (by linarith)]
  rfl

/-- The centre of the lower left cell has no latitude: its key is not among those that are read as numbers. -/
theorem extract_llCenter {word : List Char} {sector : Sector} (hcorner : values (.header XLLCORNER) = none)
    (hmap : values (.header ULXMAP) = none) (hlat : values (.header YLLCENTER) = some (.string word)) :
    extractSectorFromHeader values ≠ some (some sector) := by
  rw [extractSectorFromHeader]
  by_cases hkeys : values.hasKey (.header NROWS) ∧ values.hasKey (.header NCOLS) ∧ values.hasKey (.header XDIM) ∧
    values.hasKey (.header YDIM)
  · rw [if_pos hkeys]
    intro h
    obtain ⟨nCols, -, h⟩ := Option.bind_eq_some_iff.1 h
    obtain ⟨nRows, -, h⟩ := Option.bind_eq_some_iff.1 h
    obtain ⟨x, -, h⟩ := Option.bind_eq_some_iff.1 h
    obtain ⟨y, -, h⟩ := Option.bind_eq_some_iff.1 h
    rw [corner_of_none hcorner, Option.bind_some, if_neg Bool.false_ne_true] at h
    obtain ⟨center, -, h⟩ := Option.bind_eq_some_iff.1 h
    cases center with
    | true =>
      rw [if_pos rfl, AVList.getDouble, AVList.getDouble, hlat] at h
      obtain ⟨lon, -, h⟩ := Option.bind_eq_some_iff.1 h
      cases h
    | false =>
      rw [if_neg Bool.false_ne_true, corner_of_none hmap, Option.bind_some, if_neg Bool.false_ne_true] at h
      cases h
  · rw [if_neg hkeys]
    exact fun h => by cases h

/-- Two rows of three cells of two degrees, from 10 degrees east and 20 degrees north. -/
def twoRows : HeaderGrid where
  rows := 2
  cols := 3
  xDim := 2
  yDim := 2
  west := 10
  south := 20
  rows_pos := by norm_num
  cols_pos := by norm_num
  xDim_pos := by norm_num
  yDim_pos := by norm_num
  west_le := by norm_num
  le_east := by norm_num
  south_le := by norm_num
  le_north := by norm_num

def twoRowsLines : List Line :=
  [("ncols".toList, "3".toList), ("nrows".toList, "2".toList), ("xllcorner".toList, "10".toList),
    ("yllcorner".toList, "20".toList), ("cellsize".toList, "2".toList), ("projection".toList, "none".toList)]

end WorldWind.Bil
