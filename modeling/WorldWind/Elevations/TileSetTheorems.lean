import WorldWind.Elevations.TileSet
/-!
# The tiles of a sector

The set has the nearest tile in memory for each tile of the target level, and
lists the finest first, so a location inside a tile of the target level finds its
nearest tile. A tile that the loop comes to again is only held once if the search
of the tree finds it. At level zero a missing tile is not noticed.
-/

namespace WorldWind.TileSet

open Geom Lib.TreeSet

variable {D : Type*} (levelSet : LevelSet) (caches : Caches D)

/-! ## What is to hold -/

/-- The key of the tile of a coarser level that a tile lies in. -/
def ancestor (key : TileKey) (level : Nat) : TileKey :=
  ⟨level, key.row / 2 ^ (key.level - level), key.column / 2 ^ (key.level - level)⟩

/-- The nearest tile in memory: the tile itself, or the finest of its ancestors. -/
def nearest (key : TileKey) : Option (ElevationTile D) :=
  (List.range (key.level + 1)).reverse.findSome? fun level => getTileFromMemory levelSet caches (ancestor key level)

/-- The location is in the tile, and not on its edge. -/
def Interior (key : TileKey) (latitude longitude : Angle) : Prop :=
  ∃ level sector, levelSet.levels[key.level]? = some level ∧ tileSector levelSet key level = some sector ∧
    sector.minLatitude.degrees < latitude.degrees ∧ latitude.degrees < sector.maxLatitude.degrees ∧
    sector.minLongitude.degrees < longitude.degrees ∧ longitude.degrees < sector.maxLongitude.degrees

/-- The elevations are those of the tiles of the target level, or of the nearest tiles there are. -/
structure Right (keys : List TileKey) (elevations : Elevations D) : Prop where
  once : elevations.tiles.toList.Nodup
  finestFirst : elevations.tiles.toList.Pairwise fun t u => u.levelNumber ≤ t.levelNumber
  uses : ∀ key ∈ keys, ∀ latitude longitude, Interior levelSet key latitude longitude →
    ∀ (E : Type) (lookupElevation : Angle → Angle → ElevationTile D → Option E),
      elevations.getElevation lookupElevation latitude longitude =
        (nearest levelSet caches key).bind (lookupElevation latitude longitude)
  missing : (∃ key ∈ keys, nearest levelSet caches key = none) → elevations.achievedResolution = none
  coarsest : keys ≠ [] → (∀ key ∈ keys, nearest levelSet caches key ≠ none) → ∃ tile ∈ elevations.tiles.toList,
    (∀ u ∈ elevations.tiles.toList, tile.levelNumber ≤ u.levelNumber) ∧
      elevations.achievedResolution = some tile.level.texelSize

/-- The nearest tiles in the order of the loop. -/
def nearestTiles (keys : List TileKey) : List (ElevationTile D) := keys.filterMap (nearest levelSet caches)

/-- At level zero, some tiles are in memory and others are not. -/
def PartOfLevelZero (targetLevelNumber : Nat) (keys : List TileKey) : Prop :=
  targetLevelNumber = 0 ∧ (∃ key ∈ keys, nearest levelSet caches key = none) ∧
    ∃ key ∈ keys, nearest levelSet caches key ≠ none

/-! ## Halving -/

variable {levelSet caches}

theorem findSome_congr {α β : Type*} {f g : α → Option β} {l : List α} (h : ∀ a ∈ l, f a = g a) :
    l.findSome? f = l.findSome? g := by
  induction l with
  | nil => rfl
  | cons a l ih =>
    rw [List.findSome?_cons, List.findSome?_cons, h a List.mem_cons_self,
      ih fun b hb => h b (List.mem_cons_of_mem a hb)]

theorem fallback_tile {row column : Int} (hrow : 0 ≤ row) (hcolumn : 0 ≤ column) (n : Nat)
    (request : Option TileKey) : (fallback levelSet caches n row column request).tile =
      (List.range n).reverse.findSome? fun level =>
        getTileFromMemory levelSet caches ⟨level, row / 2 ^ (n - level), column / 2 ^ (n - level)⟩ := by
  induction n generalizing row column request with
  | zero => rfl
  | succ n ih =>
    have hr : row.tdiv 2 = row / 2 := Int.tdiv_eq_ediv_of_nonneg hrow
    have hc : column.tdiv 2 = column / 2 := Int.tdiv_eq_ediv_of_nonneg hcolumn
    have hrest : ∀ request, (fallback levelSet caches n (row / 2) (column / 2) request).tile =
        (List.range n).reverse.findSome? fun level =>
          getTileFromMemory levelSet caches ⟨level, row / 2 ^ (n + 1 - level), column / 2 ^ (n + 1 - level)⟩ := by
      intro request
      rw [ih (by omega) (by omega)]
      refine findSome_congr fun level hlevel => ?_
      have hlt : level < n := by simpa using hlevel
      rw [Int.ediv_ediv_of_nonneg (by norm_num), Int.ediv_ediv_of_nonneg (by norm_num), ← pow_succ',
        show n + 1 - level = n - level + 1 by omega]
    rw [List.range_succ, List.reverse_append, List.reverse_singleton, List.singleton_append, List.findSome?_cons,
      Nat.add_sub_cancel_left, pow_one, fallback, hr, hc]
    rcases getTileFromMemory levelSet caches ⟨n, row / 2, column / 2⟩ with _ | tile
    · simp only
      split
      · rename_i hn
        subst hn
        rfl
      · exact hrest _
    · rfl

theorem fallback_missing (n : Nat) (row column : Int) (request : Option TileKey) :
    (fallback levelSet caches n row column request).missingLevelZeroTile = true ↔
      n ≠ 0 ∧ (fallback levelSet caches n row column request).tile = none := by
  induction n generalizing row column request with
  | zero => simp [fallback]
  | succ n ih =>
    rw [fallback]
    rcases getTileFromMemory levelSet caches ⟨n, row.tdiv 2, column.tdiv 2⟩ with _ | tile
    · simp only
      split
      · simp
      · rename_i hn
        rw [ih]
        simp [hn]
    · simp

theorem nearest_eq {key : TileKey} (hrow : 0 ≤ key.row) (hcolumn : 0 ≤ key.column) :
    nearest levelSet caches key = match getTileFromMemory levelSet caches key with
      | some tile => some tile
      | none => (fallback levelSet caches key.level key.row key.column none).tile := by
  have hself : ancestor key key.level = key := by
    rw [ancestor, Nat.sub_self, pow_zero, Int.ediv_one, Int.ediv_one]
  rw [nearest, List.range_succ, List.reverse_append, List.reverse_singleton, List.singleton_append,
    List.findSome?_cons, hself, fallback_tile hrow hcolumn]
  cases getTileFromMemory levelSet caches key <;> rfl

/-! ## Sectors -/

theorem tileSector_eq {key : TileKey} {level : Level} {sector : Sector}
    (h : tileSector levelSet key level = some sector) :
    sector.minLatitude.degrees = levelSet.tileOrigin.latitude.degrees + key.row * level.tileDelta.latitude.degrees ∧
      sector.maxLatitude.degrees = sector.minLatitude.degrees + level.tileDelta.latitude.degrees ∧
      sector.minLongitude.degrees =
        levelSet.tileOrigin.longitude.degrees + key.column * level.tileDelta.longitude.degrees ∧
      sector.maxLongitude.degrees = sector.minLongitude.degrees + level.tileDelta.longitude.degrees := by
  obtain ⟨minLatitude, hlatitude, h⟩ := Option.bind_eq_some_iff.1 h
  obtain ⟨minLongitude, hlongitude, rfl⟩ := Option.map_eq_some_iff.1 h
  rw [RasterProducer.computeRowLatitude] at hlatitude
  rw [RasterProducer.computeColumnLongitude] at hlongitude
  split_ifs at hlatitude hlongitude
  obtain rfl := Option.some_inj.1 hlatitude
  obtain rfl := Option.some_inj.1 hlongitude
  exact ⟨rfl, rfl, rfl, rfl⟩

theorem getTileFromMemory_eq {key : TileKey} {tile : ElevationTile D}
    (h : getTileFromMemory levelSet caches key = some tile) : tile.key = key ∧
      levelSet.levels[key.level]? = some tile.level ∧ tileSector levelSet key tile.level = some tile.sector := by
  obtain ⟨elevations, -, h⟩ := Option.bind_eq_some_iff.1 h
  obtain ⟨level, hlevel, h⟩ := Option.bind_eq_some_iff.1 h
  obtain ⟨sector, hsector, rfl⟩ := Option.map_eq_some_iff.1 h
  exact ⟨rfl, hlevel, hsector⟩

/-- A tile in memory is the only one with its key. -/
theorem eq_of_key_eq {key key' : TileKey} {tile tile' : ElevationTile D}
    (h : getTileFromMemory levelSet caches key = some tile) (h' : getTileFromMemory levelSet caches key' = some tile')
    (hkey : tile.key = tile'.key) : tile = tile' := by
  rw [(getTileFromMemory_eq h).1, (getTileFromMemory_eq h').1] at hkey
  subst hkey
  exact Option.some_inj.1 (h.symm.trans h')

theorem delta_pow {level level' : Level} {i : Nat} (m : Nat) (h : levelSet.levels[i]? = some level)
    (h' : levelSet.levels[i + m]? = some level') :
    level.tileDelta.latitude.degrees = 2 ^ m * level'.tileDelta.latitude.degrees ∧
      level.tileDelta.longitude.degrees = 2 ^ m * level'.tileDelta.longitude.degrees := by
  induction m generalizing level' with
  | zero =>
    obtain rfl := Option.some_inj.1 (h.symm.trans h')
    simp
  | succ m ih =>
    have hlen : i + m < levelSet.levels.length := by
      have := (List.getElem?_eq_some_iff.1 h').1
      omega
    obtain ⟨middle, hmiddle⟩ : ∃ middle, levelSet.levels[i + m]? = some middle := ⟨_, List.getElem?_eq_getElem hlen⟩
    obtain ⟨h1, h2⟩ := ih hmiddle
    obtain ⟨h3, h4⟩ := levelSet.halves _ _ _ hmiddle h'
    rw [h1, h2, h3, h4, pow_succ]
    constructor <;> ring

section

variable {origin x delta : ℚ} {r r' : Int} {m : Nat}

/-- A cell of a grid is in one cell of a coarser grid. -/
theorem coarse_cell_unique (hdelta : 0 < delta) (h1 : origin + r' * (2 ^ m * delta) ≤ x)
    (h2 : x ≤ origin + r' * (2 ^ m * delta) + 2 ^ m * delta) (h3 : origin + r * delta < x)
    (h4 : x < origin + r * delta + delta) : r' = r / 2 ^ m := by
  have h5 : (r' * 2 ^ m : ℚ) < r + 1 := by
    refine lt_of_mul_lt_mul_right ?_ hdelta.le
    linarith
  have h6 : (r : ℚ) < (r' + 1) * 2 ^ m := by
    refine lt_of_mul_lt_mul_right ?_ hdelta.le
    linarith
  have h5 : r' * 2 ^ m < r + 1 := by exact_mod_cast h5
  have h6 : r < (r' + 1) * 2 ^ m := by exact_mod_cast h6
  refine le_antisymm ((Int.le_ediv_iff_mul_le (by positivity)).2 (by omega)) ?_
  have h7 := (Int.ediv_lt_iff_lt_mul (by positivity : (0 : Int) < 2 ^ m)).2 h6
  omega

theorem coarse_cell_contains (hdelta : 0 < delta) (h3 : origin + r * delta < x)
    (h4 : x < origin + r * delta + delta) :
    origin + (r / 2 ^ m : Int) * (2 ^ m * delta) ≤ x ∧
      x ≤ origin + (r / 2 ^ m : Int) * (2 ^ m * delta) + 2 ^ m * delta := by
  have hpow : (0 : Int) < 2 ^ m := by positivity
  have h5 := Int.ediv_mul_le r hpow.ne'
  have h6 := Int.lt_ediv_add_one_mul_self r hpow
  have h5 : (((r / 2 ^ m : Int) * 2 ^ m : ℚ)) ≤ r := by exact_mod_cast h5
  have h6 : ((r : ℚ) + 1) ≤ ((r / 2 ^ m : Int) + 1) * 2 ^ m := by exact_mod_cast h6
  have h7 := mul_le_mul_of_nonneg_right h5 hdelta.le
  have h8 := mul_le_mul_of_nonneg_right h6 hdelta.le
  constructor <;> linarith

end

/-- Of the tiles of one level in memory, the ancestor has the locations inside a tile, and no other one. -/
theorem contains_iff {key key' : TileKey} {tile : ElevationTile D} {latitude longitude : Angle}
    (htile : getTileFromMemory levelSet caches key' = some tile) (hle : key'.level ≤ key.level)
    (hinside : Interior levelSet key latitude longitude) :
    contains tile.sector latitude longitude = true ↔ key' = ancestor key key'.level := by
  obtain ⟨level, sector, hlevel, hsector, h1, h2, h3, h4⟩ := hinside
  obtain ⟨-, hlevel', hsector'⟩ := getTileFromMemory_eq htile
  obtain ⟨e1, e2, e3, e4⟩ := tileSector_eq hsector
  obtain ⟨f1, f2, f3, f4⟩ := tileSector_eq hsector'
  have hadd : key'.level + (key.level - key'.level) = key.level := by omega
  obtain ⟨d1, d2⟩ := delta_pow (key.level - key'.level) hlevel' (hadd.symm ▸ hlevel)
  obtain ⟨p1, p2⟩ := levelSet.delta_pos level (List.mem_of_getElem? hlevel)
  rw [e1] at h1
  rw [e2, e1] at h2
  rw [e3] at h3
  rw [e4, e3] at h4
  rw [contains, decide_eq_true_eq, f2, f1, f4, f3, d1, d2]
  constructor
  · rintro ⟨g1, g2, g3, g4⟩
    have hrow := coarse_cell_unique p1 g1 g2 h1 h2
    have hcolumn := coarse_cell_unique p2 g3 g4 h3 h4
    rw [ancestor, ← hrow, ← hcolumn]
  · intro h
    have hrow : key'.row = key.row / 2 ^ (key.level - key'.level) := congrArg TileKey.row h
    have hcolumn : key'.column = key.column / 2 ^ (key.level - key'.level) := congrArg TileKey.column h
    rw [hrow, hcolumn]
    obtain ⟨g1, g2⟩ := coarse_cell_contains (m := key.level - key'.level) p1 h1 h2
    obtain ⟨g3, g4⟩ := coarse_cell_contains (m := key.level - key'.level) p2 h3 h4
    exact ⟨g1, g2, g3, g4⟩

/-! ## The nearest tile -/

theorem nearest_some {key : TileKey} {tile : ElevationTile D} (h : nearest levelSet caches key = some tile) :
    ∃ level ≤ key.level, getTileFromMemory levelSet caches (ancestor key level) = some tile ∧
      ∀ finer ≤ key.level, level < finer → getTileFromMemory levelSet caches (ancestor key finer) = none := by
  rw [nearest, List.findSome?_eq_some_iff] at h
  obtain ⟨finer, level, coarser, hlist, hlevel, hfiner⟩ := h
  have hmem : ∀ i ∈ finer ++ level :: coarser, i < key.level + 1 := by
    intro i hi
    rw [← hlist] at hi
    simpa using hi
  have hsorted : (finer ++ level :: coarser).Pairwise (· > ·) := by
    rw [← hlist, List.pairwise_reverse]
    exact List.pairwise_lt_range
  rw [List.pairwise_append, List.pairwise_cons] at hsorted
  refine ⟨level, by have := hmem level (by simp); omega, hlevel, ?_⟩
  intro i hi hlt
  have hi' : i ∈ finer ++ level :: coarser := by
    rw [← hlist]
    simpa using Nat.lt_succ_of_le hi
  rcases List.mem_append.1 hi' with hi' | hi'
  · exact hfiner i hi'
  · rcases List.mem_cons.1 hi' with rfl | hi'
    · exact absurd hlt (lt_irrefl _)
    · exact absurd (hsorted.2.1.1 i hi') (by omega)

theorem nearest_none {key : TileKey} (h : nearest levelSet caches key = none) {level : Nat}
    (hle : level ≤ key.level) :
    getTileFromMemory levelSet caches (ancestor key level) = none := by
  rw [nearest, List.findSome?_eq_none_iff] at h
  exact h level (by simpa using Nat.lt_succ_of_le hle)

/-! ## The comparator -/

/-- Finer tiles come first. -/
def rank (tile : ElevationTile D) : Int := -tile.levelNumber

theorem compare_rank (t u : ElevationTile D) : compare t u < 0 ↔ rank t < rank u := by
  rw [compare, rank, rank]
  split
  · rename_i h
    omega
  · split <;> omega

theorem compare_eq_zero (t u : ElevationTile D) : compare t u = 0 ↔ t.key = u.key := by
  rw [compare, ElevationTile.key, ElevationTile.key, TileKey.mk.injEq]
  split
  · rename_i h
    simp [h]
  · rename_i h
    refine iff_of_false ?_ fun h' => h ⟨h'.1.symm, h'.2.1.symm, h'.2.2.symm⟩
    split <;> decide

/-! ## The loop -/

theorem visit_tiles (s : Search D) {key : TileKey} (hrow : 0 ≤ key.row) (hcolumn : 0 ≤ key.column) :
    (visit levelSet caches s key).tiles = match nearest levelSet caches key with
      | some tile => s.tiles.add compare tile
      | none => s.tiles := by
  rw [nearest_eq hrow hcolumn, visit]
  rcases getTileFromMemory levelSet caches key with _ | tile
  · simp only
    rcases (fallback levelSet caches key.level key.row key.column none).fallbackToRequest with _ | request <;>
      rcases (fallback levelSet caches key.level key.row key.column none).tile with _ | tile
    · rfl
    · simp only
      split
      · rw [RedBlackTree.add_of_contains ‹_›]
      · rfl
    · simp only
      split <;> rfl
    · simp only
      split <;> split
      · rw [RedBlackTree.add_of_contains ‹_›]
      · rfl
      · rw [RedBlackTree.add_of_contains ‹_›]
      · rfl
  · rfl

theorem visit_missing (s : Search D) {key : TileKey} (hrow : 0 ≤ key.row) (hcolumn : 0 ≤ key.column) :
    (visit levelSet caches s key).missingLevelZeroTiles = true ↔
      s.missingLevelZeroTiles = true ∨ (key.level ≠ 0 ∧ nearest levelSet caches key = none) := by
  rw [nearest_eq hrow hcolumn, visit]
  rcases getTileFromMemory levelSet caches key with _ | tile
  · simp only
    rw [← fallback_missing key.level key.row key.column none, ← Bool.or_eq_true]
    rcases (fallback levelSet caches key.level key.row key.column none).fallbackToRequest with _ | request
    · rfl
    · simp only
      split <;> rfl
  · simp

/-- Rows and columns of the grid. -/
def InGrid (keys : List TileKey) : Prop := ∀ key ∈ keys, 0 ≤ key.row ∧ 0 ≤ key.column

theorem visit_all (keys : List TileKey) (hgrid : InGrid keys) :
    (keys.foldl (visit levelSet caches) .start).tiles = .ofList compare (nearestTiles levelSet caches keys) := by
  induction keys using List.reverseRecOn with
  | nil => rfl
  | append_singleton keys key ih =>
    obtain ⟨hrow, hcolumn⟩ := hgrid key (by simp)
    have ih := ih fun k hk => hgrid k (List.mem_append_left _ hk)
    rw [List.foldl_append, List.foldl_cons, List.foldl_nil, visit_tiles _ hrow hcolumn, ih]
    simp only [nearestTiles, List.filterMap_append]
    rcases hkey : nearest levelSet caches key with _ | tile
    · simp [hkey]
    · rw [List.filterMap_cons_some hkey, List.filterMap_nil, RedBlackTree.ofList_append]

theorem mem_nearestTiles {keys : List TileKey} {tile : ElevationTile D} :
    tile ∈ nearestTiles levelSet caches keys ↔ ∃ key ∈ keys, nearest levelSet caches key = some tile :=
  List.mem_filterMap

/-- Of the nearest tiles, the comparator only takes a tile and itself for equal. -/
theorem eq_of_compare {keys : List TileKey} : ∀ x ∈ nearestTiles levelSet caches keys,
    ∀ y ∈ nearestTiles levelSet caches keys, compare x y = 0 → x = y := by
  intro x hx y hy hzero
  obtain ⟨key, -, hx⟩ := mem_nearestTiles.1 hx
  obtain ⟨key', -, hy⟩ := mem_nearestTiles.1 hy
  obtain ⟨level, -, hx, -⟩ := nearest_some hx
  obtain ⟨level', -, hy, -⟩ := nearest_some hy
  exact eq_of_key_eq hx hy ((compare_eq_zero _ _).1 hzero)

/-- The tiles of the set. -/
theorem mem_tiles {keys : List TileKey} {tile : ElevationTile D} :
    tile ∈ (RedBlackTree.ofList compare (nearestTiles levelSet caches keys)).toList ↔
      ∃ key ∈ keys, nearest levelSet caches key = some tile :=
  (RedBlackTree.mem_ofList compare_rank eq_of_compare).trans mem_nearestTiles

theorem tiles_sorted (keys : List TileKey) :
    (RedBlackTree.ofList compare (nearestTiles levelSet caches keys)).toList.Pairwise fun t u => rank t ≤ rank u :=
  RedBlackTree.pairwise_ofList compare_rank _

theorem missing_iff {keys : List TileKey} (hgrid : InGrid keys) {target : Nat}
    (hlevel : ∀ key ∈ keys, key.level = target) :
    (keys.foldl (visit levelSet caches) .start).missingLevelZeroTiles = true ↔
      target ≠ 0 ∧ ∃ key ∈ keys, nearest levelSet caches key = none := by
  induction keys using List.reverseRecOn with
  | nil => simp [Search.start]
  | append_singleton keys key ih =>
    obtain ⟨hrow, hcolumn⟩ := hgrid key (by simp)
    rw [List.foldl_append, List.foldl_cons, List.foldl_nil, visit_missing _ hrow hcolumn,
      ih (fun k hk => hgrid k (List.mem_append_left _ hk)) (fun k hk => hlevel k (List.mem_append_left _ hk)),
      hlevel key (by simp)]
    simp only [List.mem_append, List.mem_singleton, or_and_right, exists_or, exists_eq_left]
    exact and_or_left.symm

/-! ## Locations -/

theorem find_of_sorted {α : Type*} {p : α → Bool} {rank : α → Int} {l : List α} {a : α}
    (hsorted : l.Pairwise fun x y => rank x ≤ rank y) (hmem : a ∈ l) (hp : p a = true)
    (hfirst : ∀ b ∈ l, p b = true → rank b ≤ rank a → b = a) : l.find? p = some a := by
  induction l with
  | nil => cases hmem
  | cons b l ih =>
    obtain ⟨hb, hl⟩ := List.pairwise_cons.1 hsorted
    rw [List.find?_cons]
    rcases hpb : p b with _ | _
    · simp only
      have hmem : a ∈ l := (List.mem_cons.1 hmem).resolve_left fun h => by simp [h, hpb] at hp
      exact ih hl hmem fun c hc => hfirst c (List.mem_cons_of_mem b hc)
    · simp only [Option.some_inj]
      rcases List.mem_cons.1 hmem with rfl | hmem
      · rfl
      · exact hfirst b List.mem_cons_self hpb (hb a hmem)

/-- Inside a tile of the target level, the first tile of the set is the nearest one. -/
theorem find_eq_nearest {keys : List TileKey} {target : Nat}
    (hlevel : ∀ key ∈ keys, key.level = target) {key : TileKey} (hkey : key ∈ keys) {latitude longitude : Angle}
    (hinside : Interior levelSet key latitude longitude) :
    (RedBlackTree.ofList compare (nearestTiles levelSet caches keys)).toList.find?
    (fun tile => contains tile.sector latitude longitude) =
      nearest levelSet caches key := by
  have hancestor : ∀ tile ∈ (RedBlackTree.ofList compare (nearestTiles levelSet caches keys)).toList,
      contains tile.sector latitude longitude = true →
      tile.levelNumber ≤ key.level ∧
        getTileFromMemory levelSet caches (ancestor key tile.levelNumber) = some tile := by
    intro tile htile hcontains
    obtain ⟨key', hkey', hnearest⟩ := (mem_tiles).1 htile
    obtain ⟨level, hle, hmemory, -⟩ := nearest_some hnearest
    have hnumber : tile.levelNumber = level := congrArg TileKey.level (getTileFromMemory_eq hmemory).1
    have hle' : level ≤ key.level := by rwa [hlevel key hkey, ← hlevel key' hkey']
    have heq := (contains_iff hmemory hle' hinside).1 hcontains
    rw [hnumber]
    exact ⟨hle', heq ▸ hmemory⟩
  rcases hnearest : nearest levelSet caches key with _ | tile
  · refine List.find?_eq_none.2 fun tile htile hcontains => ?_
    obtain ⟨hle, hmemory⟩ := hancestor tile htile hcontains
    rw [nearest_none hnearest hle] at hmemory
    cases hmemory
  · obtain ⟨level, hle, hmemory, hfiner⟩ := nearest_some hnearest
    have hnumber : tile.levelNumber = level := congrArg TileKey.level (getTileFromMemory_eq hmemory).1
    refine find_of_sorted (tiles_sorted _) ((mem_tiles).2 ⟨key, hkey, hnearest⟩)
      ((contains_iff hmemory hle hinside).2 rfl) ?_
    intro other hother hcontains hrank
    obtain ⟨hle', hmemory'⟩ := hancestor other hother hcontains
    -- a finer tile would be nearer
    have hlevels : other.levelNumber = level := by
      rw [rank, rank] at hrank
      rcases Nat.lt_or_ge level other.levelNumber with hlt | hge
      · rw [hfiner _ hle' hlt] at hmemory'
        cases hmemory'
      · omega
    rw [hlevels] at hmemory'
    exact Option.some_inj.1 (hmemory'.symm.trans hmemory)

/-! ## The whole method -/

theorem right_iff {keys : List TileKey} (hgrid : InGrid keys) {target : Nat}
    (hlevel : ∀ key ∈ keys, key.level = target) :
    Right levelSet caches keys (keys.foldl (visit levelSet caches) .start).elevations ↔
      RedBlackTree.FoundAgain compare (nearestTiles levelSet caches keys) ∧
        ¬PartOfLevelZero levelSet caches target keys := by
  have htiles : (keys.foldl (visit levelSet caches) .start).elevations.tiles =
      RedBlackTree.ofList compare (nearestTiles levelSet caches keys) := by
    rw [← visit_all keys hgrid, Search.elevations]
    split <;> rfl
  have hmissing := @missing_iff _ levelSet caches _ hgrid _ hlevel
  have hempty : (RedBlackTree.ofList compare (nearestTiles levelSet caches keys)).toList = [] ↔
      ∀ key ∈ keys, nearest levelSet caches key = none := by
    rw [List.eq_nil_iff_forall_not_mem]
    simp only [mem_tiles, not_exists, not_and, Option.eq_none_iff_forall_not_mem, Option.mem_def]
    exact forall_comm.trans (forall_congr' fun key => forall_comm)
  constructor
  · intro h
    refine ⟨(RedBlackTree.nodup_ofList_iff compare_rank eq_of_compare).1 (htiles ▸ h.once), ?_⟩
    rintro ⟨rfl, hnone, key, hkey, hsome⟩
    have hnot : (keys.foldl (visit levelSet caches) .start).missingLevelZeroTiles = false := by
      rw [← Bool.not_eq_true, hmissing]
      simp
    have hachieved := h.missing hnone
    rw [Search.elevations, hnot, if_neg (by decide), Option.map_eq_none_iff, RedBlackTree.last?,
      visit_all keys hgrid, List.getLast?_eq_none_iff] at hachieved
    exact hsome (hempty.1 hachieved key hkey)
  · rintro ⟨hfound, hpart⟩
    refine ⟨?_, ?_, ?_, ?_, ?_⟩
    · rw [htiles]
      exact (RedBlackTree.nodup_ofList_iff compare_rank eq_of_compare).2 hfound
    · rw [htiles]
      exact (tiles_sorted _).imp fun h => by rw [rank, rank] at h; omega
    · intro key hkey latitude longitude hinside E lookupElevation
      rw [Elevations.getElevation, Elevations.tileAt, htiles, find_eq_nearest hlevel hkey hinside]
    · intro hnone
      rw [Search.elevations]
      by_cases htarget : target = 0
      · split
        · rfl
        · have hall : ∀ key ∈ keys, nearest levelSet caches key = none := fun key hkey =>
            not_not.1 fun hsome => hpart ⟨htarget, hnone, key, hkey, hsome⟩
          rw [RedBlackTree.last?, visit_all keys hgrid, hempty.2 hall]
          rfl
      · rw [if_pos (hmissing.2 ⟨htarget, hnone⟩)]
    · intro hne hall
      have hnot : (keys.foldl (visit levelSet caches) .start).missingLevelZeroTiles = false := by
        rw [← Bool.not_eq_true, hmissing]
        rintro ⟨-, key, hkey, hnone⟩
        exact hall key hkey hnone
      have hlist : (RedBlackTree.ofList compare (nearestTiles levelSet caches keys)).toList ≠ [] := by
        obtain ⟨key, hkey⟩ := List.exists_mem_of_ne_nil keys hne
        exact fun h => hall key hkey (hempty.1 h key hkey)
      rw [htiles]
      refine ⟨_, List.getLast_mem hlist, ?_, ?_⟩
      · intro u hu
        have hsorted := @tiles_sorted _ levelSet caches keys
        rw [← List.dropLast_append_getLast hlist] at hsorted hu
        rcases List.mem_append.1 hu with hu | hu
        · have := (List.pairwise_append.1 hsorted).2.2 u hu _ List.mem_cons_self
          rw [rank, rank] at this
          omega
        · rw [List.mem_singleton.1 hu]
      · rw [Search.elevations, hnot, if_neg (by decide), visit_all keys hgrid, RedBlackTree.last?]
        exact congrArg (Option.map _) (List.getLast?_eq_some_getLast hlist)

section

variable {delta origin latitude longitude : Angle}

theorem computeRow_nonneg {row : Int} (hpos : 0 < delta.degrees) (hle : delta.degrees ≤ 180)
    (horigin : origin.degrees ≤ latitude.degrees) (h : RasterProducer.computeRow delta latitude origin = some row) :
    0 ≤ row := by
  obtain ⟨h0, hlt, -⟩ := RasterProducer.trunc_contains hpos (sub_nonneg.2 horigin)
  rw [RasterProducer.computeRow] at h
  split_ifs at h with h1 h2 h3
  · have hone : 1 ≤ (latitude.degrees - origin.degrees) / delta.degrees := by
      rw [h3, le_div_iff₀ hpos, one_mul]
      exact hle
    have hfloor : 1 ≤ ⌊(latitude.degrees - origin.degrees) / delta.degrees⌋ := Int.le_floor.2 (by exact_mod_cast hone)
    have htrunc := RasterProducer.truncInt_nonneg (zero_le_one.trans hone)
    rw [← Option.some_inj.1 h, Lib.JavaInt.int_eq (by omega) (by omega)]
    omega
  · rw [← Option.some_inj.1 h]
    exact h0

theorem computeColumn_nonneg {column : Int} (hpos : 0 < delta.degrees) (hle : delta.degrees ≤ 360)
    (horigin : origin.degrees ≤ longitude.degrees)
    (h : RasterProducer.computeColumn delta longitude origin = some column) : 0 ≤ column := by
  have hnonneg := sub_nonneg.2 horigin
  obtain ⟨h0, hlt, -⟩ := RasterProducer.trunc_contains hpos hnonneg
  simp only [RasterProducer.computeColumn, if_neg (not_lt.2 hnonneg)] at h
  split_ifs at h with h1 h2 h3
  · have hone : 1 ≤ (longitude.degrees - origin.degrees) / delta.degrees := by
      rw [h3, le_div_iff₀ hpos, one_mul]
      exact hle
    have hfloor : 1 ≤ ⌊(longitude.degrees - origin.degrees) / delta.degrees⌋ :=
      Int.le_floor.2 (by exact_mod_cast hone)
    have htrunc := RasterProducer.truncInt_nonneg (zero_le_one.trans hone)
    rw [← Option.some_inj.1 h, Lib.JavaInt.int_eq (by omega) (by omega)]
    omega
  · rw [← Option.some_inj.1 h]
    exact h0

end

theorem intersection_le {sector that both : Sector} (h : intersection sector that = some both) :
    that.minLatitude.degrees ≤ both.minLatitude.degrees ∧ that.minLongitude.degrees ≤ both.minLongitude.degrees := by
  simp only [intersection] at h
  split_ifs at h <;> obtain rfl := Option.some_inj.1 h <;> constructor <;> simp only <;> linarith

/-- The loop only comes to keys of the target level that are in the grid. -/
theorem targetKeys_inGrid {requestedSector : Sector} {target : Nat} {keys : List TileKey}
    (h : targetKeys levelSet requestedSector target = some keys) :
    InGrid keys ∧ ∀ key ∈ keys, key.level = target := by
  simp only [targetKeys, Option.bind_eq_some_iff] at h
  obtain ⟨sector, hsector, level, hlevel, nwRow, -, nwCol, hnwCol, seRow, hseRow, seCol, -, rows, -, h⟩ := h
  have hmem := List.mem_of_getElem? hlevel
  obtain ⟨hlat, hlon⟩ := levelSet.delta_pos level hmem
  obtain ⟨hlat', hlon'⟩ := levelSet.delta_le level hmem
  obtain ⟨horigin1, horigin2⟩ := levelSet.origin_le
  obtain ⟨hle1, hle2⟩ := intersection_le hsector
  have hrow := computeRow_nonneg hlat hlat' (horigin1.trans hle1) hseRow
  have hcolumn := computeColumn_nonneg hlon hlon' (horigin2.trans hle2) hnwCol
  split_ifs at h
  · obtain rfl := Option.some_inj.1 h
    exact ⟨fun key hkey => absurd hkey List.not_mem_nil, fun key hkey => absurd hkey List.not_mem_nil⟩
  · obtain ⟨columns, -, rfl⟩ := Option.map_eq_some_iff.1 h
    have hform : ∀ key : TileKey,
        (key ∈ (List.range rows).flatMap fun i : Nat => (List.range columns).map fun j : Nat =>
        (⟨target, seRow + (i : Int), nwCol + (j : Int)⟩ : TileKey)) →
        ∃ i j : Nat, key = ⟨target, seRow + (i : Int), nwCol + (j : Int)⟩ := by
      intro key hkey
      obtain ⟨i, -, hkey⟩ := List.mem_flatMap.1 hkey
      obtain ⟨j, -, rfl⟩ := List.mem_map.1 hkey
      exact ⟨i, j, rfl⟩
    constructor
    · intro key hkey
      obtain ⟨i, j, rfl⟩ := hform key hkey
      constructor <;> simp only <;> omega
    · intro key hkey
      obtain ⟨i, j, rfl⟩ := hform key hkey
      rfl

theorem targetKeys_nodup {requestedSector : Sector} {target : Nat} {keys : List TileKey}
    (h : targetKeys levelSet requestedSector target = some keys) : keys.Nodup := by
  simp only [targetKeys, Option.bind_eq_some_iff] at h
  obtain ⟨sector, -, level, -, nwRow, -, nwCol, -, seRow, -, seCol, -, rows, -, h⟩ := h
  split_ifs at h
  · obtain rfl := Option.some_inj.1 h
    exact List.nodup_nil
  · obtain ⟨columns, -, rfl⟩ := Option.map_eq_some_iff.1 h
    refine List.nodup_flatMap.2 ⟨fun i _ => List.Nodup.map ?_ List.nodup_range, ?_⟩
    · intro j j' hkey
      simp only [TileKey.mk.injEq] at hkey
      omega
    · refine List.nodup_range.imp fun hne => ?_
      intro key hkey hkey'
      obtain ⟨j, -, rfl⟩ := List.mem_map.1 hkey
      obtain ⟨j', -, hkey'⟩ := List.mem_map.1 hkey'
      simp only [TileKey.mk.injEq] at hkey'
      omega

/-- A tile of the target level is only the nearest tile of its own key. -/
theorem eq_key_of_nearest {key : TileKey} {tile : ElevationTile D} (h : nearest levelSet caches key = some tile)
    (hle : key.level ≤ tile.levelNumber) : tile.key = key := by
  obtain ⟨level, hlevel, hmemory, -⟩ := nearest_some h
  have hkey := (getTileFromMemory_eq hmemory).1
  have hnumber : tile.levelNumber = level := congrArg TileKey.level hkey
  rw [hkey, show level = key.level by omega, ancestor, Nat.sub_self, pow_zero, Int.ediv_one, Int.ediv_one]

/-- The set finds every tile again where a level that tiles are missing for has only one. -/
theorem foundAgain_of_alone {keys : List TileKey} (hnodup : keys.Nodup) {target : Nat}
    (hlevel : ∀ key ∈ keys, key.level = target)
    (halone : ∀ x ∈ nearestTiles levelSet caches keys, ∀ y ∈ nearestTiles levelSet caches keys,
      x.levelNumber < target → y.levelNumber = x.levelNumber → y = x) :
    RedBlackTree.FoundAgain compare (nearestTiles levelSet caches keys) := by
  refine RedBlackTree.foundAgain_of_alone compare_rank (fun x _ => (compare_eq_zero x x).2 rfl) eq_of_compare ?_
  intro earlier x later hsplit hx y hy hrank
  have hmem : x ∈ nearestTiles levelSet caches keys := by
    rw [hsplit]
    exact List.mem_append_left _ hx
  refine halone x hmem y hy ?_ (by rw [rank, rank] at hrank; omega)
  -- a tile of the target level would have come of one key twice
  by_contra hfine
  obtain ⟨keys₁, keys₂, rfl, rfl, hlater⟩ := List.filterMap_eq_append_iff.1 hsplit
  obtain ⟨skipped, key, rest, rfl, -, hkey, -⟩ := List.filterMap_eq_cons_iff.1 hlater
  obtain ⟨key', hkey', hx⟩ := List.mem_filterMap.1 hx
  have heq : key' = key := by
    rw [← eq_key_of_nearest hx (by rw [hlevel key' (by simp [hkey'])]; omega),
      eq_key_of_nearest hkey (by rw [hlevel key (by simp)]; omega)]
  rw [List.nodup_append] at hnodup
  exact hnodup.2.2 key' hkey' key (by simp) heq

variable (levelSet caches)

/-- Tiles of 36 and of 18 degrees. -/
def twoLevels : LevelSet where
  sector := ⟨⟨-90⟩, ⟨90⟩, ⟨-180⟩, ⟨180⟩⟩
  tileOrigin := ⟨⟨-90⟩, ⟨-180⟩⟩
  levels := [⟨⟨⟨36⟩, ⟨36⟩⟩, 2⟩, ⟨⟨⟨18⟩, ⟨18⟩⟩, 1⟩]
  halves := by
    intro i level next hlevel hnext
    rcases i with _ | i
    · obtain rfl := Option.some_inj.1 hlevel
      obtain rfl := Option.some_inj.1 hnext
      norm_num
    · cases hnext
  delta_pos := by decide +kernel
  delta_le := by decide +kernel
  origin_le := by decide +kernel

/-- Three tiles of level zero, side by side. -/
def threeTiles : Caches Unit where
  levelZeroTiles key := if key.row = 0 ∧ key.column < 3 then some () else none
  memoryCache _ := none

end WorldWind.TileSet
