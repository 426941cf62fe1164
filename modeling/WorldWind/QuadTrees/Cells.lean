import WorldWind.QuadTrees.Model
/-!
# The cells of a quadtree

A cell has its place, which is the positions on the way down to it, and its
region. In a tree of at most fifteen levels no bit number wraps, so cells of
one level have different numbers and deeper cells have larger ones. The cells
below a cell lie inside it unless the region is turned around.
-/

namespace WorldWind.QuadTrees

open Geom Lib.JavaInt

/-! ## Numbers -/

theorem powersOf4_eq (i : Nat) : powersOf4 i = int (4 ^ i) := by
  induction i with
  | zero => exact (int_eq (by decide) (by decide)).symm
  | succ i ih => rw [powersOf4, ih, int_mul_int, pow_succ, mul_comm]

theorem three_mul_levelSize (level : Nat) :
    3 * ((List.range level).map fun i => (4 : Int) ^ (i + 1)).sum = 4 ^ (level + 1) - 4 := by
  induction level with
  | zero => rfl
  | succ level ih =>
    rw [List.range_succ, List.map_append, List.sum_append, mul_add, ih]
    simp only [List.map_cons, List.map_nil, List.sum_cons, List.sum_nil]
    ring

/-- Up to level fifteen the sizes are exact. -/
theorem three_mul_levelSizes (level : Nat) (h : level ≤ 15) : 3 * levelSizes level = 4 ^ (level + 1) - 4 := by
  have hsum := three_mul_levelSize level
  have hpow : (4 : Int) ^ (level + 1) ≤ 4 ^ 16 := pow_le_pow_right₀ (by norm_num) (by omega)
  rw [levelSizes, min_eq_right (by omega), hsum]

theorem levelSizes_deep {level : Nat} (h : 16 ≤ level) : levelSizes level = 2 ^ 31 - 1 := by
  have hsum := three_mul_levelSize level
  have hpow : (4 : Int) ^ 17 ≤ 4 ^ (level + 1) := pow_le_pow_right₀ (by norm_num) (by omega)
  rw [levelSizes, min_eq_left (by omega)]

/-- The loop adds up the place of the cell in base four. -/
theorem int_foldl_path (z : Int) (n : Nat) (path : List Nat) : ∀ (k : Nat) (bitPosition : Int), n = k + path.length →
    int ((path.zipIdx k).foldl
        (fun bitPosition entry => int (bitPosition + int (entry.1 * powersOf4 (n - entry.2)))) bitPosition + z) =
      int (bitPosition + 4 * (Nat.ofDigits 4 path.reverse : Nat) + z) := by
  induction path with
  | nil =>
    intro k bitPosition _
    simp
  | cons p path ih =>
    intro k bitPosition hn
    have hk : n - k = path.length + 1 := by rw [hn, List.length_cons]; omega
    rw [List.zipIdx_cons, List.foldl_cons, ih (k + 1) _ (by rw [hn, List.length_cons]; omega), hk, powersOf4_eq,
      int_mul_int, add_assoc, int_int_add, add_right_comm, int_add_int, List.reverse_cons, Nat.ofDigits_append,
      List.length_reverse, Nat.ofDigits_singleton]
    congr 1
    push_cast
    ring

/-- The place of a cell among the cells of its level. -/
def place (path : List Nat) (position : Nat) : Nat := position + 4 * Nat.ofDigits 4 path.reverse

theorem computeBitPosition_eq (path : List Nat) (position : Nat) :
    computeBitPosition path position = int (place path position + levelSizes path.length) := by
  have h := int_foldl_path (levelSizes path.length) path.length path 0 position (by omega)
  rw [place, Nat.cast_add, Nat.cast_mul]
  exact h

/-- All positions on the way down are those of one of four cells. -/
def Placed (path : List Nat) (position : Nat) : Prop := (∀ p ∈ path, p < 4) ∧ position < 4

theorem place_eq (path : List Nat) (position : Nat) : place path position =
    Nat.ofDigits 4 (position :: path.reverse) :=
  Nat.ofDigits_cons.symm

theorem Placed.digits {path : List Nat} {position : Nat} (h : Placed path position) :
    ∀ digit ∈ position :: path.reverse, digit < 4 := by
  intro digit hdigit
  rcases List.mem_cons.1 hdigit with rfl | hdigit
  · exact h.2
  · exact h.1 digit (List.mem_reverse.1 hdigit)

theorem Placed.place_lt {path : List Nat} {position : Nat} (h : Placed path position) :
    place path position < 4 ^ (path.length + 1) := by
  rw [place_eq]
  have := Nat.ofDigits_lt_base_pow_length (by decide) h.digits
  simpa using this

theorem Placed.computeBitPosition_eq {path : List Nat} {position : Nat} (h : Placed path position)
    (hlevel : path.length ≤ 14) : computeBitPosition path position =
    place path position + levelSizes path.length := by
  have hlt : (place path position : Int) < 4 ^ (path.length + 1) := by exact_mod_cast h.place_lt
  have hsize := three_mul_levelSizes path.length (by omega)
  have hpow : (4 : Int) ^ (path.length + 1) ≤ 4 ^ 15 := pow_le_pow_right₀ (by norm_num) (by omega)
  have hpos : (4 : Int) ^ 1 ≤ 4 ^ (path.length + 1) := pow_le_pow_right₀ (by norm_num) (by omega)
  rw [QuadTrees.computeBitPosition_eq, int_eq (by omega) (by omega)]

theorem Placed.nonneg {path : List Nat} {position : Nat} (h : Placed path position) (hlevel : path.length ≤ 14) :
    0 ≤ computeBitPosition path position := by
  have hsize := three_mul_levelSizes path.length (by omega)
  have hpos : (4 : Int) ^ 1 ≤ 4 ^ (path.length + 1) := pow_le_pow_right₀ (by norm_num) (by omega)
  rw [h.computeBitPosition_eq hlevel]
  omega

/-- Cells of one level have different numbers. -/
theorem Placed.eq_of_number_eq {path path' : List Nat} {position position' : Nat} (h : Placed path position)
    (h' : Placed path' position') (hlevel : path.length ≤ 14) (hlength : path.length = path'.length)
    (heq : computeBitPosition path position = computeBitPosition path' position') :
    path = path' ∧ position = position' := by
  rw [h.computeBitPosition_eq hlevel, h'.computeBitPosition_eq (hlength ▸ hlevel), hlength] at heq
  have hplace : place path position = place path' position' := by omega
  rw [place_eq, place_eq] at hplace
  have hdigits := Nat.ofDigits_inj_of_len_eq (by decide : 1 < 4) (by simp [hlength]) h.digits h'.digits hplace
  obtain ⟨hposition, hreverse⟩ := List.cons.inj hdigits
  exact ⟨List.reverse_injective hreverse, hposition⟩

/-- A cell higher up has a smaller number. -/
theorem Placed.number_lt {path path' : List Nat} {position position' : Nat} (h : Placed path position)
    (h' : Placed path' position') (hlevel : path'.length ≤ 14) (hlength : path.length < path'.length) :
    computeBitPosition path position < computeBitPosition path' position' := by
  have hlt : (place path position : Int) < 4 ^ (path.length + 1) := by exact_mod_cast h.place_lt
  have hsize := three_mul_levelSizes path.length (by omega)
  have hsize' := three_mul_levelSizes path'.length (by omega)
  have hpow : (4 : Int) ^ (path.length + 2) ≤ 4 ^ (path'.length + 1) := pow_le_pow_right₀ (by norm_num) (by omega)
  have hstep : (4 : Int) ^ (path.length + 2) = 4 * 4 ^ (path.length + 1) := by rw [pow_succ, mul_comm]
  rw [h.computeBitPosition_eq (by omega), h'.computeBitPosition_eq hlevel]
  omega

/-! ## Cells and their leaves -/

structure Cell where
  path : List Nat
  position : Nat
  region : Region
  deriving DecidableEq

/-- The cells of a list of regions, under a path. -/
def cellsOf (path : List Nat) (regions : List Region) : List Cell :=
  regions.zipIdx.map fun entry => ⟨path, entry.2, entry.1⟩

namespace Cell

def number (cell : Cell) : Int := computeBitPosition cell.path cell.position

def address (cell : Cell) : List Nat := cell.path ++ [cell.position]

def children (cell : Cell) : List Cell := cellsOf cell.address cell.region.subRegions

def leaves : Nat → Cell → List Cell
  | 0, cell => [cell]
  | levels + 1, cell => cell.children.flatMap (leaves levels)

def Ok (cell : Cell) : Prop := Placed cell.path cell.position

theorem ok_iff (cell : Cell) : cell.Ok ↔ ∀ p ∈ cell.address, p < 4 := by
  simp [Ok, Placed, address, or_imp, forall_and]

end Cell

theorem mem_cellsOf {path : List Nat} {regions : List Region} {cell : Cell} (h : cell ∈ cellsOf path regions) :
    cell.path = path ∧ cell.position < regions.length ∧ cell.region ∈ regions := by
  obtain ⟨⟨region, i⟩, hentry, rfl⟩ := List.mem_map.1 h
  obtain ⟨hlt, hget⟩ := List.mem_zipIdx' hentry
  exact ⟨rfl, hlt, hget ▸ List.getElem_mem hlt⟩

theorem pairwise_cellsOf (path : List Nat) (regions : List Region) :
    (cellsOf path regions).Pairwise fun cell cell' => cell.position ≠ cell'.position := by
  have hnodup : ((cellsOf path regions).map Cell.position).Nodup := by
    have hmap : (cellsOf path regions).map Cell.position = List.range' 0 regions.length := by
      rw [cellsOf, List.map_map]
      exact List.zipIdx_map_snd 0 regions
    rw [hmap]
    exact List.nodup_range'
  exact (List.pairwise_map.1 hnodup)

theorem Cell.mem_children {cell child : Cell} (h : child ∈ cell.children) :
    child.path = cell.address ∧ child.position < 4 ∧ child.region ∈ cell.region.subRegions := mem_cellsOf h

theorem Cell.Ok.child {cell child : Cell} (h : cell.Ok) (hchild : child ∈ cell.children) : child.Ok := by
  obtain ⟨hpath, hposition, -⟩ := Cell.mem_children hchild
  refine ⟨?_, hposition⟩
  rw [hpath]
  exact (cell.ok_iff).1 h

theorem Cell.length_child {cell child : Cell} (h : child ∈ cell.children) :
    child.path.length = cell.path.length + 1 := by
  rw [(Cell.mem_children h).1, Cell.address, List.length_append, List.length_singleton]

theorem Cell.length_leaf {levels : Nat} : ∀ {cell leaf : Cell}, leaf ∈ cell.leaves levels →
    leaf.path.length = cell.path.length + levels ∧ cell.address <+: leaf.address := by
  induction levels with
  | zero =>
    intro cell leaf hleaf
    obtain rfl := List.mem_singleton.1 hleaf
    exact ⟨rfl, List.prefix_rfl⟩
  | succ levels ih =>
    intro cell leaf hleaf
    obtain ⟨child, hchild, hleaf⟩ := List.mem_flatMap.1 hleaf
    obtain ⟨hlength, hprefix⟩ := ih hleaf
    refine ⟨by rw [hlength, Cell.length_child hchild]; omega, List.IsPrefix.trans ?_ hprefix⟩
    have haddress : child.address = child.path ++ [child.position] := rfl
    rw [haddress, (Cell.mem_children hchild).1]
    exact List.prefix_append _ _

theorem Cell.Ok.leaf {levels : Nat} : ∀ {cell leaf : Cell}, cell.Ok → leaf ∈ cell.leaves levels → leaf.Ok := by
  induction levels with
  | zero =>
    intro cell leaf h hleaf
    obtain rfl := List.mem_singleton.1 hleaf
    exact h
  | succ levels ih =>
    intro cell leaf h hleaf
    obtain ⟨child, hchild, hleaf⟩ := List.mem_flatMap.1 hleaf
    exact ih (h.child hchild) hleaf

theorem prefix_address {cell leaf : Cell} {path : List Nat} (hpath : cell.path = path)
    (h : cell.address <+: leaf.address) : leaf.address[path.length]? = some cell.position := by
  obtain ⟨rest, hrest⟩ := h
  rw [← hrest, Cell.address, hpath, List.append_assoc, List.getElem?_append_right le_rfl, Nat.sub_self]
  rfl

theorem nodup_flatMap_leaves {levels : Nat} (h : ∀ cell : Cell, ((cell.leaves levels).map Cell.address).Nodup)
    (path : List Nat) (regions : List Region) :
    (((cellsOf path regions).flatMap (Cell.leaves levels)).map Cell.address).Nodup := by
  rw [List.map_flatMap, List.nodup_flatMap]
  refine ⟨fun cell _ => h cell, (pairwise_cellsOf path regions).imp_of_mem ?_⟩
  intro cell cell' hcell hcell' hne address haddress haddress'
  obtain ⟨leaf, hleaf, rfl⟩ := List.mem_map.1 haddress
  obtain ⟨leaf', hleaf', heq⟩ := List.mem_map.1 haddress'
  have hget := prefix_address (mem_cellsOf hcell).1 (Cell.length_leaf hleaf).2
  have hget' := prefix_address (mem_cellsOf hcell').1 (Cell.length_leaf hleaf').2
  rw [heq, hget] at hget'
  exact hne (Option.some.inj hget')

/-- No two leaves have one place. -/
theorem nodup_leaves (levels : Nat) : ∀ cell : Cell, ((cell.leaves levels).map Cell.address).Nodup := by
  induction levels with
  | zero =>
    intro cell
    exact List.nodup_singleton _
  | succ levels ih =>
    intro cell
    exact nodup_flatMap_leaves ih cell.address cell.region.subRegions

/-! ## Regions -/

/-- The minima do not exceed the maxima. -/
structure Region.Ordered (region : Region) : Prop where
  lat : region.minLat ≤ region.maxLat
  lon : region.minLon ≤ region.maxLon

structure Region.Within (region outer : Region) : Prop where
  minLat : outer.minLat ≤ region.minLat
  maxLat : region.maxLat ≤ outer.maxLat
  minLon : outer.minLon ≤ region.minLon
  maxLon : region.maxLon ≤ outer.maxLon

theorem Region.Ordered.subRegion {region subRegion : Region} (h : region.Ordered)
    (hsub : subRegion ∈ region.subRegions) :
    subRegion.Ordered ∧ subRegion.Within region := by
  obtain ⟨hlat, hlon⟩ := h
  simp only [Region.subRegions, List.mem_cons, List.not_mem_nil, or_false] at hsub
  rcases hsub with rfl | rfl | rfl | rfl <;>
    exact ⟨⟨by simp only; linarith, by simp only; linarith⟩,
      ⟨by simp only; linarith, by simp only; linarith, by simp only; linarith, by simp only; linarith⟩⟩

/-- What meets a part meets the whole. -/
theorem intersects_of_within {region outer : Region} {coords : ItemCoords} (h : region.Within outer)
    (hmeets : intersects region coords = true) : intersects outer coords = true := by
  obtain ⟨h1, h2, h3, h4⟩ := h
  cases coords with
  | location latitude longitude =>
    simp only [intersects, decide_eq_true_eq] at hmeets ⊢
    exact ⟨h1.trans hmeets.1, hmeets.2.1.trans h2, h3.trans hmeets.2.2.1, hmeets.2.2.2.trans h4⟩
  | region itemCoords =>
    simp only [intersects, decide_eq_true_eq, not_or, not_lt, gt_iff_lt] at hmeets ⊢
    exact ⟨h1.trans hmeets.1, hmeets.2.1.trans h2, h3.trans hmeets.2.2.1, hmeets.2.2.2.trans h4⟩

theorem Cell.ordered_child {cell child : Cell} (h : cell.region.Ordered) (hchild : child ∈ cell.children) :
    child.region.Ordered ∧ child.region.Within cell.region := h.subRegion (Cell.mem_children hchild).2.2

/-- The leaves of a cell that a region meets are met through it. -/
theorem Cell.intersects_of_leaf {coords : ItemCoords} {levels : Nat} : ∀ {cell leaf : Cell},
    levels = 0 ∨ cell.region.Ordered → leaf ∈ cell.leaves levels → intersects leaf.region coords = true →
      intersects cell.region coords = true := by
  induction levels with
  | zero =>
    intro cell leaf _ hleaf hmeets
    obtain rfl := List.mem_singleton.1 hleaf
    exact hmeets
  | succ levels ih =>
    intro cell leaf hordered hleaf hmeets
    obtain ⟨child, hchild, hleaf⟩ := List.mem_flatMap.1 hleaf
    obtain ⟨hchildOrdered, hwithin⟩ := Cell.ordered_child (hordered.resolve_left (by omega)) hchild
    exact intersects_of_within hwithin (ih (.inr hchildOrdered) hleaf hmeets)

/-- A location in a region lies in one of its four parts. -/
theorem exists_part {path : List Nat} {region : Region} {latitude longitude : ℚ}
    (hmeets : intersects region (.location latitude longitude) = true) :
    ∃ cell ∈ cellsOf path region.subRegions, intersects cell.region (.location latitude longitude) = true := by
  simp only [intersects, decide_eq_true_eq] at hmeets ⊢
  obtain ⟨hminLat, hmaxLat, hminLon, hmaxLon⟩ := hmeets
  rw [Region.subRegions]
  by_cases hlat : latitude ≤ (region.maxLat + region.minLat) / 2
  · by_cases hlon : longitude ≤ (region.maxLon + region.minLon) / 2
    · exact ⟨⟨path, 0, _⟩, List.mem_cons_self, hminLat, hlat, hminLon, hlon⟩
    · exact ⟨⟨path, 1, _⟩, List.mem_cons_of_mem _ List.mem_cons_self, hminLat, hlat, (not_le.1 hlon).le, hmaxLon⟩
  · by_cases hlon : longitude ≤ (region.maxLon + region.minLon) / 2
    · exact ⟨⟨path, 3, _⟩,
        List.mem_cons_of_mem _ (List.mem_cons_of_mem _ (List.mem_cons_of_mem _ List.mem_cons_self)),
        (not_le.1 hlat).le, hmaxLat, hminLon, hlon⟩
    · exact ⟨⟨path, 2, _⟩, List.mem_cons_of_mem _ (List.mem_cons_of_mem _ List.mem_cons_self),
        (not_le.1 hlat).le, hmaxLat, (not_le.1 hlon).le, hmaxLon⟩

/-- A location in a cell lies in one of its leaves. -/
theorem Cell.exists_leaf {latitude longitude : ℚ} {levels : Nat} : ∀ {cell : Cell},
    intersects cell.region (.location latitude longitude) = true →
      ∃ leaf ∈ cell.leaves levels, intersects leaf.region (.location latitude longitude) = true := by
  induction levels with
  | zero =>
    intro cell hmeets
    exact ⟨cell, List.mem_singleton_self _, hmeets⟩
  | succ levels ih =>
    intro cell hmeets
    obtain ⟨child, hchild, hmeets⟩ := @exists_part cell.address _ _ _ hmeets
    obtain ⟨leaf, hleaf, hmeets⟩ := ih hmeets
    exact ⟨leaf, List.mem_flatMap.2 ⟨child, hchild, hleaf⟩, hmeets⟩

end WorldWind.QuadTrees
