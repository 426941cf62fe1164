import WorldWind.Tessellator.TileSelection
/-!
# The tiles of a frame cover the globe

`selectVisibleTiles` adds the taken ends of a pruned descent
(`selectVisibleTiles_eq`), and the four parts of a sector split it. So in every
frame, however often the tessellator has been used before, the tiles do not
overlap, and a location that no tile contains lies in a tile that is not in the
frustum (`frames_spec`).
-/

namespace WorldWind.Tessellator.TileSelection

open Geom.Exact Geom.Exact.Sector Lib.PrunedDescent
open scoped Lib.Numerals

variable {E K : Type} [Field K] [LinearOrder K] [IsStrictOrderedRing K]

/-! ## The tiles at the top -/

section Strips

variable {last delta : K}

theorem strips_cover (delta : K) (n : Nat) :
    ∀ low, low ≤ last → last ≤ low + n * delta → 0 < n → ∀ x, low ≤ x → x ≤ last →
      ∃ s ∈ strips last delta n low, s.1 ≤ x ∧ x ≤ s.2 := by
  induction n with
  | zero => exact fun _ _ _ h => absurd h (lt_irrefl 0)
  | succ n ih =>
    intro low hlow hreach _ x hx hlast
    have hsucc : ((n + 1 : Nat) : K) * delta = n * delta + delta := by
      push_cast
      ring
    rw [hsucc] at hreach
    unfold strips
    by_cases hclose : low + delta + 1 > last
    · simp only [if_pos hclose]
      exact ⟨_, List.mem_cons_self, hx, hlast⟩
    · simp only [if_neg hclose]
      by_cases hin : x ≤ low + delta
      · exact ⟨_, List.mem_cons_self, hx, hin⟩
      · have hpos : 0 < n := by
          rcases Nat.eq_zero_or_pos n with rfl | hpos
          · rw [Nat.cast_zero, zero_mul, zero_add] at hreach
            exact absurd (by linarith) hclose
          · exact hpos
        obtain ⟨s, hs, hsx⟩ := ih (low + delta) (by linarith) (by linarith) hpos x (by linarith) hlast
        exact ⟨s, List.mem_cons_of_mem _ hs, hsx⟩

theorem strips_sorted (hdelta : 0 ≤ delta) (n : Nat) :
    ∀ low, low ≤ last → (∀ s ∈ strips last delta n low, low ≤ s.1) ∧
      (strips last delta n low).Pairwise fun s t => s.2 ≤ t.1 := by
  induction n with
  | zero => exact fun _ _ => ⟨fun s hs => absurd hs List.not_mem_nil, List.Pairwise.nil⟩
  | succ n ih =>
    intro low hlow
    unfold strips
    dsimp only
    have hhigh : low ≤ (if low + delta + 1 > last then last else low + delta) ∧
        (if low + delta + 1 > last then last else low + delta) ≤ last := by
      split
      · exact ⟨hlow, le_rfl⟩
      · exact ⟨by linarith, by linarith⟩
    obtain ⟨hlows, hpairs⟩ := ih _ hhigh.2
    constructor
    · intro s hs
      rcases List.mem_cons.1 hs with rfl | hs
      · exact le_rfl
      · exact hhigh.1.trans (hlows s hs)
    · exact List.pairwise_cons.2 ⟨fun s hs => hlows s hs, hpairs⟩

end Strips

variable (dc : DrawContext E K)

/-- The whole globe. -/
def onGlobe : Set (LatLon K) := region ⟨-90, 90, -180, 180⟩

theorem createTopLevelTiles_cover (density : Int) {numLat numLon : Nat} (hlat : 0 < numLat) (hlon : 0 < numLon)
    {p : LatLon K} (hp : p ∈ onGlobe) :
    ∃ tile ∈ createTopLevelTiles dc density numLat numLon, p ∈ region tile.sector := by
  obtain ⟨⟨h1, h2⟩, h3, h4⟩ := hp
  have hlat' : (0 : K) < numLat := by exact_mod_cast hlat
  have hlon' : (0 : K) < numLon := by exact_mod_cast hlon
  obtain ⟨lat, hmem, hp⟩ := strips_cover (180 / (numLat : K)) numLat (-90)
    (show (-90 : K) ≤ 90 by norm_num) (by rw [mul_div_cancel₀ _ hlat'.ne']; norm_num) hlat p.latitude h1 h2
  obtain ⟨lon, hmem', hp'⟩ := strips_cover (360 / (numLon : K)) numLon (-180)
    (show (-180 : K) ≤ 180 by norm_num) (by rw [mul_div_cancel₀ _ hlon'.ne']; norm_num) hlon p.longitude h3 h4
  exact ⟨_, List.mem_flatMap.2 ⟨lat, hmem, List.mem_map.2 ⟨lon, hmem', rfl⟩⟩, hp, hp'⟩

theorem createTopLevelTiles_apart (density : Int) (numLat numLon : Nat) :
    (createTopLevelTiles dc density numLat numLon).Pairwise
      (Apart (fun tile => region tile.sector) fun tile => inner tile.sector) := by
  have hlats := (strips_sorted (show (0 : K) ≤ 180 / numLat by positivity) numLat (-90)
    (show (-90 : K) ≤ 90 by norm_num)).2
  have hlons := (strips_sorted (show (0 : K) ≤ 360 / numLon by positivity) numLon (-180)
    (show (-180 : K) ≤ 180 by norm_num)).2
  unfold createTopLevelTiles
  rw [List.pairwise_flatMap]
  constructor
  · intro lat _
    rw [List.pairwise_map]
    exact hlons.imp fun h => apart (Or.inr (Or.inr (Or.inl h)))
  · refine hlats.imp fun h s hs t ht => ?_
    obtain ⟨lon, _, rfl⟩ := List.mem_map.1 hs
    obtain ⟨lon', _, rfl⟩ := List.mem_map.1 ht
    exact apart (Or.inl h)

/-! ## The descent -/

/-- What the tests say of a tile. -/
def choice (tile : RectTile E K) : Choice :=
  if ¬ isVisible dc tile then .discard
  else if ¬ dc.atBestResolution tile ∧ dc.needToSplit tile then .descend
  else .take

theorem split_splits (density : Int) :
    Splits (fun tile : RectTile E K => region tile.sector) (fun tile => inner tile.sector) (split dc density) := by
  apply subdivide_splits.comap
  intro tile
  unfold split
  rw [List.map_map]
  exact List.map_id _

namespace RectangularTessellator

/-- The tessellator after it has added tiles. -/
def add (t : RectangularTessellator E K) (tiles : List (RectTile E K)) : RectangularTessellator E K :=
  { t with
    currentTiles := t.currentTiles ++ tiles
    currentCoverage := tiles.foldl (fun coverage tile => some (union tile.sector coverage)) t.currentCoverage }

omit [Field K] [IsStrictOrderedRing K] in
theorem add_nil (t : RectangularTessellator E K) : t.add [] = t := by
  unfold add
  rw [List.append_nil, List.foldl_nil]

omit [Field K] [IsStrictOrderedRing K] in
theorem add_add (t : RectangularTessellator E K) (tiles tiles' : List (RectTile E K)) :
    (t.add tiles).add tiles' = t.add (tiles ++ tiles') := by
  unfold add
  rw [List.append_assoc, List.foldl_append]

omit [Field K] [IsStrictOrderedRing K] in
/-- A loop whose rounds add tiles adds them all. -/
theorem foldlM_add {α : Type*} {f : RectangularTessellator E K → α → Option (RectangularTessellator E K)}
    (tiles : α → List (RectTile E K)) (l : List α) (t : RectangularTessellator E K)
    (h : ∀ a ∈ l, ∀ added, f (t.add added) a = some ((t.add added).add (tiles a))) :
    l.foldlM f t = some (t.add (l.flatMap tiles)) := by
  suffices hall : ∀ added, l.foldlM f (t.add added) = some ((t.add added).add (l.flatMap tiles)) by
    simpa [add_nil] using hall []
  induction l with
  | nil => exact fun added => by simp [add_nil]
  | cons a l ih =>
    intro added
    rw [List.foldlM_cons, h a List.mem_cons_self, List.flatMap_cons, ← add_add, add_add t added]
    exact ih (fun b hb => h b (List.mem_cons_of_mem _ hb)) _

end RectangularTessellator

omit [IsStrictOrderedRing K] in
/-- **The descent returns**, and adds the taken ends of a pruned descent. -/
theorem selectVisibleTiles_eq (maxLevel : Int) (rounds : Nat) :
    ∀ (n : Nat) (tile : RectTile E K) (t : RectangularTessellator E K),
      (maxLevel - 1 - t.currentLevel).toNat = n → n < rounds →
      selectVisibleTiles dc maxLevel rounds tile t =
        some (t.add (taken (choice dc) (split dc t.density) n tile)) := by
  induction rounds with
  | zero => exact fun n _ _ _ h => absurd h (Nat.not_lt_zero n)
  | succ rounds ih =>
    intro n tile t hn hrounds
    unfold selectVisibleTiles
    by_cases hvisible : isVisible dc tile
    · rw [if_neg (not_not.2 hvisible)]
      by_cases hsplit : ¬ dc.atBestResolution tile ∧ dc.needToSplit tile
      · have hchoice : choice dc tile = .descend := by
          unfold choice
          rw [if_neg (not_not.2 hvisible), if_pos hsplit]
        by_cases hlevel : t.currentLevel < maxLevel - 1
        · -- one level further down one level less is left
          obtain ⟨m, rfl⟩ : ∃ m, n = m + 1 := ⟨n - 1, by omega⟩
          have hchildren := RectangularTessellator.foldlM_add
            (f := fun t child => selectVisibleTiles dc maxLevel rounds child t)
            (taken (choice dc) (split dc t.density) m) (split dc t.density tile)
            { t with currentLevel := t.currentLevel + 1 } fun child _ added =>
              ih m child (RectangularTessellator.add { t with currentLevel := t.currentLevel + 1 } added)
                (by show (maxLevel - 1 - (t.currentLevel + 1)).toNat = m; omega) (by omega)
          rw [if_pos ⟨hlevel, hsplit⟩, hchildren, Option.map_some, taken_descend hchoice]
          simp only [RectangularTessellator.add, add_sub_cancel_right]
        · obtain rfl : n = 0 := by omega
          rw [if_neg fun h => hlevel h.1, taken_zero, hchoice, if_neg (by decide)]
          rfl
      · have hchoice : choice dc tile = .take := by
          unfold choice
          rw [if_neg (not_not.2 hvisible), if_neg hsplit]
        rw [if_neg fun h => hsplit h.2, taken_take hchoice]
        rfl
    · have hchoice : choice dc tile = .discard := by
        unfold choice
        rw [if_pos hvisible]
      rw [if_pos hvisible, taken_discard hchoice, RectangularTessellator.add_nil]

/-! ## The sector of a frame -/

/-- One sector lies in another. -/
structure Within (s s' : Sector K) : Prop where
  minLatitude : s'.minLatitude ≤ s.minLatitude
  maxLatitude : s.maxLatitude ≤ s'.maxLatitude
  minLongitude : s'.minLongitude ≤ s.minLongitude
  maxLongitude : s.maxLongitude ≤ s'.maxLongitude

/-- The least sector around some sectors, if there are any. -/
def IsHull (sectors : List (Sector K)) : Option (Sector K) → Prop
  | none => sectors = []
  | some hull => (∀ s ∈ sectors, Within s hull) ∧ ∀ s', (∀ s ∈ sectors, Within s s') → Within hull s'

omit [Field K] [IsStrictOrderedRing K] in
theorem union_eq (s s' : Sector K) : union s (some s') =
    ⟨min s'.minLatitude s.minLatitude, max s.maxLatitude s'.maxLatitude, min s'.minLongitude s.minLongitude,
      max s.maxLongitude s'.maxLongitude⟩ := by
  unfold union
  simp only [gt_iff_lt, min_def_lt, max_def_lt]

omit [Field K] [IsStrictOrderedRing K] in
theorem union_isHull {sectors : List (Sector K)} {hull : Option (Sector K)} (h : IsHull sectors hull)
    (s : Sector K) : IsHull (sectors ++ [s]) (some (union s hull)) := by
  cases hull with
  | none =>
    obtain rfl : sectors = [] := h
    refine ⟨fun s' hs' => ?_, fun s' hs' => hs' s (by simp)⟩
    obtain rfl : s' = s := by simpa using hs'
    exact ⟨le_rfl, le_rfl, le_rfl, le_rfl⟩
  | some hull =>
    obtain ⟨hin, hleast⟩ := h
    rw [union_eq]
    constructor
    · intro s' hs'
      rcases List.mem_append.1 hs' with hs' | hs'
      · obtain ⟨h1, h2, h3, h4⟩ := hin s' hs'
        exact ⟨(min_le_left _ _).trans h1, h2.trans (le_max_right _ _), (min_le_left _ _).trans h3,
          h4.trans (le_max_right _ _)⟩
      · obtain rfl := List.mem_singleton.1 hs'
        exact ⟨min_le_right _ _, le_max_left _ _, min_le_right _ _, le_max_left _ _⟩
    · intro s' hs'
      obtain ⟨h1, h2, h3, h4⟩ := hleast s' fun t ht => hs' t (List.mem_append_left _ ht)
      obtain ⟨h5, h6, h7, h8⟩ := hs' s (by simp)
      exact ⟨le_min h1 h5, max_le h6 h2, le_min h3 h7, max_le h8 h4⟩

omit [Field K] [IsStrictOrderedRing K] in
theorem add_isHull (t : RectangularTessellator E K) (h : t.currentTiles = [] ∧ t.currentCoverage = none)
    (tiles : List (RectTile E K)) :
    IsHull (tiles.map RectTile.sector) (t.add tiles).currentCoverage := by
  have hfold : ∀ (l : List (RectTile E K)) (sectors : List (Sector K)) (hull : Option (Sector K)),
      IsHull sectors hull → IsHull (sectors ++ l.map RectTile.sector)
        (l.foldl (fun coverage tile => some (union tile.sector coverage)) hull) := by
    intro l
    induction l with
    | nil => exact fun sectors hull h => by simpa using h
    | cons tile l ih =>
      intro sectors hull h
      rw [List.foldl_cons, List.map_cons, List.append_cons]
      exact ih _ _ (union_isHull h tile.sector)
  simpa [RectangularTessellator.add, h.2] using hfold tiles [] none rfl

/-! ## Frames -/

/-- The tiles that a descent looks at. -/
inductive Reached (density : Int) (topLevels : List (RectTile E K)) : RectTile E K → Prop
  | top {tile : RectTile E K} : tile ∈ topLevels → Reached density topLevels tile
  | child {tile child : RectTile E K} : Reached density topLevels tile → choice dc tile = .descend →
      child ∈ split dc density tile → Reached density topLevels child

/-- What holds after a frame. -/
structure FrameTiles (maxLevel : Int) (t : RectangularTessellator E K) : Prop where
  /-- Tiles overlap at most on their edges. -/
  apart : t.currentTiles.Pairwise (Apart (fun tile => region tile.sector) fun tile => inner tile.sector)
  /-- A location without a tile is in a tile that is not in the frustum. -/
  cover : ∀ p ∈ (onGlobe : Set (LatLon K)), (∃ tile ∈ t.currentTiles, p ∈ region tile.sector) ∨
    ∃ tops tile, t.topLevels = some tops ∧ Reached dc t.density tops tile ∧ isVisible dc tile = false ∧
      p ∈ region tile.sector
  /-- The tiles are in the frustum, not too deep, and fine enough. -/
  tiles : ∀ tile ∈ t.currentTiles, isVisible dc tile = true ∧ 0 ≤ tile.level ∧
    tile.level ≤ max 0 (maxLevel - 1) ∧
    (maxLevel - 1 ≤ tile.level ∨ dc.atBestResolution tile = true ∨ dc.needToSplit tile = false)
  coverage : IsHull (t.currentTiles.map RectTile.sector) t.currentCoverage
  level : t.currentLevel = 0

/-- What holds between frames: the tiles at the top were made for some globe. -/
structure Ready (t : RectangularTessellator E K) : Prop where
  numLat : 0 < t.numLevel0LatSubdivisions
  numLon : 0 < t.numLevel0LonSubdivisions
  topLevels : ∀ tops, t.topLevels = some tops → ∃ dc : DrawContext E K, ∃ density : Int,
    tops = createTopLevelTiles dc density t.numLevel0LatSubdivisions t.numLevel0LonSubdivisions

omit [LinearOrder K] [IsStrictOrderedRing K] in
theorem level_of_mem_split {density : Int} {tile child : RectTile E K} (h : child ∈ split dc density tile) :
    child.level = tile.level + 1 := by
  obtain ⟨s, _, rfl⟩ := List.mem_map.1 h
  rfl

omit [IsStrictOrderedRing K] in
theorem level_of_mem_top {density : Int} {numLat numLon : Nat} {tile : RectTile E K}
    (h : tile ∈ createTopLevelTiles dc density numLat numLon) : tile.level = 0 := by
  obtain ⟨lat, _, h⟩ := List.mem_flatMap.1 h
  obtain ⟨lon, _, rfl⟩ := List.mem_map.1 h
  rfl

/-- One frame. -/
theorem tessellate_spec (maxLevel : Int) {t : RectangularTessellator E K} (h : Ready t) :
    ∃ t', tessellate dc maxLevel t = some t' ∧ Ready t' ∧ FrameTiles dc maxLevel t' := by
  obtain ⟨tops, htops⟩ : ∃ tops, tops = t.topLevels.getD
    (createTopLevelTiles dc t.density t.numLevel0LatSubdivisions t.numLevel0LonSubdivisions) := ⟨_, rfl⟩
  obtain ⟨dc', density, hmade⟩ : ∃ dc' : DrawContext E K, ∃ density : Int,
      tops = createTopLevelTiles dc' density t.numLevel0LatSubdivisions t.numLevel0LonSubdivisions := by
    cases hsome : t.topLevels with
    | none => exact ⟨dc, t.density, by rw [htops, hsome]; rfl⟩
    | some tops' =>
      obtain ⟨dc', density, heq⟩ := h.topLevels tops' hsome
      exact ⟨dc', density, by rw [htops, hsome, ← heq]; rfl⟩
  let start : RectangularTessellator E K :=
    { t with topLevels := some tops, currentTiles := [], currentLevel := 0, currentCoverage := none }
  let n := (maxLevel - 1).toNat
  let tiles := tops.flatMap (taken (choice dc) (split dc t.density) n)
  have hrun : tessellate dc maxLevel t = some (start.add tiles) := by
    unfold tessellate
    rw [← htops]
    refine RectangularTessellator.foldlM_add _ tops start fun tile _ added => ?_
    exact selectVisibleTiles_eq dc maxLevel _ n tile (start.add added)
      (by show (maxLevel - 1 - 0).toNat = _; rw [sub_zero]) (Nat.lt_succ_self _)
  have hends : ∀ e ∈ endsFrom (choice dc) (split dc t.density) n tops, ∃ m : Nat,
      (Reached dc t.density tops e.1 ∧ 0 ≤ e.1.level ∧ e.1.level + m = n) ∧
      ((e.2 = false ∧ choice dc e.1 = .discard) ∨
        (e.2 = true ∧ choice dc e.1 ≠ .discard ∧ (m = 0 ∨ choice dc e.1 = .take))) := by
    intro e he
    obtain ⟨top, htop, he⟩ := List.mem_flatMap.1 he
    have hlevel := level_of_mem_top dc' (hmade ▸ htop)
    refine ends_induction (P := fun m tile => Reached dc t.density tops tile ∧ 0 ≤ tile.level ∧ tile.level + m = n)
      (fun m tile hchoice htile child hchild => ?_) ⟨.top htop, hlevel.ge, by omega⟩ e he
    obtain ⟨hreached, hnonneg, hsum⟩ := htile
    have hchild' := level_of_mem_split dc hchild
    push_cast at hsum
    exact ⟨.child hreached hchoice hchild, by omega, by omega⟩
  have hchoice : ∀ tile, choice dc tile = .discard ↔ isVisible dc tile = false := by
    intro tile
    unfold choice
    split
    · simp_all
    · split <;> simp_all
  refine ⟨_, hrun, ⟨h.numLat, h.numLon, fun tops' heq => ⟨dc', density, ?_⟩⟩, ?_⟩
  · obtain rfl := Option.some.inj heq
    exact hmade
  · constructor
    · have htop := createTopLevelTiles_apart dc' density t.numLevel0LatSubdivisions t.numLevel0LonSubdivisions
      rw [← hmade] at htop
      exact taken_apart (split_splits dc t.density) htop
    · intro p hp
      obtain ⟨top, htop, hptop⟩ := createTopLevelTiles_cover dc' density h.numLat h.numLon hp
      rw [← hmade] at htop
      have hcover : ∃ e ∈ endsFrom (choice dc) (split dc t.density) n tops, p ∈ region e.1.sector :=
        endsFrom_cover (split_splits dc t.density) ⟨top, htop, hptop⟩
      obtain ⟨⟨tile, took⟩, he, hpe⟩ := hcover
      obtain ⟨m, ⟨hreached, -, -⟩, hend⟩ := hends _ he
      rcases hend with ⟨-, hdiscard⟩ | ⟨rfl, -⟩
      · exact Or.inr ⟨tops, tile, rfl, hreached, (hchoice tile).1 hdiscard, hpe⟩
      · obtain ⟨top', htop', he⟩ := List.mem_flatMap.1 he
        exact Or.inl ⟨tile, List.mem_flatMap.2 ⟨top', htop', mem_taken.2 he⟩, hpe⟩
    · intro tile htile
      obtain ⟨top, htop, htaken⟩ := List.mem_flatMap.1 (show tile ∈ tiles from htile)
      obtain ⟨m, ⟨-, hnonneg, hsum⟩, hend⟩ := hends (tile, true)
        (List.mem_flatMap.2 ⟨top, htop, mem_taken.1 htaken⟩)
      obtain ⟨hne, hfine⟩ : choice dc tile ≠ .discard ∧ (m = 0 ∨ choice dc tile = .take) := by
        rcases hend with ⟨hfalse, -⟩ | ⟨-, hne, hfine⟩
        · cases hfalse
        · exact ⟨hne, hfine⟩
      have hvisible : isVisible dc tile = true := by
        rw [← Bool.not_eq_false, ← hchoice]
        exact hne
      have hn : n = (maxLevel - 1).toNat := rfl
      dsimp only at hnonneg hsum
      refine ⟨hvisible, hnonneg, by omega, ?_⟩
      rcases hfine with rfl | htake
      · exact Or.inl (by omega)
      · right
        by_contra hnot
        rw [not_or, Bool.not_eq_false] at hnot
        unfold choice at htake
        rw [if_neg (not_not.2 hvisible), if_pos ⟨hnot.1, hnot.2⟩] at htake
        cases htake
    · exact add_isHull start ⟨rfl, rfl⟩ tiles
    · rfl

/-- **Every frame**, whatever frames were before it: it has a result, its tiles do
not overlap, and they cover what is in the frustum. -/
theorem frames_spec {numLat numLon : Nat} (hlat : 0 < numLat) (hlon : 0 < numLon) (density : Int)
    (calls : List (DrawContext E K × Int)) (call : DrawContext E K × Int) :
    ∃ t, frames (calls ++ [call]) (RectangularTessellator.new numLat numLon density) = some t ∧
      FrameTiles call.1 call.2 t := by
  have hall : ∀ calls : List (DrawContext E K × Int), ∃ t,
      frames calls (RectangularTessellator.new numLat numLon density : RectangularTessellator E K) = some t ∧
        Ready t := by
    intro calls
    induction calls using List.reverseRecOn with
    | nil => exact ⟨_, rfl, hlat, hlon, fun tops h => by cases h⟩
    | append_singleton calls call ih =>
      obtain ⟨t, ht, hready⟩ := ih
      obtain ⟨t', ht', hready', -⟩ := tessellate_spec call.1 call.2 hready
      refine ⟨t', ?_, hready'⟩
      unfold frames at ht ⊢
      rw [List.foldlM_append, ht, Option.bind_eq_bind, Option.bind_some, List.foldlM_cons, ht']
      rfl
  obtain ⟨t, ht, hready⟩ := hall calls
  obtain ⟨t', ht', -, hspec⟩ := tessellate_spec call.1 call.2 hready
  refine ⟨t', ?_, hspec⟩
  unfold frames at ht ⊢
  rw [List.foldlM_append, ht, Option.bind_eq_bind, Option.bind_some, List.foldlM_cons, ht']
  rfl

/-- A view that sees everything and splits what is coarser than five degrees. -/
def wholeView : DrawContext Unit ℚ where
  computeBoundingBox _ := some ()
  sectorHeight sector := sector.deltaLat
  intersects _ := true
  atBestResolution _ := false
  needToSplit tile := tile.cellSize > 5

theorem frames_wholeView : ∃ t, frames ([] ++ [(wholeView, 5)]) (RectangularTessellator.new 3 6 1) = some t ∧
    FrameTiles wholeView 5 t :=
  frames_spec (by decide) (by decide) 1 [] (wholeView, 5)

end WorldWind.Tessellator.TileSelection
