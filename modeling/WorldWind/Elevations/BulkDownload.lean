import WorldWind.Lib.Runs
/-!
# `BasicElevationModelBulkDownloader`

The run loop polls a list of missing tiles and submits them, again and again
until the list is empty; the post-processors of finished retrievals store a file
and then report the tile. A tile is counted from both places. The synchronized
methods are atomic: the loop of `submitMissingTilesRequests` holds the monitor
from `submit` to its last iteration, and `removeRetrievedTile` waits for it, but
files appear at any time.

`removeRetrievedTile` counts whether or not the list had the tile. Where it is
only called for tiles that the list has, each tile is counted once
(`run_countsOnce`).
-/

namespace WorldWind.Elevations.BulkDownload

open Lib.Runs

/-! ## The downloader -/

structure Progress where
  totalCount : Int
  totalSize : Int
  currentCount : Int
  currentSize : Int
  deriving DecidableEq, Repr

def normalizeProgress (p : Progress) : Progress :=
  if p.totalCount < p.currentCount then { p with totalCount := p.currentCount, totalSize := p.currentSize } else p

@[simp] theorem normalizeProgress_currentCount (p : Progress) :
    (normalizeProgress p).currentCount = p.currentCount := by
  rw [normalizeProgress]
  split <;> rfl

variable {Tile : Type*} [DecidableEq Tile]

/-- `polling` is the index in the loop of `submitMissingTilesRequests`, which then holds the monitor. A post-processor
has its retrieval in `retrieving` until its file is stored, and is in `finished` until it calls `removeRetrievedTile`.

The last three are histories: the tiles of the missing lists, the calls of `removeRetrievedTile`, and the tiles that
left the list as absent and have not been counted since. -/
structure State (Tile : Type*) where
  missingTiles : List Tile
  progress : Progress
  polling : Option Nat
  fileStore : List Tile
  retrieving : List Tile
  finished : List Tile
  wereMissing : List Tile
  counted : List Tile
  countedOff : List Tile
  deriving DecidableEq, Repr

namespace State

def removeRetrievedTile (s : State Tile) (averageTileSize : Int) (tile : Tile) : State Tile :=
  { s with
    missingTiles := s.missingTiles.erase tile
    progress := normalizeProgress { s.progress with
      currentCount := s.progress.currentCount + 1, currentSize := s.progress.currentSize + averageTileSize }
    counted := tile :: s.counted
    countedOff := s.countedOff.filter (· ≠ tile) }

def removeAbsentTile (s : State Tile) (averageTileSize : Int) (tile : Tile) : State Tile :=
  { s with
    missingTiles := s.missingTiles.erase tile
    progress := normalizeProgress { s.progress with
      totalCount := s.progress.totalCount - 1, totalSize := s.progress.totalSize - averageTileSize }
    countedOff := tile :: s.countedOff }

end State

inductive Action (Tile : Type*) where
  /-- The list is empty, and the run loop goes on with the tiles of the next region. -/
  | region (tiles : List Tile)
  /-- The run loop enters `submitMissingTilesRequests`. -/
  | submit
  /-- One iteration of its loop, with what the retrieval service and the level set say. -/
  | poll (isAvailable isResourceAbsent : Bool) (averageTileSize : Int)
  /-- The files of the store change. -/
  | files (fileStore : List Tile)
  /-- A retrieval ends without success. -/
  | fail (tile : Tile)
  /-- The post-processor of a successful retrieval stores its file, or fails to. -/
  | store (tile : Tile) (written : Bool)
  /-- The post-processor calls `removeRetrievedTile`. -/
  | retrieved (tile : Tile) (averageTileSize : Int)
  deriving DecidableEq, Repr

/-- None where the action is not possible. -/
def step (s : State Tile) : Action Tile → Option (State Tile)
  | .region tiles =>
    if s.polling = none ∧ s.missingTiles = [] ∧ tiles.Nodup then
      some { s with
        missingTiles := tiles, wereMissing := s.wereMissing ++ tiles, countedOff := s.countedOff.filter (· ∉ tiles) }
    else none
  | .submit => if s.polling = none then some { s with polling := some 0 } else none
  | .poll isAvailable isResourceAbsent averageTileSize =>
    s.polling.map fun i =>
      match s.missingTiles[i]? with
      | none => { s with polling := none }
      | some tile =>
        if isAvailable = false then { s with polling := none }
        else if isResourceAbsent then s.removeAbsentTile averageTileSize tile
        else if tile ∈ s.fileStore then s.removeRetrievedTile averageTileSize tile
        else { s with retrieving := tile :: s.retrieving, polling := some (i + 1) }
  | .files fileStore => some { s with fileStore }
  | .fail tile => if tile ∈ s.retrieving then some { s with retrieving := s.retrieving.erase tile } else none
  | .store tile written =>
    if tile ∈ s.retrieving then
      some { s with
        retrieving := s.retrieving.erase tile
        finished := tile :: s.finished
        fileStore := if written then tile :: s.fileStore else s.fileStore }
    else none
  | .retrieved tile averageTileSize =>
    if s.polling = none ∧ tile ∈ s.finished then
      some ({ s with finished := s.finished.erase tile }.removeRetrievedTile averageTileSize tile)
    else none

/-- A downloader that has counted nothing, with the estimate of what is missing. -/
def start (totalCount totalSize : Int) (fileStore : List Tile) : State Tile :=
  ⟨[], ⟨totalCount, totalSize, 0, 0⟩, none, fileStore, [], [], [], [], []⟩

/-! ## Tiles are counted once -/

/-- No tile is counted twice, and the count is not above the number of the tiles that were missing. -/
def CountsOnce (s : State Tile) : Prop :=
  s.counted.Nodup ∧ s.progress.currentCount ≤ s.wereMissing.toFinset.card

/-- A post-processor reports a tile that the list still has, or that left it as absent and has not been counted since.
A tile of a new region was not counted before. -/
def Reports (s : State Tile) : Action Tile → Prop
  | .region tiles => ∀ tile ∈ tiles, tile ∉ s.counted
  | .retrieved tile _ => tile ∈ s.missingTiles ∨ tile ∈ s.countedOff
  | _ => True

instance (s : State Tile) : ∀ a, Decidable (Reports s a)
  | .region tiles => inferInstanceAs (Decidable (∀ tile ∈ tiles, tile ∉ s.counted))
  | .retrieved tile _ => inferInstanceAs (Decidable (tile ∈ s.missingTiles ∨ tile ∈ s.countedOff))
  | .submit | .poll _ _ _ | .files _ | .fail _ | .store _ _ => inferInstanceAs (Decidable True)

structure Inv (s : State Tile) : Prop where
  missing : s.missingTiles.Nodup
  counted : s.counted.Nodup
  notMissing : ∀ tile ∈ s.counted, tile ∉ s.missingTiles
  notOff : ∀ tile ∈ s.counted, tile ∉ s.countedOff
  wereMissing : ∀ tile, tile ∈ s.wereMissing ↔ tile ∈ s.missingTiles ∨ tile ∈ s.counted ∨ tile ∈ s.countedOff
  retrievals : ∀ tile, tile ∈ s.retrieving ∨ tile ∈ s.finished → tile ∈ s.wereMissing
  count : s.progress.currentCount = s.counted.length

theorem Inv.countsOnce {s : State Tile} (h : Inv s) : CountsOnce s := by
  refine ⟨h.counted, ?_⟩
  rw [h.count, ← List.toFinset_card_of_nodup h.counted]
  have hsub : s.counted.toFinset ⊆ s.wereMissing.toFinset := by
    intro tile htile
    rw [List.mem_toFinset] at htile ⊢
    exact (h.wereMissing tile).2 (Or.inr (Or.inl htile))
  exact_mod_cast Finset.card_le_card hsub

/-- A tile that has not been counted is counted. -/
theorem Inv.removeRetrievedTile {s : State Tile} (h : Inv s) {tile : Tile}
    (hlisted : tile ∈ s.missingTiles ∨ tile ∈ s.countedOff) (averageTileSize : Int) :
    Inv (s.removeRetrievedTile averageTileSize tile) := by
  have hnew : tile ∉ s.counted := fun hmem =>
    hlisted.elim (h.notMissing tile hmem) (h.notOff tile hmem)
  refine ⟨h.missing.erase tile, List.nodup_cons.2 ⟨hnew, h.counted⟩, ?_, ?_, ?_, h.retrievals, ?_⟩
  · intro t ht
    rcases List.mem_cons.1 ht with rfl | ht
    · exact h.missing.not_mem_erase
    · exact fun hmem => h.notMissing t ht (List.mem_of_mem_erase hmem)
  · intro t ht hmem
    obtain ⟨hoff, hne⟩ := List.mem_filter.1 hmem
    rcases List.mem_cons.1 ht with rfl | ht
    · simp at hne
    · exact h.notOff t ht hoff
  · intro t
    simp only [State.removeRetrievedTile, h.wereMissing t, h.missing.mem_erase_iff, List.mem_cons, List.mem_filter,
      decide_eq_true_eq]
    by_cases ht : t = tile
    · subst ht
      tauto
    · tauto
  · simp only [State.removeRetrievedTile, normalizeProgress_currentCount, h.count, List.length_cons]
    push_cast
    rfl

/-- A tile of the list is counted off. -/
theorem Inv.removeAbsentTile {s : State Tile} (h : Inv s) {tile : Tile} (hlisted : tile ∈ s.missingTiles)
    (averageTileSize : Int) : Inv (s.removeAbsentTile averageTileSize tile) := by
  refine ⟨h.missing.erase tile, h.counted, ?_, ?_, ?_, h.retrievals, ?_⟩
  · exact fun t ht hmem => h.notMissing t ht (List.mem_of_mem_erase hmem)
  · intro t ht hmem
    rcases List.mem_cons.1 hmem with rfl | hmem
    · exact h.notMissing t ht hlisted
    · exact h.notOff t ht hmem
  · intro t
    simp only [State.removeAbsentTile, h.wereMissing t, h.missing.mem_erase_iff, List.mem_cons]
    by_cases ht : t = tile
    · subst ht
      tauto
    · tauto
  · rw [State.removeAbsentTile, normalizeProgress_currentCount]
    exact h.count

omit [DecidableEq Tile] in
/-- The invariant does not look at the files and the monitor, and of the retrievals it only knows the tiles. -/
theorem Inv.frame {s : State Tile} (h : Inv s) (polling : Option Nat) (fileStore : List Tile)
    {retrieving finished : List Tile} (hretrievals : ∀ tile, tile ∈ retrieving ∨ tile ∈ finished →
      tile ∈ s.wereMissing) :
    Inv { s with polling, fileStore, retrieving, finished } :=
  ⟨h.missing, h.counted, h.notMissing, h.notOff, h.wereMissing, hretrievals, h.count⟩

theorem Inv.region {s : State Tile} (h : Inv s) (hempty : s.missingTiles = []) {tiles : List Tile}
    (hnodup : tiles.Nodup) (hnew : ∀ tile ∈ tiles, tile ∉ s.counted) :
    Inv { s with
      missingTiles := tiles, wereMissing := s.wereMissing ++ tiles, countedOff :=
        s.countedOff.filter (· ∉ tiles) } := by
  refine ⟨hnodup, h.counted, fun t ht hmem => hnew t hmem ht, ?_, ?_, ?_, h.count⟩
  · exact fun t ht hmem => h.notOff t ht (List.mem_filter.1 hmem).1
  · intro t
    simp only [List.mem_append, h.wereMissing t, hempty, List.not_mem_nil, List.mem_filter, decide_eq_true_eq]
    tauto
  · exact fun t ht => List.mem_append_left _ (h.retrievals t ht)

theorem Inv.step {s s' : State Tile} {a : Action Tile} (h : Inv s) (hreports : Reports s a)
    (hstep : step s a = some s') :
    Inv s' := by
  cases a with
  | region tiles =>
    simp only [BulkDownload.step, Option.ite_none_right_eq_some, Option.some.injEq] at hstep
    obtain ⟨⟨-, hempty, hnodup⟩, rfl⟩ := hstep
    exact h.region hempty hnodup hreports
  | submit =>
    simp only [BulkDownload.step, Option.ite_none_right_eq_some, Option.some.injEq] at hstep
    obtain ⟨-, rfl⟩ := hstep
    exact h.frame _ _ h.retrievals
  | poll isAvailable isResourceAbsent averageTileSize =>
    simp only [BulkDownload.step, Option.map_eq_some_iff] at hstep
    obtain ⟨i, -, rfl⟩ := hstep
    split
    · exact h.frame _ _ h.retrievals
    · rename_i tile hget
      have hlisted : tile ∈ s.missingTiles := List.mem_of_getElem? hget
      split
      · exact h.frame _ _ h.retrievals
      · split
        · exact h.removeAbsentTile hlisted _
        · split
          · exact h.removeRetrievedTile (Or.inl hlisted) _
          · refine h.frame _ _ fun t ht => ?_
            rw [List.mem_cons, or_assoc] at ht
            rcases ht with rfl | ht
            · exact (h.wereMissing t).2 (Or.inl hlisted)
            · exact h.retrievals t ht
  | files fileStore =>
    obtain rfl := Option.some.inj hstep
    exact h.frame _ _ h.retrievals
  | fail tile =>
    simp only [BulkDownload.step, Option.ite_none_right_eq_some, Option.some.injEq] at hstep
    obtain ⟨-, rfl⟩ := hstep
    exact h.frame _ _ fun t ht => h.retrievals t (ht.imp_left List.mem_of_mem_erase)
  | store tile written =>
    simp only [BulkDownload.step, Option.ite_none_right_eq_some, Option.some.injEq] at hstep
    obtain ⟨hmem, rfl⟩ := hstep
    refine h.frame _ _ fun t ht => ?_
    rcases ht with ht | ht
    · exact h.retrievals t (Or.inl (List.mem_of_mem_erase ht))
    · rcases List.mem_cons.1 ht with rfl | ht
      · exact h.retrievals t (Or.inl hmem)
      · exact h.retrievals t (Or.inr ht)
  | retrieved tile averageTileSize =>
    simp only [BulkDownload.step, Option.ite_none_right_eq_some, Option.some.injEq] at hstep
    obtain ⟨-, rfl⟩ := hstep
    have hframe : Inv { s with finished := s.finished.erase tile } :=
      h.frame s.polling s.fileStore fun t ht => h.retrievals t (ht.imp_right List.mem_of_mem_erase)
    exact hframe.removeRetrievedTile hreports averageTileSize

omit [DecidableEq Tile] in
theorem Inv.start (totalCount totalSize : Int) (fileStore : List Tile) :
    Inv (start totalCount totalSize fileStore) := by
  refine ⟨List.nodup_nil, List.nodup_nil, ?_, ?_, fun t => by simp [BulkDownload.start], ?_, rfl⟩
  · exact fun _ h => absurd h List.not_mem_nil
  · exact fun _ h => absurd h List.not_mem_nil
  · rintro t (h | h) <;> exact absurd h List.not_mem_nil

/-- The condition on a post-processor is exact: its report counts a tile twice where it does not hold. -/
theorem retrieved_countsOnce_iff {s s' : State Tile} {tile : Tile} {averageTileSize : Int} (h : Inv s)
    (hstep : step s (.retrieved tile averageTileSize) = some s') :
    CountsOnce s' ↔ Reports s (.retrieved tile averageTileSize) := by
  refine ⟨fun honce => ?_, fun hreports => (h.step hreports hstep).countsOnce⟩
  simp only [step, Option.ite_none_right_eq_some, Option.some.injEq] at hstep
  obtain ⟨⟨-, hmem⟩, rfl⟩ := hstep
  have hnew : tile ∉ s.counted := (List.nodup_cons.1 honce.1).1
  rcases (h.wereMissing tile).1 (h.retrievals tile (Or.inr hmem)) with hlisted | hcounted | hoff
  · exact Or.inl hlisted
  · exact absurd hcounted hnew
  · exact Or.inr hoff

/-- In a run whose post-processors report tiles that the list still has, every state has counted each tile at most
once. -/
theorem run_countsOnce {totalCount totalSize : Int} {fileStore : List Tile} {actions : List (Action Tile)}
    {s : State Tile} (hreports : Along step Reports (start totalCount totalSize fileStore) actions)
    (hrun : run step (start totalCount totalSize fileStore) actions = some s) : CountsOnce s :=
  (run_inv_along (fun _ _ _ => Inv.step) (Inv.start totalCount totalSize fileStore) hreports hrun).countsOnce

/-- The tile is submitted, its file is stored and reported, and the next poll goes over the empty list. -/
def oneTile : List (Action Nat) :=
  [.region [7], .submit, .poll true false 1, .poll true false 1, .store 7 true, .retrieved 7 1]

theorem oneTile_countsOnce : CountsOnce ((run step (start 1 1 []) oneTile).get (by decide)) := by
  have hreports : Along step Reports (start 1 1 []) oneTile := by decide
  exact run_countsOnce hreports (Option.some_get _).symm

/-- The poller finds the file before the post-processor reports it. -/
def foundFirst : List (Action Nat) :=
  [.region [7], .submit, .poll true false 1, .poll true false 1, .store 7 true, .submit, .poll true false 1,
    .poll true false 1, .retrieved 7 1]

theorem foundFirst_countsTwice : ∃ s, run step (start 1 1 []) foundFirst = some s ∧ ¬ CountsOnce s ∧
    s.progress.currentCount = 2 ∧ s.wereMissing = [7] := by
  refine ⟨_, rfl, ?_, by decide, by decide⟩
  rintro ⟨hnodup, -⟩
  revert hnodup
  decide

end WorldWind.Elevations.BulkDownload
