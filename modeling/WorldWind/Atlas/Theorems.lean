import WorldWind.Atlas.Model
/-!
# The map of an atlas and its rectangle packer

`doAdd` puts the new entry into the map before the packer has accepted the
rectangle. An exception leaves it there (`sync_full`), and with eviction the new
entry may be taken out again before its rectangle goes in. A run keeps the map
and the packer together exactly when no `add` comes to that (`always_consistent_iff`).
-/

namespace WorldWind.Atlas

open Lib.JavaInt Lib.Runs TextureAtlas

variable {K : Type}

/-! ## The least recently used entry -/

theorem leastRecentlyUsed_perm (order : IterationOrder K) (entries : List (Entry K)) :
    ((order.values entries).insertionSort fun a b => a.compareTo b ≤ 0).Perm entries :=
  (List.perm_insertionSort _ _).trans (order.perm entries)

theorem leastRecentlyUsed_mem {order : IterationOrder K} {entries : List (Entry K)} {v : Entry K}
    (h : leastRecentlyUsed order entries = some v) : v ∈ entries :=
  (leastRecentlyUsed_perm order entries).subset (List.mem_of_head? h)

theorem leastRecentlyUsed_isSome {order : IterationOrder K} {entries : List (Entry K)} {e : Entry K}
    (he : e ∈ entries) : ∃ v, leastRecentlyUsed order entries = some v := by
  rw [leastRecentlyUsed, ← Option.isSome_iff_exists, List.isSome_head?]
  intro hnil
  exact List.not_mem_nil (hnil ▸ (leastRecentlyUsed_perm order entries).symm.subset he)

theorem leastRecentlyUsed_nil (order : IterationOrder K) : leastRecentlyUsed order [] = none := by
  rw [leastRecentlyUsed, (leastRecentlyUsed_perm order []).eq_nil]
  rfl

theorem compareTo_le {a b : Entry K} : a.compareTo b ≤ 0 ↔ a.lastUsed ≤ b.lastUsed := by
  rw [Entry.compareTo]
  split_ifs <;> omega

theorem leastRecentlyUsed_le {order : IterationOrder K} {entries : List (Entry K)} {v e : Entry K}
    (h : leastRecentlyUsed order entries = some v) (he : e ∈ entries) : v.lastUsed ≤ e.lastUsed := by
  have htotal : Std.Total fun a b : Entry K => a.compareTo b ≤ 0 := ⟨fun a b => by
    rw [compareTo_le, compareTo_le]
    exact le_total _ _⟩
  have htrans : IsTrans (Entry K) fun a b => a.compareTo b ≤ 0 := ⟨fun a b c => by
    rw [compareTo_le, compareTo_le, compareTo_le]
    exact le_trans⟩
  have hsorted := List.pairwise_insertionSort (fun a b : Entry K => a.compareTo b ≤ 0) (order.values entries)
  have hmem := (leastRecentlyUsed_perm order entries).symm.subset he
  obtain ⟨rest, hrest⟩ := List.head?_eq_some_iff.1 h
  rw [hrest] at hsorted hmem
  rcases List.mem_cons.1 hmem with rfl | hmem
  · exact le_rfl
  · exact compareTo_le.1 (List.rel_of_pairwise_cons hsorted hmem)

/-! ## Entries and rectangles -/

/-- What every operation keeps: a key and a rectangle belong to one entry, and the next rectangle is a new one. -/
structure Sane (atlas : TextureAtlas K) : Prop where
  keys : (atlas.entryMap.map Entry.key).Nodup
  distinct : ∀ e ∈ atlas.entryMap, ∀ e' ∈ atlas.entryMap, e.rect = e'.rect → e = e'
  entries : ∀ e ∈ atlas.entryMap, e.rect.id < atlas.created
  held : ∀ r ∈ atlas.rects, r.id < atlas.created

/-- The packer holds the rectangles of the entries with a property. -/
def Holds (p : Entry K → Prop) (atlas : TextureAtlas K) : Prop :=
  ∀ r, r ∈ atlas.rects ↔ ∃ e ∈ atlas.entryMap, p e ∧ e.rect = r

/-- The rectangles of the entries are exactly those that the packer holds. -/
def Sync (atlas : TextureAtlas K) : Prop := ∀ r, r ∈ atlas.rects ↔ ∃ e ∈ atlas.entryMap, e.rect = r

theorem holds_iff_sync {p : Entry K → Prop} {atlas : TextureAtlas K} (h : ∀ e ∈ atlas.entryMap, p e) :
    Holds p atlas ↔ Sync atlas :=
  forall_congr' fun _ => iff_congr Iff.rfl
    (exists_congr fun e => and_congr_right fun he => and_iff_right (h e he))

variable {atlas : TextureAtlas K}

/-- Entries of a map with one key are one entry. -/
theorem Sane.eq_of_key (h : Sane atlas) {e e' : Entry K} (he : e ∈ atlas.entryMap) (he' : e' ∈ atlas.entryMap)
    (hkey : e.key = e'.key) : e = e' := List.inj_on_of_nodup_map h.keys he he' hkey

variable [DecidableEq K]

theorem mem_removeKey {entries : List (Entry K)} {key : K} {e : Entry K} :
    e ∈ removeKey entries key ↔ e ∈ entries ∧ e.key ≠ key := by
  rw [removeKey, List.mem_filter, decide_eq_true_eq]

theorem removeKey_of_not_mem {entries : List (Entry K)} {key : K} (h : ∀ e ∈ entries, e.key ≠ key) :
    removeKey entries key = entries := List.filter_eq_self.2 fun e he => decide_eq_true (h e he)

/-- The atlas when an entry is taken out of the map and the packer. -/
def without (atlas : TextureAtlas K) (e : Entry K) : TextureAtlas K :=
  { atlas with entryMap := removeKey atlas.entryMap e.key }.doRemove e

theorem mem_without (h : Sane atlas) {e x : Entry K} (he : e ∈ atlas.entryMap) :
    x ∈ (without atlas e).entryMap ↔ x ∈ atlas.entryMap ∧ x ≠ e := by
  rw [without, doRemove, mem_removeKey]
  exact and_congr_right fun hx => not_congr ⟨h.eq_of_key hx he, congrArg Entry.key⟩

theorem Sane.without (h : Sane atlas) (e : Entry K) : Sane (without atlas e) where
  keys := h.keys.sublist (List.filter_sublist.map _)
  distinct x hx y hy := h.distinct x (mem_removeKey.1 hx).1 y (mem_removeKey.1 hy).1
  entries x hx := h.entries x (mem_removeKey.1 hx).1
  held r hr := h.held r (List.mem_filter.1 hr).1

/-- An entry less, and its rectangle, if the packer holds it. -/
theorem Holds.without {p : Entry K → Prop} (hs : Sane atlas) (h : Holds p atlas) {e : Entry K}
    (he : e ∈ atlas.entryMap) : Holds p (without atlas e) := by
  intro r
  have hmem : r ∈ (Atlas.without atlas e).rects ↔ r ∈ atlas.rects ∧ r ≠ e.rect := by
    rw [Atlas.without, doRemove, List.mem_filter, decide_eq_true_eq]
  rw [hmem, h r]
  constructor
  · rintro ⟨⟨x, hx, hpx, rfl⟩, hne⟩
    exact ⟨x, (mem_without hs he).2 ⟨hx, fun heq => hne (congrArg Entry.rect heq)⟩, hpx, rfl⟩
  · rintro ⟨x, hx, hpx, rfl⟩
    obtain ⟨hx, hne⟩ := (mem_without hs he).1 hx
    exact ⟨⟨x, hx, hpx, rfl⟩, fun heq => hne (hs.distinct x hx e he heq)⟩

theorem length_without (h : Sane atlas) {e : Entry K} (he : e ∈ atlas.entryMap) :
    (without atlas e).entryMap.length + 1 = atlas.entryMap.length := by
  have hfilter : (without atlas e).entryMap = atlas.entryMap.erase e := by
    rw [List.Nodup.erase_eq_filter h.keys.of_map]
    refine List.filter_congr fun x hx => ?_
    by_cases hxe : x = e
    · simp [hxe]
    · simp [hxe, mt (h.eq_of_key hx he) hxe]
  rw [hfilter, List.length_erase_of_mem he]
  have := List.length_pos_of_mem he
  omega

/-! ## Removing -/

theorem get_mem {key : K} {e : Entry K} (h : atlas.get key = some e) : e ∈ atlas.entryMap ∧ e.key = key := by
  have hkey := List.find?_some h
  exact ⟨List.mem_of_find?_eq_some h, of_decide_eq_true hkey⟩

/-- `remove` takes out the entry of the key, if there is one. -/
theorem remove_cases (atlas : TextureAtlas K) (key : K) :
    (atlas.remove key = atlas ∧ ∀ e ∈ atlas.entryMap, e.key ≠ key) ∨
      ∃ e ∈ atlas.entryMap, e.key = key ∧ atlas.remove key = without atlas e := by
  rw [remove]
  match h : atlas.get key with
  | none => exact Or.inl ⟨rfl, fun e he heq => List.find?_eq_none.1 h e he (decide_eq_true heq)⟩
  | some e =>
    obtain ⟨he, rfl⟩ := get_mem h
    exact Or.inr ⟨e, he, rfl, rfl⟩

theorem remove_entryMap (atlas : TextureAtlas K) (key : K) :
    (atlas.remove key).entryMap = removeKey atlas.entryMap key := by
  rcases remove_cases atlas key with ⟨heq, hne⟩ | ⟨e, -, rfl, heq⟩
  · rw [heq, removeKey_of_not_mem hne]
  · rw [heq]
    rfl

theorem remove_created (atlas : TextureAtlas K) (key : K) : (atlas.remove key).created = atlas.created := by
  rcases remove_cases atlas key with ⟨heq, -⟩ | ⟨e, -, -, heq⟩
  · rw [heq]
  · rw [heq]
    rfl

theorem remove_evictOldElements (atlas : TextureAtlas K) (key : K) :
    (atlas.remove key).evictOldElements = atlas.evictOldElements := by
  rcases remove_cases atlas key with ⟨heq, -⟩ | ⟨e, -, -, heq⟩
  · rw [heq]
  · rw [heq]
    rfl

theorem Sane.remove (h : Sane atlas) (key : K) : Sane (atlas.remove key) := by
  rcases remove_cases atlas key with ⟨heq, -⟩ | ⟨e, -, -, heq⟩
  · rwa [heq]
  · rw [heq]
    exact h.without e

theorem Sync.remove (hs : Sane atlas) (h : Sync atlas) (key : K) : Sync (atlas.remove key) := by
  rcases remove_cases atlas key with ⟨heq, -⟩ | ⟨e, he, -, heq⟩
  · rwa [heq]
  · have hholds : Holds (fun _ => True) atlas := (holds_iff_sync fun _ _ => trivial).2 h
    rw [heq]
    exact (holds_iff_sync fun _ _ => trivial).1 (hholds.without hs he)

theorem additionFailed_eq_some {order : IterationOrder K} {atlas' : TextureAtlas K}
    (h : atlas.additionFailed order = some atlas') :
    ∃ v, leastRecentlyUsed order atlas.entryMap = some v ∧ v ∈ atlas.entryMap ∧ atlas' = without atlas v := by
  rw [additionFailed] at h
  split_ifs at h
  rw [removeLeastRecentlyUsedEntry, Option.map_eq_some_iff] at h
  obtain ⟨v, hv, rfl⟩ := h
  exact ⟨v, hv, leastRecentlyUsed_mem hv, rfl⟩

theorem additionFailed_of_some {order : IterationOrder K} {v : Entry K} (hevict : atlas.evictOldElements = true)
    (h : leastRecentlyUsed order atlas.entryMap = some v) : atlas.additionFailed order = some (without atlas v) := by
  rw [additionFailed, if_pos hevict, removeLeastRecentlyUsedEntry, h]
  rfl

/-! ## The packer -/

theorem Sane.packerAdd {rect : Rect} {failures : List (IterationOrder K)} (h : Sane atlas)
    (hrect : rect.id < atlas.created) : Sane (packerAdd rect atlas failures).1 := by
  induction failures generalizing atlas with
  | nil =>
    refine ⟨h.keys, h.distinct, h.entries, fun r hr => ?_⟩
    rcases List.mem_append.1 hr with hr | hr
    · exact h.held r hr
    · exact List.mem_singleton.1 hr ▸ hrect
  | cons order failures ih =>
    rw [TextureAtlas.packerAdd]
    match hfail : atlas.additionFailed order with
    | none => exact h
    | some atlas' =>
      obtain ⟨v, -, -, rfl⟩ := additionFailed_eq_some hfail
      exact ih (h.without v) hrect

/-- The packer's calls take out other entries than the new one. -/
def PicksOther (new : Entry K) : List (Entry K) → List (IterationOrder K) → Prop
  | _, [] => True
  | entries, order :: failures =>
    leastRecentlyUsed order entries ≠ some new ∧
      ∀ victim, leastRecentlyUsed order entries = some victim → PicksOther new (removeKey entries victim.key) failures

/-- The packer takes the rectangle it was missing. -/
theorem sync_accept {new : Entry K} (hholds : Holds (· ≠ new) atlas) (hnew : new ∈ atlas.entryMap) :
    Sync { atlas with rects := atlas.rects ++ [new.rect] } := by
  intro r
  rw [List.mem_append, hholds r, List.mem_singleton]
  constructor
  · rintro (⟨e, he, -, rfl⟩ | rfl)
    · exact ⟨e, he, rfl⟩
    · exact ⟨new, hnew, rfl⟩
  · rintro ⟨e, he, rfl⟩
    by_cases hen : e = new
    · exact Or.inr (congrArg Entry.rect hen)
    · exact Or.inl ⟨e, he, hen, rfl⟩

/-- When the new entry has been taken out, its rectangle is orphaned unless everything goes and the packer
gives up. -/
theorem sync_packerAdd_evicted {new : Entry K} {failures : List (IterationOrder K)} (hs : Sane atlas)
    (hevict : atlas.evictOldElements = true) (hsync : Sync atlas) (hnew : ∀ e ∈ atlas.entryMap, e.rect ≠ new.rect) :
    Sync (packerAdd new.rect atlas failures).1 ↔ atlas.entryMap.length < failures.length := by
  induction failures generalizing atlas with
  | nil =>
    refine iff_of_false (fun h => ?_) (Nat.not_lt_zero _)
    obtain ⟨e, he, heq⟩ := (h new.rect).1 (List.mem_append_right _ List.mem_cons_self)
    exact hnew e he heq
  | cons order failures ih =>
    rw [TextureAtlas.packerAdd]
    match hl : leastRecentlyUsed order atlas.entryMap with
    | none =>
      have hnil : atlas.entryMap = [] := by
        by_contra hne
        obtain ⟨e, he⟩ := List.exists_mem_of_ne_nil _ hne
        obtain ⟨v, hv⟩ := @leastRecentlyUsed_isSome _ order _ _ he
        rw [hl] at hv
        cases hv
      have hfail : atlas.additionFailed order = none := by
        rw [additionFailed, if_pos hevict, removeLeastRecentlyUsedEntry, hl]
        rfl
      rw [hfail]
      refine iff_of_true hsync ?_
      rw [hnil]
      exact Nat.succ_pos _
    | some v =>
      have hv := leastRecentlyUsed_mem hl
      have hsync' : Sync (without atlas v) :=
        (holds_iff_sync fun _ _ => trivial).1 (((holds_iff_sync fun _ _ => trivial).2 hsync).without hs hv)
      rw [additionFailed_of_some hevict hl]
      have hstep := ih (hs.without v) hevict hsync' fun e he => hnew e ((mem_without hs hv).1 he).1
      have hlen := length_without hs hv
      rw [hstep, List.length_cons]
      omega

theorem sync_packerAdd {new : Entry K} {failures : List (IterationOrder K)} (hs : Sane atlas)
    (hevict : atlas.evictOldElements = true) (hholds : Holds (· ≠ new) atlas) (hnew : new ∈ atlas.entryMap) :
    Sync (packerAdd new.rect atlas failures).1 ↔
      atlas.entryMap.length < failures.length ∨ PicksOther new atlas.entryMap failures := by
  induction failures generalizing atlas with
  | nil => exact iff_of_true (sync_accept hholds hnew) (Or.inr trivial)
  | cons order failures ih =>
    obtain ⟨v, hl⟩ := @leastRecentlyUsed_isSome _ order _ _ hnew
    have hv := leastRecentlyUsed_mem hl
    have hholds' := hholds.without hs hv
    have hlen := length_without hs hv
    rw [TextureAtlas.packerAdd, additionFailed_of_some hevict hl]
    by_cases hvn : v = new
    · -- the new entry goes, while its rectangle is not in the packer
      subst hvn
      have hother : ∀ e ∈ (without atlas v).entryMap, e ≠ v := fun e he => ((mem_without hs hv).1 he).2
      have hpicks : ¬PicksOther v atlas.entryMap (order :: failures) := fun h => h.1 hl
      have hout := @sync_packerAdd_evicted _ _ _ _ failures (hs.without v) hevict
        ((holds_iff_sync hother).1 hholds') fun e he heq =>
          hother e he (hs.distinct e ((mem_without hs hv).1 he).1 v hnew heq)
      rw [or_iff_left hpicks, hout, List.length_cons]
      omega
    · have hin := ih (hs.without v) hevict hholds' ((mem_without hs hv).2 ⟨hnew, Ne.symm hvn⟩)
      have hpicks : PicksOther new atlas.entryMap (order :: failures) ↔
          PicksOther new (without atlas v).entryMap failures := by
        rw [PicksOther, hl]
        constructor
        · exact fun h => h.2 v rfl
        · refine fun h => ⟨fun heq => hvn (Option.some.inj heq), fun victim hvictim => ?_⟩
          obtain rfl := Option.some.inj hvictim
          exact h
      rw [hin, hpicks, List.length_cons]
      exact or_congr_left (by omega)

/-- Without eviction, an exception leaves the new entry in the map, and its rectangle out of the packer. -/
theorem sync_full {new : Entry K} {failures : List (IterationOrder K)} (hs : Sane atlas)
    (hevict : atlas.evictOldElements = false) (hholds : Holds (· ≠ new) atlas) (hnew : new ∈ atlas.entryMap)
    (hfull : failures ≠ []) : ¬Sync (packerAdd new.rect atlas failures).1 := by
  obtain ⟨order, failures, rfl⟩ := List.exists_cons_of_ne_nil hfull
  rw [TextureAtlas.packerAdd, additionFailed, hevict, if_neg Bool.false_ne_true]
  intro h
  obtain ⟨e, he, hne, heq⟩ := (hholds new.rect).1 ((h new.rect).2 ⟨new, hnew, rfl⟩)
  exact hne (hs.distinct e he new hnew heq)

omit [DecidableEq K] in
/-- The entries that were last used before another one. -/
def older (new : Entry K) (entries : List (Entry K)) : List (Entry K) :=
  entries.filter fun e => e.lastUsed < new.lastUsed

/-- The new entry is not picked before all older ones are gone. -/
theorem picksOther_of_older {new : Entry K} {entries : List (Entry K)} {failures : List (IterationOrder K)}
    (hkeys : (entries.map Entry.key).Nodup) (h : failures.length ≤ (older new entries).length) :
    PicksOther new entries failures := by
  induction failures generalizing entries with
  | nil => trivial
  | cons order failures ih =>
    obtain ⟨e, he⟩ := List.exists_mem_of_length_pos (Nat.lt_of_lt_of_le (Nat.succ_pos failures.length) h)
    obtain ⟨he, hlt⟩ := List.mem_filter.1 he
    have hbefore : ∀ v, leastRecentlyUsed order entries = some v → v.lastUsed < new.lastUsed := fun v hv =>
      (leastRecentlyUsed_le hv he).trans_lt (of_decide_eq_true hlt)
    refine ⟨fun hnew => lt_irrefl _ (hbefore new hnew), fun v hv => ih (hkeys.sublist (List.filter_sublist.map _)) ?_⟩
    -- the victim is the only older entry that goes
    have hvmem : v ∈ older new entries :=
      List.mem_filter.2 ⟨leastRecentlyUsed_mem hv, decide_eq_true (hbefore v hv)⟩
    have hless : older new (removeKey entries v.key) = (older new entries).erase v := by
      have hnodup : (older new entries).Nodup := (List.Nodup.of_map _ hkeys).filter _
      rw [hnodup.erase_eq_filter, older, removeKey, older, List.filter_filter, List.filter_filter]
      refine List.filter_congr fun x hx => ?_
      have hkey : x.key = v.key ↔ x = v :=
        ⟨List.inj_on_of_nodup_map hkeys hx (leastRecentlyUsed_mem hv), congrArg Entry.key⟩
      by_cases hxv : x = v <;> simp [hxv, hkey]
    rw [hless, List.length_erase_of_mem hvmem]
    exact Nat.le_sub_one_of_lt h

/-! ## Adding -/

/-- The entries when the packer is called. -/
def entriesAtAdd (atlas : TextureAtlas K) (key : K) (width height now : Int) : List (Entry K) :=
  removeKey atlas.entryMap key ++ [atlas.newEntry key width height now]

/-- The atlas when the packer is called. -/
def atAdd (atlas : TextureAtlas K) (key : K) (width height now : Int) : TextureAtlas K :=
  { atlas.remove key with
    entryMap := entriesAtAdd atlas key width height now
    created := atlas.created + 1 }

theorem doAdd_eq (atlas : TextureAtlas K) (key : K) (width height now : Int) (failures : List (IterationOrder K)) :
    atlas.doAdd key width height now failures =
      packerAdd (atlas.newEntry key width height now).rect (atAdd atlas key width height now) failures := by
  rw [doAdd, remove_entryMap, remove_created]
  rfl

section

variable {key : K} {width height now : Int}

theorem removeKey_rect_ne (hs : Sane atlas) {e : Entry K} (he : e ∈ removeKey atlas.entryMap key) :
    e.rect ≠ (atlas.newEntry key width height now).rect := fun heq =>
  absurd (hs.entries e (mem_removeKey.1 he).1) (by rw [heq]; exact lt_irrefl atlas.created)

theorem Sane.atAdd (hs : Sane atlas) : Sane (atAdd atlas key width height now) where
  keys := by
    have hkeys : ((removeKey atlas.entryMap key).map Entry.key).Nodup := hs.keys.sublist (List.filter_sublist.map _)
    rw [Atlas.atAdd, entriesAtAdd, List.map_append, List.map_singleton]
    refine hkeys.append (List.nodup_singleton _) (List.disjoint_singleton.2 fun hmem => ?_)
    obtain ⟨e, he, heq⟩ := List.mem_map.1 hmem
    exact (mem_removeKey.1 he).2 heq
  distinct := by
    intro e he e' he' heq
    rcases List.mem_append.1 he with he | he <;> rcases List.mem_append.1 he' with he' | he'
    · exact hs.distinct e (mem_removeKey.1 he).1 e' (mem_removeKey.1 he').1 heq
    · rw [List.mem_singleton.1 he'] at heq
      exact absurd heq (removeKey_rect_ne hs he)
    · rw [List.mem_singleton.1 he] at heq
      exact absurd heq.symm (removeKey_rect_ne hs he')
    · rw [List.mem_singleton.1 he, List.mem_singleton.1 he']
  entries := by
    intro e he
    rcases List.mem_append.1 he with he | he
    · exact Nat.lt_succ_of_lt (hs.entries e (mem_removeKey.1 he).1)
    · rw [List.mem_singleton.1 he]
      exact Nat.lt_succ_self _
  held r hr := by
    have hheld := (hs.remove key).held r hr
    rw [remove_created] at hheld
    exact Nat.lt_succ_of_lt hheld

/-- At that time only the new rectangle is missing from the packer. -/
theorem holds_atAdd (hs : Sane atlas) (h : Sync atlas) :
    Holds (· ≠ atlas.newEntry key width height now) (atAdd atlas key width height now) := by
  intro r
  change r ∈ (atlas.remove key).rects ↔ _
  rw [h.remove hs key r, remove_entryMap]
  constructor
  · rintro ⟨e, he, rfl⟩
    exact ⟨e, List.mem_append_left _ he, fun heq => removeKey_rect_ne hs he (congrArg Entry.rect heq), rfl⟩
  · rintro ⟨e, he, hne, rfl⟩
    rcases List.mem_append.1 he with he | he
    · exact ⟨e, he, rfl⟩
    · exact absurd (List.mem_singleton.1 he) hne

/-- When an `add` keeps the map and the packer together: without eviction, when the rectangle fits at once. -/
def Accepted (atlas : TextureAtlas K) (key : K) (width height now : Int) (failures : List (IterationOrder K)) :
    Prop :=
  if atlas.evictOldElements then
    (entriesAtAdd atlas key width height now).length < failures.length ∨
      PicksOther (atlas.newEntry key width height now) (entriesAtAdd atlas key width height now) failures
  else failures = []

theorem sync_doAdd_iff {failures : List (IterationOrder K)} (hs : Sane atlas) (h : Sync atlas) :
    Sync (atlas.doAdd key width height now failures).1 ↔ Accepted atlas key width height now failures := by
  have hholds := @holds_atAdd _ _ _ key width height now hs h
  have hnew : atlas.newEntry key width height now ∈ (atAdd atlas key width height now).entryMap :=
    List.mem_append_right _ List.mem_cons_self
  have hevict : (atAdd atlas key width height now).evictOldElements = atlas.evictOldElements :=
    remove_evictOldElements atlas key
  rw [doAdd_eq, Accepted]
  by_cases he : atlas.evictOldElements = true
  · rw [if_pos he]
    exact sync_packerAdd hs.atAdd (hevict.trans he) hholds hnew
  · rw [if_neg he]
    constructor
    · intro hsync
      by_contra hfull
      exact sync_full hs.atAdd (hevict.trans (Bool.eq_false_iff.2 he)) hholds hnew hfull hsync
    · rintro rfl
      exact sync_accept hholds hnew

end

/-! ## Runs -/

/-- The map and the packer are together, and without eviction an `add` that threw has changed no size. -/
structure Consistent (moment : Moment K) : Prop where
  sync : Sync moment.atlas
  unchanged : ∀ before, moment.thrown = some before → before.evictOldElements = false →
    ∀ key, moment.atlas.contains key = before.contains key ∧ moment.atlas.getSize key = before.getSize key

/-- An `add` is refused before anything is done, or it keeps the map and the packer together. -/
def Meets (moment : Moment K) : Operation K → Prop
  | .add key width height now failures =>
    moment.atlas.tooLarge width height = true ∨ Accepted moment.atlas key width height now failures
  | _ => True

theorem Sane.markUsed (h : Sane atlas) (key : K) (now : Int) : Sane (atlas.markUsed key now) := by
  have hmem : ∀ x ∈ (atlas.markUsed key now).entryMap, ∃ e ∈ atlas.entryMap,
      (if e.key = key then { e with lastUsed := now } else e) = x := fun x hx => List.mem_map.1 hx
  have hrect : ∀ e : Entry K, (if e.key = key then { e with lastUsed := now } else e).rect = e.rect := fun e => by
    split_ifs <;> rfl
  refine ⟨?_, ?_, ?_, h.held⟩
  · have hkeys : (atlas.markUsed key now).entryMap.map Entry.key = atlas.entryMap.map Entry.key := by
      rw [TextureAtlas.markUsed, List.map_map]
      refine List.map_congr_left fun e _ => ?_
      rw [Function.comp_apply]
      split_ifs <;> rfl
    rw [hkeys]
    exact h.keys
  · intro x hx y hy heq
    obtain ⟨e, he, rfl⟩ := hmem x hx
    obtain ⟨e', he', rfl⟩ := hmem y hy
    rw [hrect, hrect] at heq
    rw [h.distinct e he e' he' heq]
  · intro x hx
    obtain ⟨e, he, rfl⟩ := hmem x hx
    rw [hrect]
    exact h.entries e he

theorem Sync.markUsed (h : Sync atlas) (key : K) (now : Int) : Sync (atlas.markUsed key now) := by
  intro r
  have hrect : ∀ e : Entry K, (if e.key = key then { e with lastUsed := now } else e).rect = e.rect := fun e => by
    split_ifs <;> rfl
  refine (h r).trans ⟨?_, ?_⟩
  · rintro ⟨e, he, rfl⟩
    exact ⟨_, List.mem_map_of_mem he, hrect e⟩
  · rintro ⟨x, hx, rfl⟩
    obtain ⟨e, he, rfl⟩ := List.mem_map.1 hx
    exact ⟨e, he, (hrect e).symm⟩

theorem Sane.add (h : Sane atlas) (key : K) (width height now : Int) (failures : List (IterationOrder K)) :
    Sane (atlas.add key width height now failures).1 := by
  rw [TextureAtlas.add]
  split_ifs
  · exact h
  · rw [doAdd_eq]
    exact h.atAdd.packerAdd (Nat.lt_succ_self atlas.created)

omit [DecidableEq K] in
theorem sane_clear (atlas : TextureAtlas K) : Sane atlas.clear where
  keys := List.nodup_nil
  distinct _ he := absurd he List.not_mem_nil
  entries _ he := absurd he List.not_mem_nil
  held _ hr := absurd hr List.not_mem_nil

theorem sane_step {moment moment' : Moment K} {operation : Operation K} (h : Sane moment.atlas)
    (hstep : step moment operation = some moment') : Sane moment'.atlas := by
  cases operation <;> cases Option.some.inj hstep
  case add key width height now failures => exact h.add key width height now failures
  case remove key => exact h.remove key
  case clear => exact sane_clear _
  case contains => exact h
  case getSize key now => exact h.markUsed key now
  case getTexCoords key now => exact h.markUsed key now
  case setEvictOldElements => exact ⟨h.keys, h.distinct, h.entries, h.held⟩

/-- A step that is no `add` that throws. -/
theorem consistent_of_sync {atlas : TextureAtlas K} (h : Sync atlas) : Consistent ⟨atlas, none⟩ :=
  ⟨h, fun _ hb => absurd hb.symm (Option.some_ne_none _)⟩

theorem consistent_step {moment : Moment K} {operation : Operation K} (hs : Sane moment.atlas)
    (hc : Consistent moment) :
    (∃ moment', step moment operation = some moment' ∧ Consistent moment') ↔ Meets moment operation := by
  have hother : ∀ {moment'}, Consistent moment' → step moment operation = some moment' →
      ((∃ moment', step moment operation = some moment' ∧ Consistent moment') ↔ True) :=
    fun hc hstep => iff_of_true ⟨_, hstep, hc⟩ trivial
  cases operation with
  | add key width height now failures =>
    have hexists : (∃ moment', step moment (.add key width height now failures) = some moment' ∧ Consistent moment') ↔
        Consistent ⟨(moment.atlas.add key width height now failures).1,
          if (moment.atlas.add key width height now failures).2 then none else some moment.atlas⟩ := by
      simp only [step, Option.some.injEq, exists_eq_left']
    rw [hexists, Meets]
    by_cases hlarge : moment.atlas.tooLarge width height = true
    · rw [TextureAtlas.add, if_pos hlarge]
      refine iff_of_true ⟨hc.sync, ?_⟩ (Or.inl hlarge)
      rintro before hbefore - key'
      cases Option.some.inj hbefore
      exact ⟨rfl, rfl⟩
    · rw [TextureAtlas.add, if_neg hlarge, or_iff_right hlarge, ← sync_doAdd_iff hs hc.sync]
      refine ⟨Consistent.sync, fun hsync => ⟨hsync, ?_⟩⟩
      intro before hbefore hevict
      rw [sync_doAdd_iff hs hc.sync, Accepted] at hsync
      split_ifs at hbefore with hreturn
      cases Option.some.inj hbefore
      -- the packer has taken the rectangle at once, so nothing was thrown
      rw [if_neg (Bool.eq_false_iff.1 hevict)] at hsync
      rw [hsync] at hreturn
      exact absurd rfl hreturn
  | remove key => exact hother (consistent_of_sync (hc.sync.remove hs key)) rfl
  | clear =>
    refine hother (consistent_of_sync fun r => ?_) rfl
    exact iff_of_false List.not_mem_nil fun ⟨e, he, _⟩ => absurd he List.not_mem_nil
  | contains key => exact hother (consistent_of_sync hc.sync) rfl
  | getSize key now => exact hother (consistent_of_sync (hc.sync.markUsed key now)) rfl
  | getTexCoords key now => exact hother (consistent_of_sync (hc.sync.markUsed key now)) rfl
  | setEvictOldElements evictOldElements =>
    have hsync : Sync { moment.atlas with evictOldElements := evictOldElements } := hc.sync
    exact hother (consistent_of_sync hsync) rfl

/-- A new atlas, before any operation. -/
def initial (maxWidth maxHeight : Int) (evictOldElements : Bool) : Moment K :=
  ⟨.new maxWidth maxHeight evictOldElements, none⟩

theorem always_consistent_iff (maxWidth maxHeight : Int) (evictOldElements : Bool) (operations : List (Operation K)) :
    Always step Consistent (initial maxWidth maxHeight evictOldElements) operations ↔
      Along step Meets (initial maxWidth maxHeight evictOldElements) operations := by
  refine always_iff_along (I := fun moment => Sane moment.atlas) (fun _ _ _ hs _ hstep => sane_step hs hstep)
    (fun _ _ hs hc => consistent_step hs hc) operations ?_ ?_
  · exact sane_clear (.new maxWidth maxHeight evictOldElements)
  · refine consistent_of_sync fun r => ?_
    exact iff_of_false List.not_mem_nil fun ⟨e, he, _⟩ => absurd he List.not_mem_nil

/-- A full atlas without eviction: the entry that could not be added stays in the map. -/
theorem full_notConsistent : ¬Always step Consistent (initial 64 64 false : Moment Nat)
    [.add 0 30 62 0 [], .add 1 62 62 1 [.insertion]] := by
  intro h
  obtain ⟨moment, hrun, hc⟩ := h.last
  obtain rfl := Option.some.inj hrun
  have hr := (hc.sync ⟨1, 64, 64⟩).2 ⟨⟨1, ⟨1, 64, 64⟩, 62, 62, 1⟩, by decide +kernel, rfl⟩
  exact absurd hr (by decide +kernel)

end WorldWind.Atlas
