import WorldWind.MemoryCache.Theorems
/-!
# Which entries an `add` evicts, and who is told

The cache with its listeners. All removal passes through `removeEntry`, which
tells every listener of the entry that went; a listener that throws is told of
its exception. `add` takes out the least recently used entries, no more than it
has to, unless its `long` sum wraps (`add_evicts_iff`).
-/

namespace WorldWind.MemoryCache

open Lib.JavaInt BasicMemoryCache

variable {K V L : Type}

/-- A call of a method of a listener. -/
inductive Call (K V L : Type) where
  | entryRemoved (listener : L) (key : K) (clientObject : V)
  | removalException (listener : L) (key : K) (clientObject : V)
  deriving DecidableEq, Repr

/-- A cache with its listeners, and the calls made to them. -/
structure ListenedCache (K V L : Type) where
  cache : BasicMemoryCache K V
  listeners : List L
  calls : List (Call K V L)
  deriving DecidableEq, Repr

namespace ListenedCache

/-- What a listener is told of an entry that was removed. `throws` are the
removals that its `entryRemoved` throws for. -/
def notify (throws : L → K → V → Bool) (entry : CacheEntry K V) (listener : L) : List (Call K V L) :=
  .entryRemoved listener entry.key entry.clientObject ::
    if throws listener entry.key entry.clientObject then
      [.removalException listener entry.key entry.clientObject]
    else []

/-- What all listeners are told of an entry. -/
def report (throws : L → K → V → Bool) (listeners : List L) (entry : CacheEntry K V) : List (Call K V L) :=
  listeners.flatMap (notify throws entry)

variable [DecidableEq K] (throws : L → K → V → Bool)

def removeEntry (s : ListenedCache K V L) (entry : CacheEntry K V) : ListenedCache K V L :=
  if (s.cache.lookup entry.key).isSome then
    { s with cache := s.cache.removeEntry entry, calls := s.calls ++ report throws s.listeners entry }
  else s

def makeSpaceLoop (spaceRequired : Int64) :
    List (CacheEntry K V) → ListenedCache K V L → Option (ListenedCache K V L)
  | timeOrdered, s =>
    if s.cache.getFreeCapacity < spaceRequired ∨ s.cache.lowWater < s.cache.currentUsedCapacity then
      match timeOrdered with
      | [] => none
      | e :: rest => makeSpaceLoop spaceRequired rest (s.removeEntry throws e)
    else some s

def makeSpace (ord : IterationOrder K V) (s : ListenedCache K V L) (spaceRequired : Int64) :
    Option (ListenedCache K V L) :=
  if s.cache.capacity < spaceRequired ∨ spaceRequired < 0 then some s
  else s.makeSpaceLoop throws spaceRequired (s.cache.timeOrderedEntries ord)

/-- The entry `add` replaces, if there is one, taken out. -/
def dropExisting (s : ListenedCache K V L) (key : K) : ListenedCache K V L :=
  match s.cache.lookup key with
  | some existing => s.removeEntry throws existing
  | none => s

/-- The last part of `add`: the size and the new entry go in. -/
def insert (s : ListenedCache K V L) (entry : CacheEntry K V) : ListenedCache K V L :=
  { s with
    cache := BasicMemoryCache.putIfAbsent
      { s.cache with currentUsedCapacity := s.cache.currentUsedCapacity + entry.clientObjectSize } entry }

def add (ord : IterationOrder K V) (s : ListenedCache K V L) (key : Option K) (clientObject : Option V)
    (clientObjectSize now : Int64) : Option (ListenedCache K V L × Bool) :=
  match key, clientObject with
  | some key, some clientObject =>
    if clientObjectSize ≤ 0 ∨ s.cache.capacity < clientObjectSize then some (s, false)
    else
      let s := s.dropExisting throws key
      let room :=
        if s.cache.capacity < s.cache.currentUsedCapacity + clientObjectSize then
          s.makeSpace throws ord clientObjectSize
        else some s
      room.map fun s => (s.insert ⟨key, clientObject, now, clientObjectSize⟩, true)
  | _, _ => some (s, false)

/-! ## What an `add` should do -/

/-- The entries that `add` does not replace, the least recently used first. -/
structure UsedOrder (c : BasicMemoryCache K V) (key : K) (lru : List (CacheEntry K V)) : Prop where
  perm : lru.Perm (c.entries.filter fun e => ¬ e.key = key)
  sorted : lru.Pairwise fun a b => a.lastUsed < b.lastUsed

/-- Once the first `n` entries are gone there is room for the new one, and the
low water is reached. -/
def Cleared (c : BasicMemoryCache K V) (lru : List (CacheEntry K V)) (size : Int64) (n : Nat) : Prop :=
  total (lru.drop n) + size.toInt ≤ c.capacity.toInt ∧ total (lru.drop n) ≤ c.lowWater.toInt

/-- The entries that go are the `n` least recently used ones: none if the new
one fits, and otherwise as few as clear the space. -/
def Least (c : BasicMemoryCache K V) (lru : List (CacheEntry K V)) (size : Int64) (n : Nat) : Prop :=
  if total lru + size.toInt ≤ c.capacity.toInt then n = 0 else IsLeast {m | Cleared c lru size m} n

/-- `add` stores the object, takes out the entry under its key and the least
recently used ones, and tells every listener of each of these once. -/
def AddsRight (ord : IterationOrder K V) (s : ListenedCache K V L) (key : K) (clientObject : V)
    (clientObjectSize now : Int64) : Prop :=
  ∃ t lru n, s.add throws ord (some key) (some clientObject) clientObjectSize now = some (t, true) ∧
    UsedOrder s.cache key lru ∧ Least s.cache lru clientObjectSize n ∧
    t.cache.entries.Perm (⟨key, clientObject, now, clientObjectSize⟩ :: lru.drop n) ∧
    t.cache.lookup key = some ⟨key, clientObject, now, clientObjectSize⟩ ∧
    t.calls = s.calls ++
      (s.cache.entries.filter (fun e => e.key = key) ++ lru.take n).flatMap (report throws s.listeners)

/-! ## The loop -/

/-- What does not change when entries are removed. -/
structure SameSettings (s t : ListenedCache K V L) : Prop where
  capacity : t.cache.capacity = s.cache.capacity
  lowWater : t.cache.lowWater = s.cache.lowWater
  listeners : t.listeners = s.listeners

omit [DecidableEq K] in
theorem SameSettings.trans {s t u : ListenedCache K V L} (h : SameSettings s t) (h' : SameSettings t u) :
    SameSettings s u :=
  ⟨h'.capacity.trans h.capacity, h'.lowWater.trans h.lowWater, h'.listeners.trans h.listeners⟩

theorem removeEntry_mem {s : ListenedCache K V L} (h : Sound s.cache) {e : CacheEntry K V}
    (he : e ∈ s.cache.entries) :
    Sound (s.removeEntry throws e).cache ∧ s.cache.entries.Perm (e :: (s.removeEntry throws e).cache.entries) ∧
      SameSettings s (s.removeEntry throws e) ∧
      (s.removeEntry throws e).calls = s.calls ++ report throws s.listeners e := by
  obtain ⟨hs, hp, hc, hl⟩ := removeEntry_spec h he
  rw [removeEntry, if_pos (lookup_isSome he)]
  exact ⟨hs, hp, ⟨hc, hl, rfl⟩, rfl⟩

omit [DecidableEq K] in
/-- The test of the loop, in numbers that do not wrap. -/
theorem guard_iff {c : BasicMemoryCache K V} (h : Sound c) {size : Int64} (hsize : 0 < size)
    (hcap : size ≤ c.capacity)
    {l : List (CacheEntry K V)} (hp : c.entries.Perm l) :
    (c.getFreeCapacity < size ∨ c.lowWater < c.currentUsedCapacity) ↔ ¬ Cleared c l size 0 := by
  have hfree := h.freeCapacity hsize hcap
  have hused := h.used
  have hpos := Int64.lt_iff_toInt_lt.1 hsize
  rw [total_perm hp] at hused
  rw [Int64.toInt_zero] at hpos
  rw [Cleared, List.drop_zero, Int64.lt_iff_toInt_lt, Int64.lt_iff_toInt_lt, hfree, hused]
  omega

/-- The loop takes out a prefix of the entries, as short as the test allows. -/
theorem makeSpaceLoop_least {size : Int64} (hsize : 0 < size) {l : List (CacheEntry K V)} :
    ∀ {s : ListenedCache K V L}, Sound s.cache → s.cache.entries.Perm l → size ≤ s.cache.capacity →
      ∃ n t, s.makeSpaceLoop throws size l = some t ∧ Sound t.cache ∧ t.cache.entries.Perm (l.drop n) ∧
        SameSettings s t ∧ IsLeast {m | Cleared s.cache l size m} n ∧
        t.calls = s.calls ++ (l.take n).flatMap (report throws s.listeners) := by
  induction l with
  | nil =>
    intro s h hp hcap
    have hclear : Cleared s.cache [] size 0 := by
      have hroom := Int64.le_iff_toInt_le.1 hcap
      have hlow := Int64.le_iff_toInt_le.1 h.low
      exact ⟨by simpa using hroom, by simpa using hlow⟩
    refine ⟨0, s, ?_, h, hp, ⟨rfl, rfl, rfl⟩, ⟨hclear, fun m _ => Nat.zero_le m⟩, by simp⟩
    rw [makeSpaceLoop, if_neg (fun hg => (guard_iff h hsize hcap hp).1 hg hclear)]
  | cons e l ih =>
    intro s h hp hcap
    rw [makeSpaceLoop]
    by_cases hclear : Cleared s.cache (e :: l) size 0
    · rw [if_neg (fun hg => (guard_iff h hsize hcap hp).1 hg hclear)]
      exact ⟨0, s, rfl, h, hp, ⟨rfl, rfl, rfl⟩, ⟨hclear, fun m _ => Nat.zero_le m⟩, by simp⟩
    · rw [if_pos ((guard_iff h hsize hcap hp).2 hclear)]
      obtain ⟨hs, hp', hsame, hcalls⟩ := removeEntry_mem throws h (hp.symm.subset List.mem_cons_self)
      obtain ⟨n, t, hloop, ht, hperm, hsame', hleast, htold⟩ :=
        ih hs ((hp'.symm.trans hp).cons_inv) (hsame.capacity ▸ hcap)
      have hshift : ∀ m, Cleared s.cache (e :: l) size (m + 1) ↔ Cleared (s.removeEntry throws e).cache l size m := by
        intro m
        rw [Cleared, Cleared, List.drop_succ_cons, hsame.capacity, hsame.lowWater]
      refine ⟨n + 1, t, hloop, ht, hperm, hsame.trans hsame', ⟨(hshift n).2 hleast.1, fun m hm => ?_⟩, ?_⟩
      · cases m with
        | zero => exact absurd hm hclear
        | succ m => exact Nat.succ_le_succ (hleast.2 ((hshift m).1 hm))
      · rw [htold, hcalls, hsame.listeners, List.take_succ_cons, List.flatMap_cons, List.append_assoc]

/-! ## The call -/

theorem dropExisting_listened {s : ListenedCache K V L} (h : Sound s.cache) (key : K) :
    Sound (s.dropExisting throws key).cache ∧
      (s.dropExisting throws key).cache.entries = s.cache.entries.filter (fun e => ¬ e.key = key) ∧
      SameSettings s (s.dropExisting throws key) ∧
      (s.dropExisting throws key).cache.currentUsedCapacity = usedWithout s.cache key ∧
      (s.dropExisting throws key).calls =
        s.calls ++ (s.cache.entries.filter fun e => e.key = key).flatMap (report throws s.listeners) := by
  cases hl : s.cache.lookup key with
  | none =>
    have habs := lookup_none.1 hl
    have hnone : s.cache.entries.filter (fun e => decide (e.key = key)) = [] :=
      List.filter_eq_nil_iff.2 fun e he => by simpa using habs e he
    have hall : s.cache.entries.filter (fun e => decide ¬ e.key = key) = s.cache.entries :=
      List.filter_eq_self.2 fun e he => by simpa using habs e he
    rw [dropExisting, hl, hnone, hall]
    exact ⟨h, rfl, ⟨rfl, rfl, rfl⟩, by simp [usedWithout, hl], by simp⟩
  | some e =>
    obtain ⟨he, rfl⟩ := lookup_some hl
    obtain ⟨hs, -, hsame, hcalls⟩ := removeEntry_mem throws h he
    have hone : s.cache.entries.filter (fun x => decide (x.key = e.key)) = [e] := by
      have hp := (perm_cons_filter h.keys he).filter fun x => decide (x.key = e.key)
      rw [List.filter_cons_of_pos (by simp), List.filter_filter] at hp
      have hempty : (s.cache.entries.filter fun x => decide (x.key = e.key) && decide ¬ x.key = e.key) = [] :=
        List.filter_eq_nil_iff.2 fun x _ => by simp
      rw [hempty] at hp
      exact List.perm_singleton.1 hp
    rw [dropExisting, hl]
    refine ⟨hs, ?_, hsame, ?_, ?_⟩
    · simp [removeEntry, BasicMemoryCache.removeEntry, hl]
    · simp [removeEntry, BasicMemoryCache.removeEntry, usedWithout, hl]
    · rw [hcalls, hone, List.flatMap_singleton]

omit [DecidableEq K] in
/-- Entries with distinct stamps are sorted strictly. -/
theorem timeOrderedEntries_sorted (ord : IterationOrder K V) {c : BasicMemoryCache K V}
    (h : (c.entries.map (·.lastUsed)).Nodup) :
    (c.timeOrderedEntries ord).Perm c.entries ∧
      (c.timeOrderedEntries ord).Pairwise fun a b => a.lastUsed < b.lastUsed := by
  have hp : (c.timeOrderedEntries ord).Perm c.entries := (List.mergeSort_perm _ _).trans (ord.perm _)
  refine ⟨hp, ?_⟩
  have hle : (c.timeOrderedEntries ord).Pairwise fun a b => a.lastUsed ≤ b.lastUsed := by
    refine (List.pairwise_mergeSort (fun a b d hab hbd => ?_) (fun a b => ?_) _).imp fun hab => by simpa using hab
    · simp only [decide_eq_true_eq] at hab hbd ⊢
      exact Int64.le_trans hab hbd
    · simp only [Bool.or_eq_true, decide_eq_true_eq]
      exact Int64.le_total _ _
  have hnodup : ((c.timeOrderedEntries ord).map (·.lastUsed)).Nodup := (hp.map _).nodup_iff.2 h
  have hne : (c.timeOrderedEntries ord).Pairwise fun a b => a.lastUsed ≠ b.lastUsed := List.pairwise_map.1 hnodup
  exact (hle.and hne).imp fun hab => Int64.lt_of_le_of_ne hab.1 hab.2

/-- Past its checks `add` makes room and puts the new entry in. -/
theorem add_eq (ord : IterationOrder K V) {s : ListenedCache K V L} (key : K) (obj : V) {size : Int64} (now : Int64)
    (hsize : 0 < size) (hcap : size ≤ s.cache.capacity) :
    s.add throws ord (some key) (some obj) size now =
      (if (s.dropExisting throws key).cache.capacity < (s.dropExisting throws key).cache.currentUsedCapacity +
        size then
        (s.dropExisting throws key).makeSpace throws ord size else some (s.dropExisting throws key)).map fun s =>
      (s.insert ⟨key, obj, now, size⟩, true) := by
  have hguard : ¬ (size ≤ 0 ∨ s.cache.capacity < size) := by
    rw [not_or, Int64.not_le, Int64.not_lt]
    exact ⟨hsize, hcap⟩
  rw [add, if_neg hguard]

/-- The new entry is behind the others, and the one under its key. -/
theorem insert_absent {s : ListenedCache K V L} {e : CacheEntry K V} (h : ∀ x ∈ s.cache.entries, x.key ≠ e.key) :
    (s.insert e).cache.entries = s.cache.entries ++ [e] ∧ (s.insert e).cache.lookup e.key = some e ∧
      (s.insert e).calls = s.calls := by
  have hentries : (s.insert e).cache.entries = s.cache.entries ++ [e] := by
    rw [insert, putIfAbsent_absent (by exact h)]
  refine ⟨hentries, ?_, rfl⟩
  rw [BasicMemoryCache.lookup, hentries, List.find?_append, List.find?_eq_none.2 fun x hx => by simpa using h x hx]
  simp

/-- `add` evicts what it should exactly when the capacity in use and the size
add up to a `long`. -/
theorem add_evicts_iff (ord : IterationOrder K V) {s : ListenedCache K V L} (h : Sound s.cache)
    (hstamps : (s.cache.entries.map (·.lastUsed)).Nodup) (key : K) (obj : V) {size : Int64} (now : Int64)
    (hsize : 0 < size) (hcap : size ≤ s.cache.capacity) :
    AddsRight throws ord s key obj size now ↔ (usedWithout s.cache key).toInt + size.toInt < 2 ^ 63 := by
  obtain ⟨hs, hentries, hsame, hused, hcalls⟩ := dropExisting_listened throws h key
  have hadd := add_eq throws ord key obj now hsize hcap
  have hpos := Int64.lt_iff_toInt_lt.1 hsize
  rw [Int64.toInt_zero] at hpos
  have hlt := s.cache.capacity.toInt_lt
  have hcap' := Int64.le_iff_toInt_le.1 hcap
  have htotal : ∀ lru, lru.Perm (s.cache.entries.filter fun e => ¬ e.key = key) →
      total lru = (usedWithout s.cache key).toInt := by
    intro lru hp
    rw [total_perm hp, ← hentries, ← hs.used, hused]
  have hnn := hs.used_nonneg
  rw [hused] at hnn
  have habs : ∀ x ∈ (s.dropExisting throws key).cache.entries, x.key ≠ key := by
    intro x hx
    rw [hentries] at hx
    simpa using (List.mem_filter.1 hx).2
  constructor
  · -- a sum that wraps is negative, so nothing is evicted
    rintro ⟨t, lru, n, ht, horder, hleast, hperm, -, -⟩
    by_contra hwrap
    have hneg : ((s.dropExisting throws key).cache.currentUsedCapacity + size).toInt < 0 :=
      toInt_add_long_overflow hs.used_nonneg hpos.le (by rw [hused]; omega)
    have hskip : ¬ (s.dropExisting throws key).cache.capacity <
        (s.dropExisting throws key).cache.currentUsedCapacity + size := by
      rw [Int64.lt_iff_toInt_lt, hsame.capacity]
      omega
    rw [hadd, if_neg hskip, Option.map_some] at ht
    obtain ⟨rfl, -⟩ := Prod.mk.inj (Option.some.inj ht)
    have hlen := hperm.length_eq
    have hlen' := horder.perm.length_eq
    rw [(insert_absent (e := ⟨key, obj, now, size⟩) habs).1, hentries] at hlen
    simp only [List.length_append, List.length_cons, List.length_nil, List.length_drop] at hlen
    have htot := htotal lru horder.perm
    have hnone : n = 0 := by
      by_contra hn
      obtain rfl : lru = [] := List.eq_nil_of_length_eq_zero (by omega)
      rw [total_nil] at htot
      omega
    rw [Least, if_neg (by omega)] at hleast
    have hclear := hleast.1.1
    rw [hnone, List.drop_zero, htot] at hclear
    omega
  · intro hfit
    have hdrop : ((s.dropExisting throws key).cache.entries.map (·.lastUsed)).Nodup := by
      rw [hentries]
      exact hstamps.sublist (List.filter_sublist.map _)
    obtain ⟨hperm, hsorted⟩ := timeOrderedEntries_sorted ord hdrop
    have horder : UsedOrder s.cache key ((s.dropExisting throws key).cache.timeOrderedEntries ord) :=
      ⟨hentries ▸ hperm, hsorted⟩
    have htot := htotal _ horder.perm
    have hsum : ((s.dropExisting throws key).cache.currentUsedCapacity + size).toInt =
        (usedWithout s.cache key).toInt + size.toInt := by
      rw [toInt_add_long (by rw [hused]; omega) (by rw [hused]; omega), hused]
    by_cases hroom : (usedWithout s.cache key).toInt + size.toInt ≤ s.cache.capacity.toInt
    · have hskip : ¬ (s.dropExisting throws key).cache.capacity <
          (s.dropExisting throws key).cache.currentUsedCapacity + size := by
        rw [Int64.lt_iff_toInt_lt, hsame.capacity, hsum]
        omega
      rw [if_neg hskip, Option.map_some] at hadd
      obtain ⟨hnew, hlookup, -⟩ := insert_absent (e := ⟨key, obj, now, size⟩) habs
      refine ⟨_, _, 0, hadd, horder, ?_, ?_, hlookup, ?_⟩
      · rw [Least, if_pos (by omega)]
      · rw [hnew]
        exact (List.perm_append_singleton _ _).trans (hperm.symm.cons _)
      · rw [List.take_zero, List.append_nil]
        exact hcalls
    · have hmake : (s.dropExisting throws key).cache.capacity <
          (s.dropExisting throws key).cache.currentUsedCapacity + size := by
        rw [Int64.lt_iff_toInt_lt, hsame.capacity, hsum]
        omega
      have hguard : ¬ ((s.dropExisting throws key).cache.capacity < size ∨ size < 0) := by
        rw [not_or, Int64.not_lt, Int64.not_lt, hsame.capacity]
        exact ⟨hcap, Int64.le_of_lt hsize⟩
      obtain ⟨n, t, hloop, -, hleft, hsame', hleast, htold⟩ :=
        makeSpaceLoop_least throws hsize hs hperm.symm (hsame.capacity.symm ▸ hcap)
      have hkept : ∀ x ∈ t.cache.entries, x.key ≠ key := fun x hx =>
        habs x (hperm.subset (List.drop_subset n _ (hleft.subset hx)))
      rw [if_pos hmake, makeSpace, if_neg hguard, hloop, Option.map_some] at hadd
      obtain ⟨hnew, hlookup, -⟩ := insert_absent (e := ⟨key, obj, now, size⟩) hkept
      refine ⟨_, _, n, hadd, horder, ?_, ?_, hlookup, ?_⟩
      · rw [Least, if_neg (by omega)]
        simpa only [Cleared, hsame.capacity, hsame.lowWater] using hleast
      · rw [hnew]
        exact (List.perm_append_singleton _ _).trans (hleft.cons _)
      · rw [List.flatMap_append, ← List.append_assoc, ← hcalls, ← hsame.listeners]
        exact htold

/-- Two entries, one of which goes for a third. -/
theorem add_evicts_oldest : AddsRight (fun _ _ _ => false) .insertion
    (⟨⟨[⟨1, 7, 5, 4⟩, ⟨2, 8, 3, 4⟩], 10, 8, 6⟩, [0, 1], []⟩ : ListenedCache Nat Nat Nat) 3 9 4 6 :=
  (add_evicts_iff (fun _ _ _ => false) .insertion ⟨⟨by decide, by decide⟩, by decide, by decide⟩ (by decide) 3 9 6
    (by decide) (by decide)).2 (by decide)

/-- A cache that is half full of the largest capacity there is. -/
def halfFull : ListenedCache Nat Nat Nat :=
  ⟨⟨[⟨1, 7, 0, 4611686018427387904⟩], 9223372036854775807, 4611686018427387904, 0⟩, [], []⟩

/-- The other half plus one is added and nothing goes. -/
theorem halfFull_overfull : Sound halfFull.cache ∧ (4611686018427387904 : Int64) ≤ halfFull.cache.capacity ∧
    ¬ AddsRight (fun _ _ _ => false) .insertion halfFull 2 8 4611686018427387904 1 := by
  refine ⟨⟨⟨by decide +kernel, by decide +kernel⟩, by decide +kernel, by decide +kernel⟩, by decide +kernel, ?_⟩
  rintro ⟨t, lru, n, ht, horder, hleast, hperm, -, -⟩
  have hadd : halfFull.add (fun _ _ _ => false) .insertion (some 2) (some 8) 4611686018427387904 1 =
      some (⟨⟨[⟨1, 7, 0, 4611686018427387904⟩, ⟨2, 8, 1, 4611686018427387904⟩], 9223372036854775807,
        -9223372036854775808, 0⟩, [], []⟩, true) := by decide +kernel
  obtain ⟨rfl, -⟩ := Prod.mk.inj (Option.some.inj (hadd.symm.trans ht))
  obtain rfl : lru = [⟨1, 7, 0, 4611686018427387904⟩] := List.perm_singleton.1 (horder.perm.trans (by decide +kernel))
  obtain rfl : n = 0 := by
    have hlen := hperm.length_eq
    simp only [List.length_cons, List.length_nil, List.length_drop] at hlen
    omega
  rw [Least, if_neg (by decide +kernel)] at hleast
  exact absurd hleast.1.1 (by decide +kernel)

end ListenedCache

end WorldWind.MemoryCache
