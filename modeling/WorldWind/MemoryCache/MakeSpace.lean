import WorldWind.MemoryCache.Theorems
/-!
# When the eviction loop ends

`makeSpace` removes entries while less than the required space is free, or
while more than the low water is in use. Once every entry is gone its body does
nothing, so it ends only if the counter has then reached a value at which the
test fails. The counter may wrap on the way, but it always is the total of the
sizes modulo `2 ^ 64` (`Counted`), so with no entries left it is zero, and zero
passes the second test exactly when the low water is negative. `setLowWater`
refuses a negative value; the constructor takes any (`makeSpace_ends_iff`).
-/

namespace WorldWind.MemoryCache

open Lib.JavaInt Lib.Runs BasicMemoryCache

variable {K V : Type}

/-- Keys are unique and the counter is the total of the sizes, wrapped. -/
structure Counted (c : BasicMemoryCache K V) : Prop where
  keys : (c.entries.map (·.key)).Nodup
  used : c.currentUsedCapacity = Int64.ofInt (total c.entries)

/-- The low water passes the test of `setLowWater`. -/
structure Bounded (c : BasicMemoryCache K V) : Prop extends Counted c where
  low : 0 ≤ c.lowWater

theorem Counted.used_of_empty {c : BasicMemoryCache K V} (h : Counted c) (he : c.entries = []) :
    c.currentUsedCapacity = 0 := by
  rw [h.used, he, total_nil]
  rfl

/-- The entry and its size go in, whether or not the sum wraps. -/
theorem Counted.insert {c : BasicMemoryCache K V} (h : Counted c) {e : CacheEntry K V}
    (hkey : ∀ x ∈ c.entries, x.key ≠ e.key) :
    Counted { c with
      entries := c.entries ++ [e], currentUsedCapacity := c.currentUsedCapacity + e.clientObjectSize } := by
  constructor
  · rw [List.map_append, List.nodup_append]
    refine ⟨h.keys, by simp, fun a ha b hb => ?_⟩
    simp only [List.map_cons, List.map_nil, List.mem_singleton] at hb
    obtain ⟨x, hx, rfl⟩ := List.mem_map.1 ha
    exact hb ▸ hkey x hx
  · rw [total_append, total_cons, total_nil, add_zero, Int64.ofInt_add, ← h.used, Int64.ofInt_toInt]

variable [DecidableEq K]

theorem Bounded.removeEntry {c : BasicMemoryCache K V} (h : Bounded c) {e : CacheEntry K V} (he : e ∈ c.entries) :
    Bounded (c.removeEntry e) ∧ c.entries.Perm (e :: (c.removeEntry e).entries) ∧
      (c.removeEntry e).capacity = c.capacity := by
  have hp := perm_cons_filter h.keys he
  rw [BasicMemoryCache.removeEntry, if_pos (lookup_isSome he)]
  refine ⟨⟨⟨h.keys.sublist (List.filter_sublist.map _), ?_⟩, h.low⟩, hp, rfl⟩
  dsimp only
  rw [h.used, total_perm hp, total_cons, Int64.ofInt_add, Int64.ofInt_toInt,
    Int64.add_comm, ← Int64.add_assoc, Int64.add_left_neg, Int64.zero_add]

/-! ## The loop -/

/-- With every entry removed the test fails: nothing is in use, so the whole
capacity is free. -/
theorem makeSpaceLoop_nil {c : BasicMemoryCache K V} (h : Bounded c) (he : c.entries = []) {n : Int64}
    (hn : n ≤ c.capacity) : makeSpaceLoop n [] c = some c := by
  have hu := h.used_of_empty he
  have hfree : n ≤ c.getFreeCapacity := by
    rw [getFreeCapacity, hu, Int64.sub_zero, Int64.le_iff_toInt_le, toInt_max_long]
    exact le_max_of_le_left (Int64.le_iff_toInt_le.1 hn)
  rw [makeSpaceLoop, if_neg]
  rintro (hlt | hlt)
  · exact absurd hlt (Int64.not_lt.2 hfree)
  · exact absurd (hu ▸ hlt) (Int64.not_lt.2 h.low)

theorem makeSpaceLoop_returns {n : Int64} {l : List (CacheEntry K V)} :
    ∀ {c : BasicMemoryCache K V}, Bounded c → c.entries.Perm l → n ≤ c.capacity →
      ∃ c', makeSpaceLoop n l c = some c' ∧ Bounded c' ∧ c'.entries ⊆ c.entries := by
  induction l with
  | nil =>
    intro c h hp hn
    exact ⟨c, makeSpaceLoop_nil h hp.eq_nil hn, h, List.Subset.refl _⟩
  | cons e l ih =>
    intro c h hp hn
    rw [makeSpaceLoop]
    split
    · obtain ⟨h', hp', hc⟩ := h.removeEntry (hp.symm.subset List.mem_cons_self)
      obtain ⟨c', hc', hb, hsub⟩ := ih h' ((hp'.symm.trans hp).cons_inv) (hc ▸ hn)
      exact ⟨c', hc', hb, List.Subset.trans hsub (removeEntry_subset c e)⟩
    · exact ⟨c, rfl, h, List.Subset.refl _⟩

theorem makeSpace_returns (ord : IterationOrder K V) {c : BasicMemoryCache K V} (h : Bounded c) (n : Int64) :
    ∃ c', c.makeSpace ord n = some c' ∧ Bounded c' ∧ c'.entries ⊆ c.entries := by
  unfold makeSpace
  split
  · exact ⟨c, rfl, h, List.Subset.refl _⟩
  · rename_i hn
    have hp : c.entries.Perm (c.timeOrderedEntries ord) :=
      ((List.mergeSort_perm _ _).trans (ord.perm c.entries)).symm
    exact makeSpaceLoop_returns h hp (Int64.not_lt.1 (not_or.1 hn).1)

/-! ## The calls -/

theorem Bounded.dropExisting {c : BasicMemoryCache K V} (h : Bounded c) (key : K) :
    Bounded (c.dropExisting key) ∧ ∀ e ∈ (c.dropExisting key).entries, e.key ≠ key := by
  unfold BasicMemoryCache.dropExisting
  split
  · rename_i e hl
    obtain ⟨he, rfl⟩ := lookup_some hl
    obtain ⟨h', hp, -⟩ := h.removeEntry he
    refine ⟨h', fun x hx hk => ?_⟩
    have hn := (hp.map (·.key)).nodup_iff.1 h.keys
    rw [List.map_cons, List.nodup_cons] at hn
    exact hn.1 (hk ▸ List.mem_map_of_mem hx)
  · rename_i hl
    exact ⟨h, lookup_none.1 hl⟩

theorem store_returns (ord : IterationOrder K V) {c : BasicMemoryCache K V} (h : Bounded c) (key : K) (obj : V)
    (size now : Int64) : ∃ c', c.store ord key obj size now = some c' ∧ Bounded c' := by
  obtain ⟨hd, habs⟩ := h.dropExisting key
  obtain ⟨c2, hc2, hb, hsub⟩ : ∃ c2,
      (if (c.dropExisting key).capacity < (c.dropExisting key).currentUsedCapacity + size
        then (c.dropExisting key).makeSpace ord size else some (c.dropExisting key)) = some c2 ∧
      Bounded c2 ∧ c2.entries ⊆ (c.dropExisting key).entries := by
    split
    · exact makeSpace_returns ord hd size
    · exact ⟨_, rfl, hd, List.Subset.refl _⟩
  have hkey : ∀ x ∈ c2.entries, x.key ≠ key := fun x hx => habs x (hsub hx)
  have hi : Counted { c2 with
      entries := c2.entries ++ [⟨key, obj, now, size⟩], currentUsedCapacity := c2.currentUsedCapacity + size } :=
    hb.toCounted.insert hkey
  refine ⟨_, ?_, ⟨hi, hb.low⟩⟩
  simp only [store, hc2, Option.map_some]
  rw [putIfAbsent_absent (by exact hkey)]

theorem Bounded.getObject {c : BasicMemoryCache K V} (h : Bounded c) (key : Option K) (now : Int64) :
    Bounded (c.getObject key now).1 := by
  cases key with
  | none => exact h
  | some key =>
    simp only [BasicMemoryCache.getObject]
    cases c.lookup key with
    | none => exact h
    | some e =>
      refine ⟨⟨?_, ?_⟩, h.low⟩
      · exact (keys_touch c.entries key now).symm ▸ h.keys
      · exact h.used.trans (congrArg Int64.ofInt (total_touch c.entries key now).symm)

theorem Bounded.clear (ord : IterationOrder K V) {c : BasicMemoryCache K V} (h : Bounded c) :
    Bounded (c.clear ord) := by
  have hloop : ∀ l : List (CacheEntry K V), ∀ c : BasicMemoryCache K V, Bounded c → c.entries.Perm l →
      Bounded (l.foldl BasicMemoryCache.removeEntry c) := by
    intro l
    induction l with
    | nil => exact fun c h _ => h
    | cons e l ih =>
      intro c h hp
      obtain ⟨h', hp', -⟩ := h.removeEntry (hp.symm.subset List.mem_cons_self)
      exact ih _ h' ((hp'.symm.trans hp).cons_inv)
  exact hloop _ _ h (ord.perm c.entries).symm

/-- Every call on a cache with a low water of at least zero returns, and leaves
such a cache. -/
theorem step_returns (ord : IterationOrder K V) {c : BasicMemoryCache K V} (h : Bounded c) (op : Op K V) :
    ∃ c', step ord c op = some c' ∧ Bounded c' := by
  cases op with
  | add key obj size now =>
    rcases key with _ | key
    · exact ⟨c, rfl, h⟩
    rcases obj with _ | obj
    · exact ⟨c, rfl, h⟩
    simp only [step, add]
    split
    · exact ⟨c, rfl, h⟩
    · obtain ⟨c', hc, hb⟩ := store_returns ord h key obj size now
      exact ⟨c', by rw [hc]; rfl, hb⟩
  | remove key =>
    cases key with
    | none => exact ⟨c, rfl, h⟩
    | some key => exact ⟨_, rfl, (h.dropExisting key).1⟩
  | getObject key now => exact ⟨_, rfl, h.getObject key now⟩
  | setCapacity n => exact ⟨_, rfl, ⟨⟨h.keys, h.used⟩, h.low⟩⟩
  | setLowWater n =>
    refine ⟨_, rfl, ?_⟩
    unfold setLowWater
    split
    · rename_i hn
      exact ⟨⟨h.keys, h.used⟩, hn.2⟩
    · exact h
  | clear => exact ⟨_, rfl, h.clear ord⟩

/-! ## Runs -/

/-- Two objects that do not fit together, in a cache of ten. The loop of the
second `add` removes the first object and then tests `0 > lowWater` for ever. -/
def overfill (k k' : K) (v : V) : List (Op K V) :=
  [.setCapacity 10, .add (some k) (some v) 5 0, .add (some k') (some v) 6 0]

theorem makeSpaceLoop_spins {c : BasicMemoryCache K V} (h : c.lowWater < c.currentUsedCapacity) (n : Int64) :
    makeSpaceLoop n [] c = none := by
  rw [makeSpaceLoop, if_pos (.inr h)]

theorem overfill_hangs (ord : IterationOrder K V) {loWater : Int64} (hlow : loWater < 0) (capacity : Int64)
    {k k' : K} (hk : k ≠ k') (v : V) :
    ¬ Always (step ord) (fun _ => True) (new loWater capacity) (overfill k k' v) := by
  have hfits : ¬ ((10 : Int64) < 6 ∨ (6 : Int64) < 0) := by decide
  have hsize : ¬ ((6 : Int64) ≤ 0 ∨ (10 : Int64) < 6) := by decide
  have hfull : (10 : Int64) < 5 + 6 := by decide
  have hlow5 : loWater < 5 := Int64.lt_trans hlow (by decide : (0 : Int64) < 5)
  let e : CacheEntry K V := ⟨k, v, 0, 5⟩
  have hfirst : step ord ⟨[], 10, 0, loWater⟩ (.add (some k) (some v) 5 0) = some ⟨[e], 10, 5, loWater⟩ := rfl
  have hvisit : timeOrderedEntries ord ⟨[e], 10, 5, loWater⟩ = [e] := by
    have hp := (List.mergeSort_perm (ord.visit [e]) fun a b => decide (a.lastUsed ≤ b.lastUsed)).trans (ord.perm [e])
    exact List.perm_singleton.1 hp
  have hremoved : (⟨[e], 10, 5, loWater⟩ : BasicMemoryCache K V).removeEntry e = ⟨[], 10, 0, loWater⟩ := by
    simp [BasicMemoryCache.removeEntry, lookup, e]
  have hloop : makeSpaceLoop 6 [e] ⟨[e], 10, 5, loWater⟩ = none := by
    rw [makeSpaceLoop, if_pos (.inr hlow5)]
    simp only [hremoved]
    rw [makeSpaceLoop_spins (by exact hlow)]
  have hmake : makeSpace ord ⟨[e], 10, 5, loWater⟩ 6 = none := by
    rw [makeSpace, if_neg hfits, hvisit, hloop]
  have hdrop : (⟨[e], 10, 5, loWater⟩ : BasicMemoryCache K V).dropExisting k' = ⟨[e], 10, 5, loWater⟩ := by
    simp [BasicMemoryCache.dropExisting, lookup, e, hk]
  have hsecond : step ord ⟨[e], 10, 5, loWater⟩ (.add (some k') (some v) 6 0) = none := by
    simp only [step, add, store, hdrop]
    rw [if_neg hsize, if_pos hfull, hmake]
    rfl
  rintro ⟨-, c1, h1, -, c2, h2, -, c3, h3, -⟩
  obtain rfl : _ = c1 := Option.some.inj h1
  obtain rfl := Option.some.inj (hfirst.symm.trans h2)
  rw [hsecond] at h3
  cases h3

/-- The loop ends in every run on a new cache exactly when the low water the
constructor is given is not negative. -/
theorem makeSpace_ends_iff [Nontrivial K] [Nonempty V] (ord : IterationOrder K V) (loWater capacity : Int64) :
    (∀ ops, Always (step ord) (fun _ => True) (new loWater capacity) ops) ↔ 0 ≤ loWater := by
  constructor
  · intro h
    obtain ⟨k, k', hk⟩ := exists_pair_ne K
    obtain ⟨v⟩ := ‹Nonempty V›
    by_contra hlow
    exact overfill_hangs ord (Int64.not_le.1 hlow) capacity hk v (h _)
  · intro hlow ops
    have hnew : Bounded (new loWater capacity : BasicMemoryCache K V) := ⟨⟨List.nodup_nil, rfl⟩, hlow⟩
    exact always_of_inv (fun c op h => step_returns ord h op) (fun _ _ => trivial) ops hnew

/-- With a low water of two every run ends; with one of minus one a run does not. -/
theorem makeSpace_ends_two : (0 : Int64) ≤ 2 ∧
    ∀ ops, Always (step (IterationOrder.insertion (K := Nat) (V := Nat))) (fun _ => True) (new 2 10) ops :=
  ⟨by decide, (makeSpace_ends_iff .insertion 2 10).2 (by decide)⟩

theorem negative_lowWater_hangs : ¬ ∀ ops,
    Always (step (IterationOrder.insertion (K := Nat) (V := Nat))) (fun _ => True) (new (-1) 10) ops :=
  fun h => overfill_hangs .insertion (by decide) 10 (by decide : (1 : Nat) ≠ 2) 7 (h _)

end WorldWind.MemoryCache
