import WorldWind.Lib.JavaInt
import WorldWind.MemoryCache.Model
/-!
# The counter, the map and the capacity

`Accounted` is what a caller relies on: keys are unique, the counter is the
total size of the entries, and it does not exceed the capacity. Two calls
break it. `setCapacity` stores a smaller capacity without removing anything,
although its documentation says that entries are removed; and `add` compares a
`long` sum that may wrap. Every other call keeps it, for any iteration order
of the map, so a run keeps it exactly when it makes neither call
(`accounted_iff`).
-/

namespace WorldWind.MemoryCache

open Lib.JavaInt Lib.Runs BasicMemoryCache

variable {K V : Type}

/-- The sizes of the entries, added up without wrapping. -/
def total (l : List (CacheEntry K V)) : Int := (l.map (·.clientObjectSize.toInt)).sum

structure Accounted (c : BasicMemoryCache K V) : Prop where
  keys : (c.entries.map (·.key)).Nodup
  used : c.currentUsedCapacity.toInt = total c.entries
  fits : c.currentUsedCapacity ≤ c.capacity

/-- What no call changes: sizes are positive, the low water is not negative. -/
structure Sized (c : BasicMemoryCache K V) : Prop where
  sizes : ∀ e ∈ c.entries, 0 < e.clientObjectSize
  low : 0 ≤ c.lowWater

/-- The part of `Accounted` and `Sized` that eviction relies on, whatever the
capacity. -/
structure Sound (c : BasicMemoryCache K V) : Prop extends Sized c where
  keys : (c.entries.map (·.key)).Nodup
  used : c.currentUsedCapacity.toInt = total c.entries

section StepOk
variable [DecidableEq K]

/-- The capacity in use without the entry an `add` under `key` replaces. -/
def usedWithout (c : BasicMemoryCache K V) (key : K) : Int64 :=
  match c.lookup key with
  | some existing => c.currentUsedCapacity + -existing.clientObjectSize
  | none => c.currentUsedCapacity

/-- A call that keeps the accounts: `setCapacity` does not go below the
capacity in use, and the sum an `add` past its checks computes is a `long`. -/
def StepOk (c : BasicMemoryCache K V) : Op K V → Prop
  | .add (some key) (some _) size _ =>
    0 < size → size ≤ c.capacity → (usedWithout c key).toInt + size.toInt < 2 ^ 63
  | .setCapacity n => c.currentUsedCapacity ≤ n
  | _ => True

instance (c : BasicMemoryCache K V) : ∀ op, Decidable (StepOk c op)
  | .add (some key) (some _) size _ =>
    inferInstanceAs (Decidable (0 < size → size ≤ c.capacity → (usedWithout c key).toInt + size.toInt < 2 ^ 63))
  | .setCapacity n => inferInstanceAs (Decidable (c.currentUsedCapacity ≤ n))
  | .add none _ _ _ | .add (some _) none _ _ | .remove _ | .getObject _ _ | .setLowWater _ | .clear =>
    .isTrue trivial
end StepOk

/-! ## Totals -/

theorem total_perm {l l' : List (CacheEntry K V)} (h : l.Perm l') : total l = total l' :=
  (h.map _).sum_eq

@[simp] theorem total_nil : total ([] : List (CacheEntry K V)) = 0 := rfl

@[simp] theorem total_cons (e : CacheEntry K V) (l : List (CacheEntry K V)) :
    total (e :: l) = e.clientObjectSize.toInt + total l := by simp [total]

@[simp] theorem total_append (l l' : List (CacheEntry K V)) : total (l ++ l') = total l + total l' := by
  simp [total]

theorem total_nonneg {l : List (CacheEntry K V)} (h : ∀ e ∈ l, 0 < e.clientObjectSize) : 0 ≤ total l := by
  refine List.sum_nonneg ?_
  simp only [List.mem_map, forall_exists_index, and_imp, forall_apply_eq_imp_iff₂]
  intro e he
  have := Int64.lt_iff_toInt_lt.1 (h e he)
  simpa using this.le

theorem Sound.used_nonneg {c : BasicMemoryCache K V} (h : Sound c) : 0 ≤ c.currentUsedCapacity.toInt :=
  h.used ▸ total_nonneg h.sizes

theorem sound_of {c : BasicMemoryCache K V} (hs : Sized c) (ha : Accounted c) : Sound c :=
  ⟨hs, ha.keys, ha.used⟩

/-- The last part of `add`: the new entry and its size go in. Unless the sum
wraps, the cache stays sound. -/
theorem insert_sound {c : BasicMemoryCache K V} (h : Sound c) {e : CacheEntry K V} (hsize : 0 < e.clientObjectSize)
    (hkey : ∀ x ∈ c.entries, x.key ≠ e.key)
    (hfit : c.currentUsedCapacity.toInt + e.clientObjectSize.toInt < 2 ^ 63) :
    Sound { c with
      entries := c.entries ++ [e], currentUsedCapacity := c.currentUsedCapacity + e.clientObjectSize } ∧
      (c.currentUsedCapacity + e.clientObjectSize).toInt =
        c.currentUsedCapacity.toInt + e.clientObjectSize.toInt := by
  have hs := Int64.lt_iff_toInt_lt.1 hsize
  rw [Int64.toInt_zero] at hs
  have hu := h.used_nonneg
  have hsum : (c.currentUsedCapacity + e.clientObjectSize).toInt =
      c.currentUsedCapacity.toInt + e.clientObjectSize.toInt := toInt_add_long (by omega) hfit
  refine ⟨⟨⟨fun x hx => ?_, h.low⟩, ?_, ?_⟩, hsum⟩
  · rcases List.mem_append.1 hx with hx | hx
    · exact h.sizes x hx
    · rw [List.mem_singleton] at hx
      exact hx ▸ hsize
  · rw [List.map_append, List.nodup_append]
    refine ⟨h.keys, by simp, fun a ha b hb => ?_⟩
    simp only [List.map_cons, List.map_nil, List.mem_singleton] at hb
    obtain ⟨x, hx, rfl⟩ := List.mem_map.1 ha
    exact hb ▸ hkey x hx
  · rw [hsum, h.used, total_append, total_cons, total_nil, add_zero]

theorem setLowWater_spec {c : BasicMemoryCache K V} (h : Sized c) (ha : Accounted c) (n : Int64) :
    Sized (c.setLowWater n) ∧ Accounted (c.setLowWater n) := by
  unfold setLowWater
  split
  · rename_i hn
    exact ⟨⟨h.sizes, hn.2⟩, ha.keys, ha.used, ha.fits⟩
  · exact ⟨h, ha⟩

/-! ## Entries -/

variable [DecidableEq K]

theorem lookup_some {c : BasicMemoryCache K V} {key : K} {e : CacheEntry K V} (h : c.lookup key = some e) :
    e ∈ c.entries ∧ e.key = key :=
  ⟨List.mem_of_find?_eq_some h, by simpa using List.find?_some h⟩

theorem lookup_none {c : BasicMemoryCache K V} {key : K} :
    c.lookup key = none ↔ ∀ e ∈ c.entries, e.key ≠ key := by
  simp [lookup]

theorem lookup_isSome {c : BasicMemoryCache K V} {e : CacheEntry K V} (h : e ∈ c.entries) :
    (c.lookup e.key).isSome := by
  rw [Option.isSome_iff_ne_none, ne_eq, lookup_none]
  exact fun hn => hn e h rfl

/-- Taking out the entry under a unique key leaves all the others. -/
theorem perm_cons_filter {l : List (CacheEntry K V)} (hk : (l.map (·.key)).Nodup) {e : CacheEntry K V}
    (he : e ∈ l) : l.Perm (e :: l.filter (fun x => ¬ x.key = e.key)) := by
  induction l with
  | nil => cases he
  | cons y ys ih =>
    simp only [List.map_cons, List.nodup_cons, List.mem_map, not_exists, not_and] at hk
    rcases List.mem_cons.1 he with rfl | he
    · rw [List.filter_cons_of_neg (by simp), List.filter_eq_self.2 (by simpa using hk.1)]
    · have hne : ¬ y.key = e.key := fun h => hk.1 e he h.symm
      rw [List.filter_cons_of_pos (by simpa using hne)]
      exact ((ih hk.2 he).cons y).trans (.swap e y _)

/-- Marking an entry as used changes neither keys nor sizes. -/
theorem keys_touch (l : List (CacheEntry K V)) (key : K) (now : Int64) :
    (l.map fun e => if e.key = key then { e with lastUsed := now } else e).map (·.key) = l.map (·.key) := by
  rw [List.map_map]
  refine List.map_congr_left fun x _ => ?_
  simp only [Function.comp]
  split <;> rfl

theorem total_touch (l : List (CacheEntry K V)) (key : K) (now : Int64) :
    total (l.map fun e => if e.key = key then { e with lastUsed := now } else e) = total l := by
  rw [total, List.map_map]
  refine congrArg List.sum (List.map_congr_left fun x _ => ?_)
  simp only [Function.comp]
  split <;> rfl

/-! ## Removing entries -/

/-- Removing an entry of the map takes it out of the list and its size off the
counter, and changes nothing else. -/
theorem removeEntry_spec {c : BasicMemoryCache K V} (h : Sound c) {e : CacheEntry K V} (he : e ∈ c.entries) :
    Sound (c.removeEntry e) ∧ c.entries.Perm (e :: (c.removeEntry e).entries) ∧
      (c.removeEntry e).capacity = c.capacity ∧ (c.removeEntry e).lowWater = c.lowWater := by
  have hp := perm_cons_filter h.keys he
  have ht : c.currentUsedCapacity.toInt =
      e.clientObjectSize.toInt + total (c.entries.filter (fun x => ¬ x.key = e.key)) := by
    rw [h.used, total_perm hp, total_cons]
  have hrest := total_nonneg fun x (hx : x ∈ c.entries.filter (fun x => ¬ x.key = e.key)) =>
    h.sizes x (List.mem_filter.1 hx).1
  have hlt := c.currentUsedCapacity.toInt_lt
  have hsize := Int64.lt_iff_toInt_lt.1 (h.sizes e he)
  rw [Int64.toInt_zero] at hsize
  rw [removeEntry, if_pos (lookup_isSome he)]
  refine ⟨⟨⟨fun x hx => h.sizes x (List.mem_filter.1 hx).1, h.low⟩, ?_, ?_⟩, hp, rfl, rfl⟩
  · exact h.keys.sublist (List.filter_sublist.map _)
  · rw [toInt_add_neg_long (by omega) (by omega)]
    exact sub_eq_of_eq_add' ht

theorem removeEntry_absent {c : BasicMemoryCache K V} {e : CacheEntry K V} (h : c.lookup e.key = none) :
    c.removeEntry e = c := by
  simp [removeEntry, h]

/-- The entries left after removals were there before. -/
theorem removeEntry_subset (c : BasicMemoryCache K V) (e : CacheEntry K V) :
    (c.removeEntry e).entries ⊆ c.entries := by
  unfold removeEntry
  split
  · exact List.filter_subset_self _
  · exact List.Subset.refl _

/-- `clear` removes every entry of a sound cache. -/
theorem foldl_removeEntry {l : List (CacheEntry K V)} :
    ∀ {c : BasicMemoryCache K V}, Sound c → c.entries.Perm l →
      Sound (l.foldl removeEntry c) ∧ (l.foldl removeEntry c).entries = [] ∧
        (l.foldl removeEntry c).capacity = c.capacity := by
  induction l with
  | nil => intro c h hp; exact ⟨h, hp.eq_nil, rfl⟩
  | cons e l ih =>
    intro c h hp
    obtain ⟨h', hp', hc, -⟩ := removeEntry_spec h (hp.symm.subset List.mem_cons_self)
    obtain ⟨hs, hn, hcap⟩ := ih h' ((hp'.symm.trans hp).cons_inv)
    exact ⟨hs, hn, hcap.trans hc⟩

/-! ## Making space -/

omit [DecidableEq K] in
/-- The free capacity of a sound cache is computed without wrapping. -/
theorem Sound.freeCapacity {c : BasicMemoryCache K V} (h : Sound c) {n : Int64} (hn : 0 < n) (hc : n ≤ c.capacity) :
    c.getFreeCapacity.toInt = max (c.capacity.toInt - c.currentUsedCapacity.toInt) 0 := by
  have := h.used_nonneg
  have := c.capacity.toInt_lt
  have := c.currentUsedCapacity.toInt_lt
  have := Int64.le_iff_toInt_le.1 hc
  have : 0 < n.toInt := Int64.lt_iff_toInt_lt.1 hn
  rw [getFreeCapacity, toInt_max_long, toInt_sub_long (by omega) (by omega)]
  rfl

/-- The loop of `makeSpace`, started on all the entries left: it ends, and
then the required space is free. -/
theorem makeSpaceLoop_spec {n : Int64} (hn : 0 < n) {l : List (CacheEntry K V)} :
    ∀ {c : BasicMemoryCache K V}, Sound c → c.entries.Perm l → n ≤ c.capacity →
      ∃ c', makeSpaceLoop n l c = some c' ∧ Sound c' ∧ c'.entries ⊆ c.entries ∧
        c'.capacity = c.capacity ∧ c'.currentUsedCapacity.toInt + n.toInt ≤ c.capacity.toInt := by
  have hn' : 0 < n.toInt := Int64.lt_iff_toInt_lt.1 hn
  have hdone : ∀ {c : BasicMemoryCache K V}, Sound c → n ≤ c.capacity → n ≤ c.getFreeCapacity →
      c.currentUsedCapacity.toInt + n.toInt ≤ c.capacity.toInt := by
    intro c h hc hf
    have := Int64.le_iff_toInt_le.1 hf
    rw [h.freeCapacity hn hc] at this
    omega
  induction l with
  | nil =>
    intro c h hp hc
    have hu : c.currentUsedCapacity.toInt = 0 := by rw [h.used, hp.eq_nil, total_nil]
    have hf : n ≤ c.getFreeCapacity := by
      rw [Int64.le_iff_toInt_le, h.freeCapacity hn hc, hu]
      have := Int64.le_iff_toInt_le.1 hc
      omega
    have hw : ¬ c.lowWater < c.currentUsedCapacity := by
      have := Int64.le_iff_toInt_le.1 h.low
      rw [Int64.lt_iff_toInt_lt, hu]
      simpa using this
    refine ⟨c, ?_, h, List.Subset.refl _, rfl, hdone h hc hf⟩
    rw [makeSpaceLoop, if_neg (by simp [Int64.not_lt, hf, hw])]
  | cons e l ih =>
    intro c h hp hc
    rw [makeSpaceLoop]
    split
    · -- The next entry goes; the rest of the list are the entries left.
      obtain ⟨h', hp', hcap, -⟩ := removeEntry_spec h (hp.symm.subset List.mem_cons_self)
      obtain ⟨c', he, hs, hsub, hcap', hfit⟩ := ih h' ((hp'.symm.trans hp).cons_inv) (hcap ▸ hc)
      exact ⟨c', he, hs, List.Subset.trans hsub (removeEntry_subset c e), hcap'.trans hcap, hcap ▸ hfit⟩
    · rename_i hstop
      simp only [not_or, Int64.not_lt] at hstop
      exact ⟨c, rfl, h, List.Subset.refl _, rfl, hdone h hc hstop.1⟩

theorem makeSpace_spec (ord : IterationOrder K V) {n : Int64} (hn : 0 < n) {c : BasicMemoryCache K V}
    (h : Sound c) (hc : n ≤ c.capacity) :
    ∃ c', c.makeSpace ord n = some c' ∧ Sound c' ∧ c'.entries ⊆ c.entries ∧
      c'.capacity = c.capacity ∧ c'.currentUsedCapacity.toInt + n.toInt ≤ c.capacity.toInt := by
  have hguard : ¬ (c.capacity < n ∨ n < 0) := by
    rw [not_or, Int64.not_lt, Int64.not_lt]
    exact ⟨hc, Int64.le_of_lt hn⟩
  rw [makeSpace, if_neg hguard]
  exact makeSpaceLoop_spec hn h ((List.mergeSort_perm _ _).trans (ord.perm _)).symm hc

/-! ## The calls -/

theorem dropExisting_spec {c : BasicMemoryCache K V} (h : Sound c) (key : K) :
    Sound (c.dropExisting key) ∧ (∀ e ∈ (c.dropExisting key).entries, e.key ≠ key) ∧
      (c.dropExisting key).capacity = c.capacity ∧
      (c.dropExisting key).currentUsedCapacity = usedWithout c key ∧
      (usedWithout c key).toInt ≤ c.currentUsedCapacity.toInt := by
  cases hl : c.lookup key with
  | none =>
    have hd : c.dropExisting key = c := by simp [dropExisting, hl]
    have hu : usedWithout c key = c.currentUsedCapacity := by simp [usedWithout, hl]
    rw [hd, hu]
    exact ⟨h, lookup_none.1 hl, rfl, rfl, le_refl _⟩
  | some e =>
    obtain ⟨he, rfl⟩ := lookup_some hl
    have hd : c.dropExisting e.key = c.removeEntry e := by simp [dropExisting, hl]
    have hu : (c.removeEntry e).currentUsedCapacity = usedWithout c e.key := by
      simp [removeEntry, usedWithout, hl]
    obtain ⟨hs, hp, hc, -⟩ := removeEntry_spec h he
    have hle : (usedWithout c e.key).toInt ≤ c.currentUsedCapacity.toInt := by
      have hsize := Int64.lt_iff_toInt_lt.1 (h.sizes e he)
      rw [Int64.toInt_zero] at hsize
      rw [← hu, hs.used, h.used, total_perm hp, total_cons]
      omega
    rw [hd]
    refine ⟨hs, fun x hx hk => ?_, hc, hu, hle⟩
    -- `x` would have the key of `e`, and the keys of `e ::` the rest are unique.
    have hn := (hp.map (·.key)).nodup_iff.1 h.keys
    rw [List.map_cons, List.nodup_cons] at hn
    exact hn.1 (hk ▸ List.mem_map_of_mem hx)

/-- Putting a new entry under a key the map does not hold. -/
theorem putIfAbsent_absent {c : BasicMemoryCache K V} {e : CacheEntry K V}
    (h : ∀ x ∈ c.entries, x.key ≠ e.key) : c.putIfAbsent e = { c with entries := c.entries ++ [e] } := by
  rw [putIfAbsent, lookup_none.2 h]
  rfl

/-- An `add` past its checks returns, and keeps the accounts exactly when its
`long` sum does not wrap. -/
theorem store_spec (ord : IterationOrder K V) {c : BasicMemoryCache K V} (h : Sound c) (key : K) (obj : V)
    {size : Int64} (now : Int64) (hsize : 0 < size) (hcap : size ≤ c.capacity) :
    ∃ c', c.store ord key obj size now = some c' ∧ Sized c' ∧
      (Accounted c' ↔ (usedWithout c key).toInt + size.toInt < 2 ^ 63) := by
  obtain ⟨hs, habs, hc, hu, -⟩ := dropExisting_spec h key
  have hsz := Int64.lt_iff_toInt_lt.1 hsize
  rw [Int64.toInt_zero] at hsz
  have hcap' := Int64.le_iff_toInt_le.1 hcap
  by_cases hfit : (usedWithout c key).toInt + size.toInt < 2 ^ 63
  · have hnn := hs.used_nonneg
    rw [hu] at hnn
    -- Either the sum is within the capacity, or space is made for it.
    obtain ⟨c2, hc2, hs2, hsub, hcap2, hroom⟩ : ∃ c2,
        (if (c.dropExisting key).capacity < (c.dropExisting key).currentUsedCapacity + size
          then (c.dropExisting key).makeSpace ord size else some (c.dropExisting key)) = some c2 ∧
        Sound c2 ∧ c2.entries ⊆ (c.dropExisting key).entries ∧ c2.capacity = c.capacity ∧
        c2.currentUsedCapacity.toInt + size.toInt ≤ c.capacity.toInt := by
      split
      · obtain ⟨c2, h1, h2, h3, h4, h5⟩ := makeSpace_spec ord hsize hs (hc ▸ hcap)
        exact ⟨c2, h1, h2, h3, h4.trans hc, hc ▸ h5⟩
      · rename_i hle
        rw [Int64.not_lt, Int64.le_iff_toInt_le, hc, hu, toInt_add_long (by omega) hfit] at hle
        exact ⟨_, rfl, hs, List.Subset.refl _, hc, hu ▸ hle⟩
    have hlt := c.capacity.toInt_lt
    have hkey : ∀ x ∈ c2.entries, x.key ≠ key := fun x hx => habs x (hsub hx)
    obtain ⟨hs3, hsum⟩ := insert_sound hs2 (e := ⟨key, obj, now, size⟩) hsize hkey (by dsimp only; omega)
    refine ⟨_, ?_, hs3.toSized, iff_of_true ⟨hs3.keys, hs3.used, ?_⟩ hfit⟩
    · simp only [store, hc2, Option.map_some]
      rw [putIfAbsent_absent (by exact hkey)]
    · rw [Int64.le_iff_toInt_le]
      dsimp only at hsum ⊢
      rw [hsum, hcap2]
      exact hroom
  · -- The sum comes back negative: no space is made, and the counter is wrong.
    have hneg : ((c.dropExisting key).currentUsedCapacity + size).toInt < 0 :=
      toInt_add_long_overflow hs.used_nonneg hsz.le (by rw [hu]; omega)
    have hskip : ¬ (c.dropExisting key).capacity < (c.dropExisting key).currentUsedCapacity + size := by
      rw [Int64.lt_iff_toInt_lt, hc]
      omega
    have hpos := total_nonneg hs.sizes
    refine ⟨{ c.dropExisting key with
      entries := (c.dropExisting key).entries ++ [⟨key, obj, now, size⟩]
      currentUsedCapacity := (c.dropExisting key).currentUsedCapacity + size }, ?_, ?_,
      iff_of_false (fun ha => ?_) hfit⟩
    · simp only [store, if_neg hskip, Option.map_some]
      rw [putIfAbsent_absent (by exact habs)]
    · refine ⟨fun x hx => ?_, hs.low⟩
      rcases List.mem_append.1 hx with hx | hx
      · exact hs.sizes x hx
      · rw [List.mem_singleton] at hx
        exact hx ▸ hsize
    · have := ha.used
      dsimp only at this
      rw [total_append, total_cons, total_nil] at this
      dsimp only at this
      omega

theorem add_spec (ord : IterationOrder K V) {c : BasicMemoryCache K V} (h : Sized c) (ha : Accounted c)
    (key : Option K) (obj : Option V) (size now : Int64) :
    ∃ c', step ord c (.add key obj size now) = some c' ∧ Sized c' ∧
      (Accounted c' ↔ StepOk c (.add key obj size now)) := by
  cases key with
  | none => exact ⟨c, rfl, h, iff_of_true ha trivial⟩
  | some key =>
    cases obj with
    | none => exact ⟨c, rfl, h, iff_of_true ha trivial⟩
    | some obj =>
      simp only [step, add]
      by_cases hbad : size ≤ 0 ∨ c.capacity < size
      · refine ⟨c, by rw [if_pos hbad]; rfl, h, iff_of_true ha fun h1 h2 => ?_⟩
        rcases hbad with hbad | hbad
        · exact absurd h1 (Int64.not_lt.2 hbad)
        · exact absurd hbad (Int64.not_lt.2 h2)
      · have hok := not_or.1 hbad
        rw [Int64.not_le, Int64.not_lt] at hok
        obtain ⟨c', hc, hs, hiff⟩ := store_spec ord (sound_of h ha) key obj now hok.1 hok.2
        exact ⟨c', by rw [if_neg hbad, hc]; rfl, hs, hiff.trans ⟨fun hlt _ _ => hlt, fun hlt => hlt hok.1 hok.2⟩⟩

theorem remove_spec {c : BasicMemoryCache K V} (h : Sized c) (ha : Accounted c) (key : Option K) :
    Sized (c.remove key) ∧ Accounted (c.remove key) := by
  cases key with
  | none => exact ⟨h, ha⟩
  | some key =>
    obtain ⟨hs, -, hc, hu, hle⟩ := dropExisting_spec (sound_of h ha) key
    refine ⟨hs.toSized, hs.keys, hs.used, ?_⟩
    have hfits := Int64.le_iff_toInt_le.1 ha.fits
    rw [remove, Int64.le_iff_toInt_le, hc, hu]
    omega

/-- A hit changes one `lastUsed` and nothing the accounts are about. -/
theorem getObject_spec {c : BasicMemoryCache K V} (h : Sized c) (ha : Accounted c) (key : Option K) (now : Int64) :
    Sized (c.getObject key now).1 ∧ Accounted (c.getObject key now).1 := by
  cases key with
  | none => exact ⟨h, ha⟩
  | some key =>
    simp only [getObject]
    cases c.lookup key with
    | none => exact ⟨h, ha⟩
    | some e =>
      refine ⟨⟨fun x hx => ?_, h.low⟩, ?_, ?_, ha.fits⟩
      · obtain ⟨y, hy, rfl⟩ := List.mem_map.1 hx
        have := h.sizes y hy
        split <;> exact this
      · exact (keys_touch c.entries key now).symm ▸ ha.keys
      · exact ha.used.trans (total_touch c.entries key now).symm

theorem clear_spec (ord : IterationOrder K V) {c : BasicMemoryCache K V} (h : Sized c) (ha : Accounted c) :
    Sized (c.clear ord) ∧ Accounted (c.clear ord) := by
  obtain ⟨hs, hn, hc⟩ := foldl_removeEntry (sound_of h ha) (ord.perm c.entries).symm
  refine ⟨hs.toSized, hs.keys, hs.used, ?_⟩
  have h0 := (sound_of h ha).used_nonneg
  have hfits := Int64.le_iff_toInt_le.1 ha.fits
  rw [clear, Int64.le_iff_toInt_le, hs.used, hn, hc, total_nil]
  omega

/-- Every call on an accounted cache returns, and the accounts survive it
exactly when it is `StepOk`. -/
theorem step_spec (ord : IterationOrder K V) {c : BasicMemoryCache K V} (h : Sized c) (ha : Accounted c)
    (op : Op K V) : ∃ c', step ord c op = some c' ∧ Sized c' ∧ (Accounted c' ↔ StepOk c op) := by
  cases op with
  | add key obj size now => exact add_spec ord h ha key obj size now
  | remove key =>
    obtain ⟨hs, ha'⟩ := remove_spec h ha key
    exact ⟨_, rfl, hs, iff_of_true ha' trivial⟩
  | getObject key now =>
    obtain ⟨hs, ha'⟩ := getObject_spec h ha key now
    exact ⟨_, rfl, hs, iff_of_true ha' trivial⟩
  | setCapacity n => exact ⟨_, rfl, ⟨h.sizes, h.low⟩, fun ha' => ha'.fits, fun hn => ⟨ha.keys, ha.used, hn⟩⟩
  | setLowWater n =>
    obtain ⟨hs, ha'⟩ := setLowWater_spec h ha n
    exact ⟨_, rfl, hs, iff_of_true ha' trivial⟩
  | clear =>
    obtain ⟨hs, ha'⟩ := clear_spec ord h ha
    exact ⟨_, rfl, hs, iff_of_true ha' trivial⟩

/-! ## Runs -/

/-- A run from a new cache keeps the accounts in every state exactly when no
`setCapacity` goes below the capacity in use and no sum of `add` wraps. -/
theorem accounted_iff (ord : IterationOrder K V) {loWater capacity : Int64} (hcap : 0 < capacity)
    (hlow : 0 ≤ loWater) (ops : List (Op K V)) :
    Always (step ord) Accounted (new loWater capacity) ops ↔ Along (step ord) StepOk (new loWater capacity) ops := by
  refine always_iff_along (I := Sized) (fun c op c' h ha hc => ?_) (fun c op h ha => ?_) ops ?_ ?_
  · obtain ⟨t, ht, hs, -⟩ := step_spec ord h ha op
    exact Option.some.inj (ht.symm.trans hc) ▸ hs
  · obtain ⟨t, ht, -, hiff⟩ := step_spec ord h ha op
    rw [← hiff, ht]
    exact ⟨fun ⟨c', he, ha'⟩ => Option.some.inj he ▸ ha', fun ha' => ⟨t, rfl, ha'⟩⟩
  · exact ⟨by simp [new], hlow⟩
  · exact ⟨List.nodup_nil, rfl, Int64.le_of_lt hcap⟩

/-- A replacement, an eviction and a hit, all accounted for. -/
theorem accounted_small_run : Always (step (IterationOrder.insertion (K := Nat) (V := Nat))) Accounted (new 2 10)
    [.add (some 1) (some 7) 4 0, .add (some 1) (some 8) 6 1, .getObject (some 1) 2, .add (some 2) (some 9) 5 3,
      .setCapacity 12] :=
  (accounted_iff .insertion (by decide) (by decide) _).2 (by decide +kernel)

/-- The object stays when the capacity is halved below its size. -/
theorem setCapacity_overfull : ¬ Always (step (IterationOrder.insertion (K := Nat) (V := Nat))) Accounted (new 0 10)
    [.add (some 1) (some 1) 8 0, .setCapacity 5] := by
  intro h
  obtain ⟨c, hc, ha⟩ := h.last
  have hfits := ha.fits
  revert hfits
  obtain rfl : (⟨[⟨1, 1, 0, 8⟩], 5, 8, 0⟩ : BasicMemoryCache Nat Nat) = c := Option.some.inj hc
  decide

end WorldWind.MemoryCache
