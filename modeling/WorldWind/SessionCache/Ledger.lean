import WorldWind.SessionCache.Model
/-!
# What a session cache holds

The calls of `cache/BasicSessionCache.java`, over any history. They are compared
with a ledger that knows of each key that is held when it came, and the value
it was last put with. The ledger evicts a key if the cache's capacity is taken
up by younger ones. The map has two ways of evicting: a new entry drives out
one, and `setCapacity` removes entries in a loop. Both agree with the ledger
(`cache_holds`).
-/

namespace WorldWind.SessionCache

variable {K V : Type}

/-! ## Calls -/

/-- None is a key that is `null`. -/
inductive Call (K V : Type) where
  | put (key : Option K) (value : V)
  | get (key : Option K)
  | contains (key : Option K)
  | remove (key : Option K)
  | clear
  | setCapacity (capacity : Int)
  deriving DecidableEq, Repr

inductive Answer (V : Type) where
  | done
  | bool (b : Bool)
  | value (v : Option V)
  | illegalArgument
  deriving DecidableEq, Repr

/-- The calls in order, with their answers. -/
def answers {σ : Type} (call : σ → Call K V → σ × Answer V) : σ → List (Call K V) → σ × List (Answer V)
  | s, [] => (s, [])
  | s, c :: calls =>
    let r := call s c
    let rest := answers call r.1 calls
    (rest.1, r.2 :: rest.2)

section Cache

variable [DecidableEq K]

def BasicSessionCache.call (entries : BoundedHashMap K V) : Call K V → BoundedHashMap K V × Answer V
  | .put none _ | .get none | .contains none | .remove none => (entries, .illegalArgument)
  | .put (some key) value => (entries.put key value, .done)
  | .get (some key) => (entries, .value (entries.get key))
  | .contains (some key) => (entries, .bool (entries.get key).isSome)
  | .remove (some key) => (entries.remove key, .value (entries.get key))
  | .clear => ({ entries with entries := [] }, .done)
  | .setCapacity capacity =>
    if capacity < 0 then (entries, .illegalArgument) else (entries.setCapacity capacity.toNat, .done)

end Cache

/-! ## The ledger -/

/-- Of each key that is held when it came, and the value it was last put with.
None has not come. -/
structure Ledger (K V : Type) where
  now : Nat
  birth : K → Option Nat
  lastPut : K → Option V
  capacity : Nat

namespace Ledger

variable (l : Ledger K V)

def new (capacity : Nat) : Ledger K V := ⟨0, fun _ => none, fun _ => none, capacity⟩

/-- Both are held, and the first came first. -/
def Older (k k' : K) : Prop := ∃ s t, l.birth k = some s ∧ l.birth k' = some t ∧ s < t

/-- Only the youngest keys stay, as many as the capacity. -/
noncomputable def evict : Ledger K V :=
  { l with birth := fun k => if {k' | l.Older k k'}.ncard < l.capacity then l.birth k else none }

section

variable [DecidableEq K]

/-- A key that is held keeps its age. -/
def write (key : K) (value : V) : Ledger K V :=
  { l with
    now := l.now + 1
    birth := fun k => if k = key ∧ l.birth k = none then some l.now else l.birth k
    lastPut := fun k => if k = key then some value else l.lastPut k }

def remove (key : K) : Ledger K V := { l with birth := fun k => if k = key then none else l.birth k }

/-- The value of a key that is held. -/
def get (key : K) : Option V := if (l.birth key).isSome then l.lastPut key else none

noncomputable def call (l : Ledger K V) : Call K V → Ledger K V × Answer V
  | .put none _ | .get none | .contains none | .remove none => (l, .illegalArgument)
  | .put (some key) value => ((l.write key value).evict, .done)
  | .get (some key) => (l, .value (l.get key))
  | .contains (some key) => (l, .bool (l.birth key).isSome)
  | .remove (some key) => (l.remove key, .value (l.get key))
  | .clear => ({ l with birth := fun _ => none }, .done)
  | .setCapacity capacity =>
    if capacity < 0 then (l, .illegalArgument) else ({ l with capacity := capacity.toNat }.evict, .done)

end

end Ledger

/-! ## Entries in order of age -/

/-- The entries are the keys that are held, from the eldest to the youngest, with
their values. -/
structure Lists (l : Ledger K V) (entries : List (K × V)) : Prop where
  sorted : entries.Pairwise fun e e' => l.Older e.1 e'.1
  held : ∀ k, (l.birth k).isSome ↔ k ∈ entries.map (·.1)
  value : ∀ e ∈ entries, l.lastPut e.1 = some e.2
  past : ∀ k t, l.birth k = some t → t < l.now

namespace Lists

variable {l : Ledger K V} {entries : List (K × V)}

theorem older_irrefl (k : K) : ¬ l.Older k k := by
  rintro ⟨s, t, hs, ht, hlt⟩
  rw [hs] at ht
  cases ht
  exact lt_irrefl s hlt

theorem older_asymm {k k' : K} (h : l.Older k k') : ¬ l.Older k' k := by
  obtain ⟨s, t, hs, ht, hlt⟩ := h
  rintro ⟨t', s', ht', hs', hlt'⟩
  rw [ht] at ht'
  rw [hs] at hs'
  cases ht'
  cases hs'
  omega

theorem nodup (h : Lists l entries) : (entries.map (·.1)).Nodup := by
  refine List.pairwise_map.2 (h.sorted.imp fun {e e'} hlt heq => ?_)
  rw [heq] at hlt
  exact older_irrefl _ hlt

/-- Younger than an entry are those behind it. -/
theorem younger_eq {pre post : List (K × V)} {e : K × V} (h : Lists l (pre ++ e :: post)) :
    {k | l.Older e.1 k}.ncard = post.length := by
  have hset : {k | l.Older e.1 k} = {k | k ∈ post.map (·.1)} := by
    ext k
    obtain ⟨-, hpost, hpre⟩ := List.pairwise_append.1 h.sorted
    constructor
    · intro hk
      have hheld : k ∈ (pre ++ e :: post).map (·.1) := by
        obtain ⟨s, t, -, ht, -⟩ := hk
        exact (h.held k).1 (by rw [ht]; rfl)
      obtain ⟨e', he', rfl⟩ := List.mem_map.1 hheld
      rcases List.mem_append.1 he' with he' | he'
      · exact absurd hk (older_asymm (hpre e' he' e List.mem_cons_self))
      · rcases List.mem_cons.1 he' with rfl | he'
        · exact absurd hk (older_irrefl _)
        · exact List.mem_map_of_mem he'
    · intro hk
      obtain ⟨e', he', rfl⟩ := List.mem_map.1 hk
      exact (List.pairwise_cons.1 hpost).1 e' he'
  have hnodup : (post.map (·.1)).Nodup := by
    have := h.nodup
    rw [List.map_append, List.map_cons] at this
    exact (List.nodup_cons.1 (List.nodup_append.1 this).2.1).2
  classical
  have hfin : {k | k ∈ post.map (·.1)} = ((post.map (·.1)).toFinset : Set K) := by
    ext k
    simp
  rw [hset, hfin, Set.ncard_coe_finset, List.toFinset_card_of_nodup hnodup, List.length_map]

theorem birth_evict {pre post : List (K × V)} {e : K × V} (h : Lists l (pre ++ e :: post)) :
    l.evict.birth e.1 = if post.length < l.capacity then l.birth e.1 else none := by
  rw [Ledger.evict]
  dsimp only
  rw [h.younger_eq]

theorem birth_evict_eq_some {k : K} {t : Nat} (h : l.evict.birth k = some t) : l.birth k = some t := by
  rw [Ledger.evict] at h
  dsimp only at h
  split at h
  · exact h
  · cases h

/-- Evicting takes the first entries of the list. -/
theorem evict (h : Lists l entries) : Lists l.evict (entries.drop (entries.length - l.capacity)) := by
  have hkept : ∀ e ∈ entries.drop (entries.length - l.capacity), l.evict.birth e.1 = l.birth e.1 := by
    intro e he
    obtain ⟨a, b, hab⟩ := List.append_of_mem he
    have hsplit : entries = (entries.take (entries.length - l.capacity) ++ a) ++ e :: b := by
      rw [List.append_assoc, ← hab, List.take_append_drop]
    have hlen := congrArg List.length hab
    simp only [List.length_drop, List.length_append, List.length_cons] at hlen
    rw [hsplit] at h
    rw [h.birth_evict, if_pos (by omega)]
  refine ⟨?_, fun k => ⟨fun hk => ?_, fun hk => ?_⟩, fun e he => h.value e (List.mem_of_mem_drop he),
    fun k t hk => h.past k t (birth_evict_eq_some hk)⟩
  · refine (h.sorted.sublist (List.drop_sublist _ _)).imp_of_mem fun he he' hlt => ?_
    obtain ⟨s, t, hs, ht, hlt⟩ := hlt
    exact ⟨s, t, by rw [hkept _ he, hs], by rw [hkept _ he', ht], hlt⟩
  · obtain ⟨t, ht⟩ := Option.isSome_iff_exists.1 hk
    have hmem : k ∈ entries.map (·.1) := (h.held k).1 (by rw [birth_evict_eq_some ht]; rfl)
    obtain ⟨e, he, rfl⟩ := List.mem_map.1 hmem
    obtain ⟨pre, post, rfl⟩ := List.append_of_mem he
    rw [h.birth_evict] at ht
    split at ht
    · rename_i hlt
      refine List.mem_map_of_mem ?_
      rw [List.drop_append_of_le_length (by simp only [List.length_append, List.length_cons]; omega)]
      exact List.mem_append_right _ List.mem_cons_self
    · cases ht
  · obtain ⟨e, he, rfl⟩ := List.mem_map.1 hk
    rw [hkept e he]
    exact (h.held e.1).2 (List.mem_map_of_mem (List.mem_of_mem_drop he))

end Lists

/-! ## The calls -/

/-- The map lists the ledger, and is not over its capacity. -/
structure Holds (m : BoundedHashMap K V) (l : Ledger K V) : Prop where
  lists : Lists l m.entries
  capacity : m.capacity = l.capacity
  fits : m.size ≤ m.capacity

variable {m : BoundedHashMap K V} {l : Ledger K V}

theorem Holds.setCapacity (h : Holds m l) (capacity : Nat) :
    Holds (m.setCapacity capacity) { l with capacity }.evict := by
  have hlists : Lists { l with capacity } m.entries := ⟨h.lists.sorted, h.lists.held, h.lists.value, h.lists.past⟩
  refine ⟨hlists.evict, rfl, ?_⟩
  simp only [BoundedHashMap.setCapacity, BoundedHashMap.removeOverCapacityEntries, BoundedHashMap.size,
    List.length_drop]
  omega

theorem Holds.clear (h : Holds m l) : Holds { m with entries := [] } { l with birth := fun _ => none } := by
  refine ⟨⟨List.Pairwise.nil, fun k => ?_, fun e he => ?_, fun k t hk => ?_⟩, h.capacity, Nat.zero_le _⟩
  · simp
  · cases he
  · cases hk

variable [DecidableEq K]

theorem Lists.isSome_get {entries : List (K × V)} {capacity : Nat} (h : Lists l entries) (key : K) :
    (BoundedHashMap.get ⟨entries, capacity⟩ key).isSome = (l.birth key).isSome := by
  rw [Bool.eq_iff_iff, h.held, ← not_iff_not, ← BoundedHashMap.get_eq_none (m := ⟨entries, capacity⟩)]
  simp

theorem Lists.get_eq {entries : List (K × V)} {capacity : Nat} (h : Lists l entries) (key : K) :
    BoundedHashMap.get ⟨entries, capacity⟩ key = l.get key := by
  have hsome : (BoundedHashMap.get ⟨entries, capacity⟩ key).isSome = (l.birth key).isSome := h.isSome_get key
  rw [Ledger.get]
  cases hget : BoundedHashMap.get ⟨entries, capacity⟩ key with
  | none =>
    rw [hget] at hsome
    rw [← hsome]
    rfl
  | some v =>
    rw [hget] at hsome
    rw [← hsome, Option.isSome_some, if_pos rfl]
    obtain ⟨e, he, rfl⟩ := Option.map_eq_some_iff.1 hget
    have hkey : e.1 = key := by simpa using List.find?_some he
    rw [← hkey, h.value e (List.mem_of_find?_eq_some he)]

/-- A key that is held gets its new value where it is. -/
theorem Lists.write_held {entries : List (K × V)} (h : Lists l entries) {key : K} (hkey : (l.birth key).isSome)
    (value : V) :
    Lists (l.write key value) (entries.map fun e => if e.1 = key then (e.1, value) else e) := by
  have hbirth : (l.write key value).birth = l.birth := by
    funext k
    rw [Ledger.write]
    refine if_neg ?_
    rintro ⟨rfl, hnone⟩
    rw [hnone] at hkey
    cases hkey
  have hfst : ∀ e : K × V, (if e.1 = key then (e.1, value) else e).1 = e.1 := by
    intro e
    split <;> rfl
  refine ⟨?_, fun k => ?_, fun e he => ?_, fun k t hk => ?_⟩
  · rw [List.pairwise_map]
    refine h.sorted.imp fun hlt => ?_
    rw [hfst, hfst, Ledger.Older, hbirth]
    exact hlt
  · rw [hbirth, h.held, List.map_map]
    simp only [Function.comp_def, hfst]
  · obtain ⟨e', he', rfl⟩ := List.mem_map.1 he
    rw [hfst, Ledger.write]
    dsimp only
    split
    · rfl
    · exact h.value e' he'
  · rw [hbirth] at hk
    exact (h.past k t hk).trans (Nat.lt_succ_self _)

/-- A key that is not held comes last. -/
theorem Lists.write_new {entries : List (K × V)} (h : Lists l entries) {key : K} (hkey : l.birth key = none)
    (value : V) : Lists (l.write key value) (entries ++ [(key, value)]) := by
  have hnotin : key ∉ entries.map (·.1) := by
    rw [← h.held, hkey]
    simp
  have hold : ∀ k, k ≠ key → (l.write key value).birth k = l.birth k := fun k hk => if_neg fun h => hk h.1
  have hnew : (l.write key value).birth key = some l.now := if_pos ⟨rfl, hkey⟩
  have hne : ∀ e ∈ entries, e.1 ≠ key := fun e he heq => hnotin (heq ▸ List.mem_map_of_mem he)
  refine ⟨?_, fun k => ?_, fun e he => ?_, fun k t hk => ?_⟩
  · refine List.pairwise_append.2 ⟨h.sorted.imp_of_mem fun he he' hlt => ?_, List.pairwise_singleton _ _,
      fun e he e' he' => ?_⟩
    · rw [Ledger.Older, hold _ (hne _ he), hold _ (hne _ he')]
      exact hlt
    · rw [List.mem_singleton.1 he']
      obtain ⟨t, ht⟩ := Option.isSome_iff_exists.1 ((h.held e.1).2 (List.mem_map_of_mem he))
      exact ⟨t, l.now, by rw [hold _ (hne e he), ht], hnew, h.past _ _ ht⟩
  · by_cases hk : k = key
    · subst hk
      simp [hnew]
    · rw [hold k hk, h.held]
      simp [hk]
  · rcases List.mem_append.1 he with he | he
    · have hlast : (l.write key value).lastPut e.1 = l.lastPut e.1 := if_neg (hne e he)
      rw [hlast, h.value e he]
    · rw [List.mem_singleton.1 he]
      exact if_pos rfl
  · by_cases hkk : k = key
    · subst hkk
      rw [hnew] at hk
      cases hk
      exact Nat.lt_succ_self _
    · rw [hold k hkk] at hk
      exact (h.past k t hk).trans (Nat.lt_succ_self _)

theorem Holds.put (h : Holds m l) (key : K) (value : V) : Holds (m.put key value) (l.write key value).evict := by
  obtain ⟨hlists, hcapacity, hfits⟩ := h
  have hsome : (m.get key).isSome = (l.birth key).isSome := hlists.isSome_get key
  have hevict : (l.write key value).evict.capacity = l.capacity := rfl
  rw [BoundedHashMap.put, hsome]
  rw [BoundedHashMap.size] at hfits
  by_cases hheld : (l.birth key).isSome
  · rw [if_pos hheld]
    have hwritten := (hlists.write_held hheld value).evict
    have hlen : (m.entries.map fun e => if e.1 = key then (e.1, value) else e).length -
        (l.write key value).capacity = 0 := by
      rw [List.length_map]
      have : (l.write key value).capacity = l.capacity := rfl
      omega
    rw [hlen, List.drop_zero] at hwritten
    exact ⟨hwritten, hcapacity.trans hevict.symm, by rw [BoundedHashMap.size, List.length_map]; exact hfits⟩
  · rw [if_neg hheld]
    have hwritten := (hlists.write_new (by simpa using hheld) value).evict
    have hlen : (m.entries ++ [(key, value)]).length = m.entries.length + 1 := by simp
    have hcap : (l.write key value).capacity = m.capacity := hcapacity.symm
    rw [hlen, hcap] at hwritten
    simp only [BoundedHashMap.removeEldestEntry, BoundedHashMap.size, hlen, decide_eq_true_eq]
    split
    · -- The map was full, and one entry goes.
      rename_i hfull
      have hone : m.entries.length + 1 - m.capacity = 1 := by omega
      rw [hone, List.drop_one] at hwritten
      refine ⟨hwritten, hcapacity.trans hevict.symm, ?_⟩
      rw [BoundedHashMap.size, List.length_tail, hlen]
      exact hfits
    · rename_i hroom
      have hzero : m.entries.length + 1 - m.capacity = 0 := by omega
      rw [hzero, List.drop_zero] at hwritten
      refine ⟨hwritten, hcapacity.trans hevict.symm, ?_⟩
      rw [BoundedHashMap.size, hlen]
      exact not_lt.1 hroom

theorem Holds.remove (h : Holds m l) (key : K) : Holds (m.remove key) (l.remove key) := by
  obtain ⟨hlists, hcapacity, hfits⟩ := h
  have hkept : ∀ k, k ≠ key → (l.remove key).birth k = l.birth k := fun k hk => if_neg hk
  refine ⟨⟨?_, fun k => ?_, fun e he => hlists.value e (List.mem_of_mem_filter he), fun k t hk => ?_⟩, hcapacity,
    (List.length_filter_le _ _).trans hfits⟩
  · refine (hlists.sorted.sublist List.filter_sublist).imp_of_mem fun he he' hlt => ?_
    have hne := (List.mem_filter.1 he).2
    have hne' := (List.mem_filter.1 he').2
    simp only [decide_not, Bool.not_eq_eq_eq_not, Bool.not_true, decide_eq_false_iff_not] at hne hne'
    rw [Ledger.Older, hkept _ hne, hkept _ hne']
    exact hlt
  · by_cases hk : k = key
    · subst hk
      simp [Ledger.remove, BoundedHashMap.remove]
    · rw [hkept k hk, hlists.held]
      simp only [BoundedHashMap.remove, List.mem_map, List.mem_filter, decide_eq_true_eq]
      constructor
      · rintro ⟨e, he, rfl⟩
        exact ⟨e, ⟨he, hk⟩, rfl⟩
      · rintro ⟨e, ⟨he, -⟩, rfl⟩
        exact ⟨e, he, rfl⟩
  · by_cases hkk : k = key
    · rw [Ledger.remove] at hk
      simp [hkk] at hk
    · rw [hkept k hkk] at hk
      exact hlists.past k t hk

/-- A call keeps the map and the ledger in step, and they answer alike. -/
theorem Holds.call (h : Holds m l) (c : Call K V) :
    Holds (BasicSessionCache.call m c).1 (l.call c).1 ∧ (BasicSessionCache.call m c).2 = (l.call c).2 := by
  have hget : ∀ key, m.get key = l.get key := fun key => h.lists.get_eq key
  have hsome : ∀ key, (m.get key).isSome = (l.birth key).isSome := fun key => h.lists.isSome_get key
  cases c with
  | put key value =>
    cases key with
    | none => exact ⟨h, rfl⟩
    | some key => exact ⟨h.put key value, rfl⟩
  | get key =>
    cases key with
    | none => exact ⟨h, rfl⟩
    | some key => exact ⟨h, congrArg Answer.value (hget key)⟩
  | contains key =>
    cases key with
    | none => exact ⟨h, rfl⟩
    | some key => exact ⟨h, congrArg Answer.bool (hsome key)⟩
  | remove key =>
    cases key with
    | none => exact ⟨h, rfl⟩
    | some key => exact ⟨h.remove key, congrArg Answer.value (hget key)⟩
  | clear => exact ⟨h.clear, rfl⟩
  | setCapacity capacity =>
    rw [BasicSessionCache.call, Ledger.call]
    split
    · exact ⟨h, rfl⟩
    · exact ⟨h.setCapacity _, rfl⟩

theorem Holds.answers (h : Holds m l) (calls : List (Call K V)) :
    Holds (answers (fun m c => BasicSessionCache.call m c) m calls).1
      (SessionCache.answers (fun l c => l.call c) l calls).1 ∧
      (SessionCache.answers (fun m c => BasicSessionCache.call m c) m calls).2 =
      (SessionCache.answers (fun l c => l.call c) l calls).2 := by
  induction calls generalizing m l with
  | nil => exact ⟨h, rfl⟩
  | cons c calls ih =>
    obtain ⟨hstep, hanswer⟩ := h.call c
    obtain ⟨hlast, hanswers⟩ := ih hstep
    exact ⟨hlast, congrArg₂ List.cons hanswer hanswers⟩

/-- After any history the cache lists exactly the keys the ledger holds, from the
eldest to the youngest and with the values of their last puts, no more than its
capacity, and every call has been answered from the ledger. -/
theorem cache_holds (capacity : Nat) (calls : List (Call K V)) :
    Holds (answers (fun m c => BasicSessionCache.call m c) (BoundedHashMap.new capacity) calls).1
        (answers (fun l c => l.call c) (Ledger.new capacity) calls).1 ∧
      (answers (fun m c => BasicSessionCache.call m c) (BoundedHashMap.new capacity) calls).2 =
        (answers (fun l c => l.call c) (Ledger.new capacity) calls).2 := by
  refine Holds.answers ⟨⟨List.Pairwise.nil, fun k => ?_, fun e he => ?_, fun k t hk => ?_⟩, rfl, Nat.zero_le _⟩ calls
  · simp [Ledger.new, BoundedHashMap.new]
  · cases he
  · cases hk

/-- The second put of 1 does not make it younger. -/
example : (answers (fun m c => BasicSessionCache.call m c) (BoundedHashMap.new 2)
    [.put (some 1) 'a', .put (some 2) 'b', .put (some 1) 'c', .put (some 3) 'd']).1.entries =
      [(2, 'b'), (3, 'd')] := by
  decide

end WorldWind.SessionCache
