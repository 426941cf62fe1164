import Mathlib
/-!
# `util/BoundedHashMap.java`, `cache/BasicSessionCache.java`

A linked hash map in insertion order: the eldest entry comes first, and an
entry that is replaced stays where it is. A new entry that takes the size over
the capacity drives out the eldest. The session cache passes its calls on to
the map and throws for a negative capacity.
-/

namespace WorldWind.SessionCache

variable {K V : Type} [DecidableEq K]

structure BoundedHashMap (K V : Type) where
  entries : List (K × V)
  capacity : Nat
  deriving DecidableEq, Repr

namespace BoundedHashMap

def new (capacity : Nat) : BoundedHashMap K V := ⟨[], capacity⟩

def size (m : BoundedHashMap K V) : Nat := m.entries.length

def get (m : BoundedHashMap K V) (key : K) : Option V := (m.entries.find? fun e => e.1 = key).map (·.2)

def removeEldestEntry (m : BoundedHashMap K V) : Bool := m.capacity < m.size

def put (m : BoundedHashMap K V) (key : K) (value : V) : BoundedHashMap K V :=
  if (m.get key).isSome then
    { m with entries := m.entries.map fun e => if e.1 = key then (e.1, value) else e }
  else
    let m := { m with entries := m.entries ++ [(key, value)] }
    if m.removeEldestEntry then { m with entries := m.entries.tail } else m

def remove (m : BoundedHashMap K V) (key : K) : BoundedHashMap K V :=
  { m with entries := m.entries.filter fun e => ¬ e.1 = key }

def removeOverCapacityEntries (m : BoundedHashMap K V) : BoundedHashMap K V :=
  { m with entries := m.entries.drop (m.size - m.capacity) }

def setCapacity (m : BoundedHashMap K V) (capacity : Nat) : BoundedHashMap K V :=
  { m with capacity }.removeOverCapacityEntries

/-- The object under a key, changed in place by whoever holds it. -/
def modify (m : BoundedHashMap K V) (key : K) (f : V → V) : BoundedHashMap K V :=
  { m with entries := m.entries.map fun e => if e.1 = key then (e.1, f e.2) else e }

/-! ## Looking up after a change -/

theorem get_eq_none {m : BoundedHashMap K V} {key : K} : m.get key = none ↔ key ∉ m.entries.map (·.1) := by
  simp only [get, Option.map_eq_none_iff, List.find?_eq_none, decide_eq_true_eq, List.mem_map, not_exists, not_and]

theorem get_remove (m : BoundedHashMap K V) (key q : K) :
    (m.remove key).get q = if q = key then none else m.get q := by
  simp only [get, remove, List.find?_filter]
  split
  · rename_i hq
    rw [Option.map_eq_none_iff, List.find?_eq_none]
    intro e _
    simp [hq]
  · rename_i hq
    congr 2
    funext e
    by_cases he : e.1 = q
    · simp [he, hq]
    · simp [he]

theorem get_modify (m : BoundedHashMap K V) (key q : K) (f : V → V) :
    (m.modify key f).get q = if q = key then (m.get q).map f else m.get q := by
  have hkey : ∀ e : K × V, (if e.1 = key then (e.1, f e.2) else e).1 = e.1 := by
    intro e
    split <;> rfl
  simp only [get, modify, List.find?_map, Function.comp_def, hkey, Option.map_map]
  cases hfind : m.entries.find? fun e => e.1 = q with
  | none => simp
  | some e =>
    have he : e.1 = q := by simpa using List.find?_some hfind
    simp only [Option.map_some, he]
    split <;> rfl

/-- A new key in a map that is not full. -/
theorem put_new {m : BoundedHashMap K V} {key : K} (hnew : m.get key = none) (hfit : m.size < m.capacity)
    (value : V) :
    m.put key value = { m with entries := m.entries ++ [(key, value)] } := by
  have hroom : removeEldestEntry { m with entries := m.entries ++ [(key, value)] } = false := by
    simp only [removeEldestEntry, size, List.length_append, List.length_singleton, decide_eq_false_iff_not] at hfit ⊢
    omega
  simp [put, hnew, hroom]

theorem get_put_new {m : BoundedHashMap K V} {key : K} (hnew : m.get key = none) (hfit : m.size < m.capacity)
    (value : V) (q : K) : (m.put key value).get q = if q = key then some value else m.get q := by
  rw [put_new hnew hfit]
  simp only [get, List.find?_append, List.find?_singleton, decide_eq_true_eq]
  by_cases hq : key = q
  · subst hq
    have hnone := hnew
    simp only [get, Option.map_eq_none_iff] at hnone
    simp [hnone]
  · simp [hq, Ne.symm hq]

end BoundedHashMap

end WorldWind.SessionCache
