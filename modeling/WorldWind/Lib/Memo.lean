import WorldWind.Lib.JavaArray
/-!
# Two-dimensional tables of remembered values

An array of arrays whose entries are null until they are computed. A table is
coherent with a function if every entry that is not null is the value of the
function at its index; then looking an entry up and computing it where it is
null give the same (`getD_of_coherent`), and remembering it keeps the table
coherent (`Coherent.put`).
-/

namespace WorldWind.Lib.Memo

variable {α : Type*}

structure Table (α : Type*) where
  rows : Nat
  cols : Nat
  val : Nat → Nat → Option α

namespace Table

/-- `new T[rows][cols]`; negative sizes throw. -/
def new (rows cols : Int) : Option (Table α) :=
  if rows < 0 ∨ cols < 0 then none else some ⟨rows.toNat, cols.toNat, fun _ _ => none⟩

/-- `t[i][j]`, which throws out of bounds. -/
def get? (t : Table α) (i j : Nat) : Option (Option α) :=
  if i < t.rows ∧ j < t.cols then some (t.val i j) else none

/-- `t[i][j] = a`, in bounds. -/
def put (t : Table α) (i j : Nat) (a : α) : Table α :=
  { t with val := fun i' j' => if i' = i ∧ j' = j then some a else t.val i' j' }

@[simp] theorem put_rows (t : Table α) (i j : Nat) (a : α) : (t.put i j a).rows = t.rows := rfl

@[simp] theorem put_cols (t : Table α) (i j : Nat) (a : α) : (t.put i j a).cols = t.cols := rfl

/-- Every entry that is not null is what `f` computes, and the table has the
given size. -/
structure Coherent (f : Nat → Nat → α) (rows cols : Int) (t : Table α) : Prop where
  rows_eq : (t.rows : Int) = rows
  cols_eq : (t.cols : Int) = cols
  val_eq : ∀ i j a, t.val i j = some a → a = f i j

variable {f : Nat → Nat → α} {rows cols : Int} {t : Table α}

theorem new_eq_none : (new rows cols : Option (Table α)) = none ↔ rows < 0 ∨ cols < 0 := by
  rw [new]
  split <;> simp_all

theorem Coherent.nonneg (h : t.Coherent f rows cols) : 0 ≤ rows ∧ 0 ≤ cols :=
  ⟨h.rows_eq ▸ Int.natCast_nonneg _, h.cols_eq ▸ Int.natCast_nonneg _⟩

theorem coherent_new (f : Nat → Nat → α) (h : new rows cols = some t) : t.Coherent f rows cols := by
  rw [new] at h
  split at h
  · cases h
  · obtain rfl := Option.some.inj h
    exact ⟨by simp only; omega, by simp only; omega, fun _ _ _ h => by cases h⟩

/-- A table that is kept, or else allocated. -/
theorem coherent_or {kept : Option (Table α)} (h : ∀ t, kept = some t → t.Coherent f rows cols)
    (ht : kept.or (new rows cols) = some t) : t.Coherent f rows cols := by
  cases hk : kept with
  | none =>
    rw [hk, Option.none_or] at ht
    exact coherent_new f ht
  | some t' =>
    rw [hk, Option.some_or] at ht
    exact h t (hk.trans ht)

theorem Coherent.put (h : t.Coherent f rows cols) (i j : Nat) : (t.put i j (f i j)).Coherent f rows cols := by
  refine ⟨h.rows_eq, h.cols_eq, fun i' j' a ha => ?_⟩
  rw [Table.put] at ha
  simp only at ha
  split at ha
  · rename_i hij
    rw [hij.1, hij.2]
    exact (Option.some.inj ha).symm
  · exact h.val_eq i' j' a ha

/-- In bounds there is an entry, null or the value. -/
theorem Coherent.get? (h : t.Coherent f rows cols) {i j : Nat} (hi : (i : Int) < rows) (hj : (j : Int) < cols) :
    t.get? i j = some none ∨ t.get? i j = some (some (f i j)) := by
  rw [Table.get?, if_pos (by rw [← h.rows_eq] at hi; rw [← h.cols_eq] at hj; omega)]
  cases hv : t.val i j with
  | none => exact Or.inl rfl
  | some a =>
    rw [h.val_eq i j a hv]
    exact Or.inr rfl

theorem Coherent.getD (h : t.Coherent f rows cols) {i j : Nat} (hi : (i : Int) < rows) (hj : (j : Int) < cols) :
    (t.get? i j).map (fun a => a.getD (f i j)) = some (f i j) := by
  rcases h.get? hi hj with h | h <;> rw [h] <;> rfl

end Table

end WorldWind.Lib.Memo
