import WorldWind.Lib.JavaArray
/-!
# Arrays that grow

A list kept at the front of an array that has room to spare. The array is copied
to one of twice the length until a minimal capacity is reached (`grow`), and
elements are written behind the last one (`appendAll`). Both keep the list as
the beginning of the array.
-/

namespace WorldWind.Lib.GrowingArray

open JavaArray

variable {α : Type*}

/-- A new array with as many elements of the original as fit. -/
def copyOf (zero : α) (original : List α) (newLength : Nat) : List α :=
  blit (List.replicate newLength zero) 0 (original.take (min original.length newLength))

@[simp] theorem length_copyOf (zero : α) (a : List α) (n : Nat) : (copyOf zero a n).length = n := by
  rw [copyOf, length_blit (by simp), List.length_replicate]

theorem getElem?_copyOf (zero : α) {a : List α} {n i : Nat} (hi : i < a.length) (hn : i < n) :
    (copyOf zero a n)[i]? = a[i]? := by
  rw [copyOf, getElem?_blit (by simp), if_pos (by simp; omega), Nat.sub_zero, List.getElem?_take_of_lt (by omega)]

theorem isPrefix_copyOf (zero : α) {a : List α} {n : Nat} (h : a.length ≤ n) : a <+: copyOf zero a n := by
  rw [List.prefix_iff_getElem?]
  intro i hi
  rw [getElem?_copyOf zero hi (by omega), List.getElem?_eq_getElem hi]

/-- What a copy to a longer array does, of arrays and of buffers. -/
def Copies (copy : List α → Nat → Option (List α)) : Prop :=
  ∀ a n, a.length ≤ n → ∃ b, copy a n = some b ∧ a <+: b ∧ b.length = n

theorem copies_copyOf (zero : α) : Copies fun a n => some (copyOf zero a n) :=
  fun _ n h => ⟨_, rfl, isPrefix_copyOf zero h, length_copyOf zero _ n⟩

/-- `while (minCapacity > oldCapacity)`: the array is copied to one of twice its length. No
result stands for a loop that is not done after so many turns. -/
def grow (copy : List α → Nat → Option (List α)) (minCapacity : Nat) : Nat → List α → Option (List α)
  | 0, a => if minCapacity > a.length then none else some a
  | turns + 1, a =>
    if minCapacity > a.length then do
      let a ← copy a (2 * a.length)
      grow copy minCapacity turns a
    else some a

theorem grow_spec {copy : List α → Nat → Option (List α)} (hcopy : Copies copy) {minCapacity turns : Nat} {a : List α}
    (h : minCapacity ≤ a.length * 2 ^ turns) :
    ∃ b, grow copy minCapacity turns a = some b ∧ a <+: b ∧ minCapacity ≤ b.length := by
  induction turns generalizing a with
  | zero =>
    rw [Nat.pow_zero, Nat.mul_one] at h
    exact ⟨a, if_neg (by omega), List.prefix_refl a, h⟩
  | succ turns ih =>
    by_cases hmin : minCapacity > a.length
    · obtain ⟨b, hb, hab, hlen⟩ := hcopy a (2 * a.length) (by omega)
      obtain ⟨c, hc, hbc, hmin'⟩ := ih (a := b) (by rw [hlen]; rw [Nat.pow_succ] at h; linarith)
      refine ⟨c, ?_, hab.trans hbc, hmin'⟩
      rw [grow, if_pos hmin, hb, Option.bind_eq_bind, Option.bind_some, hc]
    · exact ⟨a, if_neg hmin, List.prefix_refl a, by omega⟩

/-- An array that is not empty grows in so many turns as the capacity has elements. -/
theorem grow_all {copy : List α → Nat → Option (List α)} (hcopy : Copies copy) (minCapacity : Nat) {a : List α}
    (h : 0 < a.length) : ∃ b, grow copy minCapacity minCapacity a = some b ∧ a <+: b ∧ minCapacity ≤ b.length := by
  refine grow_spec hcopy ?_
  calc minCapacity ≤ 2 ^ minCapacity := Nat.lt_two_pow_self.le
    _ ≤ a.length * 2 ^ minCapacity := Nat.le_mul_of_pos_left _ h

/-- `a[n++] = x` for each `x`. -/
def appendAll : List α → Nat → List α → Option (List α × Nat)
  | a, n, [] => some (a, n)
  | a, n, x :: xs => do
    let a ← write a n x
    appendAll a (n + 1) xs

theorem appendAll_spec {l a : List α} (h : l <+: a) (xs : List α) (hlen : l.length + xs.length ≤ a.length) :
    ∃ b, appendAll a l.length xs = some (b, (l ++ xs).length) ∧ l ++ xs <+: b ∧ b.length = a.length := by
  induction xs generalizing l a with
  | nil => exact ⟨a, by simp [appendAll], by simpa using h, rfl⟩
  | cons x xs ih =>
    rw [List.length_cons] at hlen
    have hwrite : write a l.length x = some (a.set l.length x) := if_pos (by omega)
    have hx : l ++ [x] <+: a.set l.length x := by
      obtain ⟨rest, rfl⟩ := h
      rw [List.length_append] at hlen
      match rest with
      | [] => simp at hlen
      | y :: rest => exact ⟨rest, by simp⟩
    obtain ⟨b, hb, hpre, hlen'⟩ := ih hx (by simp; omega)
    rw [List.length_append, List.length_singleton] at hb
    rw [List.append_assoc] at hpre hb
    refine ⟨b, ?_, hpre, hlen'.trans (by simp)⟩
    rw [appendAll, hwrite, Option.bind_eq_bind, Option.bind_some, hb]
    rfl

/-- Elements written one after the other. -/
theorem appendAll_eq {a : List α} {n : Nat} {xs : List α} (h : n + xs.length ≤ a.length) :
    appendAll a n xs = some (blit a n xs, n + xs.length) := by
  induction xs generalizing a n with
  | nil => rw [appendAll, blit_nil, List.length_nil, Nat.add_zero]
  | cons x xs ih =>
    rw [List.length_cons] at h
    have hset : a.set n x = blit a n [x] := by
      rw [blit, List.set_eq_take_append_cons_drop, if_pos (by omega), List.append_assoc]
      rfl
    have hwrite : write a n x = some (a.set n x) := if_pos (by omega)
    rw [appendAll, hwrite, Option.bind_eq_bind, Option.bind_some, ih (by rw [List.length_set]; omega), hset]
    have hblit : blit (blit a n [x]) (n + 1) xs = blit a n ([x] ++ xs) :=
      blit_blit [x] xs (by simp only [List.length_singleton]; omega)
    rw [hblit, List.length_cons, List.singleton_append, Nat.add_right_comm, Nat.add_assoc]

/-- What is written goes on behind what was written before. -/
theorem appendAll_append {a x : List α} {n : Nat} (y : List α) (h : n + (x ++ y).length ≤ a.length) :
    appendAll (blit a n x) (n + x.length) y = some (blit a n (x ++ y), n + (x ++ y).length) := by
  rw [List.length_append] at h
  rw [appendAll_eq (by rw [length_blit (by omega)]; omega), blit_blit x y (by omega), List.length_append,
    Nat.add_assoc]

/-- `a[i] = y` inside the list. -/
theorem write_inside {l r a : List α} {x : α} (h : l ++ x :: r <+: a) (y : α) :
    ∃ b, write a l.length y = some b ∧ l ++ y :: r <+: b ∧ b.length = a.length := by
  obtain ⟨rest, rfl⟩ := h
  refine ⟨l ++ y :: r ++ rest, ?_, List.prefix_append _ _, by simp⟩
  rw [write, if_pos (by simp)]
  simp

theorem getElem?_inside {l r a : List α} {x : α} (h : l ++ x :: r <+: a) : a[l.length]? = some x := by
  obtain ⟨rest, rfl⟩ := h
  simp

end WorldWind.Lib.GrowingArray
