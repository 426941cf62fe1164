import Mathlib
/-!
# Closed lists of points

The steps of a list are its pairs of neighbours. Turned around, a list has the same steps
the other way (`steps_reverse`); a closed list that starts at another of its points has the
same steps in another order (`perm_steps_close`). The closed list has one edge more, from its
last point to its first (`edges_close`). A closed list enters a set as often as it leaves it
(`enters_eq_leaves`).
-/

namespace WorldWind.Lib.ClosedPath

variable {α : Type*}

/-- The pairs of neighbours. -/
def steps (l : List α) : List (α × α) := l.zip l.tail

/-- The list that ends where it starts. -/
def close : List α → List α
  | [] => []
  | a :: l => a :: l ++ [a]

@[simp] theorem steps_nil : steps ([] : List α) = [] := rfl

@[simp] theorem steps_singleton (a : α) : steps [a] = [] := rfl

@[simp] theorem steps_cons_cons (a b : α) (l : List α) : steps (a :: b :: l) = (a, b) :: steps (b :: l) := rfl

theorem mem_of_mem_steps {l : List α} {s : α × α} (h : s ∈ steps l) : s.1 ∈ l ∧ s.2 ∈ l :=
  ⟨(List.of_mem_zip h).1, List.mem_of_mem_tail (List.of_mem_zip h).2⟩

theorem steps_append_cons (l l' : List α) (a : α) : steps (l ++ a :: l') = steps (l ++ [a]) ++ steps (a :: l') := by
  induction l with
  | nil => rfl
  | cons b l ih =>
    cases l with
    | nil => rfl
    | cons c l =>
      rw [List.cons_append, List.cons_append, steps_cons_cons, ← List.cons_append, ih]
      rfl

theorem steps_reverse (l : List α) : steps l.reverse = ((steps l).map Prod.swap).reverse := by
  induction l with
  | nil => rfl
  | cons a l ih =>
    cases l with
    | nil => rfl
    | cons b l =>
      have hreverse : (a :: b :: l).reverse = l.reverse ++ [b, a] := by simp
      rw [hreverse, steps_append_cons, ← List.reverse_cons, ih, steps_cons_cons a b l, List.map_cons,
        List.reverse_cons]
      rfl

theorem steps_close (l : List α) : steps (close l) = l.zip (l.rotate 1) := by
  cases l with
  | nil => rfl
  | cons a l =>
    have hzip : ((a :: l) ++ [a]).zip (l ++ [a] ++ []) = (a :: l).zip (l ++ [a]) ++ [a].zip [] :=
      List.zip_append (by simp)
    rw [close, steps, List.cons_append, List.tail_cons, List.rotate_cons_succ, List.rotate_zero, ← List.cons_append]
    rw [List.append_nil, List.zip_nil_right, List.append_nil] at hzip
    exact hzip

theorem mem_of_mem_close {l : List α} {a : α} (h : a ∈ close l) : a ∈ l := by
  cases l with
  | nil => exact h
  | cons b l =>
    rcases List.mem_append.1 h with h | h
    · exact h
    · obtain rfl := List.mem_singleton.1 h
      exact List.mem_cons_self

/-- A closed list without its last point is closed to the list again, but for a list of one point. -/
theorem close_dropLast {l : List α} (h : l.head? = l.getLast?) (hlength : l.length ≠ 1) : close l.dropLast = l := by
  match l with
  | [] => rfl
  | [a] => exact absurd rfl hlength
  | a :: b :: l =>
    have hlast : a = (b :: l).getLast (List.cons_ne_nil b l) := by
      rw [List.head?_cons, List.getLast?_cons_cons, List.getLast?_eq_getLast_of_ne_nil (List.cons_ne_nil b l)] at h
      exact Option.some.inj h
    rw [List.dropLast_cons_cons, close, List.cons_append]
    nth_rewrite 2 [hlast]
    rw [List.dropLast_append_getLast]

theorem steps_close_dropLast {l : List α} (h : l.head? = l.getLast?) : steps (close l.dropLast) = steps l := by
  by_cases hlength : l.length = 1
  · obtain ⟨a, rfl⟩ := List.length_eq_one_iff.1 hlength
    rfl
  · rw [close_dropLast h hlength]

/-- Another start. -/
theorem perm_steps_close (l : List α) (k : Nat) : (steps (close (l.rotate k))).Perm (steps (close l)) := by
  have h : steps (close (l.rotate k)) = (steps (close l)).rotate k := by
    rw [steps_close, steps_close, List.zip_eq_zipWith, List.zip_eq_zipWith,
      List.zipWith_rotate_distrib _ _ _ _ (List.length_rotate ..).symm,
      List.rotate_rotate, List.rotate_rotate, Nat.add_comm]
  rw [h]
  exact List.rotate_perm _ _

/-- What no step changes is the same for all points. -/
theorem eq_of_steps {β : Type*} {f : α → β} {l : List α} (h : ∀ s ∈ steps l, f s.1 = f s.2) {a b : α} (ha : a ∈ l)
    (hb : b ∈ l) : f a = f b := by
  have hhead : ∀ (l : List α) (c : α), (∀ s ∈ steps (c :: l), f s.1 = f s.2) → ∀ x ∈ c :: l, f x = f c := by
    intro l
    induction l with
    | nil => simp
    | cons d l ih =>
      intro c h x hx
      have hd : f c = f d := h (c, d) List.mem_cons_self
      rcases List.mem_cons.1 hx with rfl | hx
      · rfl
      · rw [ih d (fun s hs => h s (List.mem_cons_of_mem _ hs)) x hx, hd]
  cases l with
  | nil => cases ha
  | cons c l => rw [hhead l c h a ha, hhead l c h b hb]

theorem steps_map {β : Type*} (f : α → β) (l : List α) : steps (l.map f) = (steps l).map (Prod.map f f) := by
  rw [steps, steps, ← List.map_tail, List.zip_map]

theorem close_map {β : Type*} (f : α → β) (l : List α) : close (l.map f) = (close l).map f := by
  cases l with
  | nil => rfl
  | cons a l => simp [close]

theorem mem_steps_append {l : List α} {s : α × α} (h : s ∈ steps l) (a : α) : s ∈ steps (l ++ [a]) := by
  induction l with
  | nil => cases h
  | cons b l ih =>
    cases l with
    | nil => cases h
    | cons c l =>
      rcases List.mem_cons.1 h with rfl | h
      · exact List.mem_cons_self
      · exact List.mem_cons_of_mem _ (ih h)

theorem mem_steps_close {l : List α} {s : α × α} (h : s ∈ steps l) : s ∈ steps (close l) := by
  cases l with
  | nil => cases h
  | cons a l => exact mem_steps_append h a

/-- Turned around, the closed list has the same steps the other way. -/
theorem perm_steps_close_reverse (l : List α) :
    (steps (close l.reverse)).Perm ((steps (close l)).map Prod.swap) := by
  cases l with
  | nil => rfl
  | cons a l =>
    have hstart : (a :: l).reverse = (a :: l.reverse).rotate 1 := by
      rw [List.rotate_cons_succ, List.rotate_zero, List.reverse_cons]
    have hclose : close (a :: l.reverse) = (close (a :: l)).reverse := by simp [close]
    rw [hstart]
    refine (perm_steps_close _ 1).trans ?_
    rw [hclose, steps_reverse]
    exact List.reverse_perm _

/-- A line that goes on where it ends. -/
theorem steps_line (f : Nat → α) (n : Nat) {l : List α} (h : l.head? = some (f n)) :
    steps ((List.range n).map f ++ l) = (List.range n).map (fun i => (f i, f (i + 1))) ++ steps l := by
  induction n generalizing l with
  | zero => rfl
  | succ n ih =>
    obtain ⟨r, rfl⟩ : ∃ r, l = f (n + 1) :: r := by
      cases l with
      | nil => cases h
      | cons a r =>
        cases h
        exact ⟨r, rfl⟩
    rw [List.range_succ, List.map_append, List.map_append, List.append_assoc, List.map_singleton,
      List.singleton_append, ih (l := f n :: f (n + 1) :: r) rfl, steps_cons_cons, List.append_assoc]
    rfl

/-- The closed list has one step more, from its last point to its first. -/
theorem steps_concat (a b : α) (l : List α) :
    steps (a :: l ++ [b]) = steps (a :: l) ++ [((a :: l).getLast (List.cons_ne_nil a l), b)] := by
  induction l generalizing a with
  | nil => rfl
  | cons c l ih =>
    rw [List.cons_append, List.cons_append, steps_cons_cons, ← List.cons_append, ih c]
    rfl

/-- The steps without their direction. -/
def edges (l : List α) : List (Sym2 α) := (steps l).map fun s => s(s.1, s.2)

theorem edges_map {β : Type*} (f : α → β) (l : List α) : edges (l.map f) = (edges l).map (Sym2.map f) := by
  rw [edges, edges, steps_map, List.map_map, List.map_map]
  rfl

theorem edges_close {l : List α} {a b : α} (hhead : l.head? = some a) (hlast : l.getLast? = some b) :
    edges (close l) = edges l ++ [s(b, a)] := by
  cases l with
  | nil => cases hhead
  | cons c l =>
    cases hhead
    rw [List.getLast?_eq_getLast_of_ne_nil (List.cons_ne_nil a l), Option.some.injEq] at hlast
    rw [edges, close, steps_concat, List.map_append, hlast]
    rfl

/-! ## Sets entered and left -/

variable (p : α → Bool)

def enters (s : α × α) : Bool := !p s.1 && p s.2

def leaves (s : α × α) : Bool := p s.1 && !p s.2

variable {p}

/-- What is entered and not left again holds the end. -/
theorem countP_enters (a : α) (l : List α) : (steps (a :: l)).countP (enters p) + (p a).toNat =
    (steps (a :: l)).countP (leaves p) + (p ((a :: l).getLast (List.cons_ne_nil _ _))).toNat := by
  induction l generalizing a with
  | nil => rfl
  | cons b l ih =>
    have hrest := ih b
    rw [steps_cons_cons, List.countP_cons, List.countP_cons, List.getLast_cons_cons]
    cases ha : p a <;> cases hb : p b <;> simp [enters, leaves, ha, hb] at hrest ⊢ <;> omega

theorem enters_eq_leaves {l : List α} (h : l.head? = l.getLast?) :
    (steps l).countP (enters p) = (steps l).countP (leaves p) := by
  cases l with
  | nil => rfl
  | cons a l =>
    have hcount := countP_enters (p := p) a l
    rw [List.head?_cons, List.getLast?_eq_getLast_of_ne_nil (List.cons_ne_nil _ _), Option.some.injEq] at h
    rw [← h] at hcount
    omega

/-- What is neither entered nor left holds all or none of the points. -/
theorem same_of_not_enters {l : List α} (henters : (steps l).countP (enters p) = 0)
    (hleaves : (steps l).countP (leaves p) = 0) {a b : α} (ha : a ∈ l) (hb : b ∈ l) : p a = p b := by
  have hhead : ∀ (l : List α) (c : α), (steps (c :: l)).countP (enters p) = 0 →
      (steps (c :: l)).countP (leaves p) = 0 → ∀ x ∈ c :: l, p x = p c := by
    intro l
    induction l with
    | nil => simp
    | cons d l ih =>
      intro c henters hleaves x hx
      rw [steps_cons_cons, List.countP_cons] at henters hleaves
      have hd : p d = p c := by
        cases hc : p c <;> cases hd : p d <;> simp [enters, leaves, hc, hd] at henters hleaves ⊢
      rcases List.mem_cons.1 hx with rfl | hx
      · rfl
      · rw [ih d (by omega) (by omega) x hx, hd]
  cases l with
  | nil => cases ha
  | cons c l => rw [hhead l c henters hleaves a ha, hhead l c henters hleaves b hb]

end WorldWind.Lib.ClosedPath
