import Mathlib
/-!
# Running extremes

A loop that keeps the value that comes before all others. Values that do not
compare, such as a NaN, are passed over. What the loop keeps depends on the
values alone, not on their order or number (`extreme_congr`), so extremes can be
taken of extremes (`extreme_flatten`).
-/

namespace WorldWind.Lib.Extreme

variable {α : Type*}

/-- The loop's value. -/
def extreme (before : α → α → Bool) (start : α) (l : List α) : α :=
  l.foldl (fun current x => if before x current then x else current) start

/-- A strict order, total on the values that compare. -/
structure Strict (before : α → α → Bool) (compares : α → Prop) : Prop where
  irrefl : ∀ a, before a a = false
  trans : ∀ a b c, before a b = true → before b c = true → before a c = true
  compares_left : ∀ a b, before a b = true → compares a
  connected : ∀ a b, compares a → compares b → before a b = true ∨ a = b ∨ before b a = true

variable {before : α → α → Bool} {compares : α → Prop} {start : α} {l l' : List α}

theorem extreme_mem (start : α) (l : List α) : extreme before start l ∈ start :: l := by
  induction l generalizing start with
  | nil => exact List.mem_cons_self
  | cons x l ih =>
    rw [extreme, List.foldl_cons]
    split
    · exact List.mem_cons_of_mem _ (ih x)
    · rcases List.mem_cons.1 (ih start) with h | h
      · exact List.mem_cons.2 (.inl h)
      · exact List.mem_cons_of_mem _ (List.mem_cons_of_mem _ h)

theorem Strict.compares_extreme (h : Strict before compares) (hstart : compares start) :
    compares (extreme before start l) := by
  induction l generalizing start with
  | nil => exact hstart
  | cons x l ih =>
    rw [extreme, List.foldl_cons]
    split
    · exact ih (h.compares_left _ _ ‹_›)
    · exact ih hstart

/-- What is not before a value is not before a value that comes no later. -/
theorem Strict.not_before_trans (h : Strict before compares) {a b c : α} (hb : compares b) (hc : compares c)
    (hab : before a b = false) (hbc : before b c = false) : before a c = false := by
  rw [← Bool.not_eq_true]
  intro hac
  rcases h.connected b c hb hc with hlt | rfl | hgt
  · exact absurd (hbc.symm.trans hlt) Bool.false_ne_true
  · exact absurd (hab.symm.trans hac) Bool.false_ne_true
  · exact absurd (hab.symm.trans (h.trans _ _ _ hac hgt)) Bool.false_ne_true

/-- No value comes before the extreme. -/
theorem Strict.not_before_extreme (h : Strict before compares) (hstart : compares start) {x : α}
    (hx : x ∈ start :: l) : before x (extreme before start l) = false := by
  induction l generalizing start x with
  | nil => rw [List.mem_singleton.1 hx, extreme, List.foldl_nil, h.irrefl]
  | cons y l ih =>
    rw [extreme, List.foldl_cons]
    split
    · rename_i hy
      have hcompares := h.compares_left _ _ hy
      rcases List.mem_cons.1 hx with rfl | hx
      · have hxy : before x y = false := by
          rw [← Bool.not_eq_true]
          exact fun hxy => absurd ((h.irrefl x).symm.trans (h.trans _ _ _ hxy hy)) Bool.false_ne_true
        exact h.not_before_trans hcompares (h.compares_extreme hcompares) hxy (ih hcompares List.mem_cons_self)
      · exact ih hcompares hx
    · rename_i hy
      rcases List.mem_cons.1 hx with rfl | hx
      · exact ih hstart List.mem_cons_self
      · rcases List.mem_cons.1 hx with rfl | hx
        · exact h.not_before_trans hstart (h.compares_extreme hstart) (Bool.not_eq_true _ ▸ hy)
            (ih hstart List.mem_cons_self)
        · exact ih hstart (List.mem_cons_of_mem _ hx)

/-- The extreme is the only value that none comes before. -/
theorem Strict.eq_extreme (h : Strict before compares) (hstart : compares start) {r : α} (hr : r ∈ start :: l)
    (hcompares : compares r) (hbefore : ∀ x ∈ start :: l, before x r = false) : r = extreme before start l := by
  rcases h.connected r (extreme before start l) hcompares (h.compares_extreme hstart) with hlt | heq | hgt
  · exact absurd ((h.not_before_extreme hstart hr).symm.trans hlt) Bool.false_ne_true
  · exact heq
  · exact absurd ((hbefore _ (extreme_mem start l)).symm.trans hgt) Bool.false_ne_true

theorem Strict.extreme_congr (h : Strict before compares) (hstart : compares start) (hmem : ∀ x, x ∈ l ↔ x ∈ l') :
    extreme before start l = extreme before start l' := by
  have hcons : ∀ x, x ∈ start :: l ↔ x ∈ start :: l' := fun x => by rw [List.mem_cons, List.mem_cons, hmem]
  exact h.eq_extreme hstart ((hcons _).1 (extreme_mem start l)) (h.compares_extreme hstart)
    fun x hx => h.not_before_extreme hstart ((hcons x).2 hx)

/-- The extreme of fewer values does not come before that of more. -/
theorem Strict.extreme_of_subset (h : Strict before compares) (hstart : compares start) (hsub : l ⊆ l') :
    before (extreme before start l) (extreme before start l') = false :=
  h.not_before_extreme hstart (List.cons_subset_cons start hsub (extreme_mem start l))

/-- The extreme of extremes. -/
theorem Strict.extreme_flatten (h : Strict before compares) (hstart : compares start) (ls : List (List α)) :
    extreme before start (ls.map (extreme before start)) = extreme before start ls.flatten := by
  refine h.eq_extreme hstart ?_ (h.compares_extreme hstart) fun x hx => ?_
  · rcases List.mem_cons.1 (extreme_mem start (ls.map (extreme before start))) with heq | hmem
    · exact List.mem_cons.2 (.inl heq)
    · obtain ⟨l, hl, heq⟩ := List.mem_map.1 hmem
      rw [← heq]
      rcases List.mem_cons.1 (@extreme_mem _ before start l) with heq | hmem
      · exact List.mem_cons.2 (.inl heq)
      · exact List.mem_cons_of_mem _ (List.mem_flatten.2 ⟨l, hl, hmem⟩)
  · rcases List.mem_cons.1 hx with rfl | hx
    · exact h.not_before_extreme hstart List.mem_cons_self
    · obtain ⟨l, hl, hxl⟩ := List.mem_flatten.1 hx
      exact h.not_before_trans (h.compares_extreme hstart) (h.compares_extreme hstart)
        (h.not_before_extreme hstart (List.mem_cons_of_mem start hxl))
        (h.not_before_extreme hstart (List.mem_cons_of_mem _ (List.mem_map_of_mem hl)))

end WorldWind.Lib.Extreme
