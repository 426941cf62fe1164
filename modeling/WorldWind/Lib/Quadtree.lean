import Mathlib
/-!
# The cells of a quadtree

A cell has a level, a row and a column, and four children. A cell lies under
another if halving its row and column often enough leads there. The
descendants of a cell to some depth, children behind their own descendants
(`below`), are exactly the cells under it, each once (`mem_below`,
`nodup_below`).
-/

namespace WorldWind.Lib.Quadtree

structure Cell where
  level : Nat
  row : Nat
  column : Nat
  deriving DecidableEq

/-- The children: south-west, south-east, north-east, north-west. -/
def Cell.children (c : Cell) : List Cell :=
  [⟨c.level + 1, 2 * c.row, 2 * c.column⟩, ⟨c.level + 1, 2 * c.row, 2 * c.column + 1⟩,
    ⟨c.level + 1, 2 * c.row + 1, 2 * c.column + 1⟩, ⟨c.level + 1, 2 * c.row + 1, 2 * c.column⟩]

/-- The descendants of a cell, `n` levels deep. -/
def below : Nat → Cell → List Cell
  | 0, _ => []
  | n + 1, c => c.children.flatMap (below n) ++ c.children

/-- A cell lies under another, or is it. -/
def Under (d c : Cell) : Prop :=
  ∃ k, d.level = c.level + k ∧ d.row / 2 ^ k = c.row ∧ d.column / 2 ^ k = c.column

@[simp] theorem Under.refl (c : Cell) : Under c c := ⟨0, by simp⟩

theorem Under.level_le {c d : Cell} (h : Under d c) : c.level ≤ d.level := by
  obtain ⟨k, hk, -⟩ := h
  omega

/-- A cell lies under at most one cell of a level. -/
theorem Under.eq {c c' d : Cell} (h : Under d c) (h' : Under d c') (hlevel : c.level = c'.level) : c = c' := by
  obtain ⟨k, hk, hr, hc⟩ := h
  obtain ⟨k', hk', hr', hc'⟩ := h'
  obtain rfl : k = k' := by omega
  cases c
  cases c'
  simp only [Cell.mk.injEq]
  exact ⟨hlevel, hr.symm.trans hr', hc.symm.trans hc'⟩

theorem Under.trans {c d e : Cell} (h : Under e d) (h' : Under d c) : Under e c := by
  obtain ⟨k, hk, hr, hc⟩ := h
  obtain ⟨k', hk', hr', hc'⟩ := h'
  refine ⟨k + k', by omega, ?_, ?_⟩
  · rw [pow_add, ← Nat.div_div_eq_div_mul, hr, hr']
  · rw [pow_add, ← Nat.div_div_eq_div_mul, hc, hc']

theorem Under.row_le {c d : Cell} (h : Under d c) : c.row ≤ d.row ∧ c.column ≤ d.column := by
  obtain ⟨k, -, hr, hc⟩ := h
  exact ⟨hr ▸ Nat.div_le_self _ _, hc ▸ Nat.div_le_self _ _⟩

theorem mem_children {c d : Cell} : d ∈ c.children ↔ d.level = c.level + 1 ∧ d.row / 2 = c.row ∧
    d.column / 2 = c.column := by
  obtain ⟨l, i, j⟩ := d
  simp only [Cell.children, List.mem_cons, List.not_mem_nil, or_false, Cell.mk.injEq]
  omega

theorem under_of_mem_children {c d : Cell} (h : d ∈ c.children) : Under d c := by
  rw [mem_children] at h
  exact ⟨1, by simpa using h⟩

/-- Below a cell means under one of its children. -/
theorem under_iff_children {c d : Cell} (h : c.level < d.level) : Under d c ↔ ∃ x ∈ c.children, Under d x := by
  constructor
  · rintro ⟨k, hk, hr, hc⟩
    obtain ⟨k, rfl⟩ : ∃ k', k = k' + 1 := ⟨k - 1, by omega⟩
    rw [pow_succ, ← Nat.div_div_eq_div_mul] at hr hc
    exact ⟨⟨c.level + 1, d.row / 2 ^ k, d.column / 2 ^ k⟩, mem_children.2 ⟨rfl, hr, hc⟩, k, by simp only; omega,
      rfl, rfl⟩
  · rintro ⟨x, hx, hd⟩
    exact hd.trans (under_of_mem_children hx)

theorem mem_below {n : Nat} {c d : Cell} :
    d ∈ below n c ↔ Under d c ∧ c.level < d.level ∧ d.level ≤ c.level + n := by
  induction n generalizing c with
  | zero =>
    simp only [below, List.not_mem_nil, false_iff, not_and]
    omega
  | succ n ih =>
    rw [below, List.mem_append, List.mem_flatMap]
    constructor
    · rintro (⟨x, hx, hd⟩ | hd)
      · obtain ⟨hu, h1, h2⟩ := ih.1 hd
        have := (mem_children.1 hx).1
        exact ⟨hu.trans (under_of_mem_children hx), by omega, by omega⟩
      · have := (mem_children.1 hd).1
        exact ⟨under_of_mem_children hd, by omega, by omega⟩
    · rintro ⟨hu, h1, h2⟩
      obtain ⟨x, hx, hd⟩ := (under_iff_children h1).1 hu
      have hlevel := (mem_children.1 hx).1
      have := hd.level_le
      by_cases heq : d.level = x.level
      · exact Or.inr ((hd.eq (Under.refl d) heq.symm) ▸ hx)
      · exact Or.inl ⟨x, hx, ih.2 ⟨hd, by omega, by omega⟩⟩

theorem nodup_children (c : Cell) : c.children.Nodup := by
  simp [Cell.children]

/-- No cell comes twice. -/
theorem nodup_below (n : Nat) (c : Cell) : (below n c).Nodup := by
  induction n generalizing c with
  | zero => exact List.nodup_nil
  | succ n ih =>
    rw [below, List.nodup_append']
    refine ⟨List.nodup_flatMap.2 ⟨fun x _ => ih x, ?_⟩, nodup_children c, ?_⟩
    · refine (nodup_children c).pairwise_of_forall_ne fun x hx y hy hne d hdx hdy => hne ?_
      exact (mem_below.1 hdx).1.eq (mem_below.1 hdy).1 ((mem_children.1 hx).1.trans (mem_children.1 hy).1.symm)
    · intro d hd hc
      obtain ⟨x, hx, hd⟩ := List.mem_flatMap.1 hd
      have := (mem_below.1 hd).2.1
      have := (mem_children.1 hx).1
      have := (mem_children.1 hc).1
      omega

end WorldWind.Lib.Quadtree
