import Mathlib
/-!
# Texts between separators

A text over any alphabet is cut at a separator into pieces. A regular expression
is known by the length of its match at the beginning of a text; to replace all
its matches by nothing is to scan from left to right and to go on after each
match.
-/

namespace WorldWind.Lib.Pieces

variable {α : Type*}

/-! ## Removing what matches -/

/-- `replaceAll` by the empty text; `n` characters of a match are still to be skipped. -/
def removeMatches (m : List α → Option Nat) : Nat → List α → List α
  | _, [] => []
  | n + 1, _ :: s => removeMatches m n s
  | 0, c :: s =>
    match m (c :: s) with
    | some (n + 1) => removeMatches m n s
    | _ => c :: removeMatches m 0 s

variable {m : List α → Option Nat}

theorem removeMatches_skip (n : Nat) (s : List α) : removeMatches m n s = removeMatches m 0 (s.drop n) := by
  induction s generalizing n with
  | nil => cases n <;> rfl
  | cons c s ih =>
    cases n with
    | zero => rfl
    | succ n => exact ih n

/-- The scan goes on after a match. -/
theorem removeMatches_match {c : α} {s : List α} {n : Nat} (h : m (c :: s) = some (n + 1)) :
    removeMatches m 0 (c :: s) = removeMatches m 0 (s.drop n) := by
  rw [← removeMatches_skip, removeMatches, h]

theorem removeMatches_keep {c : α} {s : List α} (h : m (c :: s) = none) :
    removeMatches m 0 (c :: s) = c :: removeMatches m 0 s := by
  rw [removeMatches, h]

/-! ## Pieces -/

variable [DecidableEq α] (sep : α)

/-- The pieces between separators that are not empty. -/
def pieces (s : List α) : List (List α) := (s.splitOn sep).filter (· ≠ [])

/-- A text is one piece, or a piece, a separator and a text. -/
theorem piece_induction {motive : List α → Prop} (last : ∀ p, sep ∉ p → motive p)
    (more : ∀ p q, sep ∉ p → motive q → motive (p ++ sep :: q)) (s : List α) : motive s := by
  suffices h : ∀ p, sep ∉ p → motive (p ++ s) by simpa using h [] List.not_mem_nil
  induction s with
  | nil => exact fun p hp => by simpa using last p hp
  | cons c s ih =>
    intro p hp
    by_cases hc : c = sep
    · subst hc
      exact more p s hp (by simpa using ih [] List.not_mem_nil)
    · have hp' : sep ∉ p ++ [c] := by
        rw [List.mem_append, List.mem_singleton]
        exact fun h => h.elim hp fun h => hc h.symm
      simpa using ih (p ++ [c]) hp'

variable {sep}

theorem pieces_last {p : List α} (hp : sep ∉ p) : pieces sep p = [p].filter (· ≠ []) := by
  rw [pieces, List.splitOn_eq_singleton hp]

theorem pieces_more {p : List α} (hp : sep ∉ p) (q : List α) :
    pieces sep (p ++ sep :: q) = [p].filter (· ≠ []) ++ pieces sep q := by
  rw [pieces, pieces, List.splitOn_append_cons_self_of_not_mem hp, ← List.filter_append, List.singleton_append]

/-- A separator at the end makes no piece. -/
theorem pieces_trailing (s : List α) : pieces sep (s ++ [sep]) = pieces sep s := by
  rw [pieces, pieces, List.splitOn_append_cons_self, List.filter_append, List.splitOn_nil]
  simp

theorem not_mem_of_mem_pieces {s p : List α} : p ∈ pieces sep s → sep ∉ p := by
  induction s using piece_induction sep with
  | last r hr =>
    intro hmem
    rw [pieces_last hr] at hmem
    rw [List.mem_singleton.1 (List.mem_filter.1 hmem).1]
    exact hr
  | more r q hr ih =>
    intro hmem
    rw [pieces_more hr, List.mem_append] at hmem
    rcases hmem with hmem | hmem
    · rw [List.mem_singleton.1 (List.mem_filter.1 hmem).1]
      exact hr
    · exact ih hmem

/-- The characters of the pieces are the characters that are no separators. -/
theorem sum_length_pieces (s : List α) :
    ((pieces sep s).map List.length).sum = (s.filter (· ≠ sep)).length := by
  have hpiece : ∀ p : List α, (([p].filter (· ≠ [])).map List.length).sum = p.length := by
    intro p
    by_cases hp : p = [] <;> simp [hp]
  have hfilter : ∀ p : List α, sep ∉ p → p.filter (· ≠ sep) = p := by
    intro p hp
    rw [List.filter_eq_self]
    exact fun c hc => decide_eq_true fun h => hp (h ▸ hc)
  induction s using piece_induction sep with
  | last p hp => rw [pieces_last hp, hpiece, hfilter p hp]
  | more p q hp ih =>
    rw [pieces_more hp, List.map_append, List.sum_append, hpiece, ih, List.filter_append, hfilter p hp,
      List.filter_cons_of_neg (by simp), List.length_append]

end WorldWind.Lib.Pieces
