import Mathlib
/-!
# Loops that may throw

A loop over an index is a fold that stops at the first exception. What holds of
the first state and is carried from each index to the next holds at the end
(`foldlM_range`).
-/

namespace WorldWind.Lib.Loops

variable {σ : Type*}

/-- A loop none of whose steps throws, with an invariant that counts the steps. -/
theorem foldlM_range {step : σ → Nat → Option σ} (inv : Nat → σ → Prop) {n : Nat} {s : σ} (h0 : inv 0 s)
    (hstep : ∀ i s, i < n → inv i s → ∃ s', step s i = some s' ∧ inv (i + 1) s') :
    ∃ s', (List.range n).foldlM step s = some s' ∧ inv n s' := by
  induction n with
  | zero => exact ⟨s, rfl, h0⟩
  | succ n ih =>
    obtain ⟨t, ht, hinv⟩ := ih fun i s hi => hstep i s (Nat.lt_succ_of_lt hi)
    obtain ⟨t', ht', hinv'⟩ := hstep n t (Nat.lt_succ_self n) hinv
    refine ⟨t', ?_, hinv'⟩
    rw [List.range_succ, List.foldlM_append, ht, Option.bind_eq_bind, Option.bind_some, List.foldlM_cons, ht']
    rfl

/-- A loop that does not throw at any element of a list. -/
theorem mapM_eq_map {α β : Type*} {f : α → Option β} {k : α → β} {l : List α} (h : ∀ x ∈ l, f x = some (k x)) :
    l.mapM f = some (l.map k) := by
  induction l with
  | nil => rfl
  | cons x l ih =>
    rw [List.mapM_cons, h x List.mem_cons_self, ih fun y hy => h y (List.mem_cons_of_mem _ hy)]
    rfl

/-- A loop that ends has a result for each element, and no others. -/
theorem mapM_eq_some {α β : Type*} {f : α → Option β} {l : List α} {l' : List β} (h : l.mapM f = some l') :
    (∀ x ∈ l, ∃ y, f x = some y) ∧ ∀ y ∈ l', ∃ x ∈ l, f x = some y := by
  induction l generalizing l' with
  | nil =>
    obtain rfl : [] = l' := by simpa using h
    simp
  | cons x l ih =>
    rw [List.mapM_cons, Option.bind_eq_bind, Option.bind_eq_some_iff] at h
    obtain ⟨y, hy, h⟩ := h
    rw [Option.bind_eq_bind, Option.bind_eq_some_iff] at h
    obtain ⟨ys, hys, h⟩ := h
    obtain rfl := Option.some.inj h
    obtain ⟨hall, honly⟩ := ih hys
    refine ⟨List.forall_mem_cons.2 ⟨⟨y, hy⟩, hall⟩, List.forall_mem_cons.2 ⟨⟨x, by simp, hy⟩, fun z hz => ?_⟩⟩
    obtain ⟨x', hx', hz⟩ := honly z hz
    exact ⟨x', List.mem_cons_of_mem x hx', hz⟩

/-- A loop whose rounds all have a result of a kind. -/
theorem mapM_forall₂ {α β : Type*} {f : α → Option β} {P : α → β → Prop} {l : List α}
    (h : ∀ x ∈ l, ∃ y, f x = some y ∧ P x y) : ∃ l', l.mapM f = some l' ∧ List.Forall₂ P l l' := by
  induction l with
  | nil => exact ⟨[], rfl, List.Forall₂.nil⟩
  | cons x l ih =>
    obtain ⟨y, hy, hP⟩ := h x List.mem_cons_self
    obtain ⟨ys, hys, hall⟩ := ih fun z hz => h z (List.mem_cons_of_mem x hz)
    refine ⟨y :: ys, ?_, List.Forall₂.cons hP hall⟩
    rw [List.mapM_cons, hy, hys]
    rfl

end WorldWind.Lib.Loops
