import Mathlib
/-!
# Acyclic relations on a finite type

A recursion along an acyclic relation is never deeper than there are elements.
The rank of an element counts those below it.
-/

namespace WorldWind.Lib

open Relation

variable {N : Type*} {r s : N → N → Prop}

/-- No element is below itself. -/
def Acyclic (r : N → N → Prop) : Prop := ∀ n, ¬ TransGen r n n

theorem Acyclic.mono (h : Acyclic r) (hs : ∀ a b, s a b → r a b) : Acyclic s :=
  fun n hn => h n (TransGen.mono hs n n hn)

theorem Acyclic.swap (h : Acyclic r) : Acyclic (Function.swap r) :=
  fun n hn => h n (transGen_swap.1 hn)

/-- A path with a new edge either does not use it, or goes to its start and on
from its end. -/
theorem transGen_insert {p c : N} (hs : ∀ a b, s a b → r a b ∨ (a = p ∧ b = c)) {a b : N} (h : TransGen s a b) :
    TransGen r a b ∨ (ReflTransGen r a p ∧ ReflTransGen r c b) := by
  induction h with
  | single hab =>
    rcases hs _ _ hab with hr | ⟨rfl, rfl⟩
    · exact .inl (.single hr)
    · exact .inr ⟨.refl, .refl⟩
  | tail _ hbd ih =>
    rcases hs _ _ hbd with hr | ⟨rfl, rfl⟩
    · rcases ih with h | ⟨h1, h2⟩
      · exact .inl (h.tail hr)
      · exact .inr ⟨h1, h2.tail hr⟩
    · rcases ih with h | ⟨h1, -⟩
      · exact .inr ⟨h.to_reflTransGen, .refl⟩
      · exact .inr ⟨h1, .refl⟩

/-- A new edge makes no cycle if its start is not at or below its end. -/
theorem Acyclic.insert (h : Acyclic r) {p c : N} (hc : ¬ ReflTransGen r c p)
    (hs : ∀ a b, s a b → r a b ∨ (a = p ∧ b = c)) : Acyclic s := by
  intro n hn
  rcases transGen_insert hs hn with h' | ⟨h1, h2⟩
  · exact h n h'
  · exact hc (h2.trans h1)

section Rank
variable [Fintype N]

open Classical in
/-- The number of elements below `n`. -/
noncomputable def rank (r : N → N → Prop) (n : N) : Nat := (Finset.univ.filter fun m => TransGen r n m).card

theorem Acyclic.rank_lt (h : Acyclic r) {a b : N} (hab : r a b) : rank r b < rank r a := by
  classical
  refine Finset.card_lt_card (Finset.ssubset_iff_of_subset ?_ |>.2 ⟨b, ?_, ?_⟩)
  · intro m hm
    rw [Finset.mem_filter] at hm ⊢
    exact ⟨hm.1, .head hab hm.2⟩
  · exact Finset.mem_filter.2 ⟨Finset.mem_univ _, .single hab⟩
  · exact fun hb => h b (Finset.mem_filter.1 hb).2

theorem Acyclic.rank_lt_card (h : Acyclic r) (n : N) : rank r n < Fintype.card N := by
  classical
  refine Finset.card_lt_card (Finset.ssubset_univ_iff.2 fun heq => ?_)
  exact h n (Finset.mem_filter.1 (heq ▸ Finset.mem_univ n)).2

end Rank

end WorldWind.Lib
