import Mathlib
/-!
# `java.util.Iterator`

An iterator is a state with two calls. What a caller sees of it are the answers
to its calls, in whatever order it makes them. It iterates over a list if the
answers are those of the list (`IteratesOver`): `hasNext` says whether there is
an element left and changes nothing a caller can see, `next` gives the next
one, and throws when there is none.
-/

namespace WorldWind.Lib.Iterators

inductive Call where
  | hasNext
  | next
  deriving DecidableEq, Repr

inductive Answer (α : Type*) where
  | has (b : Bool)
  | element (a : α)
  | noSuchElement
  | thrown
  deriving DecidableEq, Repr

variable {α σ : Type*}

/-- A list answers by its front. -/
def listCall : List α → Call → Answer α × List α
  | l, .hasNext => (.has (!l.isEmpty), l)
  | a :: l, .next => (.element a, l)
  | [], .next => (.noSuchElement, [])

/-- The answers to the calls, in order. -/
def answers (call : σ → Call → Answer α × σ) : σ → List Call → List (Answer α)
  | _, [] => []
  | s, c :: cs => (call s c).1 :: answers call (call s c).2 cs

def IteratesOver (call : σ → Call → Answer α × σ) (s : σ) (l : List α) : Prop :=
  ∀ calls, answers call s calls = answers listCall l calls

/-- A relation to the elements left that every call keeps, and by which it
gives the right answer. -/
theorem iteratesOver_of_simulation {call : σ → Call → Answer α × σ} {R : σ → List α → Prop}
    (h : ∀ s l c, R s l → (call s c).1 = (listCall l c).1 ∧ R (call s c).2 (listCall l c).2) {s : σ} {l : List α}
    (h0 : R s l) : IteratesOver call s l := by
  intro calls
  induction calls generalizing s l with
  | nil => rfl
  | cons c cs ih =>
    obtain ⟨ha, hr⟩ := h s l c h0
    rw [answers, answers, ha, ih hr]

/-- The elements an iterator over a list can give are those of the list. -/
theorem IteratesOver.element_iff {call : σ → Call → Answer α × σ} {s : σ} {l : List α} (h : IteratesOver call s l)
    (a : α) : (∃ calls, .element a ∈ answers call s calls) ↔ a ∈ l := by
  constructor
  · rintro ⟨calls, hmem⟩
    rw [h calls] at hmem
    clear h
    induction calls generalizing l with
    | nil => cases hmem
    | cons c cs ih =>
      rcases List.mem_cons.1 hmem with heq | hmem
      · rcases c with _ | _ <;> rcases l with _ | ⟨b, l⟩ <;> cases heq
        exact List.mem_cons_self
      · rcases c with _ | _
        · exact ih hmem
        · rcases l with _ | ⟨b, l⟩
          · exact ih hmem
          · exact List.mem_cons_of_mem _ (ih hmem)
  · intro hmem
    refine ⟨List.replicate l.length .next, ?_⟩
    rw [h]
    clear h
    induction l with
    | nil => cases hmem
    | cons b l ih =>
      rw [List.length_cons, List.replicate_succ, answers, List.mem_cons]
      rcases List.mem_cons.1 hmem with rfl | hmem
      · exact .inl rfl
      · exact .inr (ih hmem)

end WorldWind.Lib.Iterators
