import Mathlib
/-!
# Runs of a deterministic machine

A machine has a `step` that returns the next state, or nothing when the
operation throws or never returns. A run is a list of operations. A claim
about every state of a run (`Always`) is compared with a condition each step
meets where it is taken (`Along`): if the invariant survives a step exactly
when the step meets the condition, a whole run keeps the invariant exactly
when all its steps meet the condition (`always_iff_along`).
-/

namespace WorldWind.Lib.Runs

variable {σ ι : Type*} (step : σ → ι → Option σ)

/-- The state after the operations, if every one of them returned. -/
def run : σ → List ι → Option σ
  | s, [] => some s
  | s, i :: is => (step s i).bind fun s' => run s' is

/-- Every step of the run is taken at a state and operation satisfying `C`. -/
def Along (C : σ → ι → Prop) : σ → List ι → Prop
  | _, [] => True
  | s, i :: is => C s i ∧ ∀ s', step s i = some s' → Along C s' is

/-- Every operation of the run returns, and every state on the way satisfies
`P`, the first and the last included. -/
def Always (P : σ → Prop) : σ → List ι → Prop
  | s, [] => P s
  | s, i :: is => P s ∧ ∃ s', step s i = some s' ∧ Always P s' is

instance Along.decidable {C : σ → ι → Prop} [∀ s i, Decidable (C s i)] :
    ∀ s is, Decidable (Along step C s is)
  | _, [] => .isTrue trivial
  | s, i :: is =>
    match h : step s i with
    | none => decidable_of_iff (C s i) (by simp [Along, h])
    | some s' =>
      have : Decidable (Along step C s' is) := Along.decidable s' is
      decidable_of_iff (C s i ∧ Along step C s' is) (by simp [Along, h])

variable {step}

/-- An invariant kept by every step that meets `C` and returns holds after the run. -/
theorem run_inv_along {I : σ → Prop} {C : σ → ι → Prop} (hs : ∀ s i s', I s → C s i → step s i = some s' → I s')
    {s s' : σ} {is : List ι} (h0 : I s) (hC : Along step C s is) (h : run step s is = some s') : I s' := by
  induction is generalizing s with
  | nil => cases h; exact h0
  | cons i is ih =>
    simp only [run, Option.bind_eq_some_iff] at h
    obtain ⟨t, ht, h⟩ := h
    exact ih (hs s i t h0 hC.1 ht) (hC.2 t ht) h

theorem Always.head {P : σ → Prop} {s : σ} {is : List ι} (h : Always step P s is) : P s := by
  cases is with
  | nil => exact h
  | cons _ _ => exact h.1

/-- A run that is always `P` ends, in a state with `P`. -/
theorem Always.last {P : σ → Prop} {s : σ} {is : List ι} (h : Always step P s is) :
    ∃ s', run step s is = some s' ∧ P s' := by
  induction is generalizing s with
  | nil => exact ⟨s, rfl, h⟩
  | cons i is ih =>
    obtain ⟨-, t, ht, h⟩ := h
    obtain ⟨s', hs', hp⟩ := ih h
    exact ⟨s', by simp [run, ht, hs'], hp⟩

/-- An invariant that every step meeting `C` keeps, and that implies `P`. -/
theorem always_of_along {I P : σ → Prop} {C : σ → ι → Prop}
    (hI : ∀ s i, I s → C s i → ∃ s', step s i = some s' ∧ I s') (hP : ∀ s, I s → P s)
    {s : σ} (is : List ι) (h0 : I s) (h : Along step C s is) : Always step P s is := by
  induction is generalizing s with
  | nil => exact hP s h0
  | cons i is ih =>
    obtain ⟨t, ht, hi⟩ := hI s i h0 h.1
    exact ⟨hP s h0, t, ht, ih hi (h.2 t ht)⟩

/-- An invariant that every step keeps, and that implies `P`. -/
theorem always_of_inv {I P : σ → Prop} (hI : ∀ s i, I s → ∃ s', step s i = some s' ∧ I s') (hP : ∀ s, I s → P s)
    {s : σ} (is : List ι) (h0 : I s) : Always step P s is := by
  induction is generalizing s with
  | nil => exact hP s h0
  | cons i is ih =>
    obtain ⟨t, ht, hi⟩ := hI s i h0
    exact ⟨hP s h0, t, ht, ih hi⟩

/-- Where `P` holds, every step keeps `I`. If, where both hold, a step returns
and keeps `P` exactly when it meets `C`, then a run always satisfies `P`
exactly when all its steps meet `C`. -/
theorem always_iff_along {I P : σ → Prop} {C : σ → ι → Prop}
    (hI : ∀ s i s', I s → P s → step s i = some s' → I s')
    (hP : ∀ s i, I s → P s → ((∃ s', step s i = some s' ∧ P s') ↔ C s i))
    {s : σ} (is : List ι) (h0 : I s) (hp : P s) : Always step P s is ↔ Along step C s is := by
  induction is generalizing s with
  | nil => exact ⟨fun _ => trivial, fun _ => hp⟩
  | cons i is ih =>
    constructor
    · rintro ⟨-, t, ht, h⟩
      refine ⟨(hP s i h0 hp).1 ⟨t, ht, h.head⟩, fun t' ht' => ?_⟩
      obtain rfl : t = t' := Option.some.inj (ht.symm.trans ht')
      exact (ih (hI s i t h0 hp ht) h.head).1 h
    · rintro ⟨hc, h⟩
      obtain ⟨t, ht, hpt⟩ := (hP s i h0 hp).2 hc
      exact ⟨hp, t, ht, (ih (hI s i t h0 hp ht) hpt).2 (h t ht)⟩

end WorldWind.Lib.Runs
