import Mathlib
/-!
# An order by two keys

Things are compared by their times, the later first, if these are a window or
more apart, and by their ranks if not. Each of the two is an order. The mixture
is one exactly when no three things with rising times and ranks stand so close
that only the outer two are a window apart (`comesBefore_trans_iff`).
-/

namespace WorldWind.Lib.TwoKeys

variable {α R : Type*} [LinearOrder R] (window : ℤ) (time : α → ℤ) (rank : α → R)

/-- The times are a window or more apart. -/
def Apart (a b : α) : Prop := window ≤ time a - time b ∨ window ≤ time b - time a

instance : DecidableRel (Apart window time) := fun _ _ => inferInstanceAs (Decidable (_ ∨ _))

/-- `a` comes no later than `b`. -/
def ComesBefore (a b : α) : Prop := if Apart window time a b then time b < time a else rank a ≤ rank b

/-- The ends are a window apart, and what is between is close to both. -/
structure Rising (old mid new : α) : Prop where
  apart : window ≤ time new - time old
  low : time mid - time old < window
  high : time new - time mid < window
  rank_low : rank old ≤ rank mid
  rank_high : rank mid ≤ rank new

variable {window time rank}

theorem comesBefore_of_apart {a b : α} (h : Apart window time a b) :
    ComesBefore window time rank a b ↔ time b < time a := by
  rw [ComesBefore, if_pos h]

theorem comesBefore_of_close {a b : α} (h : ¬ Apart window time a b) :
    ComesBefore window time rank a b ↔ rank a ≤ rank b := by
  rw [ComesBefore, if_neg h]

theorem Rising.not_trans {old mid new : α} (h : Rising window time rank old mid new) :
    ComesBefore window time rank old mid ∧ ComesBefore window time rank mid new ∧
      ¬ ComesBefore window time rank old new := by
  obtain ⟨hapart, hlow, hhigh, hrank, hrank'⟩ := h
  refine ⟨(comesBefore_of_close ?_).2 hrank, (comesBefore_of_close ?_).2 hrank', ?_⟩
  · rw [Apart]
    omega
  · rw [Apart]
    omega
  · rw [comesBefore_of_apart (.inr hapart)]
    omega

/-- The only way in which the mixture fails to be transitive. -/
theorem rising_of_not_trans {a b c : α} (hab : ComesBefore window time rank a b)
    (hbc : ComesBefore window time rank b c) (hac : ¬ ComesBefore window time rank a c) :
    Rising window time rank a b c ∨ Rising window time rank c a b ∨ Rising window time rank b c a := by
  by_cases h1 : Apart window time a b <;> by_cases h2 : Apart window time b c <;> by_cases h3 : Apart window time a c
  · rw [comesBefore_of_apart h1] at hab
    rw [comesBefore_of_apart h2] at hbc
    rw [comesBefore_of_apart h3] at hac
    omega
  · -- Two steps of a window each are a window.
    rw [comesBefore_of_apart h1] at hab
    rw [comesBefore_of_apart h2] at hbc
    simp only [Apart] at h1 h2 h3
    omega
  · rw [comesBefore_of_apart h1] at hab
    rw [comesBefore_of_apart h3] at hac
    simp only [Apart] at h1 h2 h3
    omega
  · rw [comesBefore_of_apart h1] at hab
    rw [comesBefore_of_close h2] at hbc
    rw [comesBefore_of_close h3] at hac
    simp only [Apart] at h1 h2 h3
    exact .inr (.inr ⟨by omega, by omega, by omega, hbc, (not_le.1 hac).le⟩)
  · rw [comesBefore_of_apart h2] at hbc
    rw [comesBefore_of_apart h3] at hac
    simp only [Apart] at h1 h2 h3
    omega
  · rw [comesBefore_of_close h1] at hab
    rw [comesBefore_of_apart h2] at hbc
    rw [comesBefore_of_close h3] at hac
    simp only [Apart] at h1 h2 h3
    exact .inr (.inl ⟨by omega, by omega, by omega, (not_le.1 hac).le, hab⟩)
  · rw [comesBefore_of_close h1] at hab
    rw [comesBefore_of_close h2] at hbc
    rw [comesBefore_of_apart h3] at hac
    simp only [Apart] at h1 h2 h3
    exact .inl ⟨by omega, by omega, by omega, hab, hbc⟩
  · rw [comesBefore_of_close h1] at hab
    rw [comesBefore_of_close h2] at hbc
    rw [comesBefore_of_close h3] at hac
    exact absurd (hab.trans hbc) hac

/-- On a set of things the mixture is transitive exactly when no three of them
rise. -/
theorem comesBefore_trans_iff (S : Set α) :
    (∀ a ∈ S, ∀ b ∈ S, ∀ c ∈ S, ComesBefore window time rank a b → ComesBefore window time rank b c →
      ComesBefore window time rank a c) ↔
      ∀ old ∈ S, ∀ mid ∈ S, ∀ new ∈ S, ¬ Rising window time rank old mid new := by
  constructor
  · intro h old ho mid hm new hn hrising
    obtain ⟨h1, h2, h3⟩ := hrising.not_trans
    exact h3 (h old ho mid hm new hn h1 h2)
  · intro h a ha b hb c hc hab hbc
    by_contra hac
    rcases rising_of_not_trans hab hbc hac with hr | hr | hr
    · exact h a ha b hb c hc hr
    · exact h c hc a ha b hb hr
    · exact h b hb c hc a ha hr

end WorldWind.Lib.TwoKeys
