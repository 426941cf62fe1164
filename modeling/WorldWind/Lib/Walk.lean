import Mathlib
/-!
# Following links

Each place of a structure has a link to one other place, or none. A program
that follows the links from a place ends if it comes to a place without one.
Where only finitely many places can be reached, it ends exactly when no place
it can reach lies on a cycle (`ends_iff_of_finite`).

`Outcome` is what is known of a call that was given a number of steps.
-/

namespace WorldWind.Lib.Walk

open Relation

/-- A call has returned, has thrown, or is not done yet. -/
inductive Outcome (ε α : Type*) where
  | returned (a : α)
  | thrown (e : ε)
  | running
  deriving DecidableEq, Repr

variable {α : Type*} (next : α → Option α)

/-- The link of `a` leads to `b`. -/
def Link (a b : α) : Prop := next a = some b

/-- The place after `n` links. -/
def after : Nat → α → Option α
  | 0, a => some a
  | n + 1, a => (next a).bind (after n)

/-- The walk from `a` comes to a place without a link. -/
def Ends (a : α) : Prop := ∃ n, after next n a = none

/-- The walk from `a` comes to no place that it comes to again. -/
def NoCycle (a : α) : Prop := ∀ b, ReflTransGen (Link next) a b → ¬ TransGen (Link next) b b

variable {next}

theorem ends_of_none {a : α} (h : next a = none) : Ends next a :=
  ⟨1, by simp [after, h]⟩

theorem ends_iff_of_link {a b : α} (h : next a = some b) : Ends next a ↔ Ends next b := by
  constructor
  · rintro ⟨n, hn⟩
    cases n with
    | zero => cases hn
    | succ n => exact ⟨n, by simpa [after, h] using hn⟩
  · rintro ⟨n, hn⟩
    exact ⟨n + 1, by simpa [after, h] using hn⟩

/-- To end is to have no infinite walk. -/
theorem ends_iff_acc (a : α) : Ends next a ↔ Acc (fun y x => Link next x y) a := by
  constructor
  · rintro ⟨n, hn⟩
    induction n generalizing a with
    | zero => cases hn
    | succ n ih =>
      refine ⟨a, fun b hb => ih b ?_⟩
      rw [Link] at hb
      simpa [after, hb] using hn
  · intro h
    induction h with
    | intro a _ ih =>
      cases hb : next a with
      | none => exact ends_of_none hb
      | some b => exact (ends_iff_of_link hb).2 (ih b hb)

theorem Ends.of_reach {a b : α} (h : Ends next a) (hab : ReflTransGen (Link next) a b) : Ends next b := by
  induction hab with
  | refl => exact h
  | tail _ hbc ih => exact (ends_iff_of_link hbc).1 ih

/-- A walk that comes to a cycle does not end. -/
theorem Ends.noCycle {a : α} (h : Ends next a) : NoCycle next a := by
  intro b hab hb
  have hacc := ((ends_iff_acc b).1 (h.of_reach hab)).transGen
  have hcycle : TransGen (fun y x => Link next x y) b b := transGen_swap.2 hb
  induction hacc with
  | intro b _ ih => exact ih b hcycle (hab.trans hb.to_reflTransGen) hb hcycle

/-- A walk among finitely many places that comes to no cycle ends. -/
theorem ends_of_finite {S : Set α} (hS : S.Finite) (hclosed : ∀ x ∈ S, ∀ y, Link next x y → y ∈ S) {a : α}
    (ha : a ∈ S) (h : NoCycle next a) : Ends next a := by
  have hmem : ∀ {b}, ReflTransGen (Link next) a b → b ∈ S := by
    intro b hb
    induction hb with
    | refl => exact ha
    | tail _ hbc ih => exact hclosed _ ih _ hbc
  -- The places that can be reached, ordered by the walk, have no infinite chain.
  let R := {b // ReflTransGen (Link next) a b}
  have hfin : Finite R := (hS.subset fun b hb => hmem hb).to_subtype
  let below : R → R → Prop := fun y x => TransGen (Link next) x.1 y.1
  have htrans : IsTrans R below := ⟨fun _ _ _ hyx hzy => hzy.trans hyx⟩
  have hirrefl : Std.Irrefl below := ⟨fun x hx => h x.1 x.2 hx⟩
  have hwf : WellFounded below := Finite.wellFounded_of_trans_of_irrefl below
  have hends : ∀ x : R, Ends next x.1 := fun x => hwf.induction x fun x ih => by
    cases hb : next x.1 with
    | none => exact ends_of_none hb
    | some b => exact (ends_iff_of_link hb).2 (ih ⟨b, x.2.tail hb⟩ (.single hb))
  exact hends ⟨a, .refl⟩

theorem ends_iff_of_finite {S : Set α} (hS : S.Finite) (hclosed : ∀ x ∈ S, ∀ y, Link next x y → y ∈ S) {a : α}
    (ha : a ∈ S) : Ends next a ↔ NoCycle next a :=
  ⟨Ends.noCycle, ends_of_finite hS hclosed ha⟩

/-! ## A cycle that is seen -/

theorem reach_of_after {a b : α} {n : Nat} (h : after next n a = some b) : ReflTransGen (Link next) a b := by
  induction n generalizing a with
  | zero => cases h; exact .refl
  | succ n ih =>
    obtain ⟨c, hc, h⟩ := Option.bind_eq_some_iff.1 h
    exact .head hc (ih h)

/-- A walk that is at `b` after some links, and again after some more, does not
end. -/
theorem not_noCycle_of_after {a b : α} {n m : Nat} (hn : after next n a = some b)
    (hm : after next (m + 1) b = some b) :
    ¬ NoCycle next a := by
  intro h
  obtain ⟨c, hc, hcb⟩ := Option.bind_eq_some_iff.1 hm
  exact h b (reach_of_after hn) (TransGen.head' hc (reach_of_after hcb))

end WorldWind.Lib.Walk
