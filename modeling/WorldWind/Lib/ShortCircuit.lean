import Mathlib
/-!
# Connectives that stop early

`||` and `&&` ask for their right side only where the left does not decide. A
side may also fail. A chain of connectives is folded from the left; which of
its operands are asked for depends on the values before them, and the chain has
a value exactly when those do (`leftFold_ok_iff`).
-/

namespace WorldWind.Lib.ShortCircuit

inductive Connective where
  | or
  | and
  deriving DecidableEq, Repr

namespace Connective

/-- The left side alone gives the value. -/
def decides : Connective → Bool → Bool
  | .or, b => b
  | .and, b => !b

def join (op : Connective) (a b : Bool) : Bool :=
  match op with
  | .or => a || b
  | .and => a && b

theorem join_of_decides {op : Connective} {a : Bool} (h : op.decides a = true) (b : Bool) : op.join a b = a := by
  cases op <;> cases a <;> simp_all [decides, join]

theorem join_of_not_decides {op : Connective} {a : Bool} (h : op.decides a = false) (b : Bool) :
    op.join a b = b := by
  cases op <;> cases a <;> simp_all [decides, join]

end Connective

variable {ε α : Type*}

/-- `x op y`. -/
def lazily (op : Connective) (x y : Except ε Bool) : Except ε Bool :=
  x.bind fun a => if op.decides a then .ok a else y

theorem lazily_ok (op : Connective) (a b : Bool) : (lazily op (.ok a) (.ok b) : Except ε Bool) =
    .ok (op.join a b) := by
  cases h : op.decides a
  · simp [lazily, Except.bind, h, op.join_of_not_decides h]
  · simp [lazily, Except.bind, h, op.join_of_decides h]

theorem lazily_assoc (op : Connective) (x y z : Except ε Bool) :
    lazily op (lazily op x y) z = lazily op x (lazily op y z) := by
  cases x with
  | error e => rfl
  | ok a =>
    cases h : op.decides a
    · simp [lazily, Except.bind, h]
    · simp [lazily, Except.bind, h]

/-! ## Chains -/

/-- The value of `x op₁ a₁ op₂ a₂ …`, from the left. -/
def leftFold (value : α → Except ε Bool) (x : Except ε Bool) (rest : List (Connective × α)) : Except ε Bool :=
  rest.foldl (fun x p => lazily p.1 x (value p.2)) x

theorem leftFold_map {β : Type*} (f : α → β) (value : β → Except ε Bool) (x : Except ε Bool)
    (rest : List (Connective × α)) :
    leftFold value x (rest.map fun p => (p.1, f p.2)) = leftFold (fun a => value (f a)) x rest := by
  rw [leftFold, List.foldl_map]
  rfl

/-- Only the values of the operands count. -/
theorem leftFold_eq (value : α → Except ε Bool) (x : Except ε Bool) (rest : List (Connective × α)) :
    leftFold value x rest = leftFold id x (rest.map fun p => (p.1, value p.2)) := by
  rw [leftFold_map value id]
  rfl

/-- The same for operands that do not fail. -/
def boolFold (value : α → Bool) (a : Bool) (rest : List (Connective × α)) : Bool :=
  rest.foldl (fun a p => p.1.join a (value p.2)) a

/-- The operands that are asked for, after the value `a` of what stands before. -/
def asked (value : α → Bool) : Bool → List (Connective × α) → List α
  | _, [] => []
  | a, (op, x) :: rest => if op.decides a then asked value a rest else x :: asked value (value x) rest

/-- What a value says, where it is one. -/
def said (value : α → Except ε Bool) (x : α) : Bool :=
  match value x with
  | .ok b => b
  | .error _ => false

theorem said_ok {value : α → Except ε Bool} {x : α} {b : Bool} (h : value x = .ok b) : said value x = b := by
  rw [said, h]

theorem leftFold_ok {value : α → Except ε Bool} (v : α → Bool) {rest : List (Connective × α)}
    (h : ∀ p ∈ rest, value p.2 = .ok (v p.2)) (a : Bool) : leftFold value (.ok a) rest = .ok (boolFold v a rest) := by
  induction rest generalizing a with
  | nil => rfl
  | cons p rest ih =>
    have hstep : leftFold value (.ok a) (p :: rest) = leftFold value (.ok (p.1.join a (v p.2))) rest := by
      rw [leftFold, List.foldl_cons, h p List.mem_cons_self, lazily_ok]
      rfl
    rw [hstep, ih fun q hq => h q (List.mem_cons_of_mem _ hq)]
    rfl

theorem leftFold_error (value : α → Except ε Bool) (e : ε) (rest : List (Connective × α)) :
    leftFold value (.error e) rest = .error e := by
  induction rest with
  | nil => rfl
  | cons p rest ih => exact ih

/-- A chain has a value exactly when the operands that are asked for have one,
and then it is the fold of what they say. -/
theorem leftFold_eq_ok_iff (value : α → Except ε Bool) (rest : List (Connective × α)) (a b : Bool) :
    leftFold value (.ok a) rest = .ok b ↔
      boolFold (said value) a rest = b ∧ ∀ x ∈ asked (said value) a rest, ∃ b, value x = .ok b := by
  induction rest generalizing a with
  | nil => simp [leftFold, boolFold, asked]
  | cons p rest ih =>
    obtain ⟨op, x⟩ := p
    cases h : op.decides a
    · have hfold : leftFold value (.ok a) ((op, x) :: rest) = leftFold value (value x) rest := by
        simp [leftFold, lazily, Except.bind, h]
      have hbool : boolFold (said value) a ((op, x) :: rest) = boolFold (said value) (said value x) rest := by
        rw [boolFold, List.foldl_cons, op.join_of_not_decides h]
        rfl
      rw [hfold, hbool, asked, h]
      simp only [Bool.false_eq_true, if_false, List.forall_mem_cons]
      cases hx : value x with
      | error e => simp [leftFold_error]
      | ok c => rw [said_ok hx, ih]; simp
    · have hfold : leftFold value (.ok a) ((op, x) :: rest) = leftFold value (.ok a) rest := by
        simp [leftFold, lazily, Except.bind, h]
      have hbool : boolFold (said value) a ((op, x) :: rest) = boolFold (said value) a rest := by
        rw [boolFold, List.foldl_cons, op.join_of_decides h]
        rfl
      rw [hfold, hbool, asked, h, if_pos rfl, ih]

theorem leftFold_ok_iff (value : α → Except ε Bool) (rest : List (Connective × α)) (a : Bool) :
    (∃ b, leftFold value (.ok a) rest = .ok b) ↔ ∀ x ∈ asked (said value) a rest, ∃ b, value x = .ok b := by
  simp [leftFold_eq_ok_iff]

/-- Of the operands only what those say that are asked for counts. -/
theorem forall_asked_congr {P : α → Prop} {v v' : α → Bool} (h : ∀ x, P x → v x = v' x) (a : Bool)
    (rest : List (Connective × α)) : (∀ x ∈ asked v a rest, P x) ↔ ∀ x ∈ asked v' a rest, P x := by
  induction rest generalizing a with
  | nil => exact Iff.rfl
  | cons p rest ih =>
    rw [asked, asked]
    split
    · exact ih a
    · rw [List.forall_mem_cons, List.forall_mem_cons]
      refine and_congr_right fun hx => ?_
      rw [h _ hx]
      exact ih _

end WorldWind.Lib.ShortCircuit
