import Mathlib
/-!
# Java arrays

An array is a list. Its length is an `int`. Reading, writing or copying
outside of it throws, here `none`.
-/

namespace WorldWind.Lib.JavaArray

variable {α : Type*}

/-- `new T[n]`: throws for a negative length. -/
def newArray (default : α) (n : Int32) : Option (List α) :=
  if n < 0 then none else some (List.replicate n.toInt.toNat default)

/-- The array with `part` written from cell `p` on. -/
def blit (dst : List α) (p : Nat) (part : List α) : List α :=
  dst.take p ++ part ++ dst.drop (p + part.length)

/-- `System.arraycopy(src, srcPos, dst, dstPos, n)`, also right when `src` and
`dst` are the same array. -/
def arraycopy (src : List α) (srcPos : Nat) (dst : List α) (dstPos n : Nat) : Option (List α) :=
  if srcPos + n ≤ src.length ∧ dstPos + n ≤ dst.length then some (blit dst dstPos ((src.drop srcPos).take n))
  else none

/-- `a[i] = v`. -/
def write (a : List α) (i : Nat) (v : α) : Option (List α) := if i < a.length then some (a.set i v) else none

/-- The assignments of a loop, in order. -/
def writes (a : List α) (l : List (Nat × α)) : Option (List α) := l.foldlM (fun a c => write a c.1 c.2) a

theorem newArray_eq (default : α) {n : Int32} (h : 0 ≤ n.toInt) :
    newArray default n = some (List.replicate n.toInt.toNat default) :=
  if_neg (Int32.not_lt.2 (Int32.le_iff_toInt_le.2 (by rwa [Int32.toInt_zero])))

theorem arraycopy_eq {src dst : List α} {srcPos dstPos n : Nat} (h1 : srcPos + n ≤ src.length)
    (h2 : dstPos + n ≤ dst.length) :
    arraycopy src srcPos dst dstPos n = some (blit dst dstPos ((src.drop srcPos).take n)) :=
  if_pos ⟨h1, h2⟩

/-- Assignments do not change the length. -/
theorem writes_length {l : List (Nat × α)} : ∀ {a b : List α}, writes a l = some b → b.length = a.length := by
  induction l with
  | nil =>
    intro a b h
    rw [Option.some.inj h]
  | cons c l ih =>
    intro a b h
    rw [writes, List.foldlM_cons, write] at h
    split at h
    · rw [ih h, List.length_set]
    · cases h

/-- Assignments that agree with an array `b` where they write turn `a` into
`b`, if the two agree elsewhere. -/
theorem writes_eq {a b : List α} {l : List (Nat × α)} (hlen : a.length = b.length)
    (hin : ∀ c ∈ l, b[c.1]? = some c.2) (hout : ∀ p, (∀ c ∈ l, c.1 ≠ p) → a[p]? = b[p]?) :
    writes a l = some b := by
  induction l generalizing a with
  | nil =>
    have hab : a = b := List.ext_getElem? fun p => hout p (by simp)
    rw [hab]
    rfl
  | cons c l ih =>
    have hc := hin c List.mem_cons_self
    have hlt : c.1 < a.length := hlen ▸ (List.getElem?_eq_some_iff.1 hc).1
    rw [writes, List.foldlM_cons, write, if_pos hlt]
    refine ih (by rw [List.length_set, hlen]) (fun d hd => hin d (List.mem_cons_of_mem _ hd)) fun p hp => ?_
    by_cases hpc : c.1 = p
    · rw [← hpc, List.getElem?_set_self hlt, hc]
    · rw [List.getElem?_set_ne hpc]
      exact hout p fun d hd => by
        rcases List.mem_cons.1 hd with rfl | hd
        · exact hpc
        · exact hp d hd

/-- Assignments inside an array, where two to one cell assign the same. -/
theorem writes_consistent {a : List α} {l : List (Nat × α)} (hin : ∀ c ∈ l, c.1 < a.length)
    (hsame : ∀ c ∈ l, ∀ d ∈ l, c.1 = d.1 → c.2 = d.2) :
    ∃ b, writes a l = some b ∧ b.length = a.length ∧ (∀ c ∈ l, b[c.1]? = some c.2) ∧
      ∀ p, (∀ c ∈ l, c.1 ≠ p) → b[p]? = a[p]? := by
  induction l generalizing a with
  | nil => exact ⟨a, rfl, rfl, by simp, fun _ _ => rfl⟩
  | cons c l ih =>
    have hc : c.1 < a.length := hin c List.mem_cons_self
    obtain ⟨b, hb, hlen, hvalues, hrest⟩ := ih (a := a.set c.1 c.2)
      (fun d hd => by rw [List.length_set]; exact hin d (List.mem_cons_of_mem _ hd))
      fun d hd e he => hsame d (List.mem_cons_of_mem _ hd) e (List.mem_cons_of_mem _ he)
    refine ⟨b, ?_, by rw [hlen, List.length_set], ?_, ?_⟩
    · rw [writes, List.foldlM_cons, write, if_pos hc]
      exact hb
    · intro d hd
      rcases List.mem_cons.1 hd with rfl | hd
      · by_cases hagain : ∃ e ∈ l, e.1 = d.1
        · obtain ⟨e, he, heq⟩ := hagain
          rw [← heq, hvalues e he, hsame e (List.mem_cons_of_mem _ he) d List.mem_cons_self heq]
        · rw [hrest _ fun e he heq => hagain ⟨e, he, heq⟩, List.getElem?_set_self hc]
      · exact hvalues d hd
    · intro p hp
      rw [hrest p fun d hd => hp d (List.mem_cons_of_mem _ hd), List.getElem?_set_ne (hp c List.mem_cons_self)]

/-- Assignments to all cells in turn. -/
theorem writes_zipIdx {a b : List α} (h : a.length = b.length) :
    writes a (b.zipIdx.map fun c => (c.2, c.1)) = some b := by
  refine writes_eq h (fun c hc => ?_) fun p hp => ?_
  · obtain ⟨⟨x, p⟩, hx, rfl⟩ := List.mem_map.1 hc
    exact List.mk_mem_zipIdx_iff_getElem?.1 hx
  · have hnone : b[p]? = none := by
      rw [Option.eq_none_iff_forall_ne_some]
      exact fun x hx => hp (p, x) (List.mem_map.2 ⟨(x, p), List.mk_mem_zipIdx_iff_getElem?.2 hx, rfl⟩) rfl
    rw [hnone, List.getElem?_eq_none_iff, h]
    exact List.getElem?_eq_none_iff.1 hnone

@[simp] theorem blit_nil (dst : List α) (p : Nat) : blit dst p [] = dst := by
  simp [blit]

theorem blit_zero (dst part : List α) : blit dst 0 part = part ++ dst.drop part.length := by
  simp [blit]

theorem length_blit {dst part : List α} {p : Nat} (h : p + part.length ≤ dst.length) :
    (blit dst p part).length = dst.length := by
  simp only [blit, List.length_append, List.length_take, List.length_drop]
  omega

theorem getElem?_blit {dst part : List α} {p : Nat} (h : p + part.length ≤ dst.length) (i : Nat) :
    (blit dst p part)[i]? = if p ≤ i ∧ i < p + part.length then part[i - p]? else dst[i]? := by
  have hp : (dst.take p).length = p := by
    rw [List.length_take]
    omega
  have hpp : (dst.take p ++ part).length = p + part.length := by
    rw [List.length_append, hp]
  rw [blit, List.getElem?_append, List.getElem?_append, hp, hpp]
  by_cases h1 : i < p + part.length
  · by_cases h2 : i < p
    · rw [if_pos h1, if_pos h2, if_neg (by omega), List.getElem?_take_of_lt h2]
    · rw [if_pos h1, if_neg h2, if_pos (by omega)]
  · rw [if_neg h1, if_neg (by omega), List.getElem?_drop]
    congr 1
    omega

/-- A window reads the same after a write exactly when the cells it shares
with the written part already held the same. -/
theorem window_blit {dst part : List α} {p a n : Nat} (h : p + part.length ≤ dst.length) :
    ((blit dst p part).drop a).take n = (dst.drop a).take n ↔
      ∀ i, a ≤ i → i < a + n → p ≤ i → i < p + part.length → dst[i]? = part[i - p]? := by
  constructor
  · intro heq i h1 h2 h3 h4
    have hi := congrArg (·[i - a]?) heq
    simp only [List.getElem?_take_of_lt (show i - a < n by omega), List.getElem?_drop] at hi
    rw [show a + (i - a) = i by omega, getElem?_blit h, if_pos ⟨h3, h4⟩] at hi
    exact hi.symm
  · intro hsame
    refine List.ext_getElem? fun j => ?_
    by_cases hj : j < n
    · rw [List.getElem?_take_of_lt hj, List.getElem?_take_of_lt hj, List.getElem?_drop, List.getElem?_drop,
        getElem?_blit h]
      split
      · rename_i hin
        exact (hsame (a + j) (by omega) (by omega) hin.1 hin.2).symm
      · rfl
    · rw [List.getElem?_eq_none (by rw [List.length_take]; omega),
        List.getElem?_eq_none (by rw [List.length_take]; omega)]

theorem window_blit_self {dst part : List α} {p : Nat} (h : p + part.length ≤ dst.length) :
    ((blit dst p part).drop p).take part.length = part := by
  have hp : (dst.take p).length = p := by
    rw [List.length_take]
    omega
  rw [blit, List.append_assoc, List.drop_left' hp, List.take_left]

/-- Two parts written one behind the other are one part. -/
theorem blit_blit {dst : List α} {p : Nat} (x y : List α) (h : p + x.length ≤ dst.length) :
    blit (blit dst p x) (p + x.length) y = blit dst p (x ++ y) := by
  have hlen : (dst.take p ++ x).length = p + x.length := by
    rw [List.length_append, List.length_take]
    omega
  have htake : (dst.take p ++ x ++ dst.drop (p + x.length)).take (p + x.length) = dst.take p ++ x := by
    rw [← hlen, List.take_left]
  have hdrop : (dst.take p ++ x ++ dst.drop (p + x.length)).drop (p + x.length + y.length) =
      dst.drop (p + x.length + y.length) := by
    rw [← hlen, List.drop_length_add_append, List.drop_drop]
  rw [blit, blit, blit, htake, hdrop, List.length_append, ← Nat.add_assoc, List.append_assoc (dst.take p)]

end WorldWind.Lib.JavaArray
