import WorldWind.Lib.JavaArray
import WorldWind.Lib.TrianglePrimitives
/-!
# Triples in an array

Triples one behind the other in an array, with three assignments in a row
(`put3`). Assignments at multiples of three are assignments of triples
(`foldlM_put3`), and a loop that changes each triple in its place is a map
(`foldlM_inPlace`).
-/

namespace WorldWind.Lib.Triples

open JavaArray TrianglePrimitives TriangleStrip

variable {α : Type*}

/-- `a[i] = x, a[i + 1] = y, a[i + 2] = z`. -/
def put3 (a : List α) (i : Nat) (t : α × α × α) : Option (List α) := do
  let a ← write a i t.1
  let a ← write a (i + 1) t.2.1
  write a (i + 2) t.2.2

/-- A list with an element in the middle. -/
theorem exists_split {T : List α} {k : Nat} (h : k < T.length) : ∃ l x r, T = l ++ x :: r ∧ l.length = k :=
  ⟨T.take k, T[k], T.drop (k + 1), by rw [List.getElem_cons_drop, List.take_append_drop],
    by rw [List.length_take]; omega⟩

theorem put3_vertices (T : List (Triangle α)) (k : Nat) (t : Triangle α) :
    put3 (vertices T) (3 * k) t = (write T k t).map vertices := by
  by_cases h : k < T.length
  · obtain ⟨l, x, r, rfl, rfl⟩ := exists_split h
    have hset : (l ++ x :: r).set l.length t = l ++ t :: r := by simp
    have hlen : 3 * l.length = (vertices l).length := (length_vertices l).symm
    have hput : put3 (vertices l ++ x.1 :: x.2.1 :: x.2.2 :: vertices r) (vertices l).length t =
        some (vertices l ++ t.1 :: t.2.1 :: t.2.2 :: vertices r) := by
      simp [put3, write]
    rw [write, if_pos h, hset, Option.map_some, vertices_append, vertices_cons, vertices_append, vertices_cons,
      hlen, hput]
  · rw [write, if_neg h, Option.map_none, put3, write, if_neg (by rw [length_vertices]; omega)]
    rfl

theorem foldlM_put3 (l : List (Nat × Triangle α)) (T : List (Triangle α)) :
    l.foldlM (fun a c => put3 a (3 * c.1) c.2) (vertices T) = (writes T l).map vertices := by
  induction l generalizing T with
  | nil => rfl
  | cons c l ih =>
    rw [List.foldlM_cons, put3_vertices, writes, List.foldlM_cons]
    cases write T c.1 c.2 with
    | none => rfl
    | some T' => exact ih T'

theorem foldlM_inPlace {step : List α → Nat → Option (List α)} {f : Triangle α → Triangle α}
    (hstep : ∀ l x r, step (vertices (l ++ x :: r)) l.length = some (vertices (l ++ f x :: r)))
    (T : List (Triangle α)) : (List.range T.length).foldlM step (vertices T) = some (vertices (T.map f)) := by
  have hloop : ∀ n ≤ T.length,
      (List.range n).foldlM step (vertices T) = some (vertices ((T.take n).map f ++ T.drop n)) := by
    intro n hn
    induction n with
    | zero => rfl
    | succ n ih =>
      obtain ⟨l, x, r, rfl, rfl⟩ := exists_split hn
      rw [List.range_succ, List.foldlM_append, ih (by omega), Option.bind_eq_bind, Option.bind_some, List.foldlM_cons]
      have hx := hstep (l.map f) x r
      rw [List.length_map] at hx
      rw [List.take_left, List.drop_left, hx, Option.bind_eq_bind, Option.bind_some, List.take_length_add_append,
        List.drop_length_add_append, List.map_append, List.append_assoc]
      rfl
  rw [hloop _ le_rfl, List.take_length, List.drop_length, List.append_nil]

/-- Assignments that give each cell its value. -/
theorem writes_range {n : Nat} {value : Nat → α} {a : List α} {l : List (Nat × α)} (ha : a.length = n)
    (hvalue : ∀ c ∈ l, c.1 < n ∧ c.2 = value c.1) (hcover : ∀ p < n, ∃ c ∈ l, c.1 = p) :
    writes a l = some ((List.range n).map value) := by
  refine writes_eq (by simp [ha]) (fun c hc => ?_) fun p hp => ?_
  · obtain ⟨hlt, heq⟩ := hvalue c hc
    rw [List.getElem?_map, List.getElem?_range hlt, Option.map_some, heq]
  · have hle : n ≤ p := by
      by_contra hlt
      obtain ⟨c, hc, heq⟩ := hcover p (by omega)
      exact hp c hc heq
    rw [List.getElem?_eq_none (by omega), List.getElem?_eq_none (by simpa using hle)]

theorem writes_append (a : List α) (l l' : List (Nat × α)) :
    writes a (l ++ l') = (writes a l).bind (writes · l') := by
  rw [writes, List.foldlM_append]
  rfl

theorem put3_writes (T : List (Triangle α)) (k : Nat) (t : Triangle α) :
    put3 (vertices T) (3 * k) t = (writes T [(k, t)]).map vertices := by
  rw [put3_vertices, writes, List.foldlM_cons]
  cases write T k t <;> rfl

/-- What assigns triples behind other assignments of triples. -/
theorem bind_writes {β : Type*} {f : List α → Option (List α)} {l' : List (Nat × Triangle α)}
    (hf : ∀ T, f (vertices T) = (writes T l').map vertices) (T : List (Triangle α)) (l : List (Nat × Triangle α))
    (g : List α → Option β) :
    ((writes T l).map vertices).bind (fun a => (f a).bind g) = ((writes T (l ++ l')).map vertices).bind g := by
  rw [writes_append]
  cases writes T l with
  | none => rfl
  | some T' => rw [Option.map_some, Option.bind_some, hf, Option.bind_some]

/-- A loop whose turns assign to the list that its state stands for. -/
theorem foldlM_writes {β : Type*} {step : β → Nat → Option β} {l : Nat → List (Nat × α)} (state : Nat → List α → β)
    (hstep : ∀ a i, step (state i a) i = (writes a (l i)).map (state (i + 1))) (a : List α) (n : Nat) :
    (List.range n).foldlM step (state 0 a) = (writes a ((List.range n).flatMap l)).map (state n) := by
  induction n with
  | zero => rfl
  | succ n ih =>
    rw [List.range_succ, List.foldlM_append, ih, List.flatMap_append, List.flatMap_singleton, writes_append]
    cases writes a ((List.range n).flatMap l) with
    | none => rfl
    | some a' =>
      rw [Option.map_some, Option.bind_eq_bind, Option.bind_some, Option.bind_some, List.foldlM_cons, hstep]
      cases writes a' (l n) <;> rfl

theorem vertices_replicate (x : α) (n : Nat) : List.replicate (3 * n) x = vertices (List.replicate n (x, x, x)) := by
  induction n with
  | zero => rfl
  | succ n ih =>
    change x :: x :: x :: List.replicate (3 * n) x = x :: x :: x :: vertices (List.replicate n (x, x, x))
    rw [ih]

end WorldWind.Lib.Triples
