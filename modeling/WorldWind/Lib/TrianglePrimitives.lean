import WorldWind.Lib.TriangleStrip
/-!
# Lists, strips and fans of triangles

The triangles of a primitive as lists of its vertices, and the same by the
numbers of the vertices (`triples_range`, `fan_range`, and `triangles_range` for
strips).
-/

namespace WorldWind.Lib.TrianglePrimitives

open TriangleStrip

variable {α β : Type*}

/-- Every three vertices are a triangle; one or two at the end are none. -/
def triples : List α → List (Triangle α)
  | a :: b :: c :: l => (a, b, c) :: triples l
  | _ => []

/-- All triangles have the first vertex. -/
def fan : List α → List (Triangle α)
  | [] => []
  | a :: l => (l.zip l.tail).map fun p => (a, p.1, p.2)

theorem range_three {n : Nat} (f : Nat → α) :
    (List.range (n + 3)).map f = f 0 :: f 1 :: f 2 :: (List.range n).map fun i => f (i + 3) := by
  rw [Nat.add_comm, List.range_add, List.map_append, List.map_map]
  refine congrArg _ (List.map_congr_left fun i _ => ?_)
  rw [Function.comp_apply, Nat.add_comm]

/-- The triangles of a list begin at each third vertex. -/
theorem triples_range (f : Nat → α) (n : Nat) : triples ((List.range n).map f) =
    ((List.range (n - 2)).filter fun i => i % 3 = 0).map fun i => (f i, f (i + 1), f (i + 2)) := by
  induction n using Nat.strong_induction_on generalizing f with
  | _ n ih =>
    match n with
    | 0 => rfl
    | 1 => rfl
    | 2 => rfl
    | 3 => rfl
    | 4 => rfl
    | n + 5 =>
      rw [show n + 5 = n + 2 + 3 from rfl, range_three, triples, ih (n + 2) (by omega),
        show n + 2 + 3 - 2 = n + 3 from rfl, Nat.add_sub_cancel]
      have hrange := range_three (n := n) id
      rw [List.map_id] at hrange
      rw [hrange]
      simp only [id_eq]
      rw [List.filter_cons_of_pos (by decide), List.filter_cons_of_neg (by decide),
        List.filter_cons_of_neg (by decide), List.map_cons, List.filter_map, List.map_map]
      simp [Function.comp_def]

theorem fan_range (f : Nat → α) (n : Nat) :
    fan ((List.range n).map f) = (List.range (n - 2)).map fun i => (f 0, f (i + 1), f (i + 2)) := by
  match n with
  | 0 => rfl
  | 1 => rfl
  | n + 2 =>
    rw [List.range_succ_eq_map, List.map_cons, fan, Nat.add_sub_cancel]
    refine List.ext_getElem (by simp) fun i h _ => ?_
    simp

theorem range_getD (l : List α) (d : α) : (List.range l.length).map (l.getD · d) = l := by
  refine List.ext_getElem (by simp) fun i h _ => ?_
  rw [List.length_map, List.length_range] at h
  simp [h]

/-- The vertices of triangles one after the other. -/
def vertices (T : List (Triangle α)) : List α := T.flatMap fun t => [t.1, t.2.1, t.2.2]

@[simp] theorem length_vertices (T : List (Triangle α)) : (vertices T).length = 3 * T.length := by
  induction T with
  | nil => rfl
  | cons t T ih =>
    rw [vertices, List.flatMap_cons, List.length_append, ← vertices, ih]
    simp only [List.length_cons, List.length_nil]
    omega

@[simp] theorem vertices_nil : vertices ([] : List (Triangle α)) = [] := rfl

@[simp] theorem vertices_append (T T' : List (Triangle α)) : vertices (T ++ T') = vertices T ++ vertices T' :=
  List.flatMap_append

@[simp] theorem vertices_cons (t : Triangle α) (T : List (Triangle α)) :
    vertices (t :: T) = t.1 :: t.2.1 :: t.2.2 :: vertices T := rfl

@[simp] theorem triples_vertices (T : List (Triangle α)) : triples (vertices T) = T := by
  induction T with
  | nil => rfl
  | cons t T ih => rw [vertices_cons, triples, ih]

/-- Every list whose length is a multiple of three holds triangles. -/
theorem vertices_triples : ∀ {l : List α}, l.length % 3 = 0 → vertices (triples l) = l
  | [], _ => rfl
  | a :: b :: c :: l, h => by
    rw [triples, vertices_cons, vertices_triples (by simp only [List.length_cons] at h; omega)]

/-- A function of the vertices acts on the triangles. -/
def Triangle.map (f : α → β) (t : Triangle α) : Triangle β := (f t.1, f t.2.1, f t.2.2)

end WorldWind.Lib.TrianglePrimitives
