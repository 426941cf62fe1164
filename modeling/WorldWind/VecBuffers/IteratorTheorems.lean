import WorldWind.VecBuffers.Iterators
/-!
# Compound iterators and concatenation

A compound iterator has left what its open sub-iterator has left, and then the
sub-buffers its cursor has still to come to. Its loop opens sub-iterators until
one has an element, and changes nothing about what is left. So a compound
iterator answers like the list of all the vectors, whatever is asked
(`getCoords_iterates`). Forwards and backwards differ in which sub-buffers a
cursor has still to come to.
-/

namespace WorldWind.VecBuffers

open Lib.Iterators Lib.JavaArray Lib.JavaInt

variable {γ D : Type}

/-! ## What is left of a compound iterator -/

section Compound
variable {σ α : Type} {sub : SubIterators σ α}

/-- Sub-iterators in terms of the elements they have left. -/
structure Yields (sub : SubIterators σ α) (R : σ → List α → Prop) : Prop where
  hasNext : ∀ it l, R it l → sub.hasNext it = !l.isEmpty
  next : ∀ it a l, R it (a :: l) → (sub.next it).1 = .element a ∧ R (sub.next it).2 l

/-- The open sub-iterator has `l` left. -/
def HasLeft (R : σ → List α → Prop) (subIterator : Option σ) (l : List α) : Prop :=
  subIterator.elim (l = []) fun it => R it l

/-- The loop in terms of the lists a cursor has still to come to: it stays where
there is an element or no list left, and else opens the next one. -/
structure Opens (sub : SubIterators σ α) (R : σ → List α → Prop)
    (update : CompoundIterator σ → CompoundIterator σ × Bool) (Left : Int → List (List α) → Prop) : Prop where
  stay : ∀ s rest, Left s.subBuffer rest → s.exhausted sub = false ∨ rest = [] → update s = (s, true)
  openNext : ∀ s l rest, Left s.subBuffer (l :: rest) → s.exhausted sub = true →
    ∃ it j, R it l ∧ Left j rest ∧ update s = update ⟨j, some it⟩

/-- The elements a compound iterator has left. -/
def CompoundIterator.Rel (R : σ → List α → Prop) (Left : Int → List (List α) → Prop) (s : CompoundIterator σ)
    (l : List α) : Prop :=
  ∃ front rest, HasLeft R s.subIterator front ∧ Left s.subBuffer rest ∧ l = front ++ rest.flatten

variable {R : σ → List α → Prop} {Left : Int → List (List α) → Prop}
  {update : CompoundIterator σ → CompoundIterator σ × Bool}

theorem exhausted_eq (hy : Yields sub R) {s : CompoundIterator σ} {front : List α}
    (h : HasLeft R s.subIterator front) : s.exhausted sub = front.isEmpty := by
  rw [CompoundIterator.exhausted]
  cases hs : s.subIterator with
  | none =>
    rw [hs] at h
    rw [show front = [] from h]
    rfl
  | some it =>
    rw [hs] at h
    simp only [Option.elim_some]
    rw [hy.hasNext it front h, Bool.not_not]

/-- The loop leaves what is left, and afterwards there is an element at the
front or nothing at all. -/
theorem update_spec (hy : Yields sub R) (ho : Opens sub R update Left) (rest : List (List α)) :
    ∀ (s : CompoundIterator σ) (front : List α), HasLeft R s.subIterator front → Left s.subBuffer rest →
      ∃ s' front' rest', update s = (s', true) ∧ HasLeft R s'.subIterator front' ∧ Left s'.subBuffer rest' ∧
        front ++ rest.flatten = front' ++ rest'.flatten ∧ (front' = [] → rest' = []) := by
  induction rest with
  | nil =>
    intro s front hs hl
    exact ⟨s, front, [], ho.stay s [] hl (.inr rfl), hs, hl, rfl, fun _ => rfl⟩
  | cons l rest ih =>
    intro s front hs hl
    have hex := exhausted_eq hy hs
    cases front with
    | cons a front =>
      exact ⟨s, a :: front, l :: rest, ho.stay s _ hl (.inl hex), hs, hl, rfl, fun h => by cases h⟩
    | nil =>
      obtain ⟨it, j, hit, hj, heq⟩ := ho.openNext s l rest hl hex
      obtain ⟨s', front', rest', h1, h2, h3, h4, h5⟩ := ih ⟨j, some it⟩ l hit hj
      exact ⟨s', front', rest', heq.trans h1, h2, h3, h4, h5⟩

/-- Every call answers as the list of what is left, and leaves the rest of it. -/
theorem call_spec (hy : Yields sub R) (ho : Opens sub R update Left) (s : CompoundIterator σ) (l : List α) (c : Call)
    (h : s.Rel R Left l) :
    (CompoundIterator.call sub update s c).1 = (listCall l c).1 ∧
      (CompoundIterator.call sub update s c).2.Rel R Left (listCall l c).2 := by
  obtain ⟨front, rest, hfront, hrest, rfl⟩ := h
  obtain ⟨s', front', rest', hupdate, hfront', hrest', heq, hempty⟩ := update_spec hy ho rest s front hfront hrest
  have hex := exhausted_eq hy hfront'
  rw [heq]
  cases c with
  | hasNext =>
    simp only [CompoundIterator.call, hupdate, if_true, hex]
    refine ⟨?_, front', rest', hfront', hrest', rfl⟩
    cases front' with
    | nil =>
      rw [hempty rfl]
      rfl
    | cons a front' => rfl
  | next =>
    simp only [CompoundIterator.call, hupdate, if_true]
    cases front' with
    | nil =>
      obtain rfl := hempty rfl
      have hnone : ∀ it, s'.subIterator = some it → sub.hasNext it = false := by
        intro it hit
        rw [hit] at hfront'
        exact hy.hasNext it [] hfront'
      cases hit : s'.subIterator with
      | none => exact ⟨rfl, [], [], by rw [hit]; exact rfl, hrest', rfl⟩
      | some it =>
        simp only [hnone it hit, Bool.false_eq_true, if_false]
        exact ⟨rfl, [], [], hfront', hrest', rfl⟩
    | cons a front' =>
      cases hit : s'.subIterator with
      | none =>
        rw [hit] at hfront'
        cases hfront'
      | some it =>
        rw [hit] at hfront'
        obtain ⟨ha, hnext⟩ := hy.next it a front' hfront'
        simp only [hy.hasNext it _ hfront', List.isEmpty_cons, Bool.not_false, if_true]
        exact ⟨ha, front', rest', hnext, hrest', rfl⟩

theorem compound_iterates (hy : Yields sub R) (ho : Opens sub R update Left) {s : CompoundIterator σ} {l : List α}
    (h : s.Rel R Left l) : IteratesOver (CompoundIterator.call sub update) s l :=
  iteratesOver_of_simulation (call_spec hy ho) h

/-! ## The two loops -/

variable {lists : List (List α)}

/-- The loop forwards opens the sub-buffers from the cursor on. -/
theorem opens_forward
    (h : ∀ i (hi : i < lists.length), ∃ it, sub.iterator i = some it ∧ R it lists[i]) :
    Opens sub R (CompoundIterator.updateSubIterator sub lists.length)
      (fun i rest => 0 ≤ i ∧ rest = lists.drop i.toNat) := by
  constructor
  · rintro s rest ⟨h0, rfl⟩ hstay
    rw [CompoundIterator.updateSubIterator.eq_def, if_neg]
    rintro ⟨hlt, hex⟩
    rcases hstay with hstay | hstay
    · rw [hstay] at hex
      cases hex
    · rw [List.drop_eq_nil_iff] at hstay
      omega
  · rintro s l rest ⟨h0, hl⟩ hex
    have hlt : s.subBuffer.toNat < lists.length := by
      by_contra hge
      rw [List.drop_eq_nil_of_le (not_lt.1 hge)] at hl
      cases hl
    rw [List.drop_eq_getElem_cons hlt, List.cons.injEq] at hl
    obtain ⟨rfl, rfl⟩ := hl
    obtain ⟨it, hit, hr⟩ := h s.subBuffer.toNat hlt
    rw [Int.toNat_of_nonneg h0] at hit
    refine ⟨it, s.subBuffer + 1, hr, ⟨by omega, by rw [Int.toNat_add h0 (by decide)]; rfl⟩, ?_⟩
    rw [CompoundIterator.updateSubIterator.eq_def, if_pos ⟨by omega, hex⟩, hit]

/-- The loop backwards opens the sub-buffers from the cursor down. -/
theorem opens_backward
    (h : ∀ i (hi : i < lists.length), ∃ it, sub.iterator i = some it ∧ R it lists[i].reverse) :
    Opens sub R (CompoundIterator.updateSubIteratorReverse sub)
      (fun i rest => -1 ≤ i ∧ i < lists.length ∧ rest = ((lists.take (i + 1).toNat).map List.reverse).reverse) := by
  constructor
  · rintro s rest ⟨h0, h1, rfl⟩ hstay
    rw [CompoundIterator.updateSubIteratorReverse.eq_def, if_neg]
    rintro ⟨hge, hex⟩
    rcases hstay with hstay | hstay
    · rw [hstay] at hex
      cases hex
    · have hlen := congrArg List.length hstay
      simp only [List.length_reverse, List.length_map, List.length_take, List.length_nil] at hlen
      omega
  · rintro s l rest ⟨h0, h1, hl⟩ hex
    have hge : 0 ≤ s.subBuffer := by
      by_contra hneg
      have hzero : (s.subBuffer + 1).toNat = 0 := by omega
      rw [hzero] at hl
      cases hl
    have hlt : s.subBuffer.toNat < lists.length := by omega
    have hsucc : (s.subBuffer + 1).toNat = s.subBuffer.toNat + 1 := by omega
    rw [hsucc, List.take_succ_eq_append_getElem hlt, List.map_append, List.reverse_append, List.map_singleton,
      List.reverse_singleton, List.singleton_append, List.cons.injEq] at hl
    obtain ⟨rfl, rfl⟩ := hl
    obtain ⟨it, hit, hr⟩ := h s.subBuffer.toNat hlt
    rw [Int.toNat_of_nonneg hge] at hit
    refine ⟨it, s.subBuffer - 1, hr, ⟨by omega, by omega, by rw [sub_add_cancel]⟩, ?_⟩
    rw [CompoundIterator.updateSubIteratorReverse.eq_def, if_pos ⟨hge, hex⟩, hit]

end Compound

/-! ## Vectors of a buffer -/

/-- What the constructor and the types promise. -/
structure VecBuffer.Valid (b : VecBuffer γ) : Prop where
  coords : 1 ≤ b.coordsPerVec
  length : b.values.length < 2 ^ 31

section Coords
variable [Zero D] (toDouble : γ → D) (minCoordsPerVec : Int)

/-- The vector at a position, with zeros behind its coordinates if more are
asked for. -/
def VecBuffer.vector (b : VecBuffer γ) (position : Nat) : List D :=
  ((b.values.drop (b.coordsPerVec * position)).take b.coordsPerVec).map toDouble ++
    List.replicate (minCoordsPerVec.toNat - b.coordsPerVec) 0

/-- The vectors of a buffer in order. -/
def VecBuffer.vectors (b : VecBuffer γ) : List (List D) :=
  (List.range b.getSize).map fun position => b.vector toDouble minCoordsPerVec position

theorem cell_le {b : VecBuffer γ} {position : Nat} (h : position < b.getSize) :
    b.coordsPerVec * position + b.coordsPerVec ≤ b.values.length := by
  have hle := Nat.mul_le_of_le_div b.coordsPerVec (position + 1) b.values.length h
  rwa [Nat.add_one_mul, Nat.mul_comm] at hle

theorem getElement_eq {b : VecBuffer γ} (hb : b.Valid) {position : Nat} (h : position < b.getSize) :
    getElement toDouble minCoordsPerVec b position = some (b.vector toDouble minCoordsPerVec position) := by
  have hlen := hb.length
  have hcoords := hb.coords
  have hcell := cell_le h
  have hindex : int ((b.coordsPerVec : Int) * (position : Int)) = ((b.coordsPerVec * position : Nat) : Int) := by
    rw [← Nat.cast_mul]
    exact int_eq (by omega) (by omega)
  have hpart : (((b.values.drop (b.coordsPerVec * position)).take b.coordsPerVec).map toDouble).length =
      b.coordsPerVec := by
    rw [List.length_map, List.length_take, List.length_drop]
    omega
  -- The array is at least as long as a vector.
  obtain ⟨n, hn, hge⟩ : ∃ n : Nat, (if (b.coordsPerVec : Int) < minCoordsPerVec then minCoordsPerVec
      else b.coordsPerVec).toNat = b.coordsPerVec + n ∧ n = minCoordsPerVec.toNat - b.coordsPerVec := by
    split <;> exact ⟨_, by omega, rfl⟩
  have hlength : (if (List.replicate (b.coordsPerVec + n) (0 : D)).length > b.coordsPerVec then b.coordsPerVec
      else (List.replicate (b.coordsPerVec + n) (0 : D)).length) = b.coordsPerVec := by
    rw [List.length_replicate]
    split <;> omega
  simp only [getElement, VecBuffer.get, hn, hlength, hindex, Int.toNat_natCast]
  rw [if_neg (by omega), if_neg (by omega), if_pos ⟨by omega, by omega⟩, blit_zero, hpart, List.drop_replicate,
    Nat.add_sub_cancel_left, hge]
  rfl

/-! ## Iterators of a buffer -/

variable (createSubBuffer : Int → Int → Option (VecBuffer γ)) (coordsPerVec : Nat) (c : CompoundVecBuffer)

/-- A `BasicIterator` has left what lies behind its position. -/
def basicLeft (it : BufferIterator γ) (l : List (List D)) : Prop :=
  it.buffer.Valid ∧ -1 ≤ it.position ∧ it.position < it.buffer.getSize ∧
    l = (it.buffer.vectors toDouble minCoordsPerVec).drop (it.position + 1).toNat

/-- A `ReverseIterator` has left what lies before its position, backwards. -/
def reverseLeft (it : BufferIterator γ) (l : List (List D)) : Prop :=
  it.buffer.Valid ∧ 0 ≤ it.position ∧ it.position ≤ it.buffer.getSize ∧
    l = ((it.buffer.vectors toDouble minCoordsPerVec).take it.position.toNat).reverse

variable {toDouble minCoordsPerVec}

theorem vectors_length (b : VecBuffer γ) : (b.vectors toDouble minCoordsPerVec).length = b.getSize := by
  rw [VecBuffer.vectors, List.length_map, List.length_range]

theorem getSize_lt {b : VecBuffer γ} (hb : b.Valid) : b.getSize < 2 ^ 31 :=
  (Nat.div_le_self _ _).trans_lt hb.length

theorem elementAt_eq {b : VecBuffer γ} (hb : b.Valid) {position : Nat}
    (h : position < (b.vectors toDouble minCoordsPerVec).length) :
    elementAt (getElement toDouble minCoordsPerVec) b position =
      .element (b.vectors toDouble minCoordsPerVec)[position] := by
  have hlt : position < b.getSize := by rwa [vectors_length] at h
  rw [elementAt, getElement_eq toDouble minCoordsPerVec hb hlt]
  simp [VecBuffer.vectors]

theorem basic_yields : Yields (coordIterators toDouble createSubBuffer coordsPerVec minCoordsPerVec c)
    (basicLeft toDouble minCoordsPerVec) := by
  constructor
  · rintro it l ⟨hb, h1, h2, rfl⟩
    simp only [coordIterators, BasicIterator.hasNext]
    by_cases hlast : it.position < (it.buffer.getSize : Int) - 1
    · rw [decide_eq_true hlast, List.isEmpty_eq_false_iff.2, Bool.not_false]
      rw [Ne, List.drop_eq_nil_iff, vectors_length]
      omega
    · rw [decide_eq_false hlast, List.isEmpty_iff.2, Bool.not_true]
      rw [List.drop_eq_nil_iff, vectors_length]
      omega
  · rintro it a l ⟨hb, h1, h2, hl⟩
    have hsize := getSize_lt hb
    have hlt : (it.position + 1).toNat < (it.buffer.vectors toDouble minCoordsPerVec).length := by
      by_contra hge
      rw [List.drop_eq_nil_of_le (not_lt.1 hge)] at hl
      cases hl
    have hin : (it.position + 1).toNat < it.buffer.getSize := by rwa [vectors_length] at hlt
    rw [List.drop_eq_getElem_cons hlt, List.cons.injEq] at hl
    obtain ⟨rfl, rfl⟩ := hl
    have hnext : int (it.position + 1) = ((it.position + 1).toNat : Int) := by
      rw [Int.toNat_of_nonneg (by omega)]
      exact int_eq (by omega) (by omega)
    simp only [coordIterators, BasicIterator.next, hnext]
    refine ⟨?_, hb, by dsimp only; omega, by dsimp only; omega, ?_⟩
    · rw [if_pos (by omega), elementAt_eq hb hlt]
    · exact congrArg (fun n => List.drop n _) (by dsimp only; omega)

theorem reverse_yields : Yields (coordReverseIterators toDouble createSubBuffer coordsPerVec minCoordsPerVec c)
    (reverseLeft toDouble minCoordsPerVec) := by
  constructor
  · rintro it l ⟨hb, h1, h2, rfl⟩
    simp only [coordReverseIterators, ReverseIterator.hasNext]
    have hlength : ((it.buffer.vectors toDouble minCoordsPerVec).take it.position.toNat).reverse.length =
        it.position.toNat := by
      rw [List.length_reverse, List.length_take, vectors_length]
      omega
    by_cases hfirst : 0 < it.position
    · rw [decide_eq_true hfirst, List.isEmpty_eq_false_iff.2, Bool.not_false]
      exact List.ne_nil_of_length_pos (by omega)
    · rw [decide_eq_false hfirst, List.isEmpty_iff.2, Bool.not_true]
      exact List.eq_nil_of_length_eq_zero (by omega)
  · rintro it a l ⟨hb, h1, h2, hl⟩
    have hsize := getSize_lt hb
    have hpos : 0 < it.position := by
      by_contra hzero
      have h0 : it.position.toNat = 0 := by omega
      rw [h0] at hl
      cases hl
    have hlt : (it.position - 1).toNat < (it.buffer.vectors toDouble minCoordsPerVec).length := by
      rw [vectors_length]
      omega
    have hsucc : it.position.toNat = (it.position - 1).toNat + 1 := by omega
    rw [hsucc, List.take_succ_eq_append_getElem hlt, List.reverse_append, List.reverse_singleton,
      List.singleton_append, List.cons.injEq] at hl
    obtain ⟨rfl, rfl⟩ := hl
    have hnext : int (it.position - 1) = ((it.position - 1).toNat : Int) := by
      rw [Int.toNat_of_nonneg (by omega)]
      exact int_eq (by omega) (by omega)
    simp only [coordReverseIterators, ReverseIterator.next, hnext]
    refine ⟨?_, hb, by dsimp only; omega, by dsimp only; omega, ?_⟩
    · rw [if_pos (by omega), elementAt_eq hb hlt]
    · rw [Int.toNat_natCast]

/-! ## Iterating a compound buffer -/

variable {createSubBuffer coordsPerVec c}

/-- The sub-buffers of a compound buffer. -/
structure SubBuffers (createSubBuffer : Int → Int → Option (VecBuffer γ)) (coordsPerVec : Nat) (c : CompoundVecBuffer)
    (buffers : List (VecBuffer γ)) : Prop where
  count : c.count = buffers.length
  returns : ∀ i < buffers.length, c.subBuffer createSubBuffer coordsPerVec i = buffers[i]?
  valid : ∀ b ∈ buffers, b.Valid

theorem basicLeft_new {b : VecBuffer γ} (hb : b.Valid) :
    basicLeft toDouble minCoordsPerVec (BasicIterator.new b) (b.vectors toDouble minCoordsPerVec) :=
  ⟨hb, le_refl _, by simp only [BasicIterator.new]; omega, rfl⟩

theorem reverseLeft_new {b : VecBuffer γ} (hb : b.Valid) :
    reverseLeft toDouble minCoordsPerVec (ReverseIterator.new b) (b.vectors toDouble minCoordsPerVec).reverse := by
  refine ⟨hb, Int.natCast_nonneg _, le_refl _, ?_⟩
  simp only [ReverseIterator.new]
  rw [Int.toNat_natCast, List.take_of_length_le (vectors_length b).le]

/-- However `hasNext` and `next` are called, the iterator of `getCoords` answers
as the vectors of the sub-buffers one behind the other, and the iterator of
`getReverseCoords` as the same vectors backwards. -/
theorem getCoords_iterates (toDouble : γ → D) (createSubBuffer : Int → Int → Option (VecBuffer γ))
    (coordsPerVec : Nat)
    (minCoordsPerVec : Int) (c : CompoundVecBuffer) (buffers : List (VecBuffer γ))
    (h : SubBuffers createSubBuffer coordsPerVec c buffers) :
    IteratesOver (getCoords toDouble createSubBuffer coordsPerVec minCoordsPerVec c) firstCoords
      (buffers.flatMap fun b => b.vectors toDouble minCoordsPerVec) ∧
    IteratesOver (getReverseCoords toDouble createSubBuffer coordsPerVec minCoordsPerVec c) (lastCoords c)
      (buffers.flatMap fun b => b.vectors toDouble minCoordsPerVec).reverse := by
  let lists := buffers.map fun b => b.vectors toDouble minCoordsPerVec
  have hcount : c.count = lists.length := h.count.trans (List.length_map _).symm
  have hsub : ∀ i (hi : i < lists.length), ∃ b, c.subBuffer createSubBuffer coordsPerVec i = some b ∧ b.Valid ∧
      lists[i] = b.vectors toDouble minCoordsPerVec := by
    intro i hi
    have hi' : i < buffers.length := by rwa [List.length_map] at hi
    exact ⟨buffers[i], (h.returns i hi').trans (List.getElem?_eq_getElem hi'), h.valid _ (List.getElem_mem hi'),
      List.getElem_map _⟩
  constructor
  · have hopen : ∀ i (hi : i < lists.length),
        ∃ it, (coordIterators toDouble createSubBuffer coordsPerVec minCoordsPerVec c).iterator i = some it ∧
          basicLeft toDouble minCoordsPerVec it lists[i] := by
      intro i hi
      obtain ⟨b, hb, hvalid, hl⟩ := hsub i hi
      refine ⟨BasicIterator.new b, ?_, hl ▸ basicLeft_new hvalid⟩
      simp only [coordIterators, hb, Option.map_some]
    have ho := opens_forward hopen
    rw [← hcount] at ho
    refine compound_iterates (basic_yields createSubBuffer coordsPerVec c) ho ?_
    exact ⟨[], lists, rfl, ⟨le_refl _, rfl⟩, rfl⟩
  · have hopen : ∀ i (hi : i < lists.length),
        ∃ it, (coordReverseIterators toDouble createSubBuffer coordsPerVec minCoordsPerVec c).iterator i = some it ∧
          reverseLeft toDouble minCoordsPerVec it lists[i].reverse := by
      intro i hi
      obtain ⟨b, hb, hvalid, hl⟩ := hsub i hi
      refine ⟨ReverseIterator.new b, ?_, hl ▸ reverseLeft_new hvalid⟩
      simp only [coordReverseIterators, hb, Option.map_some]
    refine compound_iterates (reverse_yields createSubBuffer coordsPerVec c) (opens_backward hopen) ?_
    refine ⟨[], (lists.map List.reverse).reverse, rfl, ⟨?_, ?_, ?_⟩, ?_⟩
    · simp only [lastCoords]
      omega
    · simp only [lastCoords]
      omega
    · simp only [lastCoords, sub_add_cancel, Int.toNat_natCast, hcount]
      rw [List.take_length]
    · rw [List.flatMap_def, List.reverse_flatten]
      rfl

end Coords

/-- Blocks of two bytes, of no byte and of one byte. -/
def threeBlocks : VecBufferBlocks :=
  ⟨⟨3, 4, [0, 2, 3, 0], [2, 0, 1, 0]⟩, 1, .INT8, Lib.Nio.ByteBuffer.wrap [5, 6, 7, 8]⟩

def threeBuffers : List (VecBuffer (List Int8)) :=
  [⟨1, [[5], [6]], none⟩, ⟨1, [], none⟩, ⟨1, [[8]], none⟩]

theorem threeBlocks_subBuffers : SubBuffers (fun off len => (threeBlocks.createSubBuffer off len).2) 1
    threeBlocks.toCompoundVecBuffer threeBuffers := by
  refine ⟨rfl, by decide +kernel, fun b hb => ?_⟩
  · have hvalid : ∀ b ∈ threeBuffers, 1 ≤ b.coordsPerVec ∧ b.values.length < 2 ^ 31 := by decide
    exact ⟨(hvalid b hb).1, (hvalid b hb).2⟩

theorem getCoords_threeBlocks :
    let toDouble : List Int8 → Int := fun bytes => (bytes.headD 0).toInt
    let create := fun off len => (threeBlocks.createSubBuffer off len).2
    IteratesOver (getCoords toDouble create 1 1 threeBlocks.toCompoundVecBuffer) firstCoords [[5], [6], [8]] ∧
      IteratesOver (getReverseCoords toDouble create 1 1 threeBlocks.toCompoundVecBuffer)
        (lastCoords threeBlocks.toCompoundVecBuffer) [[8], [6], [5]] :=
  getCoords_iterates (fun bytes : List Int8 =>
    (bytes.headD 0).toInt) _ 1 1 threeBlocks.toCompoundVecBuffer threeBuffers
    threeBlocks_subBuffers

end WorldWind.VecBuffers
