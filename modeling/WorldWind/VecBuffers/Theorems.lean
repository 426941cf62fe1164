import WorldWind.Lib.Runs
import WorldWind.VecBuffers.Model
/-!
# Slices that share a backing buffer

A family is a sequence and the slices taken of it, of slices, and so on; next
to each view stands what was stored under its indices. A view that appends
writes behind its own fill count. Another view over the same buffer may have
filled these cells before, and then it reads the new vectors: nothing in
`append` looks at the other views. A run leaves every view reading what was
stored exactly when no `append` in place meets a cell that another view reads
and that holds something else (`keeps_iff`).
-/

namespace WorldWind.VecBuffers

open Lib.JavaArray Lib.JavaInt Lib.Runs

variable {γ : Type}

/-- A view, and the coordinates stored under each of its indices. -/
structure Recorded (γ : Type) where
  view : VecBufferSequence
  stored : List (List γ)
  deriving DecidableEq, Repr

structure Family (γ : Type) where
  coordsPerVec : Nat
  heap : List (Store γ)
  views : List (Recorded γ)
  deriving DecidableEq

/-- A call on one of the views. -/
inductive Op (γ : Type) where
  | append (view : Nat) (buffer : VecBuffer γ)
  | slice (view : Nat) (beginIndex endIndex : Int)
  | sliceIndices (view : Nat) (indices : List Int) (offset length : Int)

/-- The coordinates `append` stores. -/
def VecBuffer.contents (b : VecBuffer γ) : List γ := b.values.take (b.coordsPerVec * b.getSize)

namespace Family

/-- One sequence over a given buffer. -/
def new (coordsPerVec : Nat) (buffer : Store γ) (v : VecBufferSequence) : Family γ :=
  ⟨coordsPerVec, [buffer], [⟨v, []⟩]⟩

/-- Another view, if the call did not throw. -/
def addView (s : Family γ) (r : Option (Recorded γ)) : Family γ :=
  { s with views := s.views ++ r.toList }

variable [Inhabited γ]

/-- A call that throws, and one on a view that does not exist, adds nothing. -/
def step (mem : Memory) (s : Family γ) : Op γ → Option (Family γ)
  | .append n buffer =>
    some (match s.views[n]? with
    | none => s
    | some r =>
      let (heap, v, index) := r.view.append mem s.coordsPerVec s.heap buffer
      let stored := if index.isSome then r.stored ++ [buffer.contents] else r.stored
      { s with heap, views := s.views.set n ⟨v, stored⟩ })
  | .slice n beginIndex endIndex =>
    some (s.addView (s.views[n]?.bind fun r => (r.view.slice mem beginIndex endIndex).map fun v =>
      ⟨v, (r.stored.drop beginIndex.toNat).take (endIndex - beginIndex + 1).toNat⟩))
  | .sliceIndices n indices offset length =>
    some (s.addView (s.views[n]?.bind fun r => (r.view.sliceIndices mem indices offset length).map fun v =>
      let seen := VecBufferSequence.visited indices offset length
      ⟨v, seen.map (fun i => r.stored.getD i.toNat []) ++ List.replicate (length.toNat - seen.length) []⟩))

end Family

/-- Every view reads, under each of its indices, what was stored there. -/
def Keeps (s : Family γ) : Prop :=
  ∀ r ∈ s.views, r.stored.length = r.view.count ∧
    ∀ i < r.view.count, r.view.subBuffer s.coordsPerVec s.heap i = r.stored[i]?

/-- The vectors fit behind the fill count, and go there. -/
def InPlace (s : Family γ) (v : VecBufferSequence) (buffer : VecBuffer γ) : Prop :=
  (∃ t ∈ s.heap[v.buffer]?, v.vecCount + buffer.getSize ≤ getSize s.coordsPerVec t) ∧
    buffer.coordsPerVec = s.coordsPerVec ∧ buffer.backing ≠ some v.buffer

/-- The coordinate at a cell of a backing buffer. -/
def coordAt (s : Family γ) (address i : Nat) : Option γ := (s.heap[address]?.bind id).bind fun l => l[i]?

/-- No cell behind the fill count of `v` belongs to a sub-buffer of another
view, unless it already holds what is to be written there. -/
def Clear (s : Family γ) (v : VecBufferSequence) (buffer : VecBuffer γ) (other : VecBufferSequence) : Prop :=
  other.buffer = v.buffer → ∀ e ∈ other.offsets.zip other.lengths, ∀ i < s.coordsPerVec * buffer.getSize,
    s.coordsPerVec * e.1 ≤ s.coordsPerVec * v.vecCount + i →
    s.coordsPerVec * v.vecCount + i < s.coordsPerVec * e.1 + s.coordsPerVec * e.2 →
    coordAt s v.buffer (s.coordsPerVec * v.vecCount + i) = buffer.contents[i]?

/-- An `append` in place is clear of all other views. -/
def StepOk (s : Family γ) : Op γ → Prop
  | .append n buffer => ∀ r ∈ s.views[n]?, InPlace s r.view buffer →
    ∀ m < s.views.length, m ≠ n → ∀ q ∈ s.views[m]?, Clear s r.view buffer q.view
  | .slice _ _ _ | .sliceIndices _ _ _ _ => True

instance (s : Family γ) (v : VecBufferSequence) (b : VecBuffer γ) : Decidable (InPlace s v b) :=
  inferInstanceAs (Decidable ((∃ t ∈ s.heap[v.buffer]?, v.vecCount + b.getSize ≤ getSize s.coordsPerVec t) ∧ _ ∧ _))

instance [DecidableEq γ] (s : Family γ) (v other : VecBufferSequence) (b : VecBuffer γ) :
    Decidable (Clear s v b other) :=
  inferInstanceAs (Decidable (_ → ∀ e ∈ other.offsets.zip other.lengths, ∀ i < _, _ → _ → _))

instance [DecidableEq γ] (s : Family γ) : ∀ op, Decidable (StepOk s op)
  | .append n b => inferInstanceAs (Decidable (∀ r ∈ s.views[n]?, InPlace s r.view b →
      ∀ m < s.views.length, m ≠ n → ∀ q ∈ s.views[m]?, Clear s r.view b q.view))
  | .slice _ _ _ | .sliceIndices _ _ _ _ => .isTrue trivial

/-! ## Reading and writing vectors -/

section Buffer
variable {k : Nat}

theorem cells_le {l : List γ} {off len : Nat} (h : off + len ≤ getSize k (some l)) :
    k * off + k * len ≤ l.length := by
  rw [← Nat.mul_add]
  exact Nat.le_trans (Nat.mul_le_mul_left k h) (Nat.mul_div_le l.length k)

/-- Vectors that end within the buffer can be read. -/
theorem getSubBuffer_eq {l : List γ} {off len : Nat} (hlen : 0 < len) (h : off + len ≤ getSize k (some l)) :
    getSubBuffer k (some l) off len = some ((l.drop (k * off)).take (k * len)) := by
  rw [getSubBuffer, if_neg (by omega)]
  exact if_pos (cells_le h)

theorem contents_length (b : VecBuffer γ) : b.contents.length = b.coordsPerVec * b.getSize := by
  rw [VecBuffer.contents, List.length_take]
  exact Nat.min_eq_left (Nat.mul_div_le _ _)

/-- A write that does not throw is one part of the buffer, within it. -/
theorem putSubBuffer_some (hk : 0 < k) {s t : Store γ} {address position : Nat} {b : VecBuffer γ}
    (h : putSubBuffer k s address position b = some t) :
    ∃ l, s = some l ∧ t = some (blit l (k * position) b.contents) ∧ b.coordsPerVec = k ∧
      b.backing ≠ some address ∧ position + b.getSize ≤ getSize k s := by
  unfold putSubBuffer at h
  split at h
  · cases h
  rename_i hpos
  split at h
  · cases h
  rename_i hcoords
  split at h
  · cases h
  split at h
  · cases h
  rename_i hself
  have hcoords : b.coordsPerVec = k := (not_not.1 hcoords).symm
  cases s with
  | none => cases h
  | some l =>
    refine ⟨l, rfl, ?_⟩
    dsimp only at h
    split at h
    · -- An empty buffer: nothing is written.
      rename_i hzero
      have hsize : b.getSize = 0 := by
        rcases Nat.mul_eq_zero.1 (Nat.le_zero.1 hzero) with h0 | h0
        · omega
        · exact h0
      have hnil : b.contents = [] := List.eq_nil_of_length_eq_zero (by rw [contents_length, hsize, Nat.mul_zero])
      rw [hnil, blit_nil, ← Option.some.inj h]
      exact ⟨rfl, hcoords, hself, by omega⟩
    · split at h
      · rename_i hfit
        refine ⟨?_, hcoords, hself, ?_⟩
        · rw [← Option.some.inj h, VecBuffer.contents, hcoords]
        · rw [← Nat.mul_add] at hfit
          exact (Nat.le_div_iff_mul_le hk).2 (Nat.mul_comm k _ ▸ hfit)
      · cases h

/-- Where the vectors fit and none of the checks fails, the write succeeds. -/
theorem putSubBuffer_eq (hk : 0 < k) {l : List γ} (hl : l.length < 2 ^ 31) {address position : Nat} {b : VecBuffer γ}
    (hcoords : b.coordsPerVec = k) (hself : b.backing ≠ some address)
    (hfit : position + b.getSize ≤ getSize k (some l)) (hsize : 0 < b.getSize) :
    putSubBuffer k (some l) address position b = some (some (blit l (k * position) b.contents)) := by
  have hle : getSize k (some l) ≤ l.length := Nat.div_le_self _ _
  have hint : int (position + b.getSize) = position + b.getSize := int_eq (by omega) (by omega)
  have hcells := cells_le hfit
  have hpos : 0 < k * b.getSize := Nat.mul_pos hk hsize
  rw [putSubBuffer, if_neg (by omega), if_neg (by simp [hcoords]), if_neg (by omega), if_neg hself]
  dsimp only
  rw [if_neg (by omega), if_pos hcells, VecBuffer.contents, hcoords]

end Buffer

/-! ## What a view reads -/

/-- The cells of the buffer at an address. -/
def cells (heap : List (Store γ)) (address : Nat) : List γ := (heap[address]?.bind id).getD []

/-- The coordinates under each index of a view. -/
def reads (k : Nat) (heap : List (Store γ)) (v : VecBufferSequence) : List (List γ) :=
  (v.offsets.zip v.lengths).map fun e => ((cells heap v.buffer).drop (k * e.1)).take (k * e.2)

/-- A view's sub-buffers end at its fill count at the latest, and that is
within its buffer. -/
structure SaneView (k : Nat) (heap : List (Store γ)) (r : Recorded γ) : Prop where
  lengths : r.view.lengths.length = r.view.offsets.length
  stored : r.stored.length = r.view.offsets.length
  filled : ∃ t, heap[r.view.buffer]? = some t ∧ r.view.vecCount ≤ getSize k t
  ends : ∀ e ∈ r.view.offsets.zip r.view.lengths, e.1 + e.2 ≤ r.view.vecCount

structure Sane (s : Family γ) : Prop where
  pos : 0 < s.coordsPerVec
  small : ∀ t ∈ s.heap, t.length < 2 ^ 31
  views : ∀ r ∈ s.views, SaneView s.coordsPerVec s.heap r

theorem cells_of {heap : List (Store γ)} {address : Nat} {l : List γ} (h : heap[address]? = some (some l)) :
    cells heap address = l := by
  simp [cells, h]

theorem subBuffer_eq {k : Nat} {heap : List (Store γ)} {r : Recorded γ} (h : SaneView k heap r) {i : Nat}
    (hi : i < r.view.count) : r.view.subBuffer k heap i = (reads k heap r.view)[i]? := by
  obtain ⟨t, ht, hfill⟩ := h.filled
  have hi' : i < r.view.lengths.length := h.lengths ▸ hi
  have hoff : r.view.offsets[i]? = some (r.view.offsets.get ⟨i, hi⟩) := List.getElem?_eq_getElem hi
  have hlen : r.view.lengths[i]? = some r.view.lengths[i] := List.getElem?_eq_getElem hi'
  have hzip : (r.view.offsets.zip r.view.lengths)[i]? = some (r.view.offsets.get ⟨i, hi⟩, r.view.lengths[i]) :=
    List.getElem?_zip_eq_some.2 ⟨hoff, hlen⟩
  have hend := h.ends _ (List.mem_of_getElem? hzip)
  simp only [VecBufferSequence.subBuffer, hoff, hlen, ht, reads, List.getElem?_map, hzip, Option.map_some]
  split
  · rename_i hpos
    cases t with
    | none =>
      -- The empty wrapper holds no vectors.
      have hzero : getSize k (none : Store γ) = 0 := Nat.zero_div k
      omega
    | some l => rw [getSubBuffer_eq hpos (by omega), cells_of ht]
  · rename_i hzero
    rw [Nat.eq_zero_of_not_pos hzero, Nat.mul_zero, List.take_zero]

theorem reads_length {k : Nat} {heap : List (Store γ)} {r : Recorded γ} (h : SaneView k heap r) :
    (reads k heap r.view).length = r.view.count := by
  rw [reads, List.length_map, List.length_zip, h.lengths, Nat.min_self]
  rfl

/-- In a sane family the views keep what was stored when they read it. -/
theorem keeps_iff_reads {s : Family γ} (h : Sane s) :
    Keeps s ↔ ∀ r ∈ s.views, r.stored = reads s.coordsPerVec s.heap r.view := by
  refine forall₂_congr fun r hr => ?_
  have hr := h.views r hr
  constructor
  · rintro ⟨-, hi⟩
    refine List.ext_getElem? fun i => ?_
    by_cases hlt : i < r.view.count
    · rw [← hi i hlt, subBuffer_eq hr hlt]
    · rw [List.getElem?_eq_none (hr.stored ▸ Nat.le_of_not_lt hlt),
        List.getElem?_eq_none ((reads_length hr).symm ▸ Nat.le_of_not_lt hlt)]
  · intro heq
    exact ⟨hr.stored, fun i hi => heq ▸ subBuffer_eq hr hi⟩

/-- A write into a view's buffer changes what the view reads exactly when one
of its sub-buffers has a cell there that held something else. -/
theorem reads_write {k : Nat} {heap : List (Store γ)} {v : VecBufferSequence} {address p : Nat} {l part : List γ}
    (ha : heap[address]? = some (some l)) (hp : p + part.length ≤ l.length) :
    reads k (heap.set address (some (blit l p part))) v = reads k heap v ↔
      (v.buffer = address → ∀ e ∈ v.offsets.zip v.lengths, ∀ i, k * e.1 ≤ i → i < k * e.1 + k * e.2 → p ≤ i →
        i < p + part.length → l[i]? = part[i - p]?) := by
  have hlt : address < heap.length := (List.getElem?_eq_some_iff.1 ha).1
  by_cases hv : v.buffer = address
  · have hnew : cells (heap.set address (some (blit l p part))) v.buffer = blit l p part :=
      cells_of (by rw [hv, List.getElem?_set_self hlt])
    have hold : cells heap v.buffer = l := cells_of (hv ▸ ha)
    rw [reads, reads, hnew, hold, List.map_inj_left]
    simp only [hv, forall_const]
    exact forall₂_congr fun e _ => window_blit hp
  · have hsame : cells (heap.set address (some (blit l p part))) v.buffer = cells heap v.buffer := by
      rw [cells, cells, List.getElem?_set_ne (Ne.symm hv)]
    simp only [reads, hsame, hv, IsEmpty.forall_iff]

/-- A new buffer behind the others changes nothing that is read. -/
theorem reads_append {k : Nat} {heap : List (Store γ)} {v : VecBufferSequence} (hv : v.buffer < heap.length)
    (t : Store γ) : reads k (heap ++ [t]) v = reads k heap v := by
  have hsame : cells (heap ++ [t]) v.buffer = cells heap v.buffer := by
    rw [cells, cells, List.getElem?_append_left hv]
  rw [reads, reads, hsame]

/-! ## Slices -/

/-- Sub-buffers of a view, under whatever indices. -/
theorem saneView_of_subset {k : Nat} {heap : List (Store γ)} {r : Recorded γ} (h : SaneView k heap r)
    {q : Recorded γ} (hl : q.view.lengths.length = q.view.offsets.length)
    (hst : q.stored.length = q.view.offsets.length) (hb : q.view.buffer = r.view.buffer)
    (hc : q.view.vecCount = r.view.vecCount)
    (he : ∀ e ∈ q.view.offsets.zip q.view.lengths, e ∈ r.view.offsets.zip r.view.lengths ∨ e = (0, 0)) :
    SaneView k heap q := by
  refine ⟨hl, hst, by rw [hb, hc]; exact h.filled, fun e hmem => ?_⟩
  rcases he e hmem with hin | rfl
  · exact hc ▸ h.ends e hin
  · exact Nat.zero_le _

theorem slice_spec {k : Nat} {heap : List (Store γ)} {mem : Memory} {r : Recorded γ} (h : SaneView k heap r)
    (hst : r.stored = reads k heap r.view) {b e : Int} {v : VecBufferSequence} (hv : r.view.slice mem b e = some v) :
    SaneView k heap ⟨v, (r.stored.drop b.toNat).take (e - b + 1).toNat⟩ ∧
      (r.stored.drop b.toNat).take (e - b + 1).toNat = reads k heap v := by
  unfold VecBufferSequence.slice at hv
  split at hv
  · cases hv
  split at hv
  · cases hv
  split at hv
  · cases hv
  dsimp only at hv
  split at hv
  · obtain rfl := Option.some.inj hv
    have hzip : ((r.view.offsets.drop b.toNat).take (e - b + 1).toNat).zip
        ((r.view.lengths.drop b.toNat).take (e - b + 1).toNat) =
        ((r.view.offsets.zip r.view.lengths).drop b.toNat).take (e - b + 1).toNat := by
      simp only [List.zip, List.drop_zipWith, List.take_zipWith]
    refine ⟨saneView_of_subset h ?_ ?_ rfl rfl fun x hx => ?_, ?_⟩
    · simp [h.lengths]
    · simp [h.stored]
    · rw [hzip] at hx
      exact .inl (List.mem_of_mem_drop (List.mem_of_mem_take hx))
    · rw [hst, reads, reads, hzip, List.map_take, List.map_drop]
  · cases hv

theorem sliceIndices_spec {k : Nat} {heap : List (Store γ)} {mem : Memory} {r : Recorded γ} (h : SaneView k heap r)
    (hst : r.stored = reads k heap r.view) {indices : List Int} {offset length : Int} {v : VecBufferSequence}
    (hv : r.view.sliceIndices mem indices offset length = some v) :
    let seen := VecBufferSequence.visited indices offset length
    let stored := seen.map (fun i => r.stored.getD i.toNat []) ++ List.replicate (length.toNat - seen.length) []
    SaneView k heap ⟨v, stored⟩ ∧ stored = reads k heap v := by
  intro seen stored
  unfold VecBufferSequence.sliceIndices at hv
  split at hv
  · cases hv
  split at hv
  · cases hv
  split at hv
  · cases hv
  rename_i hbounds
  split at hv
  · obtain rfl := Option.some.inj hv
    have hzip : (seen.map (fun i : Int => r.view.offsets.getD i.toNat 0) ++
          List.replicate (length.toNat - seen.length) 0).zip
        (seen.map (fun i : Int => r.view.lengths.getD i.toNat 0) ++ List.replicate (length.toNat - seen.length) 0) =
        seen.map (fun i : Int => (r.view.offsets.getD i.toNat 0, r.view.lengths.getD i.toNat 0)) ++
          List.replicate (length.toNat - seen.length) (0, 0) := by
      rw [List.zip_append (by simp), List.zip_map', List.zip_replicate, Nat.min_self]
    -- Each index met is one of the view.
    have hseen : ∀ i ∈ seen, (r.view.offsets.zip r.view.lengths)[i.toNat]? =
        some (r.view.offsets.getD i.toNat 0, r.view.lengths.getD i.toNat 0) := by
      intro i hi
      have hlt : i.toNat < r.view.offsets.length := by
        have := hbounds
        simp only [List.any_eq_true, decide_eq_true_eq, not_exists, not_and, not_or] at this
        have := this i hi
        unfold VecBufferSequence.count at this
        omega
      have hlt' : i.toNat < r.view.lengths.length := h.lengths ▸ hlt
      refine List.getElem?_zip_eq_some.2 ⟨?_, ?_⟩
      · simp only [List.getD_eq_getElem?_getD, List.getElem?_eq_getElem hlt, Option.getD_some]
      · simp only [List.getD_eq_getElem?_getD, List.getElem?_eq_getElem hlt', Option.getD_some]
    refine ⟨saneView_of_subset h ?_ ?_ rfl rfl fun x hx => ?_, ?_⟩
    · simp
    · simp [stored, seen]
    · rw [hzip, List.mem_append] at hx
      rcases hx with hx | hx
      · obtain ⟨i, hi, rfl⟩ := List.mem_map.1 hx
        exact .inl (List.mem_of_getElem? (hseen i hi))
      · exact .inr (List.eq_of_mem_replicate hx)
    · rw [reads, hzip, List.map_append, List.map_map, List.map_replicate]
      refine congrArg₂ (· ++ ·) (List.map_congr_left fun i hi => ?_) ?_
      · rw [hst, reads, List.getD_eq_getElem?_getD, List.getElem?_map, hseen i hi]
        rfl
      · rw [Nat.mul_zero, List.take_zero]
  · cases hv

/-! ## Appending -/

/-- A write into the buffer of `v` that did not throw. The index is missing if
there was no room for the offset and the length. -/
structure Wrote (k : Nat) (heap : List (Store γ)) (v : VecBufferSequence) (b : VecBuffer γ)
    (out : List (Store γ) × VecBufferSequence × Option Nat) (l : List γ) : Prop where
  at_buffer : heap[v.buffer]? = some (some l)
  coords : b.coordsPerVec = k
  other : b.backing ≠ some v.buffer
  fits : v.vecCount + b.getSize ≤ getSize k (some l)
  heap : out.1 = heap.set v.buffer (some (blit l (k * v.vecCount) b.contents))
  buffer : out.2.1.buffer = v.buffer
  vecCount : out.2.1.vecCount = v.vecCount + b.getSize
  index : (out.2.2 = none ∧ out.2.1.offsets = v.offsets ∧ out.2.1.lengths = v.lengths) ∨
    (out.2.2.isSome ∧ out.2.1.offsets = v.offsets ++ [v.vecCount] ∧ out.2.1.lengths = v.lengths ++ [b.getSize])

theorem addSubBuffer_some {mem : Memory} {v u : VecBufferSequence} {off len : Nat}
    (h : v.addSubBuffer mem off len = some u) :
    u.offsets = v.offsets ++ [off] ∧ u.lengths = v.lengths ++ [len] ∧ u.vecCount = v.vecCount ∧
      u.buffer = v.buffer := by
  have hadd : ∀ w : VecBufferSequence, (if w.count < w.capacity then
      some { w with offsets := w.offsets ++ [off], lengths := w.lengths ++ [len] } else none) = some u →
      u.offsets = w.offsets ++ [off] ∧ u.lengths = w.lengths ++ [len] ∧ u.vecCount = w.vecCount ∧
        u.buffer = w.buffer := by
    intro w hw
    split at hw
    · obtain rfl := Option.some.inj hw
      exact ⟨rfl, rfl, rfl, rfl⟩
    · cases hw
  simp only [VecBufferSequence.addSubBuffer] at h
  obtain ⟨w, hw, h⟩ := Option.bind_eq_some_iff.1 h
  split at hw
  · simp only [VecBufferSequence.expandCapacity] at hw
    generalize newCapacity _ _ = n at hw
    split at hw
    · cases hw
    · obtain rfl := Option.some.inj hw
      exact hadd { v with capacity := n.toNat } h
  · obtain rfl := Option.some.inj hw
    exact hadd v h

theorem addLast_spec (mem : Memory) (heap : List (Store γ)) (v : VecBufferSequence) (off len : Nat) :
    (v.addLast mem heap off len).1 = heap ∧ (v.addLast mem heap off len).2.1.buffer = v.buffer ∧
      (v.addLast mem heap off len).2.1.vecCount = v.vecCount ∧
      (((v.addLast mem heap off len).2.2 = none ∧ (v.addLast mem heap off len).2.1.offsets = v.offsets ∧
          (v.addLast mem heap off len).2.1.lengths = v.lengths) ∨
        ((v.addLast mem heap off len).2.2.isSome ∧ (v.addLast mem heap off len).2.1.offsets = v.offsets ++ [off] ∧
          (v.addLast mem heap off len).2.1.lengths = v.lengths ++ [len])) := by
  rw [VecBufferSequence.addLast]
  cases hadd : v.addSubBuffer mem off len with
  | none => exact ⟨rfl, rfl, rfl, .inl ⟨rfl, rfl, rfl⟩⟩
  | some w =>
    obtain ⟨h1, h2, h3, h4⟩ := addSubBuffer_some hadd
    exact ⟨rfl, h4, h3, .inr ⟨rfl, h1, h2⟩⟩

/-- `put` writes into the buffer, or changes nothing at all. -/
theorem put_cases {k : Nat} (hk : 0 < k) (mem : Memory) (heap : List (Store γ)) (v : VecBufferSequence)
    (b : VecBuffer γ) :
    (v.put mem k heap b = (heap, v, none) ∧
        (heap[v.buffer]?.bind fun s => putSubBuffer k s v.buffer v.vecCount b) = none) ∨
      ∃ l, Wrote k heap v b (v.put mem k heap b) l := by
  cases hput : heap[v.buffer]?.bind fun s => putSubBuffer k s v.buffer v.vecCount b with
  | none => exact .inl ⟨by rw [VecBufferSequence.put, hput, Option.elim_none], rfl⟩
  | some t =>
    obtain ⟨s, hs, hp⟩ := Option.bind_eq_some_iff.1 hput
    obtain ⟨l, rfl, rfl, hcoords, hother, hfit⟩ := putSubBuffer_some hk hp
    rw [VecBufferSequence.put, hput, Option.elim_some]
    obtain ⟨h1, h2, h3, h4⟩ := addLast_spec mem (heap.set v.buffer (some (blit l (k * v.vecCount) b.contents)))
      { v with vecCount := v.vecCount + b.getSize } v.vecCount b.getSize
    exact .inr ⟨l, hs, hcoords, hother, hfit, h1, h2, h3, h4⟩

/-- A copy begins with the cells it was made from. -/
theorem copyOf_some [Inhabited γ] {k : Nat} {mem : Memory} {s t : Store γ} {newSize : Int}
    (h : copyOf k mem s newSize = some t) :
    (s = none ∧ t = none) ∨ ∃ l pad, s = some l ∧ t = some (l ++ pad) ∧ (l ++ pad).length < 2 ^ 31 := by
  unfold copyOf at h
  split at h
  · cases h
  cases s with
  | none => exact .inl ⟨rfl, (Option.some.inj h).symm⟩
  | some l =>
    dsimp only at h
    split at h
    · cases h
    rename_i hlen
    split at h
    · refine .inr ⟨l, _, rfl, (Option.some.inj h).symm, ?_⟩
      have := int_lt (k * newSize)
      rw [List.length_append, List.length_replicate]
      omega
    · cases h

/-- `append` gives up, or writes into a copy of the buffer that is too small,
or writes into the buffer. -/
theorem append_cases [Inhabited γ] {k : Nat} {mem : Memory} {heap : List (Store γ)} {v : VecBufferSequence}
    {b : VecBuffer γ}
    {s : Store γ} (hs : heap[v.buffer]? = some s) (hsmall : s.length < 2 ^ 31) :
    (v.append mem k heap b = (heap, v, none) ∧ ¬ v.vecCount + b.getSize ≤ getSize k s) ∨
    (∃ n t, copyOf k mem s n = some t ∧ ¬ v.vecCount + b.getSize ≤ getSize k s ∧
      v.append mem k heap b = VecBufferSequence.put mem k (heap ++ [t]) { v with buffer := heap.length } b) ∨
    v.append mem k heap b = v.put mem k heap b := by
  simp only [VecBufferSequence.append, hs]
  by_cases hexp : getSize k s < int (b.getSize + v.vecCount)
  · -- The sum is an `int` if the buffer holds it.
    have hbig : ¬ v.vecCount + b.getSize ≤ getSize k s := by
      intro hfit
      have hle : getSize k s ≤ s.length := Nat.div_le_self _ _
      rw [int_eq (by omega) (by omega)] at hexp
      omega
    rw [if_pos hexp]
    generalize newCapacity _ _ = n
    cases hcopy : copyOf k mem s n with
    | none => exact .inl ⟨Option.elim_none .., hbig⟩
    | some t => exact .inr (.inl ⟨n, t, hcopy, hbig, Option.elim_some ..⟩)
  · exact .inr (.inr (if_neg hexp))

/-! ## What an append does to the views -/

theorem blit_small {l part : List γ} {p : Nat} (h : p + part.length ≤ l.length) (hl : l.length < 2 ^ 31) :
    Store.length (some (blit l p part)) < 2 ^ 31 := by
  rw [Store.length, length_blit h]
  exact hl

/-- A write leaves every view sane. -/
theorem saneView_write {k : Nat} {heap : List (Store γ)} {r : Recorded γ} (h : SaneView k heap r) {address p : Nat}
    {l part : List γ} (ha : heap[address]? = some (some l)) (hp : p + part.length ≤ l.length) :
    SaneView k (heap.set address (some (blit l p part))) r := by
  refine ⟨h.lengths, h.stored, ?_, h.ends⟩
  obtain ⟨t, ht, hfill⟩ := h.filled
  by_cases hb : r.view.buffer = address
  · have hlt : address < heap.length := (List.getElem?_eq_some_iff.1 ha).1
    obtain rfl : some l = t := Option.some.inj (ha.symm.trans (hb ▸ ht))
    refine ⟨_, by rw [hb, List.getElem?_set_self hlt], ?_⟩
    rw [getSize, Store.length, length_blit hp]
    exact hfill
  · exact ⟨t, by rw [List.getElem?_set_ne (Ne.symm hb), ht], hfill⟩

theorem saneView_append {k : Nat} {heap : List (Store γ)} {r : Recorded γ} (h : SaneView k heap r) (t : Store γ) :
    SaneView k (heap ++ [t]) r ∧ reads k (heap ++ [t]) r.view = reads k heap r.view := by
  obtain ⟨s, hs, hfill⟩ := h.filled
  have hlt := (List.getElem?_eq_some_iff.1 hs).1
  exact ⟨⟨h.lengths, h.stored, ⟨s, by rw [List.getElem?_append_left hlt, hs], hfill⟩, h.ends⟩, reads_append hlt t⟩

theorem Wrote.contents_fit {k : Nat} {heap : List (Store γ)} {v : VecBufferSequence} {b : VecBuffer γ}
    {out : List (Store γ) × VecBufferSequence × Option Nat} {l : List γ} (h : Wrote k heap v b out l) :
    k * v.vecCount + b.contents.length ≤ l.length := by
  rw [contents_length, h.coords]
  exact cells_le h.fits

/-- The record of a view after an append. -/
def recorded (r : Recorded γ) (b : VecBuffer γ) (out : List (Store γ) × VecBufferSequence × Option Nat) :
    Recorded γ :=
  ⟨out.2.1, if out.2.2.isSome then r.stored ++ [b.contents] else r.stored⟩

/-- The view that wrote reads its old sub-buffers as before, and the new one. -/
theorem Wrote.own {k : Nat} {heap : List (Store γ)} {r : Recorded γ} (hr : SaneView k heap r) {b : VecBuffer γ}
    {out : List (Store γ) × VecBufferSequence × Option Nat} {l : List γ} (h : Wrote k heap r.view b out l) :
    SaneView k out.1 (recorded r b out) ∧
      (r.stored = reads k heap r.view → (recorded r b out).stored = reads k out.1 out.2.1) := by
  have hfit := h.contents_fit
  have hsane := saneView_write hr h.at_buffer hfit
  rw [← h.heap] at hsane
  obtain ⟨t, ht, -⟩ := hsane.filled
  have hcells : cells out.1 out.2.1.buffer = blit l (k * r.view.vecCount) b.contents := by
    rw [h.heap, h.buffer]
    exact cells_of (List.getElem?_set_self (List.getElem?_eq_some_iff.1 h.at_buffer).1)
  have hfilled : ∃ t, out.1[out.2.1.buffer]? = some t ∧ out.2.1.vecCount ≤ getSize k t := by
    refine ⟨some (blit l (k * r.view.vecCount) b.contents), ?_, ?_⟩
    · rw [h.heap, h.buffer]
      exact List.getElem?_set_self (List.getElem?_eq_some_iff.1 h.at_buffer).1
    · rw [h.vecCount, getSize, Store.length, length_blit hfit]
      exact h.fits
  -- The old sub-buffers end where the new one begins.
  have hold : reads k out.1 r.view = reads k heap r.view := by
    rw [h.heap]
    refine (reads_write h.at_buffer hfit).2 fun _ e he i _ h2 h3 _ => ?_
    have hend := Nat.mul_le_mul_left k (hr.ends e he)
    rw [Nat.mul_add] at hend
    omega
  rcases h.index with ⟨hidx, hoff, hlen⟩ | ⟨hidx, hoff, hlen⟩
  · have hsame : reads k out.1 out.2.1 = reads k heap r.view := by
      rw [← hold, reads, reads, hoff, hlen, h.buffer]
    have hst : (recorded r b out).stored = r.stored := by simp [recorded, hidx]
    refine ⟨⟨by simp only [recorded, hoff, hlen, hr.lengths], by rw [hst, recorded, hoff, hr.stored], hfilled,
      fun e he => ?_⟩, fun hreads => by rw [hst, hsame, hreads]⟩
    have he' : e ∈ r.view.offsets.zip r.view.lengths := by simpa only [recorded, hoff, hlen] using he
    exact Nat.le_trans (hr.ends e he') (h.vecCount ▸ Nat.le_add_right _ _)
  · have hzip : out.2.1.offsets.zip out.2.1.lengths =
        r.view.offsets.zip r.view.lengths ++ [(r.view.vecCount, b.getSize)] := by
      rw [hoff, hlen, List.zip_append hr.lengths.symm]
      rfl
    have hst : (recorded r b out).stored = r.stored ++ [b.contents] := by simp [recorded, hidx]
    have hnew : reads k out.1 out.2.1 = reads k heap r.view ++ [b.contents] := by
      have hwin : ((blit l (k * r.view.vecCount) b.contents).drop (k * r.view.vecCount)).take (k * b.getSize) =
          b.contents := by
        rw [← h.coords, ← contents_length, h.coords]
        exact window_blit_self hfit
      rw [← hold, reads, hzip, List.map_append, List.map_singleton, hcells, hwin, reads, ← h.buffer, hcells]
    refine ⟨⟨by simp [recorded, hoff, hlen, hr.lengths], by rw [hst]; simp [recorded, hoff, hr.stored], hfilled,
      fun e he => ?_⟩, fun hreads => by rw [hst, hnew, hreads]⟩
    have he' : e ∈ r.view.offsets.zip r.view.lengths ++ [(r.view.vecCount, b.getSize)] := hzip ▸ he
    show _ ≤ out.2.1.vecCount
    rw [h.vecCount]
    rcases List.mem_append.1 he' with hin | hin
    · exact Nat.le_trans (hr.ends e hin) (Nat.le_add_right _ _)
    · obtain rfl := List.mem_singleton.1 hin
      exact Nat.le_refl _

theorem put_own {k : Nat} (hk : 0 < k) (mem : Memory) {heap : List (Store γ)} (hsmall : ∀ t ∈ heap, t.length < 2 ^ 31)
    {r : Recorded γ} (hr : SaneView k heap r) (b : VecBuffer γ) :
    SaneView k (r.view.put mem k heap b).1 (recorded r b (r.view.put mem k heap b)) ∧
      (r.stored = reads k heap r.view → (recorded r b (r.view.put mem k heap b)).stored =
        reads k (r.view.put mem k heap b).1 (r.view.put mem k heap b).2.1) ∧
      ∀ t ∈ (r.view.put mem k heap b).1, t.length < 2 ^ 31 := by
  rcases put_cases hk mem heap r.view b with ⟨hput, -⟩ | ⟨l, hw⟩
  · rw [hput]
    exact ⟨hr, id, hsmall⟩
  · obtain ⟨h1, h2⟩ := hw.own hr
    refine ⟨h1, h2, fun t ht => ?_⟩
    rw [hw.heap] at ht
    rcases List.mem_or_eq_of_mem_set ht with ht | rfl
    · exact hsmall t ht
    · exact blit_small hw.contents_fit (hsmall _ (List.mem_of_getElem? hw.at_buffer))

section Append
variable [Inhabited γ] {k : Nat}

/-- A view moved to a copy of its buffer reads the same. -/
theorem saneView_copy {mem : Memory} {heap : List (Store γ)} {r : Recorded γ} (hr : SaneView k heap r) {s t : Store γ}
    (hs : heap[r.view.buffer]? = some s) {n : Int} (hcopy : copyOf k mem s n = some t) :
    SaneView k (heap ++ [t]) ⟨{ r.view with buffer := heap.length }, r.stored⟩ ∧
      reads k (heap ++ [t]) { r.view with buffer := heap.length } = reads k heap r.view := by
  obtain ⟨s', hs', hfill⟩ := hr.filled
  obtain rfl : s = s' := Option.some.inj (hs.symm.trans hs')
  have ht : (heap ++ [t])[heap.length]? = some t := List.getElem?_concat_length
  rcases copyOf_some hcopy with ⟨rfl, rfl⟩ | ⟨l, pad, rfl, rfl, -⟩
  · refine ⟨⟨hr.lengths, hr.stored, ⟨none, ht, hfill⟩, hr.ends⟩, ?_⟩
    have h1 : cells (heap ++ [none]) heap.length = [] := by simp [cells]
    have h2 : cells heap r.view.buffer = [] := by simp [cells, hs]
    simp only [reads, h1, h2]
  · have hsize : getSize k (some l) ≤ getSize k (some (l ++ pad)) :=
      Nat.div_le_div_right (by simp [Store.length])
    refine ⟨⟨hr.lengths, hr.stored, ⟨_, ht, Nat.le_trans hfill hsize⟩, hr.ends⟩, ?_⟩
    simp only [reads, cells_of ht, cells_of hs]
    refine List.map_congr_left fun e he => ?_
    have hcells := cells_le (Nat.le_trans (hr.ends e he) hfill)
    rw [List.drop_append_of_le_length (by omega), List.take_append_of_le_length (by rw [List.length_drop]; omega)]

/-- The appending view is sane and reads what is stored. -/
theorem append_own (hk : 0 < k) (mem : Memory) {heap : List (Store γ)} (hsmall : ∀ t ∈ heap, t.length < 2 ^ 31)
    {r : Recorded γ} (hr : SaneView k heap r) (b : VecBuffer γ) :
    SaneView k (r.view.append mem k heap b).1 (recorded r b (r.view.append mem k heap b)) ∧
      (r.stored = reads k heap r.view → (recorded r b (r.view.append mem k heap b)).stored =
        reads k (r.view.append mem k heap b).1 (r.view.append mem k heap b).2.1) ∧
      ∀ t ∈ (r.view.append mem k heap b).1, t.length < 2 ^ 31 := by
  obtain ⟨s, hs, -⟩ := hr.filled
  rcases append_cases hs (hsmall s (List.mem_of_getElem? hs)) with ⟨happ, -⟩ | ⟨n, t, hcopy, -, happ⟩ | happ
  · rw [happ]
    exact ⟨hr, id, hsmall⟩
  · obtain ⟨hq, hreads⟩ := saneView_copy hr hs hcopy
    have hsmall' : ∀ u ∈ heap ++ [t], u.length < 2 ^ 31 := by
      intro u hu
      rcases List.mem_append.1 hu with hu | hu
      · exact hsmall u hu
      · rw [List.mem_singleton] at hu
        rcases copyOf_some hcopy with ⟨-, rfl⟩ | ⟨l, pad, -, rfl, hlen⟩
        · rw [hu]
          exact Nat.two_pow_pos 31
        · rw [hu]
          exact hlen
    rw [happ, ← hreads]
    exact put_own hk mem hsmall' hq b
  · rw [happ]
    exact put_own hk mem hsmall hr b

end Append

/-- A write into the buffer of `v` changes what another view reads exactly when
it is not clear of it. -/
theorem Wrote.others {s : Family γ} {r : Recorded γ} {v : VecBufferSequence} {b : VecBuffer γ}
    {out : List (Store γ) × VecBufferSequence × Option Nat} {l : List γ} (h : Wrote s.coordsPerVec s.heap v b out l) :
    reads s.coordsPerVec out.1 r.view = reads s.coordsPerVec s.heap r.view ↔ Clear s v b r.view := by
  have hcoord : ∀ i, coordAt s v.buffer i = l[i]? := fun i => by simp [coordAt, h.at_buffer]
  have hlen : b.contents.length = s.coordsPerVec * b.getSize := by rw [contents_length, h.coords]
  rw [h.heap, reads_write h.at_buffer h.contents_fit, Clear]
  refine imp_congr_right fun _ => forall₂_congr fun e _ => ?_
  constructor
  · intro hall i hi h1 h2
    rw [hcoord, hall _ h1 h2 (by omega) (by omega), Nat.add_sub_cancel_left]
  · intro hall i h1 h2 h3 h4
    have hi := hall (i - s.coordsPerVec * v.vecCount) (by omega)
    rw [Nat.add_sub_cancel' h3, hcoord] at hi
    exact hi h1 h2

/-- An append leaves the other views sane. It changes what one of them reads
exactly when it writes in place and is not clear of it. -/
theorem append_others [Inhabited γ] {s : Family γ} (hs : Sane s) (mem : Memory) {v : VecBufferSequence} {t : Store γ}
    (ht : s.heap[v.buffer]? = some t) (b : VecBuffer γ) {r : Recorded γ} (hr : SaneView s.coordsPerVec s.heap r) :
    SaneView s.coordsPerVec (v.append mem s.coordsPerVec s.heap b).1 r ∧
      (reads s.coordsPerVec (v.append mem s.coordsPerVec s.heap b).1 r.view = reads s.coordsPerVec s.heap r.view ↔
        (InPlace s v b → Clear s v b r.view)) := by
  have hsmall := hs.small t (List.mem_of_getElem? ht)
  have hplace : InPlace s v b → v.vecCount + b.getSize ≤ getSize s.coordsPerVec t := by
    rintro ⟨⟨t', ht', hfit⟩, -⟩
    rw [Option.mem_def, ht] at ht'
    exact Option.some.inj ht' ▸ hfit
  rcases append_cases ht hsmall with ⟨happ, hbig⟩ | ⟨n, c, hcopy, hbig, happ⟩ | happ
  · rw [happ]
    exact ⟨hr, iff_of_true rfl fun hin => absurd (hplace hin) hbig⟩
  · -- The buffer that is written is new.
    obtain ⟨hr', hreads⟩ := saneView_append hr c
    rw [happ]
    rcases put_cases hs.pos mem (s.heap ++ [c]) { v with buffer := s.heap.length } b with ⟨hput, -⟩ | ⟨l, hw⟩
    · rw [hput]
      exact ⟨hr', iff_of_true hreads fun hin => absurd (hplace hin) hbig⟩
    · have hne : r.view.buffer ≠ s.heap.length := by
        obtain ⟨u, hu, -⟩ := hr.filled
        exact Nat.ne_of_lt (List.getElem?_eq_some_iff.1 hu).1
      rw [hw.heap]
      refine ⟨saneView_write hr' hw.at_buffer hw.contents_fit, iff_of_true ?_ fun hin => absurd (hplace hin) hbig⟩
      rw [← hreads]
      exact (reads_write hw.at_buffer hw.contents_fit).2 fun heq => absurd heq hne
  · rw [happ]
    rcases put_cases hs.pos mem s.heap v b with ⟨hput, hfail⟩ | ⟨l, hw⟩
    · rw [hput]
      refine ⟨hr, iff_of_true rfl ?_⟩
      -- In place only an empty buffer is refused, and it writes nothing.
      rintro ⟨⟨t', ht', hfit⟩, hcoords, hother⟩ - e - i hi
      rw [Option.mem_def, ht] at ht'
      obtain rfl := Option.some.inj ht'
      rw [ht, Option.bind_some] at hfail
      cases t with
      | none =>
        have hzero : getSize s.coordsPerVec (none : Store γ) = 0 := Nat.zero_div _
        rw [show b.getSize = 0 by omega, Nat.mul_zero] at hi
        exact absurd hi (Nat.not_lt_zero i)
      | some l =>
        have hsize : 0 < b.getSize := Nat.pos_of_mul_pos_left (Nat.zero_lt_of_lt hi)
        rw [putSubBuffer_eq hs.pos hsmall hcoords hother hfit hsize] at hfail
        cases hfail
    · have hin : InPlace s v b := ⟨⟨_, hw.at_buffer, hw.fits⟩, hw.coords, hw.other⟩
      refine ⟨?_, hw.others.trans ⟨fun hc _ => hc, fun hc => hc hin⟩⟩
      rw [hw.heap]
      exact saneView_write hr hw.at_buffer hw.contents_fit

/-! ## One call -/

theorem addView_sane {s : Family γ} (hs : Sane s) {r : Option (Recorded γ)}
    (hr : ∀ q ∈ r, SaneView s.coordsPerVec s.heap q) : Sane (s.addView r) := by
  refine ⟨hs.pos, hs.small, fun q hq => ?_⟩
  rcases List.mem_append.1 hq with hq | hq
  · exact hs.views q hq
  · exact hr q (Option.mem_toList.1 hq)

theorem addView_keeps {s : Family γ} (hs : Sane s) (hk : Keeps s) {r : Option (Recorded γ)}
    (hr : ∀ q ∈ r, SaneView s.coordsPerVec s.heap q ∧ q.stored = reads s.coordsPerVec s.heap q.view) :
    Sane (s.addView r) ∧ Keeps (s.addView r) := by
  have hsane := addView_sane hs fun q hq => (hr q hq).1
  refine ⟨hsane, (keeps_iff_reads hsane).2 fun q hq => ?_⟩
  rcases List.mem_append.1 hq with hq | hq
  · exact (keeps_iff_reads hs).1 hk q hq
  · exact (hr q (Option.mem_toList.1 hq)).2

variable [Inhabited γ]

/-- An `append` keeps what every view reads exactly when it is `StepOk`. -/
theorem step_append {s : Family γ} (hs : Sane s) (hk : Keeps s) (mem : Memory) (n : Nat) (b : VecBuffer γ) :
    ∃ t, s.step mem (.append n b) = some t ∧ Sane t ∧ (Keeps t ↔ StepOk s (.append n b)) := by
  cases hn : s.views[n]? with
  | none => exact ⟨s, by simp only [Family.step, hn], hs, iff_of_true hk (by simp [StepOk, hn])⟩
  | some r =>
    have hreads := (keeps_iff_reads hs).1 hk
    have hr := hs.views r (List.mem_of_getElem? hn)
    obtain ⟨t, ht, -⟩ := hr.filled
    obtain ⟨hown, hstored, hsmall⟩ := append_own hs.pos mem hs.small hr b
    have hothers := fun q (hq : q ∈ s.views) => append_others hs mem ht b (hs.views q hq)
    refine ⟨{ s with
      heap := (r.view.append mem s.coordsPerVec s.heap b).1
      views := s.views.set n (recorded r b (r.view.append mem s.coordsPerVec s.heap b)) },
      by simp only [Family.step, hn, recorded], ?_⟩
    have hsane : Sane { s with
        heap := (r.view.append mem s.coordsPerVec s.heap b).1
        views := s.views.set n (recorded r b (r.view.append mem s.coordsPerVec s.heap b)) } := by
      refine ⟨hs.pos, hsmall, fun q hq => ?_⟩
      rcases List.mem_or_eq_of_mem_set hq with hq | rfl
      · exact (hothers q hq).1
      · exact hown
    refine ⟨hsane, ?_⟩
    rw [keeps_iff_reads hsane]
    constructor
    · intro hall r' hr' hin m _ hmn q hq
      obtain rfl : r = r' := Option.some.inj (hn.symm.trans hr')
      have hmem : q ∈ s.views := List.mem_of_getElem? hq
      have hmem' : q ∈ s.views.set n (recorded r b (r.view.append mem s.coordsPerVec s.heap b)) :=
        List.mem_of_getElem? (by rw [List.getElem?_set_ne (Ne.symm hmn)]; exact hq)
      exact (hothers q hmem).2.1 ((hall q hmem').symm.trans (hreads q hmem)) hin
    · intro hok q hq
      obtain ⟨m, hm⟩ := List.mem_iff_getElem?.1 hq
      by_cases hmn : m = n
      · have hlt : n < s.views.length := (List.getElem?_eq_some_iff.1 hn).1
        rw [hmn, List.getElem?_set_self hlt] at hm
        obtain rfl := Option.some.inj hm
        exact hstored (hreads r (List.mem_of_getElem? hn))
      · rw [List.getElem?_set_ne (Ne.symm hmn)] at hm
        have hmem : q ∈ s.views := List.mem_of_getElem? hm
        have hlt : m < s.views.length := (List.getElem?_eq_some_iff.1 hm).1
        exact (hreads q hmem).trans ((hothers q hmem).2.2 fun hin => hok r hn hin m hlt hmn q hm).symm

theorem step_spec {s : Family γ} (hs : Sane s) (hk : Keeps s) (mem : Memory) (op : Op γ) :
    ∃ t, s.step mem op = some t ∧ Sane t ∧ (Keeps t ↔ StepOk s op) := by
  have hreads := (keeps_iff_reads hs).1 hk
  cases op with
  | append n b => exact step_append hs hk mem n b
  | slice n b e =>
    have hnew : ∀ q ∈ s.views[n]?.bind fun r => (r.view.slice mem b e).map fun v =>
        (⟨v, (r.stored.drop b.toNat).take (e - b + 1).toNat⟩ : Recorded γ),
        SaneView s.coordsPerVec s.heap q ∧ q.stored = reads s.coordsPerVec s.heap q.view := by
      intro q hq
      obtain ⟨r, hr, hq⟩ := Option.bind_eq_some_iff.1 hq
      obtain ⟨v, hv, rfl⟩ := Option.map_eq_some_iff.1 hq
      have hmem := List.mem_of_getElem? hr
      exact slice_spec (hs.views r hmem) (hreads r hmem) hv
    obtain ⟨h1, h2⟩ := addView_keeps hs hk hnew
    exact ⟨_, rfl, h1, iff_of_true h2 trivial⟩
  | sliceIndices n indices offset length =>
    have hnew : ∀ q ∈ s.views[n]?.bind fun r => (r.view.sliceIndices mem indices offset length).map fun v =>
        let seen := VecBufferSequence.visited indices offset length
        (⟨v, seen.map (fun i => r.stored.getD i.toNat []) ++
          List.replicate (length.toNat - seen.length) []⟩ : Recorded γ),
        SaneView s.coordsPerVec s.heap q ∧ q.stored = reads s.coordsPerVec s.heap q.view := by
      intro q hq
      obtain ⟨r, hr, hq⟩ := Option.bind_eq_some_iff.1 hq
      obtain ⟨v, hv, rfl⟩ := Option.map_eq_some_iff.1 hq
      have hmem := List.mem_of_getElem? hr
      exact sliceIndices_spec (hs.views r hmem) (hreads r hmem) hv
    obtain ⟨h1, h2⟩ := addView_keeps hs hk hnew
    exact ⟨_, rfl, h1, iff_of_true h2 trivial⟩

/-! ## Runs -/

/-- In every state of a run every view reads what was stored, exactly when no
`append` of the run writes in place into cells that another view reads. -/
theorem keeps_iff (mem : Memory) {coordsPerVec : Nat} (hpos : 0 < coordsPerVec) {buffer : Store γ}
    (hsmall : buffer.length < 2 ^ 31) {capacity : Nat} {v : VecBufferSequence}
    (hnew : VecBufferSequence.new 0 capacity = some v) (ops : List (Op γ)) :
    Always (Family.step mem) Keeps (Family.new coordsPerVec buffer v) ops ↔
      Along (Family.step mem) StepOk (Family.new coordsPerVec buffer v) ops := by
  obtain ⟨hoff, hlen, hcount, hbuf⟩ : v.offsets = [] ∧ v.lengths = [] ∧ v.vecCount = 0 ∧ v.buffer = 0 := by
    unfold VecBufferSequence.new at hnew
    split at hnew
    · cases hnew
    · obtain rfl := Option.some.inj hnew
      exact ⟨rfl, rfl, rfl, rfl⟩
  have hsane : Sane (Family.new coordsPerVec buffer v) := by
    refine ⟨hpos, by simpa [Family.new] using hsmall, fun r hr => ?_⟩
    obtain rfl := List.mem_singleton.1 hr
    exact ⟨by rw [hoff, hlen], by rw [hoff]; rfl, ⟨buffer, by rw [hbuf]; rfl, by rw [hcount]; exact Nat.zero_le _⟩,
      by simp [hoff]⟩
  refine always_iff_along (I := Sane) (fun s op t hs hk ht => ?_) (fun s op hs hk => ?_) ops hsane ?_
  · obtain ⟨u, hu, hsu, -⟩ := step_spec hs hk mem op
    exact Option.some.inj (hu.symm.trans ht) ▸ hsu
  · obtain ⟨u, hu, -, hiff⟩ := step_spec hs hk mem op
    rw [← hiff, hu]
    exact ⟨fun ⟨t, ht, hkt⟩ => Option.some.inj ht ▸ hkt, fun hku => ⟨u, rfl, hku⟩⟩
  · refine (keeps_iff_reads hsane).2 fun r hr => ?_
    obtain rfl := List.mem_singleton.1 hr
    simp [reads, hoff]

/-- Enough memory for everything. -/
def plenty : Memory := ⟨fun _ => true, fun _ => true⟩

/-- The slice moves to a larger buffer, and both views append. -/
theorem keeps_small_run : Always (Family.step plenty) Keeps
    (Family.new 1 (some [0, 0, 0, 0]) ⟨[], [], 1, 0, 0⟩ : Family Nat)
    [.append 0 ⟨1, [1, 2], none⟩, .slice 0 0 0, .append 1 ⟨1, [3, 4, 5], none⟩, .append 0 ⟨1, [6, 7], none⟩,
      .sliceIndices 1 [1, 0] 0 2] :=
  (keeps_iff plenty (by decide) (by decide) (show VecBufferSequence.new 0 1 = some ⟨[], [], 1, 0, 0⟩ from rfl) _).2
  (by decide +kernel)

/-- The slice appends where the sequence has appended before. -/
theorem append_overwrites : ¬ Always (Family.step plenty) Keeps
    (Family.new 1 (some [0, 0, 0, 0]) ⟨[], [], 1, 0, 0⟩ : Family Nat)
    [.append 0 ⟨1, [1], none⟩, .slice 0 0 0, .append 0 ⟨1, [2], none⟩, .append 1 ⟨1, [3], none⟩] := by
  intro h
  obtain ⟨s, hs, hk⟩ := h.last
  have hrun : run (Family.step plenty) (Family.new 1 (some [0, 0, 0, 0]) ⟨[], [], 1, 0, 0⟩ : Family Nat)
      [.append 0 ⟨1, [1], none⟩, .slice 0 0 0, .append 0 ⟨1, [2], none⟩, .append 1 ⟨1, [3], none⟩] =
      some ⟨1, [some [1, 3, 0, 0]],
        [⟨⟨[0, 1], [1, 1], 2, 2, 0⟩, [[1], [2]]⟩, ⟨⟨[0, 1], [1, 1], 2, 2, 0⟩, [[1], [3]]⟩]⟩ := by
    decide +kernel
  obtain rfl := Option.some.inj (hrun.symm.trans hs)
  have hread := (hk _ List.mem_cons_self).2 1 (by decide)
  revert hread
  decide

end WorldWind.VecBuffers
