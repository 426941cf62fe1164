import WorldWind.IntSets.Model
import WorldWind.Lib.JavaInt
import WorldWind.Lib.Runs
/-!
# `IntSet` against the finite set it stands for

The set and a `Finset` are run side by side (`both`), and after every call the
size is the number of members and `toArray(null)` lists each of them once
(`Agrees`). A negative value has a negative remainder, which is no bucket, so
every call with such a value throws unless `numBuckets` divides it. A bucket
cannot double past the largest array, and `size` cannot count past the largest
`int`. Runs that avoid this agree, and no others do (`agrees_iff`).
-/

namespace WorldWind.IntSets

open Lib.JavaArray Lib.JavaInt Lib.Runs IntSet

/-! ## The finite set -/

/-- The set after a call. -/
def after (m : Finset Int32) : Op → Finset Int32
  | .add v => insert v m
  | .remove v => m.erase v
  | .clear => ∅
  | .contains _ | .toArray _ => m

/-- What the set answers to a call. An array lists the members first, in any
order. -/
def Answers (m : Finset Int32) : Op → Answer → Prop
  | .add v, .bool b => b = decide (v ∉ m)
  | .remove v, .bool b => b = decide (v ∈ m)
  | .contains v, .bool b => b = decide (v ∈ m)
  | .clear, .done => True
  | .toArray _, .array l => m.card ≤ l.length ∧ (l.take m.card).Nodup ∧ (l.take m.card).toFinset = m
  | _, _ => False

instance (m : Finset Int32) : ∀ op a, Decidable (Answers m op a)
  | .add v, .bool b => inferInstanceAs (Decidable (b = decide (v ∉ m)))
  | .remove v, .bool b | .contains v, .bool b => inferInstanceAs (Decidable (b = decide (v ∈ m)))
  | .clear, .done => .isTrue trivial
  | .toArray _, .array l =>
    inferInstanceAs (Decidable (m.card ≤ l.length ∧ (l.take m.card).Nodup ∧ (l.take m.card).toFinset = m))
  | .add _, .done | .add _, .array _ | .remove _, .done | .remove _, .array _ | .contains _, .done
  | .contains _, .array _ | .clear, .bool _ | .clear, .array _ | .toArray _, .done | .toArray _, .bool _ =>
    .isFalse id

/-- One call on the code's set and on the finite set. No result if the code
throws or answers otherwise than the set. -/
def both (s : IntSet × Finset Int32) (op : Op) : Option (IntSet × Finset Int32) :=
  (exec s.1 op).bind fun r => if Answers s.2 op r.2 then some (r.1, after s.2 op) else none

/-- `size` is the number of members, and `toArray(null)` lists each once. -/
def Agrees (s : IntSet × Finset Int32) : Prop :=
  s.1.size.toInt = s.2.card ∧ ∃ l, s.1.toArray none = some l ∧ l.Nodup ∧ l.toFinset = s.2

/-- There is room for another value in the bucket with this index, as it is
or doubled. -/
def Room (s : IntSet) (index : Int32) : Prop :=
  ∀ b, s.bucketAt index = some (some b) → b.length < b.values.length ∨ 2 * b.values.length < 2 ^ 31

instance (s : IntSet) (index : Int32) : Decidable (Room s index) :=
  match h : s.bucketAt index with
  | some (some b) =>
    decidable_of_iff (b.length < b.values.length ∨ 2 * b.values.length < 2 ^ 31) (by simp [Room, h])
  | none => .isTrue (by simp [Room, h])
  | some none => .isTrue (by simp [Room, h])

/-- A call that neither throws nor loses count: the value has a bucket, and if
it is to be added there is room for it and the count stays an `int`. -/
def StepOk (s : IntSet × Finset Int32) : Op → Prop
  | .add v => 0 ≤ v % s.1.numBuckets ∧ (v ∉ s.2 → Room s.1 (v % s.1.numBuckets) ∧ s.2.card + 1 < 2 ^ 31)
  | .remove v | .contains v => 0 ≤ v % s.1.numBuckets
  | .clear | .toArray _ => True

instance (s : IntSet × Finset Int32) : ∀ op, Decidable (StepOk s op)
  | .add v => inferInstanceAs (Decidable (0 ≤ v % s.1.numBuckets ∧
      (v ∉ s.2 → Room s.1 (v % s.1.numBuckets) ∧ s.2.card + 1 < 2 ^ 31)))
  | .remove v | .contains v => inferInstanceAs (Decidable (0 ≤ v % s.1.numBuckets))
  | .clear | .toArray _ => .isTrue trivial

/-! ## Lists of buckets -/

/-- The values in a bucket that may be null. -/
def itemsOf : Option Bucket → List Int32
  | none => []
  | some b => b.items

/-- All values, bucket after bucket. -/
def members (s : IntSet) : List Int32 := s.buckets.flatMap itemsOf

/-- One list of a concatenation gains an element. -/
theorem flatMap_set_perm {α β : Type*} {f : α → List β} {x : β} {l : List α} {i : Nat} {a a' : α}
    (hi : l[i]? = some a) (h : (f a').Perm (x :: f a)) :
    ((l.set i a').flatMap f).Perm (x :: l.flatMap f) := by
  induction l generalizing i with
  | nil => cases hi
  | cons b l ih =>
    cases i with
    | zero =>
      obtain rfl : b = a := Option.some.inj hi
      exact h.append_right _
    | succ i =>
      simp only [List.set_cons_succ, List.flatMap_cons]
      exact ((ih hi).append_left _).trans List.perm_middle

/-- One list of a concatenation loses an element. -/
theorem flatMap_perm_set {α β : Type*} {f : α → List β} {x : β} {l : List α} {i : Nat} {a a' : α}
    (hi : l[i]? = some a) (h : (f a).Perm (x :: f a')) :
    (l.flatMap f).Perm (x :: (l.set i a').flatMap f) := by
  obtain ⟨hlt, rfl⟩ := List.getElem?_eq_some_iff.1 hi
  have hset : (l.set i a')[i]? = some a' := List.getElem?_set_self hlt
  have hperm : (((l.set i a').set i l[i]).flatMap f).Perm (x :: (l.set i a').flatMap f) := flatMap_set_perm hset h
  rwa [List.set_set, List.set_getElem_self] at hperm

/-- A value is only in the bucket with the number of its remainder. -/
def Placed (s : IntSet) : Prop :=
  ∀ (i : Nat) (o : Option Bucket), s.buckets[i]? = some o → ∀ v ∈ itemsOf o, (v % s.numBuckets).toInt = i

/-- The buckets hold the finite set. -/
structure Holds (s : IntSet × Finset Int32) : Prop where
  placed : Placed s.1
  nodup : (members s.1).Nodup
  members : (members s.1).toFinset = s.2

theorem Holds.length {s : IntSet × Finset Int32} (h : Holds s) : (IntSets.members s.1).length = s.2.card := by
  rw [← h.members, List.toFinset_card_of_nodup h.nodup]

theorem Holds.mem_iff {s : IntSet × Finset Int32} (h : Holds s) (v : Int32) : v ∈ s.2 ↔ v ∈ IntSets.members s.1 := by
  rw [← h.members, List.mem_toFinset]

/-! ## The bucket of a value -/

/-- A remainder that is not negative is the number of a bucket. -/
theorem bucketAt_mod (s : IntSet) {v : Int32} (h : 0 ≤ v % s.numBuckets) :
    ∃ o, s.bucketAt (v % s.numBuckets) = some o ∧ s.buckets[(v % s.numBuckets).toInt.toNat]? = some o := by
  have h0 := Int32.le_iff_toInt_le.1 h
  rw [Int32.toInt_zero] at h0
  have hlt : (v % s.numBuckets).toInt < s.numBuckets.toInt := by
    rw [Int32.toInt_mod]
    exact Int.tmod_lt_of_pos _ s.positive
  have hlen := s.isArray
  have hb : (v % s.numBuckets).toInt.toNat < s.buckets.length := by omega
  rw [bucketAt, if_neg (Int32.not_lt.2 h), List.getElem?_eq_getElem hb]
  exact ⟨_, rfl, rfl⟩

theorem bucketAt_neg (s : IntSet) {index : Int32} (h : ¬ 0 ≤ index) : s.bucketAt index = none :=
  if_pos (Int32.not_le.1 h)

/-- A member is in the bucket of its remainder, if it is anywhere. -/
theorem mem_members_iff {s : IntSet} (h : Placed s) {v : Int32} {o : Option Bucket} (hv : 0 ≤ v % s.numBuckets)
    (ho : s.buckets[(v % s.numBuckets).toInt.toNat]? = some o) : v ∈ members s ↔ v ∈ itemsOf o := by
  have h0 := Int32.le_iff_toInt_le.1 hv
  rw [Int32.toInt_zero] at h0
  rw [members, List.mem_flatMap]
  constructor
  · rintro ⟨o', ho', hv'⟩
    obtain ⟨i, hi⟩ := List.mem_iff_getElem?.1 ho'
    have hidx := h i o' hi v hv'
    obtain rfl : (v % s.numBuckets).toInt.toNat = i := by omega
    exact Option.some.inj (hi.symm.trans ho) ▸ hv'
  · exact fun hv' => ⟨o, List.mem_of_getElem? ho, hv'⟩

/-! ## One bucket -/

namespace Bucket

theorem new_spec {cap : Int32} (h : 1 ≤ cap) : ∃ b, new cap = some b ∧ b.items = [] ∧ b.length < b.values.length := by
  rw [new, dif_neg (Int32.not_lt.2 h)]
  have hcap := Int32.le_iff_toInt_le.1 h
  rw [Int32.toInt_one] at hcap
  have hlen : 0 < (List.replicate cap.toInt.toNat (0 : Int32)).length := by
    rw [List.length_replicate]
    omega
  exact ⟨_, rfl, rfl, hlen⟩

theorem clear_items (b : Bucket) : b.clear.items = [] := rfl

theorem push_spec {b : Bucket} (h : b.length < b.values.length) (v : Int32) :
    ∃ b', b.push v = some b' ∧ b'.items = b.items ++ [v] := by
  rw [push, dif_pos h]
  refine ⟨_, rfl, ?_⟩
  simp only [items]
  rw [List.take_set, List.take_succ_eq_append_getElem h, List.set_append_right _ _ (by simp)]
  simp [Nat.min_eq_left b.fits]

/-- The doubled length comes back negative exactly when it is too large for an
`int`. -/
theorem double_toInt (b : Bucket) : (2 * Int32.ofNat b.values.length).toInt =
    if 2 * b.values.length < 2 ^ 31 then 2 * (b.values.length : Int) else 2 * b.values.length - 2 ^ 32 := by
  have hlt := b.isArray
  rw [Int32.toInt_mul, Int32.toInt_ofNat_of_lt hlt]
  show Int.bmod (2 * _) _ = _
  rw [Int.bmod_def]
  split <;> split <;> omega

theorem double_neg_iff (b : Bucket) : 2 * Int32.ofNat b.values.length < 0 ↔ ¬ 2 * b.values.length < 2 ^ 31 := by
  have hlt := b.isArray
  rw [Int32.lt_iff_toInt_lt, double_toInt, Int32.toInt_zero]
  split <;> omega

theorem grow_spec {b : Bucket} (h : b.length < b.values.length ∨ 2 * b.values.length < 2 ^ 31) :
    ∃ b', b.grow = some b' ∧ b'.items = b.items ∧ b'.length < b'.values.length := by
  unfold grow
  split
  · rename_i hfull
    have hn : 2 * b.values.length < 2 ^ 31 := by omega
    have hpos := b.nonempty
    have hfits := b.fits
    have hlen : b.length < (b.values ++
        List.replicate ((2 * Int32.ofNat b.values.length).toInt.toNat - b.values.length) (0 : Int32)).length := by
      rw [List.length_append, List.length_replicate, double_toInt, if_pos hn]
      omega
    simp only [double_neg_iff, hn, not_true_eq_false, if_false]
    exact ⟨_, rfl, List.take_append_of_le_length hfits, hlen⟩
  · exact ⟨b, rfl, rfl, by omega⟩

theorem grow_none {b : Bucket} (h : ¬ (b.length < b.values.length ∨ 2 * b.values.length < 2 ^ 31)) :
    b.grow = none := by
  rw [grow, if_pos (by omega)]
  exact if_pos ((double_neg_iff b).2 (by omega))

theorem removeAt_items (b : Bucket) {i : Nat} (h : i < b.length) : (b.removeAt i).items = b.items.eraseIdx i := by
  have hfits := b.fits
  simp only [removeAt, items]
  rw [List.eraseIdx_eq_take_drop_succ, List.take_take, List.drop_take, Nat.min_eq_left (by omega)]
  split
  · rw [List.take_append_of_le_length, List.take_of_length_le]
    · congr 2
    all_goals simp; omega
  · obtain rfl : i = b.length - 1 := by omega
    rw [show b.length - (b.length - 1 + 1) = 0 by omega, List.take_zero, List.append_nil]

end Bucket

/-! ## Adding and removing -/

theorem Holds.mem_bucket {s : IntSet × Finset Int32} (h : Holds s) {v : Int32} {o : Option Bucket}
    (hv : 0 ≤ v % s.1.numBuckets) (ho : s.1.buckets[(v % s.1.numBuckets).toInt.toNat]? = some o) :
    v ∈ s.2 ↔ v ∈ itemsOf o :=
  (h.mem_iff v).trans (mem_members_iff h.placed hv ho)

/-- The bucket of `v` is replaced by one with other values that belong there. -/
theorem placed_setBucket {s : IntSet} (h : Placed s) {index : Int32} (h0 : 0 ≤ index) {b : Bucket}
    (hb : ∀ w ∈ b.items, w % s.numBuckets = index) : Placed (s.setBucket index b) := by
  have h0 := Int32.le_iff_toInt_le.1 h0
  rw [Int32.toInt_zero] at h0
  intro i o ho w hw
  simp only [setBucket, List.getElem?_set] at ho
  split at ho
  · rename_i hi
    split at ho
    · obtain rfl : some b = o := Option.some.inj ho
      show (w % s.numBuckets).toInt = i
      rw [hb w hw]
      omega
    · cases ho
  · exact h i o ho w hw

theorem placed_bucket {s : IntSet} (h : Placed s) {index : Int32} (h0 : 0 ≤ index) {o : Option Bucket}
    (ho : s.buckets[index.toInt.toNat]? = some o) : ∀ w ∈ itemsOf o, w % s.numBuckets = index := by
  intro w hw
  have h0 := Int32.le_iff_toInt_le.1 h0
  rw [Int32.toInt_zero] at h0
  have := h _ o ho w hw
  exact Int32.toInt_inj.1 (by omega)

/-- Appending a new value to its bucket, if there is room. -/
theorem append_spec {s : IntSet × Finset Int32} (h : Holds s) {v : Int32} {o : Option Bucket} {b : Bucket}
    (hv : 0 ≤ v % s.1.numBuckets) (ho : s.1.buckets[(v % s.1.numBuckets).toInt.toNat]? = some o)
    (hb : b.items = itemsOf o) (hnew : v ∉ s.2) (hroom : b.length < b.values.length ∨ 2 * b.values.length < 2 ^ 31) :
    ∃ t, s.1.append (v % s.1.numBuckets) b v = some (t, true) ∧ Holds (t, insert v s.2) ∧
      t.size = s.1.size + 1 := by
  obtain ⟨b1, hb1, hi1, hl1⟩ := Bucket.grow_spec hroom
  obtain ⟨b2, hb2, hi2⟩ := Bucket.push_spec hl1 v
  have hitems : b2.items = itemsOf o ++ [v] := by rw [hi2, hi1, hb]
  have hperm : (members (s.1.setBucket (v % s.1.numBuckets) b2)).Perm (v :: members s.1) :=
    flatMap_set_perm ho (by simp [itemsOf, hitems])
  refine ⟨{ s.1.setBucket (v % s.1.numBuckets) b2 with size := s.1.size + 1 }, ?_, ⟨?_, ?_, ?_⟩, rfl⟩
  · rw [append, hb1, Option.bind_some, hb2]
    rfl
  · refine placed_setBucket h.placed hv fun w hw => ?_
    rw [hitems, List.mem_append, List.mem_singleton] at hw
    rcases hw with hw | rfl
    · exact placed_bucket h.placed hv ho w hw
    · rfl
  · exact hperm.nodup_iff.2 (List.nodup_cons.2 ⟨fun hm => hnew ((h.mem_iff v).2 hm), h.nodup⟩)
  · exact (List.toFinset_eq_of_perm _ _ hperm).trans (by rw [List.toFinset_cons, h.members])

theorem append_none {s : IntSet} {index v : Int32} {b : Bucket}
    (h : ¬ (b.length < b.values.length ∨ 2 * b.values.length < 2 ^ 31)) : s.append index b v = none := by
  rw [append, Bucket.grow_none h]
  rfl

theorem add_present {s : IntSet × Finset Int32} (h : Holds s) {v : Int32} (hv : 0 ≤ v % s.1.numBuckets)
    (hm : v ∈ s.2) : s.1.add v = some (s.1, false) := by
  obtain ⟨o, ho, hget⟩ := bucketAt_mod s.1 hv
  have hin := (h.mem_bucket hv hget).1 hm
  cases o with
  | none => cases hin
  | some b =>
    simp only [add, ho]
    exact if_pos hin

/-- Adding a new value succeeds exactly when its bucket has room. -/
theorem add_absent {s : IntSet × Finset Int32} (h : Holds s) {v : Int32} (hv : 0 ≤ v % s.1.numBuckets)
    (hm : v ∉ s.2) :
    (Room s.1 (v % s.1.numBuckets) →
      ∃ t, s.1.add v = some (t, true) ∧ Holds (t, insert v s.2) ∧ t.size = s.1.size + 1) ∧
    (¬ Room s.1 (v % s.1.numBuckets) → s.1.add v = none) := by
  obtain ⟨o, ho, hget⟩ := bucketAt_mod s.1 hv
  cases o with
  | none =>
    -- The bucket is created, and a new bucket has room.
    obtain ⟨b, hb, hi, hl⟩ := Bucket.new_spec s.1.initial
    refine ⟨fun _ => ?_, fun hr => absurd (fun b hb => ?_) hr⟩
    · simp only [add, ho, hb, Option.bind_some]
      exact append_spec h hv hget hi hm (.inl hl)
    · rw [ho] at hb
      cases hb
  | some b =>
    have hout : v ∉ b.items := fun hin => hm ((h.mem_bucket hv hget).2 hin)
    simp only [add, ho, if_neg hout]
    refine ⟨fun hr => append_spec h hv hget rfl hm (hr b ho), fun hr => append_none fun hb => hr fun b' hb' => ?_⟩
    rw [ho] at hb'
    cases hb'
    exact hb

theorem remove_absent {s : IntSet × Finset Int32} (h : Holds s) {v : Int32} (hv : 0 ≤ v % s.1.numBuckets)
    (hm : v ∉ s.2) : s.1.remove v = some (s.1, false) := by
  obtain ⟨o, ho, hget⟩ := bucketAt_mod s.1 hv
  simp only [remove, ho]
  cases o with
  | none => rfl
  | some b =>
    have hout : v ∉ b.items := fun hin => hm ((h.mem_bucket hv hget).2 hin)
    have hidx : b.items.idxOf v = b.length := by
      rw [List.idxOf_of_notMem hout, b.items_length]
    exact if_pos (.inr hidx)

theorem remove_present {s : IntSet × Finset Int32} (h : Holds s) {v : Int32} (hv : 0 ≤ v % s.1.numBuckets)
    (hm : v ∈ s.2) :
    ∃ t, s.1.remove v = some (t, true) ∧ Holds (t, s.2.erase v) ∧ t.size = s.1.size - 1 := by
  obtain ⟨o, ho, hget⟩ := bucketAt_mod s.1 hv
  have hin := (h.mem_bucket hv hget).1 hm
  cases o with
  | none => cases hin
  | some b =>
    have hidx : b.items.idxOf v < b.length := b.items_length ▸ List.idxOf_lt_length_iff.2 hin
    have hitems : (b.removeAt (b.items.idxOf v)).items = b.items.erase v := by
      rw [b.removeAt_items hidx, List.erase_eq_eraseIdx_of_idxOf rfl]
    have hperm : (members s.1).Perm
        (v :: members (s.1.setBucket (v % s.1.numBuckets) (b.removeAt (b.items.idxOf v)))) :=
      flatMap_perm_set hget (by simpa only [itemsOf, hitems] using List.perm_cons_erase hin)
    have hnd := hperm.nodup_iff.1 h.nodup
    rw [List.nodup_cons] at hnd
    refine ⟨{ s.1.setBucket (v % s.1.numBuckets) (b.removeAt (b.items.idxOf v)) with size := s.1.size - 1 },
      ?_, ⟨?_, hnd.2, ?_⟩, rfl⟩
    · simp only [remove, ho]
      exact if_neg (by omega)
    · refine placed_setBucket h.placed hv fun w hw => ?_
      rw [hitems] at hw
      exact placed_bucket h.placed hv hget w (List.mem_of_mem_erase hw)
    · rw [← h.members, List.toFinset_eq_of_perm _ _ hperm, List.toFinset_cons]
      exact (Finset.erase_insert (by rw [List.mem_toFinset]; exact hnd.1)).symm

theorem contains_spec {s : IntSet × Finset Int32} (h : Holds s) {v : Int32} (hv : 0 ≤ v % s.1.numBuckets) :
    s.1.contains v = some (decide (v ∈ s.2)) := by
  obtain ⟨o, ho, hget⟩ := bucketAt_mod s.1 hv
  have hin := h.mem_bucket hv hget
  simp only [contains, ho, hin]
  cases o with
  | none => rfl
  | some b => rfl

theorem clear_spec {s : IntSet × Finset Int32} : Holds (s.1.clear, ∅) := by
  have hempty : ∀ o ∈ s.1.clear.buckets, itemsOf o = [] := by
    intro o ho
    obtain ⟨o, -, rfl⟩ := List.mem_map.1 ho
    cases o with
    | none => rfl
    | some b => exact b.clear_items
  have hmem : members s.1.clear = [] := List.flatMap_eq_nil_iff.2 hempty
  refine ⟨fun i o ho w hw => ?_, hmem ▸ List.nodup_nil, by rw [hmem]; rfl⟩
  rw [hempty o (List.mem_of_getElem? ho)] at hw
  cases hw

/-! ## Listing the members -/

/-- With room for all values, the buckets are copied one after another. -/
theorem copyBuckets_spec {bs : List (Option Bucket)} {array : List Int32} {offset : Nat}
    (h : offset + (bs.flatMap itemsOf).length ≤ array.length) :
    copyBuckets bs array offset = some (blit array offset (bs.flatMap itemsOf)) := by
  induction bs generalizing array offset with
  | nil => rw [copyBuckets, List.flatMap_nil, blit_nil]
  | cons o bs ih =>
    cases o with
    | none => exact ih h
    | some b =>
      have hfits := b.fits
      have hlen : b.items.length = b.length := b.items_length
      rw [List.flatMap_cons, List.length_append] at h
      change offset + (b.items.length + _) ≤ _ at h
      have hcopy : arraycopy b.values 0 array offset b.length = some (blit array offset b.items) :=
        arraycopy_eq (by omega) (by omega)
      rw [copyBuckets, hcopy, Option.bind_some, ← hlen, ih (by rw [length_blit (by omega)]; omega),
        blit_blit _ _ (by omega)]
      rfl

/-- The array that comes back starts with the members, and is no longer unless
the caller gave a longer one. -/
theorem toArray_spec {s : IntSet × Finset Int32} (h : Holds s) (hs : s.1.size.toInt = s.2.card)
    (array : Option (List Int32)) :
    ∃ rest, s.1.toArray array = some (members s.1 ++ rest) ∧ (array = none → rest = []) := by
  have hlen : (s.1.buckets.flatMap itemsOf).length = s.2.card := h.length
  have hfresh : (newArray 0 s.1.size).bind (fun a => copyBuckets s.1.buckets a 0) = some (members s.1) := by
    have hrep : (List.replicate s.1.size.toInt.toNat (0 : Int32)).length = s.2.card := by
      rw [List.length_replicate]
      omega
    rw [newArray_eq 0 (by omega), Option.bind_some, copyBuckets_spec (by omega), blit_zero,
      List.drop_eq_nil_of_le (by omega), List.append_nil]
    rfl
  cases array with
  | none => exact ⟨[], by rw [toArray, hfresh, List.append_nil], fun _ => rfl⟩
  | some a =>
    rw [toArray]
    split
    · exact ⟨[], by rw [hfresh, List.append_nil], fun _ => rfl⟩
    · rw [copyBuckets_spec (by omega), blit_zero]
      exact ⟨_, rfl, nofun⟩

theorem agrees_iff_size {s : IntSet × Finset Int32} (h : Holds s) : Agrees s ↔ s.1.size.toInt = s.2.card := by
  refine ⟨And.left, fun hs => ⟨hs, members s.1, ?_, h.nodup, h.members⟩⟩
  obtain ⟨rest, hr, hnil⟩ := toArray_spec h hs none
  rw [hr, hnil rfl, List.append_nil]

/-! ## One call -/

theorem exec_toArray {s : IntSet × Finset Int32} (h : Holds s) (hs : s.1.size.toInt = s.2.card)
    (array : Option (List Int32)) : both s (.toArray array) = some s := by
  obtain ⟨rest, hr, -⟩ := toArray_spec h hs array
  have hans : Answers s.2 (.toArray array) (.array (members s.1 ++ rest)) := by
    have htake : (members s.1 ++ rest).take s.2.card = members s.1 := by
      rw [← h.length, List.take_left]
    refine ⟨?_, by rw [htake]; exact h.nodup, by rw [htake]; exact h.members⟩
    rw [List.length_append, h.length]
    omega
  simp only [both, exec, hr, Option.map_some, Option.bind_some, if_pos hans, after]

/-- A call with a value whose remainder is negative throws. -/
theorem exec_neg {s : IntSet} {v : Int32} (hv : ¬ 0 ≤ v % s.numBuckets) :
    exec s (.add v) = none ∧ exec s (.remove v) = none ∧ exec s (.contains v) = none := by
  have hb := bucketAt_neg s hv
  simp [exec, add, remove, contains, hb]

theorem both_some {s : IntSet × Finset Int32} {op : Op} {t : IntSet} (answer : Answer)
    (hexec : exec s.1 op = some (t, answer)) (hans : Answers s.2 op answer) : both s op = some (t, after s.2 op) := by
  rw [both, hexec, Option.bind_some, if_pos hans]

/-- What a call does to the count, and that the buckets follow the set. -/
theorem both_spec {s : IntSet × Finset Int32} (h : Holds s) (hs : s.1.size.toInt = s.2.card) (op : Op) :
    (∀ t, both s op = some t → Holds t) ∧
      ((∃ t, both s op = some t ∧ t.1.size.toInt = t.2.card) ↔ StepOk s op) := by
  cases op with
  | clear =>
    have hb : both s .clear = some (s.1.clear, ∅) := rfl
    simp only [hb, Option.some.injEq]
    exact ⟨by rintro t rfl; exact clear_spec, iff_of_true ⟨_, rfl, rfl⟩ trivial⟩
  | toArray array =>
    simp only [exec_toArray h hs array, Option.some.injEq]
    exact ⟨by rintro t rfl; exact h, iff_of_true ⟨_, rfl, hs⟩ trivial⟩
  | contains v =>
    by_cases hv : 0 ≤ v % s.1.numBuckets
    · have hb : both s (.contains v) = some s :=
        both_some (.bool (decide (v ∈ s.2))) (by rw [exec, contains_spec h hv, Option.map_some]) rfl
      simp only [hb, Option.some.injEq]
      exact ⟨by rintro t rfl; exact h, iff_of_true ⟨_, rfl, hs⟩ hv⟩
    · have hb : both s (.contains v) = none := by rw [both, (exec_neg hv).2.2]; rfl
      simp only [hb]
      exact ⟨nofun, iff_of_false (by simp) hv⟩
  | remove v =>
    by_cases hv : 0 ≤ v % s.1.numBuckets
    · by_cases hm : v ∈ s.2
      · obtain ⟨t, ht, hht, hsize⟩ := remove_present h hv hm
        have hb : both s (.remove v) = some (t, s.2.erase v) :=
          both_some (.bool true) (by rw [exec, ht, Option.map_some]) (decide_eq_true hm).symm
        have hcard : t.size.toInt = (s.2.erase v).card := by
          have hpos := Finset.card_pos.2 ⟨v, hm⟩
          rw [hsize, toInt_sub_one_int (by omega), Finset.card_erase_of_mem hm]
          omega
        simp only [hb, Option.some.injEq]
        exact ⟨by rintro t rfl; exact hht, iff_of_true ⟨_, rfl, hcard⟩ hv⟩
      · have hb : both s (.remove v) = some s := by
          have hb : both s (.remove v) = some (s.1, after s.2 (.remove v)) :=
            both_some (.bool false) (by rw [exec, remove_absent h hv hm, Option.map_some]) (decide_eq_false hm).symm
          rwa [after, Finset.erase_eq_of_notMem hm] at hb
        simp only [hb, Option.some.injEq]
        exact ⟨by rintro t rfl; exact h, iff_of_true ⟨_, rfl, hs⟩ hv⟩
    · have hb : both s (.remove v) = none := by rw [both, (exec_neg hv).2.1]; rfl
      simp only [hb]
      exact ⟨nofun, iff_of_false (by simp) hv⟩
  | add v =>
    by_cases hv : 0 ≤ v % s.1.numBuckets
    · by_cases hm : v ∈ s.2
      · have hb : both s (.add v) = some s := by
          have hb : both s (.add v) = some (s.1, after s.2 (.add v)) :=
            both_some (.bool false) (by rw [exec, add_present h hv hm, Option.map_some])
              (decide_eq_false (not_not.2 hm)).symm
          rwa [after, Finset.insert_eq_of_mem hm] at hb
        simp only [hb, Option.some.injEq]
        exact ⟨by rintro t rfl; exact h, iff_of_true ⟨_, rfl, hs⟩ ⟨hv, fun hn => absurd hm hn⟩⟩
      · obtain ⟨hroom, hfull⟩ := add_absent h hv hm
        by_cases hr : Room s.1 (v % s.1.numBuckets)
        · obtain ⟨t, ht, hht, hsize⟩ := hroom hr
          have hb : both s (.add v) = some (t, insert v s.2) :=
            both_some (.bool true) (by rw [exec, ht, Option.map_some]) (decide_eq_true hm).symm
          -- The new count is right unless it wraps.
          have hcard : t.size.toInt = (insert v s.2).card ↔ s.2.card + 1 < 2 ^ 31 := by
            have hone := toInt_add_one_int s.1.size
            rw [hsize, Finset.card_insert_of_notMem hm]
            omega
          simp only [hb, Option.some.injEq]
          refine ⟨by rintro t rfl; exact hht, ?_⟩
          rw [exists_eq_left', hcard]
          exact ⟨fun hlt => ⟨hv, fun _ => ⟨hr, hlt⟩⟩, fun hok => (hok.2 hm).2⟩
        · have hb : both s (.add v) = none := by rw [both, exec, hfull hr]; rfl
          simp only [hb]
          exact ⟨nofun, iff_of_false (by simp) fun hok => hr (hok.2 hm).1⟩
    · have hb : both s (.add v) = none := by rw [both, (exec_neg hv).1]; rfl
      simp only [hb]
      exact ⟨nofun, iff_of_false (by simp) fun hok => hv hok.1⟩

/-! ## Runs -/

theorem new_holds {numBuckets bucketInitialCapacity : Int32} {s : IntSet}
    (h : IntSet.new numBuckets bucketInitialCapacity = some s) : Holds (s, ∅) ∧ s.size = 0 := by
  unfold IntSet.new at h
  split at h
  · cases h
  · split at h
    · cases h
    · obtain rfl := Option.some.inj h
      have hempty : ∀ (n : Nat), (List.replicate n (none : Option Bucket)).flatMap itemsOf = [] := fun n =>
        List.flatMap_eq_nil_iff.2 fun o ho => by rw [List.eq_of_mem_replicate ho]; rfl
      refine ⟨⟨fun i o ho w hw => ?_, ?_, congrArg List.toFinset (hempty _)⟩, rfl⟩
      · rw [List.eq_of_mem_replicate (List.mem_of_getElem? ho)] at hw
        cases hw
      · rw [members, hempty]
        exact List.nodup_nil

/-- In every state of a run the set answers as the finite set, counts its
members and lists each once, exactly when every call of the run is `StepOk`. -/
theorem agrees_iff {numBuckets bucketInitialCapacity : Int32} {s : IntSet}
    (hnew : IntSet.new numBuckets bucketInitialCapacity = some s) (ops : List Op) :
    Always both Agrees (s, ∅) ops ↔ Along both StepOk (s, ∅) ops := by
  obtain ⟨hholds, hsize⟩ := new_holds hnew
  refine always_iff_along (I := Holds) (fun s op t h ha ht => ?_) (fun s op h ha => ?_) ops hholds ?_
  · exact (both_spec h ha.1 op).1 t ht
  · obtain ⟨hstep, hiff⟩ := both_spec h ha.1 op
    rw [← hiff]
    exact ⟨fun ⟨t, ht, hat⟩ => ⟨t, ht, hat.1⟩, fun ⟨t, ht, hst⟩ => ⟨t, ht, (agrees_iff_size (hstep t ht)).2 hst⟩⟩
  · exact (agrees_iff_size hholds).2 (by rw [hsize]; rfl)

/-- The set with four buckets of one cell each. -/
def smallSet : IntSet where
  buckets := List.replicate 4 none
  numBuckets := 4
  bucketInitialCapacity := 1
  size := 0
  positive := by decide
  isArray := by decide
  initial := by decide

/-- A bucket grows, values are removed and listed, a negative multiple of four
is added. -/
theorem agrees_small_run : Always both Agrees (smallSet, ∅)
    [.add 5, .add 9, .add 5, .remove 5, .contains 9, .add (-8), .toArray none, .clear] :=
  (agrees_iff (show IntSet.new 4 1 = some smallSet from rfl) _).2 (by decide +kernel)

/-- The default set throws at its first negative value. -/
theorem add_negative_throws : ∃ s, IntSet.new 128 8 = some s ∧ ¬ Always both Agrees (s, ∅) [.add (-1)] := by
  refine ⟨_, rfl, fun h => ?_⟩
  obtain ⟨-, t, ht, -⟩ := h
  have hthrow : ∀ s : IntSet, s.numBuckets = 128 → both (s, ∅) (.add (-1)) = none := by
    intro s hs
    rw [both, (exec_neg (by rw [hs]; decide)).1]
    rfl
  rw [hthrow _ rfl] at ht
  cases ht

end WorldWind.IntSets
