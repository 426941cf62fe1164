import Mathlib
/-!
# Records of equal length

A list written one record of `k` cells after another, and cut up again.
-/

namespace WorldWind.Lib

variable {α β : Type*} {k : Nat} {enc : β → List α}

theorem length_flatMap_const (h : ∀ v, (enc v).length = k) (l : List β) : (l.flatMap enc).length = k * l.length := by
  rw [List.length_flatMap, List.map_congr_left fun v _ => h v, List.map_const', List.sum_replicate_nat, Nat.mul_comm]

theorem drop_flatMap (h : ∀ v, (enc v).length = k) (l : List β) (n : Nat) :
    (l.flatMap enc).drop (k * n) = (l.drop n).flatMap enc := by
  induction l generalizing n with
  | nil => simp
  | cons v l ih =>
    cases n with
    | zero => simp
    | succ n =>
      rw [List.flatMap_cons, List.drop_succ_cons, ← ih, Nat.mul_succ, Nat.add_comm, ← List.drop_drop,
        List.drop_left' (h v)]

theorem take_flatMap (h : ∀ v, (enc v).length = k) (l : List β) (n : Nat) :
    (l.flatMap enc).take (k * n) = (l.take n).flatMap enc := by
  induction l generalizing n with
  | nil => simp
  | cons v l ih =>
    cases n with
    | zero => simp
    | succ n =>
      rw [List.take_succ_cons, List.flatMap_cons, List.flatMap_cons, ← ih, Nat.mul_succ, Nat.add_comm, ← h v,
        List.take_length_add_append]

/-- The whole records of a list. -/
def records (k : Nat) (l : List α) : List (List α) :=
  (List.range (l.length / k)).map fun i => (l.drop (k * i)).take k

theorem length_records (l : List α) : (records k l).length = l.length / k := by
  rw [records, List.length_map, List.length_range]

theorem records_flatMap (hk : 0 < k) (h : ∀ v, (enc v).length = k) (l : List β) :
    records k (l.flatMap enc) = l.map enc := by
  refine List.ext_getElem (by rw [length_records, length_flatMap_const h, Nat.mul_div_cancel_left _ hk,
    List.length_map]) fun i hi _ => ?_
  rw [length_records, length_flatMap_const h, Nat.mul_div_cancel_left _ hk] at hi
  simp only [records, List.getElem_map, List.getElem_range]
  rw [drop_flatMap h, List.drop_eq_getElem_cons hi, List.flatMap_cons, List.take_left' (h _)]

/-- Whole records behind one another are the list. -/
theorem flatten_records {l : List α} (h : k ∣ l.length) : (records k l).flatten = l := by
  obtain ⟨n, hn⟩ := h
  induction n generalizing l with
  | zero =>
    obtain rfl := List.eq_nil_of_length_eq_zero hn
    simp [records]
  | succ n ih =>
    rcases Nat.eq_zero_or_pos k with rfl | hk
    · obtain rfl := List.eq_nil_of_length_eq_zero (hn.trans (Nat.zero_mul _))
      simp [records]
    · have hlen : l.length / k = n + 1 := by rw [hn, Nat.mul_div_cancel_left _ hk]
      have hdrop : (l.drop k).length = k * n := by
        rw [List.length_drop, hn, Nat.mul_succ, Nat.add_sub_cancel]
      have hrest : records k l = l.take k :: records k (l.drop k) := by
        rw [records, records, hlen, hdrop, Nat.mul_div_cancel_left _ hk, List.range_succ_eq_map, List.map_cons,
          List.map_map, Nat.mul_zero, List.drop_zero]
        refine congrArg _ (List.map_congr_left fun i _ => ?_)
        rw [Function.comp_apply, List.drop_drop, Nat.succ_eq_add_one, Nat.mul_succ, Nat.add_comm]
      rw [hrest, List.flatten_cons, ih hdrop, List.take_append_drop]

theorem length_of_mem_records (hk : 0 < k) {l r : List α} (h : r ∈ records k l) : r.length = k := by
  obtain ⟨i, hi, rfl⟩ := List.mem_map.1 h
  have hi1 : i + 1 ≤ l.length / k := List.mem_range.1 hi
  have hend : k * (i + 1) ≤ l.length :=
    calc k * (i + 1) ≤ k * (l.length / k) := Nat.mul_le_mul_left _ hi1
      _ ≤ l.length := Nat.mul_div_le _ _
  rw [Nat.mul_succ] at hend
  rw [List.length_take, List.length_drop]
  omega

/-- Records that are decoded and encoded again are the list. -/
theorem flatMap_records (hk : 0 < k) {dec : List α → β} (h : ∀ r : List α, r.length = k → enc (dec r) = r)
    {l : List α}
    (hl : k ∣ l.length) : ((records k l).map dec).flatMap enc = l := by
  have hid : (records k l).map (fun r => enc (dec r)) = records k l :=
    (List.map_congr_left fun r hr => h r (length_of_mem_records hk hr)).trans (List.map_id _)
  rw [List.flatMap_map, List.flatMap_def, hid, flatten_records hl]

end WorldWind.Lib
