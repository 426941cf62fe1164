import WorldWind.Rasters.Rectify
/-!
# What a rectified raster holds

The loops over the rows are loops over all samples (`getExtremes_eq`,
`rectifySamples_eq`). Once the void value and the extremes of the other samples
are settled, every sample is a void or within the extremes, so nothing is
rejected (`rectify_keep`, `rectify_guess`).

The guess looks at the least sample alone. Another void value that is then the
least or the greatest sample left becomes an extreme. And feet that become a
void value by the conversion are taken for voids by the second run. Apart from
that, a second run finds what the first one left (`rectify_iff`).
-/

namespace WorldWind.Rasters

open Lib.JavaArray Lib.Loops

namespace ByteBufferRaster

/-! ## Samples and loops -/

/-- The samples, row by row. -/
def cells (r : ByteBufferRaster) : List ℚ := r.buffer.take (r.width * r.height)

/-- The buffer is as long as the constructor asks for, and the samples are below the ends that stand for no number. -/
structure Valid (r : ByteBufferRaster) : Prop where
  size : r.width * r.height ≤ r.buffer.length
  finite : ∀ x ∈ r.cells, |x| < MAX_VALUE

variable {r : ByteBufferRaster}

/-- A row, behind the rows above it. -/
theorem take_succ_row (l : List ℚ) (j width : Nat) :
    l.take ((j + 1) * width) = l.take (j * width) ++ (l.drop (j * width)).take width := by
  rw [Nat.succ_mul, List.take_add]

theorem row_le (h : Valid r) {j : Nat} (hj : j < r.height) : j * r.width + r.width ≤ r.buffer.length := by
  rw [← Nat.succ_mul]
  refine le_trans ?_ h.size
  rw [Nat.mul_comm r.width]
  exact Nat.mul_le_mul_right _ hj

theorem getDoubles_at {buffer : List ℚ} {j width : Nat} (h : j * width + width ≤ buffer.length) :
    getDoubles buffer ((j : Int) * (width : Int)) width = some ((buffer.drop (j * width)).take width) := by
  rw [show (j : Int) * (width : Int) = ((j * width : Nat) : Int) by push_cast; rfl, getDoubles,
    if_pos ⟨by omega, by omega, by omega⟩, Int.toNat_natCast, Int.toNat_natCast]

theorem getExtremes_eq (h : Valid r) :
    r.getExtremes = some (r.cells.foldl (addExtreme r.getTransparentValue) none) := by
  have hstep : ∀ j e, j < r.height → e = (r.buffer.take (j * r.width)).foldl (addExtreme r.getTransparentValue) none →
      ∃ e', ((getDoubles r.buffer ((j : Int) * r.width) r.width).map fun buffer =>
        buffer.foldl (addExtreme r.getTransparentValue) e) = some e' ∧
        e' = (r.buffer.take ((j + 1) * r.width)).foldl (addExtreme r.getTransparentValue) none := by
    intro j e hj he
    refine ⟨_, by rw [getDoubles_at (row_le h hj), Option.map_some], ?_⟩
    rw [he, ← List.foldl_append, ← take_succ_row]
  obtain ⟨e, he, hinv⟩ := foldlM_range
    (fun n e => e = (r.buffer.take (n * r.width)).foldl (addExtreme r.getTransparentValue) none)
    (show none = _ by rw [Nat.zero_mul]; rfl) hstep
  rw [getExtremes, he, hinv, cells, Nat.mul_comm]

/-! ## Extremes -/

/-- The samples other than a value. -/
def others (l : List ℚ) (t : ℚ) : Set ℚ := {x | x ∈ l ∧ x ≠ t}

/-- The extremes of the samples so far, and none where there are none. -/
theorem foldl_addExtreme {l : List ℚ} {t : ℚ} (h : ∀ x ∈ l, |x| < MAX_VALUE) :
    (l.foldl (addExtreme t) none = none ∧ ∀ x ∈ l, x = t) ∨
      ∃ lo hi, l.foldl (addExtreme t) none = some (lo, hi) ∧ IsLeast (others l t) lo ∧
        IsGreatest (others l t) hi := by
  induction l using List.reverseRecOn with
  | nil => exact Or.inl ⟨rfl, fun x hx => absurd hx List.not_mem_nil⟩
  | append_singleton l x ih =>
    have ih := ih fun y hy => h y (List.mem_append_left _ hy)
    have hx := abs_lt.1 (h x (by simp))
    rw [List.foldl_append, List.foldl_cons, List.foldl_nil]
    by_cases hxt : x = t
    · -- a missing sample
      have hsame : others (l ++ [x]) t = others l t := by
        ext y
        simp only [others, List.mem_append, List.mem_singleton, Set.mem_ofPred_eq]
        constructor
        · rintro ⟨hy | hy, hne⟩
          · exact ⟨hy, hne⟩
          · exact absurd (hy.trans hxt) hne
        · exact fun hy => ⟨Or.inl hy.1, hy.2⟩
      rcases ih with ⟨hnone, hall⟩ | ⟨lo, hi, hsome, hlo, hhi⟩
      · refine Or.inl ⟨by rw [hnone, addExtreme, if_pos hxt], fun y hy => ?_⟩
        rcases List.mem_append.1 hy with hy | hy
        · exact hall y hy
        · rw [List.mem_singleton.1 hy, hxt]
      · exact Or.inr ⟨lo, hi, by rw [hsome, addExtreme, if_pos hxt], by rwa [hsame], by rwa [hsame]⟩
    · refine Or.inr ?_
      rw [addExtreme, if_neg hxt]
      rcases ih with ⟨hnone, hall⟩ | ⟨lo, hi, hsome, hlo, hhi⟩
      · have hsingle : others (l ++ [x]) t = {x} := by
          ext y
          simp only [others, List.mem_append, List.mem_singleton, Set.mem_ofPred_eq, Set.mem_singleton_iff]
          constructor
          · rintro ⟨hy | hy, hne⟩
            · exact absurd (hall y hy) hne
            · exact hy
          · rintro rfl
            exact ⟨Or.inr rfl, hxt⟩
        refine ⟨x, x, ?_, hsingle ▸ isLeast_singleton, hsingle ▸ isGreatest_singleton⟩
        rw [hnone, Option.getD_none]
        dsimp only
        rw [if_pos hx.2, if_pos hx.1]
      · have hinsert : others (l ++ [x]) t = insert x (others l t) := by
          ext y
          simp only [others, List.mem_append, List.mem_singleton, Set.mem_ofPred_eq, Set.mem_insert_iff]
          constructor
          · rintro ⟨hy | hy, hne⟩
            · exact Or.inr ⟨hy, hne⟩
            · exact Or.inl hy
          · rintro (rfl | hy)
            · exact ⟨Or.inr rfl, hxt⟩
            · exact ⟨Or.inl hy.1, hy.2⟩
        refine ⟨min x lo, max x hi, ?_, hinsert ▸ hlo.insert x, hinsert ▸ hhi.insert x⟩
        rw [hsome, Option.getD_some]
        dsimp only
        rw [min_def, max_def]
        congr 2 <;> split_ifs <;> linarith

/-! ## The last loop -/

/-- An elevation in metres. -/
def toMeters (r : ByteBufferRaster) (v : ℚ) : ℚ := if r.elevationUnit = some .foot then convertFeetToMeters v else v

theorem METERS_TO_FEET_pos : 0 < METERS_TO_FEET := by norm_num [METERS_TO_FEET]

theorem toMeters_lt (r : ByteBufferRaster) {x y : ℚ} : r.toMeters x < r.toMeters y ↔ x < y := by
  rw [toMeters, toMeters]
  split_ifs
  · exact div_lt_div_iff_of_pos_right METERS_TO_FEET_pos
  · exact Iff.rfl

theorem toMeters_le (r : ByteBufferRaster) {x y : ℚ} : r.toMeters x ≤ r.toMeters y ↔ x ≤ y := by
  rw [← not_lt, toMeters_lt, not_lt]

theorem toMeters_inj (r : ByteBufferRaster) {x y : ℚ} : r.toMeters x = r.toMeters y ↔ x = y := by
  rw [le_antisymm_iff, toMeters_le, toMeters_le, ← le_antisymm_iff]

theorem abs_toMeters_le (r : ByteBufferRaster) (x : ℚ) : |r.toMeters x| ≤ |x| := by
  rw [toMeters]
  split_ifs
  · rw [convertFeetToMeters, abs_div, abs_of_pos METERS_TO_FEET_pos]
    refine div_le_self (abs_nonneg x) ?_
    norm_num [METERS_TO_FEET]
  · exact le_rfl

/-- Every row is read, changed and written back where it has a change. -/
theorem rectifyRows_eq (h : Valid r) {f : ℚ → ℚ × Bool × Bool} (hf : ∀ v, (f v).2.2 = false → (f v).1 = v) :
    (List.range r.height).foldlM (rectifyRow r.width f) (r.buffer, false) =
      some (r.cells.map (fun v => (f v).1) ++ r.buffer.drop (r.width * r.height), r.cells.any fun v =>
        (f v).2.1) := by
  let done : Nat → List ℚ × Bool := fun j =>
    ((r.buffer.take (j * r.width)).map (fun v => (f v).1) ++ r.buffer.drop (j * r.width),
      (r.buffer.take (j * r.width)).any fun v => (f v).2.1)
  have hstep : ∀ j s, j < r.height → s = done j → ∃ s', rectifyRow r.width f s j = some s' ∧ s' = done (j + 1) := by
    rintro j s hj rfl
    have hrow := row_le h hj
    have hlen : ((r.buffer.take (j * r.width)).map fun v => (f v).1).length = j * r.width := by
      rw [List.length_map, List.length_take]
      omega
    have hwidth : ((r.buffer.drop (j * r.width)).take r.width).length = r.width := by
      rw [List.length_take, List.length_drop]
      omega
    have hread : getDoubles (done j).1 ((j : Int) * (r.width : Int)) r.width =
        some ((r.buffer.drop (j * r.width)).take r.width) := by
      rw [getDoubles_at (by simp only [done, List.length_append, hlen, List.length_drop]; omega)]
      simp only [done]
      rw [List.drop_left' hlen]
    have hvoids : (done (j + 1)).2 =
        ((done j).2 || ((r.buffer.drop (j * r.width)).take r.width).any fun v => (f v).2.1) := by
      simp only [done, take_succ_row, List.any_append]
    have hbuffer : (done (j + 1)).1 = (r.buffer.take (j * r.width)).map (fun v => (f v).1) ++
        ((r.buffer.drop (j * r.width)).take r.width).map (fun v => (f v).1) ++
          r.buffer.drop (j * r.width + r.width) := by
      simp only [done, Nat.succ_mul, List.take_add, List.map_append]
    have hrest : (done j).1.drop (j * r.width + r.width) = r.buffer.drop (j * r.width + r.width) := by
      simp only [done]
      rw [← List.drop_drop, List.drop_left' hlen, List.drop_drop]
    refine ⟨_, ?_, rfl⟩
    rw [rectifyRow, hread, Option.bind_some]
    simp only [List.any_map, List.map_map, Function.comp_def]
    by_cases hcommit : (((r.buffer.drop (j * r.width)).take r.width).any fun v => (f v).2.2) = true
    · have hput : putDoubles (done j).1 ((j : Int) * (r.width : Int))
          (((r.buffer.drop (j * r.width)).take r.width).map fun v => (f v).1) = some (done (j + 1)).1 := by
        rw [show (j : Int) * (r.width : Int) = ((j * r.width : Nat) : Int) by push_cast; rfl, putDoubles, if_pos,
          hbuffer, Int.toNat_natCast, blit, List.length_map, hwidth, hrest]
        · simp only [done]
          rw [List.take_left' hlen]
        · simp only [done, List.length_append, List.length_map, hwidth, List.length_take, List.length_drop]
          omega
      rw [if_pos hcommit, hput, Option.map_some, ← hvoids]
    · -- no sample of the row has changed
      have hsame : ((r.buffer.drop (j * r.width)).take r.width).map (fun v => (f v).1) =
          (r.buffer.drop (j * r.width)).take r.width := by
        refine (List.map_congr_left fun v hv => hf v ?_).trans (List.map_id _)
        by_contra hne
        exact hcommit (List.any_eq_true.2 ⟨v, hv, by simpa using hne⟩)
      have hkeep : (done (j + 1)).1 = (done j).1 := by
        rw [hbuffer, hsame, List.append_assoc, ← List.drop_drop, List.take_append_drop]
      rw [if_neg hcommit, ← hvoids, ← hkeep]
  obtain ⟨s, hs, hinv⟩ := foldlM_range (fun j s => s = done j) (show (r.buffer, false) = done 0 by simp [done]) hstep
  rw [hs, hinv]
  simp only [done, cells, Nat.mul_comm]

/-- The raster when its void value and its extremes are settled, and all its other samples lie within them. -/
def rectified (r : ByteBufferRaster) (signal : Option ℚ) (lo hi : ℚ) : ByteBufferRaster :=
  { r with
    buffer := r.cells.map (fun v => if signal = some v then v else r.toMeters v) ++ r.buffer.drop (r.width * r.height)
    elevationUnit := if r.elevationUnit = some .foot then some .meter else r.elevationUnit
    missingDataSignal := if ∃ v ∈ r.cells, signal = some v then signal.map SignalValue.double else none
    elevationMin := some (r.toMeters lo)
    elevationMax := some (r.toMeters hi) }

/-- A sample without a change keeps its value. -/
theorem rectifyValue_unchanged {signal : Option ℚ} {needsConversion : Bool} {factor lo hi v : ℚ} :
    (rectifyValue signal needsConversion factor lo hi v).2.2 = false →
      (rectifyValue signal needsConversion factor lo hi v).1 = v := by
  rw [rectifyValue]
  by_cases hsig : signal = some v
  · rw [if_pos hsig]
    exact fun _ => rfl
  rw [if_neg hsig]
  cases needsConversion with
  | false =>
    simp only [Bool.false_eq_true, if_false]
    by_cases hout : v < lo ∨ v > hi
    · rw [if_pos hout]
      cases signal with
      | none => exact fun _ => rfl
      | some m => exact fun h => (Bool.false_ne_true h.symm).elim
    · rw [if_neg hout]
      exact fun _ => rfl
  | true =>
    intro h
    simp only [if_true] at h
    split_ifs at h with hout
    · cases signal <;> cases h

theorem rectifySamples_eq (h : Valid r) {signal : Option ℚ} {lo hi : ℚ}
    (hin : ∀ v ∈ r.cells, signal ≠ some v → lo ≤ v ∧ v ≤ hi) :
    r.rectifySamples signal lo hi = some (r.rectified signal lo hi) := by
  let needs : Bool := r.elevationUnit = some .foot
  have hbound : ∀ x, (if needs = true then convertFeetToMeters x else x) = r.toMeters x := fun x => by
    simp only [needs, decide_eq_true_eq, toMeters]
  have hscale : ∀ v, (if needs = true then v * (if needs = true then convertFeetToMeters 1 else 1) else v) =
      r.toMeters v := by
    intro v
    rw [← hbound v]
    split_ifs
    · exact mul_one_div v METERS_TO_FEET
    · rfl
  let f := rectifyValue signal needs (if needs = true then convertFeetToMeters 1 else 1) (r.toMeters lo)
    (r.toMeters hi)
  have hf : ∀ v, (f v).2.2 = false → (f v).1 = v := fun v => rectifyValue_unchanged
  have hcell : ∀ v ∈ r.cells, (f v).1 = (if signal = some v then v else r.toMeters v) ∧
      ((f v).2.1 = true ↔ signal = some v) := by
    intro v hv
    simp only [f, rectifyValue, hscale]
    by_cases hsig : signal = some v
    · rw [if_pos hsig, if_pos hsig]
      exact ⟨rfl, iff_of_true rfl hsig⟩
    · have hv := hin v hv hsig
      rw [if_neg hsig, if_neg hsig, if_neg]
      · exact ⟨rfl, iff_of_false Bool.false_ne_true hsig⟩
      · rw [gt_iff_lt, toMeters_lt, toMeters_lt]
        rintro (hlt | hlt)
        · exact absurd hv.1 (not_le.2 hlt)
        · exact absurd hv.2 (not_le.2 hlt)
  have hvoids : (r.cells.any fun v => (f v).2.1) = true ↔ ∃ v ∈ r.cells, signal = some v := by
    rw [List.any_eq_true]
    exact exists_congr fun v => and_congr_right fun hv => (hcell v hv).2
  have hsome : (∃ v ∈ r.cells, signal = some v) →
      (signal.map SignalValue.double).or r.missingDataSignal = signal.map SignalValue.double := by
    rintro ⟨v, -, rfl⟩
    rfl
  rw [rectifySamples, hbound, hbound, rectifyRows_eq h hf, Option.map_some, rectified]
  simp only [hvoids, decide_eq_true_eq, List.map_congr_left fun v hv => (hcell v hv).1]
  congr 2
  exact if_ctx_congr Iff.rfl hsome fun _ => rfl

/-! ## The void value -/

theorem getExtremes_of_others (h : Valid r) {lo hi : ℚ} (hlo : IsLeast (others r.cells r.getTransparentValue) lo)
    (hhi : IsGreatest (others r.cells r.getTransparentValue) hi) : r.getExtremes = some (some (lo, hi)) := by
  rw [getExtremes_eq h]
  rcases foldl_addExtreme (t := r.getTransparentValue) h.finite with ⟨-, hall⟩ | ⟨lo', hi', hsome, hlo', hhi'⟩
  · exact absurd (hall lo hlo.1.1) hlo.1.2
  · rw [hsome, hlo.unique hlo', hhi.unique hhi']

theorem getExtremes_of_all (h : Valid r) (hall : ∀ x ∈ r.cells, x = r.getTransparentValue) :
    r.getExtremes = some none := by
  rw [getExtremes_eq h]
  rcases foldl_addExtreme (t := r.getTransparentValue) h.finite with ⟨hnone, -⟩ | ⟨lo, -, -, hlo, -⟩
  · rw [hnone]
  · exact absurd (hall lo hlo.1.1) hlo.1.2

/-- A raster with a sample has rows and columns. -/
theorem size_ne_zero {x : ℚ} (h : x ∈ r.cells) : ¬(r.width = 0 ∨ r.height = 0) := by
  rintro (hw | hh)
  · rw [cells, hw, Nat.zero_mul, List.take_zero] at h
    exact List.not_mem_nil h
  · rw [cells, hh, Nat.mul_zero, List.take_zero] at h
    exact List.not_mem_nil h

/-- A sample that is not the signal is not transparent either. -/
theorem ne_transparent (h : Valid r) {v : ℚ} (hv : v ∈ r.cells) (hsignal : r.signalValue ≠ some v) :
    v ≠ r.getTransparentValue := by
  have hmax : v ≠ MAX_VALUE := fun heq => by
    have := h.finite v hv
    rw [heq] at this
    exact absurd (le_abs_self MAX_VALUE) (not_le.2 this)
  rw [getTransparentValue]
  rw [signalValue] at hsignal
  match hm : r.missingDataSignal with
  | none => exact hmax
  | some (.other _) => exact hmax
  | some (.double x) =>
    rw [hm] at hsignal
    exact fun heq => hsignal (congrArg some heq.symm)

/-- Nothing to do. -/
theorem rectify_of_all (h : Valid r) (hall : ∀ x ∈ r.cells, x = r.getTransparentValue) : r.rectify = some r := by
  rw [rectify, getExtremes_of_all h hall]
  split_ifs <;> rfl

/-- One of the known missing signals, or the declared one. -/
def Missing (r : ByteBufferRaster) (v : ℚ) : Prop := isKnownMissingSignal v = true ∨ r.signalValue = some v

instance (v : ℚ) : Decidable (r.Missing v) := inferInstanceAs (Decidable (_ ∨ _))

theorem rectify_keep (h : Valid r) {lo hi : ℚ} (hlo : IsLeast (others r.cells r.getTransparentValue) lo)
    (hhi : IsGreatest (others r.cells r.getTransparentValue) hi) (hmissing : ¬r.Missing lo) :
    r.rectify = some (r.rectified r.signalValue lo hi) := by
  have hcond : ¬(isKnownMissingSignal lo || decide (r.signalValue = some lo)) = true := by
    rwa [Bool.or_eq_true, decide_eq_true_eq]
  rw [rectify, if_neg (size_ne_zero hlo.1.1), getExtremes_of_others h hlo hhi, Option.bind_some]
  dsimp only
  rw [if_neg hcond]
  refine rectifySamples_eq h fun v hv hsignal => ?_
  have hin : v ∈ others r.cells r.getTransparentValue := ⟨hv, ne_transparent h hv hsignal⟩
  exact ⟨hlo.2 hin, hhi.2 hin⟩

theorem valid_setTransparentValue (h : Valid r) (m : ℚ) : Valid (r.setTransparentValue m) := ⟨h.size, h.finite⟩

theorem rectify_guess (h : Valid r) {m x lo hi : ℚ} (hm : IsLeast (others r.cells r.getTransparentValue) m)
    (hx : IsGreatest (others r.cells r.getTransparentValue) x) (hmissing : r.Missing m)
    (hlo : IsLeast (others r.cells m) lo) (hhi : IsGreatest (others r.cells m) hi) :
    r.rectify = some ((r.setTransparentValue m).rectified (some m) lo hi) := by
  have hcond : (isKnownMissingSignal m || decide (r.signalValue = some m)) = true := by
    rwa [Bool.or_eq_true, decide_eq_true_eq]
  rw [rectify, if_neg (size_ne_zero hm.1.1), getExtremes_of_others h hm hx, Option.bind_some]
  dsimp only
  rw [if_pos hcond, getExtremes_of_others (valid_setTransparentValue h m) hlo hhi, Option.bind_some, Option.getD_some]
  refine rectifySamples_eq (valid_setTransparentValue h m) fun v hv hsignal => ?_
  have hin : v ∈ others r.cells m := ⟨hv, fun heq => hsignal (congrArg some heq.symm)⟩
  exact ⟨hlo.2 hin, hhi.2 hin⟩

/-- All samples are the least one, which is taken for a void value. -/
theorem rectify_guess_all (h : Valid r) {m x : ℚ} (hm : IsLeast (others r.cells r.getTransparentValue) m)
    (hx : IsGreatest (others r.cells r.getTransparentValue) x) (hmissing : r.Missing m)
    (hall : ∀ v ∈ r.cells, v = m) :
    r.rectify = some ((r.setTransparentValue m).rectified (some m) m x) := by
  have hcond : (isKnownMissingSignal m || decide (r.signalValue = some m)) = true := by
    rwa [Bool.or_eq_true, decide_eq_true_eq]
  rw [rectify, if_neg (size_ne_zero hm.1.1), getExtremes_of_others h hm hx, Option.bind_some]
  dsimp only
  rw [if_pos hcond, getExtremes_of_all (valid_setTransparentValue h m) hall, Option.bind_some, Option.getD_none]
  exact rectifySamples_eq (valid_setTransparentValue h m) fun v hv hsignal =>
    absurd (congrArg some (hall v hv).symm) hsignal

/-- The samples other than a value have extremes, if there are any. -/
theorem exists_extremes {l : List ℚ} {t v : ℚ} (h : ∀ x ∈ l, |x| < MAX_VALUE) (hv : v ∈ others l t) :
    ∃ lo hi, IsLeast (others l t) lo ∧ IsGreatest (others l t) hi := by
  rcases foldl_addExtreme (t := t) h with ⟨-, hall⟩ | ⟨lo, hi, -, hlo, hhi⟩
  · exact absurd (hall v hv.1) hv.2
  · exact ⟨lo, hi, hlo, hhi⟩

/-- A guessed void value stays in the raster. -/
theorem rectify_missingDataSignal (h : Valid r) {m : ℚ} (hm : IsLeast (others r.cells r.getTransparentValue) m)
    (hmissing : r.Missing m) {r' : ByteBufferRaster} (hr' : r.rectify = some r') :
    r'.missingDataSignal = some (.double m) := by
  have hvoid : ∀ lo hi, ((r.setTransparentValue m).rectified (some m) lo hi).missingDataSignal = some (.double m) :=
    fun lo hi => if_pos ⟨m, hm.1.1, rfl⟩
  obtain ⟨_, x, -, hx⟩ := exists_extremes h.finite hm.1
  by_cases hall : ∀ v ∈ r.cells, v = m
  · rw [rectify_guess_all h hm hx hmissing hall] at hr'
    exact Option.some.inj hr' ▸ hvoid m x
  · push Not at hall
    obtain ⟨v, hv⟩ := hall
    obtain ⟨lo, hi, hlo, hhi⟩ := exists_extremes h.finite hv
    rw [rectify_guess h hm hx hmissing hlo hhi] at hr'
    exact Option.some.inj hr' ▸ hvoid lo hi

/-- The raster with the void value of the last loop: the least sample, where that is a missing signal. -/
def Settles (r s : ByteBufferRaster) : Prop :=
  ∃ m, IsLeast (others r.cells r.getTransparentValue) m ∧ s = if r.Missing m then r.setTransparentValue m else r

/-- The extremes of the settled raster, which the last loop puts in place. -/
structure Extremes (s : ByteBufferRaster) (lo hi : ℚ) : Prop where
  least : IsLeast (others s.cells s.getTransparentValue) lo
  greatest : IsGreatest (others s.cells s.getTransparentValue) hi

theorem rectify_settled (h : Valid r) {v : ℚ} (hv : v ∈ r.cells) (hmissing : ¬r.Missing v) :
    ∃ s lo hi, r.Settles s ∧ s.Extremes lo hi ∧ r.rectify = some (s.rectified s.signalValue lo hi) := by
  have hvt : v ∈ others r.cells r.getTransparentValue := ⟨hv, ne_transparent h hv fun hsig => hmissing (Or.inr hsig)⟩
  obtain ⟨m, x, hm, hx⟩ := exists_extremes h.finite hvt
  by_cases hguess : r.Missing m
  · have hvm : v ∈ others r.cells m := ⟨hv, fun heq => hmissing (heq ▸ hguess)⟩
    obtain ⟨lo, hi, hlo, hhi⟩ := exists_extremes h.finite hvm
    exact ⟨_, lo, hi, ⟨m, hm, (if_pos hguess).symm⟩, ⟨hlo, hhi⟩, rectify_guess h hm hx hguess hlo hhi⟩
  · exact ⟨r, m, x, ⟨m, hm, (if_neg hguess).symm⟩, ⟨hm, hx⟩, rectify_keep h hm hx hguess⟩

theorem Settles.unique {s s' : ByteBufferRaster} (hs : r.Settles s) (hs' : r.Settles s') : s = s' := by
  obtain ⟨m, hm, rfl⟩ := hs
  obtain ⟨m', hm', rfl⟩ := hs'
  rw [hm.unique hm']

theorem Settles.cells_eq {s : ByteBufferRaster} (hs : r.Settles s) : s.cells = r.cells := by
  obtain ⟨m, -, rfl⟩ := hs
  split_ifs <;> rfl

theorem Settles.toMeters_eq {s : ByteBufferRaster} (hs : r.Settles s) (v : ℚ) : s.toMeters v = r.toMeters v := by
  obtain ⟨m, -, rfl⟩ := hs
  split_ifs <;> rfl

theorem Settles.valid {s : ByteBufferRaster} (hs : r.Settles s) (h : Valid r) : Valid s := by
  obtain ⟨m, -, rfl⟩ := hs
  split_ifs
  · exact valid_setTransparentValue h m
  · exact h

/-! ## A second run -/

section Second

variable {s : ByteBufferRaster} {lo hi : ℚ}

/-- A sample after the last loop. -/
def rectifiedValue (s : ByteBufferRaster) (v : ℚ) : ℚ := if s.signalValue = some v then v else s.toMeters v

theorem cells_rectified (h : Valid s) :
    (s.rectified s.signalValue lo hi).cells = s.cells.map s.rectifiedValue := by
  have hlen : (s.cells.map s.rectifiedValue).length = s.width * s.height := by
    rw [List.length_map, cells, List.length_take, Nat.min_eq_left h.size]
  exact List.take_left' hlen

theorem toMeters_rectified (v : ℚ) : (s.rectified s.signalValue lo hi).toMeters v = v := by
  refine if_neg ?_
  simp only [rectified]
  split_ifs with hfoot
  · decide
  · exact hfoot

theorem valid_rectified (h : Valid s) : Valid (s.rectified s.signalValue lo hi) := by
  constructor
  · have hlen : s.cells.length = s.width * s.height := by
      rw [cells, List.length_take, Nat.min_eq_left h.size]
    simp only [rectified, List.length_append, List.length_map, hlen]
    omega
  · rw [cells_rectified h]
    intro x hx
    obtain ⟨v, hv, rfl⟩ := List.mem_map.1 hx
    rw [rectifiedValue]
    split_ifs
    · exact h.finite v hv
    · exact (s.abs_toMeters_le v).trans_lt (h.finite v hv)

/-- The last loop changes nothing where its void value and its extremes are those in place. -/
theorem rectified_rectified (h : Valid s) {signal : Option ℚ} {lo' hi' : ℚ} :
    (s.rectified s.signalValue lo hi).rectified signal lo' hi' = s.rectified s.signalValue lo hi ↔
      ((if ∃ x ∈ s.cells.map s.rectifiedValue, signal = some x then signal.map SignalValue.double else none) =
        (s.rectified s.signalValue lo hi).missingDataSignal) ∧ lo' = s.toMeters lo ∧ hi' = s.toMeters hi := by
  let r' := s.rectified s.signalValue lo hi
  have hbuffer : r'.cells.map (fun v => if signal = some v then v else r'.toMeters v) ++
      r'.buffer.drop (r'.width * r'.height) = r'.buffer := by
    have hid : (fun v => if signal = some v then v else r'.toMeters v) = id := by
      funext v
      rw [toMeters_rectified, ite_self, id]
    rw [hid, List.map_id, cells, List.take_append_drop]
  have hunit : (if r'.elevationUnit = some .foot then some .meter else r'.elevationUnit) = r'.elevationUnit := by
    refine if_neg ?_
    simp only [r', rectified]
    split_ifs with hfoot
    · decide
    · exact hfoot
  have heq : r'.rectified signal lo' hi' = { r' with
      missingDataSignal := if ∃ v ∈ r'.cells, signal = some v then signal.map SignalValue.double else none
      elevationMin := some lo'
      elevationMax := some hi' } := by
    rw [rectified, hbuffer, hunit, toMeters_rectified, toMeters_rectified]
  have hcells : r'.cells = s.cells.map s.rectifiedValue := cells_rectified h
  change r'.rectified signal lo' hi' = r' ↔ _
  rw [heq, hcells]
  constructor
  · intro h
    have hmin := congrArg ByteBufferRaster.elevationMin h
    have hmax := congrArg ByteBufferRaster.elevationMax h
    exact ⟨congrArg ByteBufferRaster.missingDataSignal h, Option.some.inj hmin, Option.some.inj hmax⟩
  · rintro ⟨hsignal, rfl, rfl⟩
    rw [hsignal]
    rfl

/-- When a second run leaves everything as it is, given what the first run has put in place. -/
def Stable (s : ByteBufferRaster) (lo hi : ℚ) : Prop :=
  if ∃ v ∈ s.cells, s.signalValue = some v then
    (lo = hi ∧ s.signalValue = some (s.toMeters lo)) ∨
      (s.signalValue ≠ some (s.toMeters lo) ∧ s.signalValue ≠ some (s.toMeters hi) ∧
        ¬isKnownMissingSignal (s.toMeters lo))
  else ¬isKnownMissingSignal (s.toMeters lo)

theorem stable_of_no_void (h : Valid s) (he : s.Extremes lo hi) (hvoid : ∀ v ∈ s.cells, s.signalValue ≠ some v) :
    (s.rectified s.signalValue lo hi).rectify = some (s.rectified s.signalValue lo hi) ↔
      ¬isKnownMissingSignal (s.toMeters lo) := by
  have hcells : (s.rectified s.signalValue lo hi).cells = s.cells.map s.toMeters := by
    rw [cells_rectified h]
    exact List.map_congr_left fun v hv => if_neg (hvoid v hv)
  have hnone : (s.rectified s.signalValue lo hi).missingDataSignal = none :=
    if_neg fun hex => hex.elim fun v hv => hvoid v hv.1 hv.2
  have hsignal : (s.rectified s.signalValue lo hi).signalValue = none := by
    rw [signalValue, hnone]
  have hT : (s.rectified s.signalValue lo hi).getTransparentValue = MAX_VALUE := by
    rw [getTransparentValue, hnone]
    rfl
  have hvalid := @valid_rectified _ lo hi h
  have hin : ∀ {v}, v ∈ s.cells → v ∈ others s.cells s.getTransparentValue := fun hv =>
    ⟨hv, ne_transparent h hv (hvoid _ hv)⟩
  have hmem : ∀ {x}, x ∈ others (s.cells.map s.toMeters) MAX_VALUE ↔ ∃ v ∈ s.cells, s.toMeters v = x := by
    intro x
    refine ⟨fun hx => List.mem_map.1 hx.1, fun hx => ⟨List.mem_map.2 hx, fun heq => ?_⟩⟩
    obtain ⟨v, hv, rfl⟩ := hx
    have hlt := (s.abs_toMeters_le v).trans_lt (h.finite v hv)
    rw [heq] at hlt
    exact absurd (le_abs_self MAX_VALUE) (not_le.2 hlt)
  have hleast : IsLeast (others (s.rectified s.signalValue lo hi).cells
      (s.rectified s.signalValue lo hi).getTransparentValue) (s.toMeters lo) := by
    rw [hcells, hT]
    refine ⟨hmem.2 ⟨lo, he.least.1.1, rfl⟩, fun x hx => ?_⟩
    obtain ⟨v, hv, rfl⟩ := hmem.1 hx
    exact s.toMeters_le.2 (he.least.2 (hin hv))
  have hgreatest : IsGreatest (others (s.rectified s.signalValue lo hi).cells
      (s.rectified s.signalValue lo hi).getTransparentValue) (s.toMeters hi) := by
    rw [hcells, hT]
    refine ⟨hmem.2 ⟨hi, he.greatest.1.1, rfl⟩, fun x hx => ?_⟩
    obtain ⟨v, hv, rfl⟩ := hmem.1 hx
    exact s.toMeters_le.2 (he.greatest.2 (hin hv))
  by_cases hknown : isKnownMissingSignal (s.toMeters lo) = true
  · refine iff_of_false (fun hr => ?_) (not_not.2 hknown)
    have := rectify_missingDataSignal hvalid hleast (Or.inl hknown) hr
    rw [hnone] at this
    cases this
  · refine iff_of_true ?_ hknown
    have hmissing : ¬(s.rectified s.signalValue lo hi).Missing (s.toMeters lo) := by
      rintro (hk | hs)
      · exact hknown hk
      · rw [hsignal] at hs
        cases hs
    rw [rectify_keep hvalid hleast hgreatest hmissing, hsignal]
    refine congrArg some ((rectified_rectified h).2 ⟨?_, rfl, rfl⟩)
    rw [hnone]
    exact if_neg fun hex => hex.elim fun v hv => by cases hv.2

theorem stable_of_void (h : Valid s) (he : s.Extremes lo hi) (hlo : s.signalValue ≠ some lo)
    (hhi : s.signalValue ≠ some hi) {m : ℚ} (hm : m ∈ s.cells) (hsignal : s.signalValue = some m) :
    (s.rectified s.signalValue lo hi).rectify = some (s.rectified s.signalValue lo hi) ↔
      (lo = hi ∧ m = s.toMeters lo) ∨
        (m ≠ s.toMeters lo ∧ m ≠ s.toMeters hi ∧ ¬isKnownMissingSignal (s.toMeters lo)) := by
  have hcells : (s.rectified s.signalValue lo hi).cells = s.cells.map s.rectifiedValue := cells_rectified h
  have hmissing : (s.rectified s.signalValue lo hi).missingDataSignal = some (.double m) := by
    rw [rectified]
    dsimp only
    rw [if_pos ⟨m, hm, hsignal⟩, hsignal]
    rfl
  have hsignal' : (s.rectified s.signalValue lo hi).signalValue = some m := by
    rw [signalValue, hmissing]
  have hT : (s.rectified s.signalValue lo hi).getTransparentValue = m := by
    rw [getTransparentValue, hmissing]
    rfl
  have hvalid := @valid_rectified _ lo hi h
  have hmem : ∀ {x}, x ∈ others (s.cells.map s.rectifiedValue) m ↔
      ∃ v ∈ s.cells, s.signalValue ≠ some v ∧ s.toMeters v = x ∧ x ≠ m := by
    intro x
    constructor
    · rintro ⟨hx, hne⟩
      obtain ⟨v, hv, rfl⟩ := List.mem_map.1 hx
      rw [rectifiedValue] at hne ⊢
      by_cases hvoid : s.signalValue = some v
      · rw [if_pos hvoid] at hne
        rw [hsignal] at hvoid
        exact absurd (Option.some.inj hvoid).symm hne
      · rw [if_neg hvoid] at hne ⊢
        exact ⟨v, hv, hvoid, rfl, hne⟩
    · rintro ⟨v, hv, hvoid, rfl, hne⟩
      exact ⟨List.mem_map.2 ⟨v, hv, if_neg hvoid⟩, hne⟩
  have hin : ∀ {v}, v ∈ s.cells → s.signalValue ≠ some v → lo ≤ v ∧ v ≤ hi := fun hv hvoid =>
    ⟨he.least.2 ⟨hv, ne_transparent h hv hvoid⟩, he.greatest.2 ⟨hv, ne_transparent h hv hvoid⟩⟩
  by_cases hall : ∀ x ∈ (s.rectified s.signalValue lo hi).cells, x =
    (s.rectified s.signalValue lo hi).getTransparentValue
  · -- in metres, every sample is the void value
    refine iff_of_true (rectify_of_all hvalid hall) (Or.inl ?_)
    rw [hcells, hT] at hall
    have hall' : ∀ v ∈ s.cells, s.signalValue ≠ some v → s.toMeters v = m := fun v hv hvoid => by
      rw [← hall _ (List.mem_map_of_mem hv), rectifiedValue, if_neg hvoid]
    have h0 := hall' lo he.least.1.1 hlo
    exact ⟨s.toMeters_inj.1 (h0.trans (hall' hi he.greatest.1.1 hhi).symm), h0.symm⟩
  push Not at hall
  obtain ⟨x, hx⟩ := hall
  obtain ⟨g0, g1, hg0, hg1⟩ := exists_extremes hvalid.finite hx
  have hg0' := hg0
  have hg1' := hg1
  rw [hcells, hT] at hg0' hg1'
  obtain ⟨v0, hv0, hvoid0, hf0, hne0⟩ := hmem.1 hg0'.1
  obtain ⟨v1, hv1, hvoid1, hf1, hne1⟩ := hmem.1 hg1'.1
  -- not all samples are the void value, so the extremes are not that sample alone
  have hfirst : ¬(lo = hi ∧ m = s.toMeters lo) := by
    rintro ⟨rfl, hmlo⟩
    have hv := hin hv0 hvoid0
    rw [le_antisymm hv.2 hv.1, ← hmlo] at hf0
    exact hne0 hf0.symm
  have hlo0 : m ≠ s.toMeters lo → g0 = s.toMeters lo := fun hne =>
    hg0'.unique ⟨hmem.2 ⟨lo, he.least.1.1, hlo, rfl, hne.symm⟩, fun y hy => by
      obtain ⟨v, hv, hvoid, rfl, -⟩ := hmem.1 hy
      exact s.toMeters_le.2 (hin hv hvoid).1⟩
  have hhi1 : m ≠ s.toMeters hi → g1 = s.toMeters hi := fun hne =>
    hg1'.unique ⟨hmem.2 ⟨hi, he.greatest.1.1, hhi, rfl, hne.symm⟩, fun y hy => by
      obtain ⟨v, hv, hvoid, rfl, -⟩ := hmem.1 hy
      exact s.toMeters_le.2 (hin hv hvoid).2⟩
  rw [or_iff_right hfirst]
  by_cases hknown : isKnownMissingSignal g0 = true
  · refine iff_of_false (fun hr => ?_) fun hstable => ?_
    · -- the second run takes the least elevation for a void value
      have := rectify_missingDataSignal hvalid hg0 (Or.inl hknown) hr
      rw [hmissing] at this
      exact hne0 (SignalValue.double.inj (Option.some.inj this)).symm
    · exact hstable.2.2 (hlo0 hstable.1 ▸ hknown)
  · have hkeep : ¬(s.rectified s.signalValue lo hi).Missing g0 := by
      rintro (hk | hs)
      · exact hknown hk
      · rw [hsignal'] at hs
        exact hne0 (Option.some.inj hs).symm
    have hvoids : (if ∃ y ∈ s.cells.map s.rectifiedValue, some m = some y then (some m).map SignalValue.double
        else none) = (s.rectified s.signalValue lo hi).missingDataSignal := by
      rw [hmissing]
      exact if_pos ⟨m, List.mem_map.2 ⟨m, hm, if_pos hsignal⟩, rfl⟩
    rw [rectify_keep hvalid hg0 hg1 hkeep, hsignal', Option.some.injEq, rectified_rectified h]
    constructor
    · rintro ⟨-, h0, h1⟩
      exact ⟨fun heq => hne0 (h0.trans heq.symm), fun heq => hne1 (h1.trans heq.symm), h0 ▸ hknown⟩
    · rintro ⟨h0, h1, -⟩
      exact ⟨hvoids, hlo0 h0, hhi1 h1⟩

theorem stable_iff (h : Valid s) (he : s.Extremes lo hi) (hlo : s.signalValue ≠ some lo)
    (hhi : s.signalValue ≠ some hi) :
    (s.rectified s.signalValue lo hi).rectify = some (s.rectified s.signalValue lo hi) ↔ s.Stable lo hi := by
  rw [Stable]
  by_cases hvoid : ∃ v ∈ s.cells, s.signalValue = some v
  · obtain ⟨m, hm, hsignal⟩ := hvoid
    rw [if_pos ⟨m, hm, hsignal⟩, stable_of_void h he hlo hhi hm hsignal, hsignal]
    simp only [ne_eq, Option.some.injEq]
  · rw [if_neg hvoid]
    exact stable_of_no_void h he fun v hv hsignal => hvoid ⟨v, hv, hsignal⟩

end Second

/-! ## A rectified raster -/

/-- Every sample is a void or within the extremes, these are elevations of the raster, and a second run changes
nothing. -/
structure Rectified (r r' : ByteBufferRaster) : Prop where
  inRange : ∀ x ∈ r'.cells, r'.signalValue = some x ∨
    ∃ lo hi, r'.elevationMin = some lo ∧ r'.elevationMax = some hi ∧ lo ≤ x ∧ x ≤ hi
  minAttained : ∃ v ∈ r.cells, ¬r.Missing v ∧ r'.elevationMin = some (r.toMeters v)
  maxAttained : ∃ v ∈ r.cells, ¬r.Missing v ∧ r'.elevationMax = some (r.toMeters v)
  again : r'.rectify = some r'

/-- The extremes beside the void value are no missing signals, and in metres they are not taken for voids either. -/
def Sound (r : ByteBufferRaster) : Prop :=
  ∃ s lo hi, r.Settles s ∧ s.Extremes lo hi ∧ ¬r.Missing lo ∧ ¬r.Missing hi ∧ s.Stable lo hi

/-- The void value of the settled raster is a missing signal. -/
theorem Settles.missing {s : ByteBufferRaster} (hs : r.Settles s) {v : ℚ} (hv : s.signalValue = some v) :
    r.Missing v := by
  obtain ⟨m, -, rfl⟩ := hs
  split_ifs at hv with hguess
  · exact Option.some.inj hv ▸ hguess
  · exact Or.inr hv

theorem rectified_inRange {s : ByteBufferRaster} {lo hi : ℚ} (h : Valid s) (he : s.Extremes lo hi) :
    ∀ x ∈ (s.rectified s.signalValue lo hi).cells, (s.rectified s.signalValue lo hi).signalValue = some x ∨
      s.toMeters lo ≤ x ∧ x ≤ s.toMeters hi := by
  rw [cells_rectified h]
  intro x hx
  obtain ⟨v, hv, rfl⟩ := List.mem_map.1 hx
  rw [rectifiedValue]
  by_cases hvoid : s.signalValue = some v
  · rw [if_pos hvoid]
    refine Or.inl ?_
    rw [signalValue, rectified]
    dsimp only
    rw [if_pos ⟨v, hv, hvoid⟩, hvoid]
    rfl
  · rw [if_neg hvoid]
    have hin : v ∈ others s.cells s.getTransparentValue := ⟨hv, ne_transparent h hv hvoid⟩
    exact Or.inr ⟨s.toMeters_le.2 (he.least.2 hin), s.toMeters_le.2 (he.greatest.2 hin)⟩

theorem rectify_iff (h : Valid r) (hsome : ∃ v ∈ r.cells, ¬r.Missing v) :
    (∃ r', r.rectify = some r' ∧ r.Rectified r') ↔ r.Sound := by
  obtain ⟨v, hv, hmissing⟩ := hsome
  obtain ⟨s, lo, hi, hs, he, heq⟩ := rectify_settled h hv hmissing
  have hvalid := hs.valid h
  have hattained : ∀ x ∈ s.cells, (∃ v ∈ r.cells, ¬r.Missing v ∧ some (s.toMeters x) = some (r.toMeters v)) ↔
      ¬r.Missing x := by
    intro x hx
    constructor
    · rintro ⟨w, -, hw, hxw⟩
      rw [hs.toMeters_eq, Option.some.injEq, r.toMeters_inj] at hxw
      exact hxw ▸ hw
    · exact fun hx' => ⟨x, hs.cells_eq ▸ hx, hx', congrArg some (hs.toMeters_eq x)⟩
  constructor
  · rintro ⟨r', hr', hrect⟩
    rw [heq, Option.some.injEq] at hr'
    subst hr'
    have hlo := (hattained lo he.least.1.1).1 hrect.minAttained
    have hhi := (hattained hi he.greatest.1.1).1 hrect.maxAttained
    exact ⟨s, lo, hi, hs, he, hlo, hhi, (stable_iff hvalid he (fun hsig => hlo (hs.missing hsig))
      fun hsig => hhi (hs.missing hsig)).1 hrect.again⟩
  · rintro ⟨s', lo', hi', hs', he', hlo, hhi, hstable⟩
    obtain rfl := hs.unique hs'
    obtain rfl := he.least.unique he'.least
    obtain rfl := he.greatest.unique he'.greatest
    refine ⟨_, heq, ?_, (hattained lo he.least.1.1).2 hlo, (hattained hi he.greatest.1.1).2 hhi,
      (stable_iff hvalid he (fun hsig => hlo (hs.missing hsig)) fun hsig => hhi (hs.missing hsig)).2 hstable⟩
    exact fun x hx => (rectified_inRange hvalid he x hx).imp_right fun hx => ⟨_, _, rfl, rfl, hx⟩

/-- A raster of metres, of one row. -/
def oneRow (buffer : List ℚ) : ByteBufferRaster where
  width := buffer.length
  height := 1
  buffer := buffer
  missingDataSignal := none
  elevationUnit := some .meter
  elevationMin := none
  elevationMax := none

theorem valid_oneRow {buffer : List ℚ} (h : ∀ x ∈ buffer, |x| < MAX_VALUE) : Valid (oneRow buffer) := by
  have hsize : (oneRow buffer).width * (oneRow buffer).height = buffer.length := Nat.mul_one _
  refine ⟨hsize.le, fun x hx => h x ?_⟩
  rwa [cells, hsize, oneRow, List.take_length] at hx

/-- One void value, and elevations above it. -/
theorem rectify_oneRow : (oneRow [-32768, 3, 5]).Sound :=
  (rectify_iff (valid_oneRow (by decide +kernel)) ⟨3, by decide +kernel, by decide +kernel⟩).1
    ⟨{ oneRow [-32768, 3, 5] with
        missingDataSignal := some (.double (-32768))
        elevationMin := some 3
        elevationMax := some 5 }, by decide +kernel,
      { inRange := fun x hx => by
          rcases (by simpa [cells, oneRow] using hx : x = -32768 ∨ x = 3 ∨ x = 5) with rfl | rfl | rfl
          · exact Or.inl rfl
          · exact Or.inr ⟨3, 5, rfl, rfl, by norm_num, by norm_num⟩
          · exact Or.inr ⟨3, 5, rfl, rfl, by norm_num, by norm_num⟩
        minAttained := ⟨3, by decide +kernel, by decide +kernel, by decide +kernel⟩
        maxAttained := ⟨5, by decide +kernel, by decide +kernel, by decide +kernel⟩
        again := by decide +kernel }⟩

/-- Two void values in one raster: the second one is left for the least elevation. -/
theorem twoVoids_notRectified :
    Valid (oneRow [-32768, -9999, 5]) ∧
      (∃ v ∈ (oneRow [-32768, -9999, 5]).cells, ¬(oneRow [-32768, -9999, 5]).Missing v) ∧
      ¬∃ r', (oneRow [-32768, -9999, 5]).rectify = some r' ∧ (oneRow [-32768, -9999, 5]).Rectified r' := by
  refine ⟨valid_oneRow (by decide +kernel), ⟨5, by decide +kernel, by decide +kernel⟩, ?_⟩
  rintro ⟨r', hr', hrect⟩
  have hmin : ∃ x, (oneRow [-32768, -9999, 5]).rectify = some x ∧ x.elevationMin = some (-9999) :=
    ⟨{ oneRow [-32768, -9999, 5] with
        missingDataSignal := some (.double (-32768))
        elevationMin := some (-9999)
        elevationMax := some 5 }, by decide +kernel, rfl⟩
  obtain ⟨x, hx, hmin⟩ := hmin
  obtain rfl := Option.some.inj (hx.symm.trans hr')
  obtain ⟨v, hv, hmissing, hv'⟩ := hrect.minAttained
  rw [hmin, Option.some.injEq, toMeters, if_neg (by decide)] at hv'
  exact hmissing (Or.inl (hv' ▸ by decide +kernel))

end ByteBufferRaster

end WorldWind.Rasters
