import WorldWind.Lib.Haar
import WorldWind.Lib.Loops
import WorldWind.Wavelet.Model
/-!
# What `reconstruct` computes

The coefficients of an encoding are a pyramid of images, each twice the size of
the one before: the average, then what the level's differences make of the
image before. A round of the loop paints the next image of the pyramid over the
corner of the image data (`reconstructLevel_spec`), and `reconstruct` shows the
one of its resolution (`reconstructBand_spec`), which takes as many coefficients
as it has pixels (`pyramid_take`).
-/

namespace WorldWind.Wavelet

open Lib.Grid Lib.Haar Lib.JavaArray Lib.JavaInt Lib.Nio

/-- A coefficient other than the average. -/
def coefficient (xform : List Int8) (p : Nat) : Int := (xform.getD p 0).toInt

/-- The image of side `2 ^ m` in an encoding. -/
def pyramid (xform : List Int8) : Nat → Nat → Nat → Int
  | 0, _, _ => ubyte (xform.getD 0 0)
  | m + 1, j, i =>
    let numVals := 2 ^ m * 2 ^ m
    let p := j / 2 * 2 ^ m + i / 2
    quad (pyramid xform m (j / 2) (i / 2)) (coefficient xform (numVals + p))
      (coefficient xform (numVals + numVals + p)) (coefficient xform (numVals + 2 * numVals + p)) j i

/-- An image with another painted over its top left corner. -/
def paint (side : Nat) (f g : Nat → Nat → Int) (j i : Nat) : Int := if j < side ∧ i < side then f j i else g j i

/-! ## The loop -/

variable {xform : List Int8} {size n m : Nat} {g : Nat → Nat → Int}

/-- A round of the loop. -/
theorem reconstructLevel_spec (hm : m < n) (hsize : 2 ^ n * 2 ^ n ≤ size) (hlen : 2 ^ n * 2 ^ n ≤ xform.length) :
    reconstructLevel xform (2 ^ n) (2 ^ m) (2 ^ m * 2 ^ m) (grid size (2 ^ n) (paint (2 ^ m) (pyramid xform m) g)) =
      some (grid size (2 ^ n) (paint (2 ^ (m + 1)) (pyramid xform (m + 1)) g)) := by
  have hscale : 2 * 2 ^ m ≤ 2 ^ n := by
    rw [← pow_succ']
    exact Nat.pow_le_pow_right two_pos hm
  have hhalf : 2 ^ m ≤ 2 ^ n / 2 := by omega
  have hsquare : 2 * 2 ^ m * (2 * 2 ^ m) ≤ 2 ^ n * 2 ^ n := Nat.mul_le_mul hscale hscale
  have hfour : 2 * 2 ^ m * (2 * 2 ^ m) = 4 * (2 ^ m * 2 ^ m) := by ring
  have hcell : ∀ j < 2 ^ n, ∀ i < 2 ^ n, j * 2 ^ n + i < size := fun j hj i hi =>
    (cell_lt hj hi).trans_le hsize
  have hodd : ∀ j, (2 * j + 1) * 2 ^ n = 2 * j * 2 ^ n + 2 ^ n := fun j => Nat.succ_mul _ _
  have hread : ∀ j < 2 ^ m, ∀ i < 2 ^ m,
      (grid size (2 ^ n) (paint (2 ^ m) (pyramid xform m) g)).getD (j * 2 ^ n + i) 0 = pyramid xform m j i := by
    intro j hj i hi
    rw [getD_grid _ (by omega) (hcell j (by omega) i (by omega)), paint, if_pos ⟨hj, hi⟩]
  unfold reconstructLevel
  rw [if_pos]
  · refine writes_grid (by positivity) (fun c hc => ?_) fun j i hi hlt hout => ?_
    · simp only [List.mem_flatMap, mem_cells, Prod.exists] at hc
      obtain ⟨j, i, ⟨hj, hi⟩, hc⟩ := hc
      rw [hread j hj i hi] at hc
      have hpaint : ∀ j' < 2 * 2 ^ m, ∀ i' < 2 * 2 ^ m, paint (2 ^ (m + 1)) (pyramid xform (m + 1)) g j' i' =
          quad (pyramid xform m (j' / 2) (i' / 2)) (coefficient xform (2 ^ m * 2 ^ m + (j' / 2 * 2 ^ m + i' / 2)))
            (coefficient xform (2 ^ m * 2 ^ m + 2 ^ m * 2 ^ m + (j' / 2 * 2 ^ m + i' / 2)))
            (coefficient xform (2 ^ m * 2 ^ m + 2 * (2 ^ m * 2 ^ m) + (j' / 2 * 2 ^ m + i' / 2))) j' i' := by
        intro j' hj' i' hi'
        rw [paint, pow_succ', if_pos ⟨hj', hi'⟩, pyramid]
      simp only [List.mem_cons, List.not_mem_nil, or_false] at hc
      rcases hc with rfl | rfl | rfl | rfl
      · refine ⟨2 * j, 2 * i, by omega, hcell _ (by omega) _ (by omega), ?_⟩
        rw [hpaint _ (by omega) _ (by omega), quad_even_even, Nat.mul_div_cancel_left j two_pos,
          Nat.mul_div_cancel_left i two_pos, Nat.mul_comm i 2]
        rfl
      · refine ⟨2 * j, 2 * i + 1, by omega, hcell _ (by omega) _ (by omega), ?_⟩
        rw [hpaint _ (by omega) _ (by omega), quad_even_odd, Nat.mul_div_cancel_left j two_pos,
          show (2 * i + 1) / 2 = i by omega, Nat.mul_comm i 2]
        rfl
      · refine ⟨2 * j + 1, 2 * i, by omega, hcell _ (by omega) _ (by omega), ?_⟩
        rw [hpaint _ (by omega) _ (by omega), quad_odd_even, Nat.mul_div_cancel_left i two_pos,
          show (2 * j + 1) / 2 = j by omega, Nat.mul_comm i 2, hodd]
        rfl
      · refine ⟨2 * j + 1, 2 * i + 1, by omega, hcell _ (by omega) _ (by omega), ?_⟩
        rw [hpaint _ (by omega) _ (by omega), quad_odd_odd, show (2 * i + 1) / 2 = i by omega,
          show (2 * j + 1) / 2 = j by omega, Nat.mul_comm i 2, hodd]
        rfl
    · -- A cell that is not written is outside the new corner.
      have hnot : ¬ (j < 2 ^ (m + 1) ∧ i < 2 ^ (m + 1)) := by
        rintro ⟨hj', hi'⟩
        rw [pow_succ'] at hj' hi'
        have hmem : ∀ c, c ∈ _ → _ := fun c hc => hout c (List.mem_flatMap.2 ⟨(j / 2, i / 2),
          mem_cells.2 ⟨(by omega : j / 2 < 2 ^ m), (by omega : i / 2 < 2 ^ m)⟩, hc⟩)
        simp only [List.forall_mem_cons] at hmem
        obtain ⟨h1, h2, h3, h4, -⟩ := hmem
        rcases Nat.even_or_odd' j with ⟨j', rfl | rfl⟩ <;> rcases Nat.even_or_odd' i with ⟨i', rfl | rfl⟩
        · exact h1 (by rw [Nat.mul_div_cancel_left j' two_pos, Nat.mul_div_cancel_left i' two_pos, Nat.mul_comm i'])
        · exact h2 (by rw [Nat.mul_div_cancel_left j' two_pos, show (2 * i' + 1) / 2 = i' by omega,
            Nat.mul_comm i', Nat.add_assoc])
        · exact h3 (by rw [Nat.mul_div_cancel_left i' two_pos, show (2 * j' + 1) / 2 = j' by omega,
            Nat.mul_comm i', hodd])
        · exact h4 (by rw [show (2 * i' + 1) / 2 = i' by omega, show (2 * j' + 1) / 2 = j' by omega,
            Nat.mul_comm i', hodd, Nat.add_assoc])
      rw [paint, paint, if_neg hnot, if_neg]
      rw [pow_succ'] at hnot
      omega
  · refine ⟨Nat.mul_le_mul hhalf hhalf, fun c hc => ?_, by omega⟩
    rw [mem_cells] at hc
    rw [length_grid]
    exact hcell _ (by omega) _ (by omega)

/-- The loop ends with the image of the resolution painted. -/
theorem reconstructLoop_spec (hsize : 2 ^ n * 2 ^ n ≤ size) (hlen : 2 ^ n * 2 ^ n ≤ xform.length) (rounds : Nat)
    (hm : m ≤ n) (hrounds : n - m < rounds) :
    reconstructLoop xform (2 ^ n) rounds (2 ^ m) (2 ^ m * 2 ^ m)
      (grid size (2 ^ n) (paint (2 ^ m) (pyramid xform m) g)) =
      some (grid size (2 ^ n) (paint (2 ^ n) (pyramid xform n) g)) := by
  induction rounds generalizing m with
  | zero => omega
  | succ rounds ih =>
    rw [reconstructLoop]
    rcases Nat.eq_or_lt_of_le hm with rfl | hlt
    · rw [if_pos le_rfl]
    · have hpow : 2 ^ m < 2 ^ n := Nat.pow_lt_pow_right one_lt_two hlt
      rw [if_neg (Nat.not_le.2 (Nat.mul_lt_mul'' hpow hpow)), reconstructLevel_spec hlt hsize hlen, Option.bind_some]
      split
      · rw [show 2 ^ m * 2 ^ m + 3 * (2 ^ m * 2 ^ m) = 2 ^ (m + 1) * 2 ^ (m + 1) by ring, ← pow_succ']
        exact ih hlt (by omega)
      · rename_i hdone
        rw [← pow_succ'] at hdone
        have hle := (Nat.pow_le_pow_iff_right (a := 2) one_lt_two).1 (Nat.not_lt.1 hdone)
        rw [show m + 1 = n by omega]

/-- `reconstruct` shows the image of its resolution. -/
theorem reconstructBand_spec {size : Int} (hsize : ((2 ^ n * 2 ^ n : Nat) : Int) ≤ size)
    (hlen : 2 ^ n * 2 ^ n ≤ xform.length) :
    reconstructBand size (2 ^ n) xform =
      some ((cells (2 ^ n) (2 ^ n)).map fun c => clampSample (pyramid xform n c.1 c.2)) := by
  have hone : 1 ≤ 2 ^ n * 2 ^ n := Nat.one_le_iff_ne_zero.2 (by positivity)
  lift size to Nat using by omega
  have hsize' : 2 ^ n * 2 ^ n ≤ size := Int.ofNat_le.1 hsize
  cases xform with
  | nil => simp at hlen
  | cons first rest =>
    have hinit : (List.replicate size (0 : Int)).set 0 (ubyte first) =
        grid size (2 ^ n) (paint (2 ^ 0) (pyramid (first :: rest) 0) fun _ _ => 0) := by
      refine List.ext_getElem (by simp) fun p hp hp' => ?_
      have hcell : p / 2 ^ n < 2 ^ 0 ∧ p % 2 ^ n < 2 ^ 0 ↔ p = 0 := by
        rw [pow_zero, Nat.lt_one_iff, Nat.lt_one_iff]
        refine ⟨fun h => ?_, by rintro rfl; simp⟩
        rw [← Nat.div_add_mod p (2 ^ n), h.1, h.2, Nat.mul_zero]
      simp only [grid, List.getElem_set, List.getElem_replicate, List.getElem_map, List.getElem_range, paint, hcell]
      by_cases h0 : p = 0
      · rw [if_pos h0.symm, if_pos h0]
        rfl
      · rw [if_neg (Ne.symm h0), if_neg h0]
    have hloop := reconstructLoop_spec (g := fun _ _ => 0) hsize' hlen (2 ^ n + 1) (Nat.zero_le n)
      (by have := n.lt_two_pow_self; omega)
    rw [pow_zero, ← pow_zero 2, ← hinit] at hloop
    unfold reconstructBand
    simp only [Int.toNat_natCast]
    rw [if_neg (by omega)]
    rw [pow_zero, Nat.mul_one] at hloop
    rw [hloop, Option.bind_some, if_pos]
    · refine congrArg some (List.map_congr_left fun c hc => ?_)
      rw [mem_cells] at hc
      rw [getD_grid _ hc.2 ((cell_lt hc.1 hc.2).trans_le hsize'), paint, if_pos hc]
    · intro c hc
      rw [mem_cells] at hc
      rw [length_grid]
      exact (cell_lt hc.1 hc.2).trans_le hsize'

theorem reconstructBand_none {size : Int} (h : size < 1) (resolution : Nat) :
    reconstructBand size resolution xform = none := by
  cases xform with
  | nil => rfl
  | cons first rest => exact if_pos h

/-- The pixels of a band's image of side `2 ^ m`. -/
def pixels (m : Nat) (band : List Int8) : List UInt8 :=
  (cells (2 ^ m) (2 ^ m)).map fun c => clampSample (pyramid band m c.1 c.2)

/-- The number of pixels of a square encoding, as an `int`. -/
theorem int_square {n : Nat} (hn : n < 31) : int (2 ^ n * 2 ^ n) = if n < 16 then 2 ^ n * 2 ^ n else 0 := by
  split
  · rename_i h
    have hle : (2 : Int) ^ n ≤ 2 ^ 15 := pow_le_pow_right₀ one_le_two (by omega)
    have hpos : (0 : Int) ≤ 2 ^ n := by positivity
    have := mul_le_mul hle hle hpos (by positivity)
    have := mul_nonneg hpos hpos
    exact int_eq (by omega) (by omega)
  · rename_i h
    obtain ⟨k, rfl⟩ := Nat.exists_eq_add_of_le (Nat.not_lt.1 h)
    rw [show (2 : Int) ^ (16 + k) * 2 ^ (16 + k) = 2 ^ 32 * (2 ^ k * 2 ^ k) by ring, ← int_emod,
      Int.mul_emod_right, int_eq (by omega) (by omega)]

theorem reconstruct_spec {c : WaveletCodec}
    (hsize : int (c.resolutionX * c.resolutionY) = ((2 ^ n * 2 ^ n : Nat) : Int))
    (hm : m ≤ n) (hne : c.xform ≠ []) (hlen : ∀ band ∈ c.xform, 2 ^ m * 2 ^ m ≤ band.length) :
    c.reconstruct (2 ^ m) = some (c.xform.map (pixels m)) := by
  have hpow : 2 ^ m ≤ 2 ^ n := Nat.pow_le_pow_right two_pos hm
  rw [WaveletCodec.reconstruct, if_neg (by simp [hne]), hsize]
  exact Lib.Loops.mapM_eq_map fun band hband => reconstructBand_spec (Int.ofNat_le.2 (Nat.mul_le_mul hpow hpow))
    (hlen band hband)

@[simp] theorem length_pixels (band : List Int8) : (pixels m band).length = 2 ^ m * 2 ^ m := by
  rw [pixels, List.length_map, length_cells]

/-! ## The coefficients it takes -/

/-- The image of side `2 ^ m` takes the first `4 ^ m` coefficients. -/
theorem pyramid_take {l : Nat} (hl : 2 ^ m * 2 ^ m ≤ l) :
    ∀ j < 2 ^ m, ∀ i < 2 ^ m, pyramid (xform.take l) m j i = pyramid xform m j i := by
  induction m with
  | zero =>
    intro j hj i hi
    simp only [pyramid, List.getD_eq_getElem?_getD, List.getElem?_take, if_pos (show 0 < l by omega)]
  | succ m ih =>
    have hfour : 2 ^ (m + 1) * 2 ^ (m + 1) = 4 * (2 ^ m * 2 ^ m) := by ring
    intro j hj i hi
    rw [pow_succ'] at hj hi
    have hp := cell_lt (show j / 2 < 2 ^ m by omega) (show i / 2 < 2 ^ m by omega)
    have hcoef : ∀ p < l, coefficient (xform.take l) p = coefficient xform p := by
      intro p hp
      simp only [coefficient, List.getD_eq_getElem?_getD, List.getElem?_take, if_pos hp]
    rw [pyramid, pyramid, ih (by omega) _ (by omega) _ (by omega), hcoef _ (by omega), hcoef _ (by omega),
      hcoef _ (by omega)]

theorem pixels_take {l : Nat} (hl : 2 ^ m * 2 ^ m ≤ l) (band : List Int8) :
    pixels m (band.take l) = pixels m band := by
  refine List.map_congr_left fun c hc => ?_
  rw [mem_cells] at hc
  rw [pyramid_take hl _ hc.1 _ hc.2]

end WorldWind.Wavelet
